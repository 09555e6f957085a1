import ConcurrencyLint.Proofs.Allowance.Reading

/-!
# Allowance comments behind code

A comment at the end of a line of code allows its rule there and on the next line, if the code has no
`//`. Otherwise the comment starts too early, and the line names no rule.
-/

namespace ConcurrencyLint

namespace Directive

variable {before comment cs : List Char} {key : String}

theorem isCode_append_blank (h : ¬['/', '/'] <:+: before) : IsCode (before ++ [' ']) := by
  rw [isCode_iff]
  exact ⟨fun hinside => h (Text.infix_of_infix_concat (by decide) hinside), by simp⟩

theorem isSome_commentOf_iff : (commentOf cs).isSome ↔ ['/', '/'] <:+: cs := by
  induction cs with
  | nil => simp [commentOf]
  | cons c cs ih =>
      rw [List.infix_cons_iff, ← ih]
      by_cases h : ['/', '/'] <+: c :: cs
      · obtain ⟨rest, hrest⟩ := h
        rw [← hrest]
        simp [commentOf]
      · rw [commentOf_cons h]
        simp [h]

/-- What follows on the line belongs to the comment that the code has already. -/
theorem commentOf_append (h : commentOf before = some comment) (cs : List Char) :
    commentOf (before ++ cs) = some (comment ++ cs) := by
  obtain ⟨code, rest, rfl, rfl, hcode⟩ := commentOf_eq_some_iff.mp h
  exact commentOf_eq_some_iff.mpr ⟨code, rest ++ cs, List.append_assoc _ _ _, rfl, hcode⟩

/-- The comment of the code is not the one that is written behind it. -/
theorem not_names_append_render (hslashes : ['/', '/'] <:+: before) (hmarker : ¬marker <:+: before)
    (d : Directive) (key : String) : ¬Names (before ++ ' ' :: d.render) key := by
  rw [← exists_parse_iff]
  rintro ⟨d', hd', _⟩
  obtain ⟨comment, body, _, _, _, hcomment, hbody, _⟩ := parse_eq_some_iff_steps.mp hd'
  obtain ⟨own, hown⟩ := Option.isSome_iff_exists.mp (isSome_commentOf_iff.mpr hslashes)
  obtain ⟨code, _, hbefore, _⟩ := commentOf_eq_some_iff.mp hown
  rw [commentOf_append hown] at hcomment
  cases hcomment
  -- After slashes and blanks, the comment goes on with the words of the code or with a slash.
  obtain ⟨cs, hrender⟩ : ∃ cs, d.render = '/' :: cs := ⟨_, rfl⟩
  have hstarts : marker <+: Text.trimStart (own.dropWhile (· == '/') ++ [' ']) := by
    rw [Text.dropWhile_append_cons (by decide), hrender, List.append_cons,
      Text.trim_append_cons (by decide)] at hbody
    exact Text.prefix_of_prefix_append_cons (by decide) ⟨body, hbody.symm⟩
  have hinside : marker <:+: own.dropWhile (· == '/') ++ [' '] :=
    hstarts.isInfix.trans (List.dropWhile_suffix _).isInfix
  refine hmarker ((Text.infix_of_infix_concat (by decide) hinside).trans ?_)
  rw [hbefore]
  exact (List.dropWhile_suffix _).isInfix.trans (List.suffix_append code own).isInfix

end Directive

namespace Allowance

variable {content : String} {i : Nat} {before : List Char} {key : String} {keys : List String}

theorem isAllowed_of_namesAt (h : Directive.NamesAt content (i + 1) key) (hkey : key ∈ keys) :
    (check content (i + 1) keys).isAllowed ∧ (check content (i + 2) keys).isAllowed := by
  rw [isAllowed_check_iff, isAllowed_check_iff]
  exact ⟨⟨key, List.mem_cons_of_mem _ hkey, .inr h⟩, ⟨key, List.mem_cons_of_mem _ hkey, .inl h⟩⟩

/-- Behind code without `//`, a comment allows its rule on its own line and on the next one. Behind
code with `//` and without a marker of its own, the line names no rule. -/
theorem isAllowed_behind_code
    (hline : (Text.lines content.toList)[i]? =
      some (before ++ ' ' :: Directive.render ⟨[key], none⟩))
    (hkey : Directive.IsKey key) :
    (¬['/', '/'] <:+: before → ∀ keys, key ∈ keys →
      (check content (i + 1) keys).isAllowed ∧ (check content (i + 2) keys).isAllowed) ∧
    (['/', '/'] <:+: before → ¬Directive.marker <:+: before →
      ∀ key', ¬Directive.NamesAt content (i + 1) key') := by
  constructor
  · intro hslashes keys hmem
    have hcode := Directive.isCode_append_blank hslashes
    have hparse := Directive.parse_append_render (d := ⟨[key], none⟩) hcode (by simp)
      (by simpa using hkey) (by simp)
    rw [← List.append_cons] at hparse
    refine isAllowed_of_namesAt ?_ hmem
    exact ⟨i, _, rfl, hline, Directive.exists_parse_iff.mp ⟨_, hparse, List.mem_cons_self⟩⟩
  · rintro hslashes hmarker key' ⟨j, line, hj, hline', hnames⟩
    cases hj
    rw [hline] at hline'
    cases hline'
    exact Directive.not_names_append_render hslashes hmarker _ _ hnames

/-- A comment behind a division. -/
def quotientText : String := "f(a / b) // concurrency-guard: allow(detached-task)\ng()"

theorem isAllowed_behind_code_quotient :
    (Text.lines quotientText.toList)[0]? =
      some ("f(a / b)".toList ++ ' ' :: Directive.render ⟨["detached-task"], none⟩) ∧
    Directive.IsKey "detached-task" ∧ ¬['/', '/'] <:+: "f(a / b)".toList ∧
    (check quotientText 1 ["detached-task"]).isAllowed ∧
    (check quotientText 2 ["detached-task"]).isAllowed := by
  have hline : (Text.lines quotientText.toList)[0]? =
      some ("f(a / b)".toList ++ ' ' :: Directive.render ⟨["detached-task"], none⟩) := by decide
  have hkey : Directive.IsKey "detached-task" := by decide
  have hslashes : ¬['/', '/'] <:+: "f(a / b)".toList := by decide
  exact ⟨hline, hkey, hslashes,
    (isAllowed_behind_code hline hkey).1 hslashes _ List.mem_cons_self⟩

/-- A comment behind an address in a string. -/
def addressText : String :=
  "f(\"https://a.b\") // concurrency-guard: allow(detached-task)\ng()"

/-- The slashes of the address are taken for the start of the comment. -/
theorem addressText_not_allowed :
    (Text.lines addressText.toList)[0]? =
      some ("f(\"https://a.b\")".toList ++ ' ' :: Directive.render ⟨["detached-task"], none⟩) ∧
    Directive.IsKey "detached-task" ∧ check addressText 1 ["detached-task"] = .denied ∧
    check addressText 2 ["detached-task"] = .denied := by
  decide

end Allowance

end ConcurrencyLint
