import ConcurrencyLint.Allowance
import ConcurrencyLint.Proofs.Rule.Selection
import Mathlib.Data.List.Infix

/-!
# The form of an allowance comment

A line has an allowance comment exactly if it has a certain form, and the comment names the items of
the list between its brackets. A rule is allowed at a line exactly if the comment of this line or of
the line before it names the rule.
-/

namespace ConcurrencyLint

namespace Directive

variable {c : Char} {line comment before cs list rest : List Char} {key : String}

/-- The text is code before a comment: it has no `//`, and no slash at its end that would make one
with the first slash of the comment. -/
def IsCode (before : List Char) : Prop := ¬['/', '/'] <:+: before ++ ['/']

/-- The comment starts at the first `//` of the line. After further slashes and blanks come the
marker and, after blanks, the list in brackets. -/
inductive Form : (line list rest : List Char) → Prop
  | intro {before slashes gap gap' list rest : List Char} : IsCode before →
      (∀ c ∈ slashes, c = '/') → (∀ c ∈ gap, Text.isBlank c) → (∀ c ∈ gap', Text.isBlank c) →
      ')' ∉ list →
      Form (before ++ '/' :: '/' :: (slashes ++ (gap ++ (marker ++ (gap' ++
        ("allow(".toList ++ (list ++ ')' :: rest))))))) list rest

/-- The line has an allowance comment that lists the key. -/
def Names (line : List Char) (key : String) : Prop :=
  ∃ list rest, Form line list rest ∧ Lists (String.ofList list) key

/-! ## The comment of a line -/

theorem isCode_nil : IsCode [] := by
  intro h
  have := h.length_le
  simp at this

theorem isCode_cons_iff : IsCode (c :: before) ↔
    IsCode before ∧ ¬['/', '/'] <+: c :: (before ++ ['/']) := by
  rw [IsCode, IsCode, List.cons_append, List.infix_cons_iff, not_or, and_comm]

theorem commentOf_cons (h : ¬['/', '/'] <+: c :: cs) : commentOf (c :: cs) = commentOf cs := by
  rw [commentOf]
  rintro rest rfl rfl
  exact h ⟨rest, rfl⟩

/-- Of a comment that follows, its first slash alone decides whether a `//` starts before it. -/
theorem slashes_prefix_iff : ['/', '/'] <+: c :: (before ++ '/' :: cs) ↔
    ['/', '/'] <+: c :: (before ++ ['/']) := by
  cases before <;> simp

theorem commentOf_eq_some_iff : commentOf line = some comment ↔
    ∃ before cs, line = before ++ comment ∧ comment = '/' :: '/' :: cs ∧ IsCode before := by
  induction line with
  | nil =>
      simp only [commentOf, reduceCtorEq, false_iff]
      rintro ⟨before, cs, hline, rfl, _⟩
      simp at hline
  | cons c line ih =>
      by_cases h : ['/', '/'] <+: c :: line
      · obtain ⟨cs, hcs⟩ := h
        constructor
        · intro hcomment
          rw [← hcs] at hcomment
          cases hcomment
          exact ⟨[], cs, hcs.symm, rfl, isCode_nil⟩
        · rintro ⟨before, cs', hline, rfl, hcode⟩
          cases before with
          | nil => rw [hline]; rfl
          | cons d before =>
              cases hline
              exact absurd (slashes_prefix_iff.mp ⟨cs, hcs⟩) (isCode_cons_iff.mp hcode).2
      · rw [commentOf_cons h, ih]
        constructor
        · rintro ⟨before, cs, rfl, rfl, hcode⟩
          rw [slashes_prefix_iff] at h
          exact ⟨c :: before, cs, rfl, rfl, isCode_cons_iff.mpr ⟨hcode, h⟩⟩
        · rintro ⟨before, cs, hline, rfl, hcode⟩
          cases before with
          | nil =>
              rw [hline] at h
              exact absurd ⟨cs, rfl⟩ h
          | cons d before =>
              cases hline
              exact ⟨before, cs, rfl, rfl, (isCode_cons_iff.mp hcode).1⟩

/-! ## Trimming between the parts -/

theorem items_append (hl : ∀ c ∈ cs, Text.isBlank c) (list : List Char) :
    items (cs ++ list) = items list := by
  rw [items, items, Text.map_trim_splitAt_append (by decide) hl]

theorem reasonOf_append (hr : ∀ c ∈ cs, Text.isBlank c) (rest : List Char) :
    reasonOf (rest ++ cs) = reasonOf rest := by
  rw [reasonOf, reasonOf, Text.trim_append_of_isBlank hr]

theorem reasonOf_trimEnd (rest : List Char) : reasonOf (Text.trimEnd rest) = reasonOf rest := by
  rw [reasonOf, reasonOf, Text.trim_trimEnd]

/-- The gap before a word is trimmed, and behind a closing character the end of the text. -/
theorem trim_word {gap word : List Char} {x close : Char} (hword : word.head? = some x)
    (hx : ¬Text.isBlank x) (hclose : ¬Text.isBlank close) (hgap : ∀ c ∈ gap, Text.isBlank c)
    (l r : List Char) :
    Text.trim (gap ++ (word ++ (l ++ close :: r))) = word ++ (l ++ close :: Text.trimEnd r) := by
  have hhead : ∀ c ∈ word.head?, ¬Text.isBlank c := by
    rw [hword]
    rintro c ⟨⟩
    exact hx
  have hne : word ≠ [] := by
    rintro rfl
    cases hword
  have hsplit : gap ++ (word ++ (l ++ close :: r)) = (gap ++ (word ++ l)) ++ close :: r := by simp
  rw [hsplit, Text.trim_append_cons hclose, Text.trimStart, List.dropWhile_append_of_pos hgap,
    Text.dropWhile_isBlank_of_head hhead hne, List.append_assoc]

/-- Of slashes, a gap and a word that does not begin with a slash, only the slashes are dropped. -/
theorem dropWhile_slashes {slashes gap word : List Char} (hslashes : ∀ c ∈ slashes, c = '/')
    (hgap : ∀ c ∈ gap, Text.isBlank c) (hword : word.head? ≠ some '/') :
    (slashes ++ (gap ++ word)).dropWhile (· == '/') = gap ++ word := by
  rw [List.dropWhile_append_of_pos fun c hc => beq_iff_eq.mpr (hslashes c hc)]
  cases gap with
  | nil =>
      cases word with
      | nil => rfl
      | cons c word =>
          exact List.dropWhile_cons_of_neg fun h => hword (congrArg some (beq_iff_eq.mp h))
  | cons c gap =>
      refine List.dropWhile_cons_of_neg fun h => ?_
      have hblank := hgap c List.mem_cons_self
      rw [beq_iff_eq.mp h] at hblank
      exact absurd hblank (by decide)

/-! ## The directive of a line -/

theorem parse_eq_some_iff_steps {d : Directive} : parse line = some d ↔
    ∃ comment body allowed list rest, commentOf line = some comment ∧
      Text.trim (comment.dropWhile (· == '/')) = marker ++ body ∧
      Text.trim body = "allow(".toList ++ allowed ∧
      Text.trim allowed = list ++ ')' :: rest ∧ ')' ∉ list ∧
      items list ≠ [] ∧ d = ⟨items list, reasonOf rest⟩ := by
  simp only [parse, Option.bind_eq_bind, Option.bind_eq_some_iff,
    List.isPrefixOf?_eq_some_iff_append_eq, Prod.exists, Text.cutAt_eq_some_iff]
  constructor
  · rintro ⟨comment, hcomment, body, hbody, allowed, hallowed, list, rest, ⟨hlist, hfree⟩, hd⟩
    split at hd
    · cases hd
    · rename_i hne
      cases hd
      exact ⟨comment, body, allowed, list, rest, hcomment, hbody.symm, hallowed.symm, hlist, hfree,
        mt List.isEmpty_iff.mpr hne, rfl⟩
  · rintro ⟨comment, body, allowed, list, rest, hcomment, hbody, hallowed, hlist, hfree, hne, rfl⟩
    refine ⟨comment, hcomment, body, hbody.symm, allowed, hallowed.symm, list, rest,
      ⟨hlist, hfree⟩, ?_⟩
    rw [if_neg (mt List.isEmpty_iff.mp hne)]

theorem exists_form_of_parse {d : Directive} (h : parse line = some d) :
    ∃ list rest, Form line list rest ∧ items list ≠ [] ∧ d = ⟨items list, reasonOf rest⟩ := by
  obtain ⟨comment, body, allowed, list, rest, hcomment, hbody, hallowed, hlist, hfree, hne, rfl⟩ :=
    parse_eq_some_iff_steps.mp h
  obtain ⟨before, cs, rfl, rfl, hcode⟩ := commentOf_eq_some_iff.mp hcomment
  rw [List.dropWhile_cons_of_pos rfl, List.dropWhile_cons_of_pos rfl] at hbody
  have hslashes : ∀ c ∈ cs.takeWhile (· == '/'), c = '/' := by
    intro c hc
    exact beq_iff_eq.mp (List.mem_takeWhile_imp (p := (· == '/')) hc)
  -- What the three trimmings take away: a gap before each part, and blanks at the end of the line.
  obtain ⟨gap, end₁, hgap, hblank, hblank₁⟩ := (Text.trims_trim (cs.dropWhile (· == '/'))).parts
  obtain ⟨gap', end₂, hgap', hblank', hblank₂⟩ := (Text.trims_trim body).parts
  obtain ⟨gap'', end₃, hgap'', hblank'', hblank₃⟩ := (Text.trims_trim allowed).parts
  have hend : ∀ c ∈ end₃ ++ (end₂ ++ end₁), Text.isBlank c := by
    simp only [List.forall_mem_append]
    exact ⟨hblank₃, hblank₂, hblank₁⟩
  have hfree' : ')' ∉ gap'' ++ list := by
    rw [List.mem_append, not_or]
    exact ⟨fun hc => absurd (hblank'' _ hc) (by decide), hfree⟩
  have htext : cs.dropWhile (· == '/') = gap ++ (marker ++ (gap' ++ ("allow(".toList ++
      ((gap'' ++ list) ++ ')' :: (rest ++ (end₃ ++ (end₂ ++ end₁))))))) := by
    rw [hgap, hbody, hgap', hallowed, hgap'', hlist]
    simp only [List.append_assoc, List.cons_append]
  refine ⟨gap'' ++ list, rest ++ (end₃ ++ (end₂ ++ end₁)), ?_, ?_, ?_⟩
  · rw [← List.takeWhile_append_dropWhile (p := (· == '/')) (l := cs), htext]
    exact .intro hcode hslashes hblank hblank' hfree'
  · rwa [items_append hblank'']
  · rw [items_append hblank'', reasonOf_append hend]

theorem parse_of_form (h : Form line list rest) (hne : items list ≠ []) :
    parse line = some ⟨items list, reasonOf rest⟩ := by
  cases h with
  | @intro before slashes gap gap' _ _ hcode hslashes hgap hgap' hfree =>
      have hitems : items (Text.trimStart list) = items list := by
        have hblank : ∀ c ∈ list.takeWhile Text.isBlank, Text.isBlank c :=
          fun c => List.mem_takeWhile_imp
        rw [← items_append hblank, Text.trimStart, List.takeWhile_append_dropWhile]
      have hmarker : marker.head? = some 'c' := rfl
      have hopening : "allow(".toList.head? = some 'a' := rfl
      have hclose : ¬Text.isBlank ')' := by decide
      have hbody :=
        trim_word hmarker (by decide) hclose hgap (gap' ++ ("allow(".toList ++ list)) rest
      have hallowed := trim_word hopening (by decide) hclose hgap' list (Text.trimEnd rest)
      have hlist := Text.trim_append_cons hclose list (Text.trimEnd (Text.trimEnd rest))
      simp only [List.append_assoc] at hbody
      rw [parse_eq_some_iff_steps]
      refine ⟨_, _, _, _, _, commentOf_eq_some_iff.mpr ⟨before, _, rfl, rfl, hcode⟩, ?_, hallowed,
        hlist, ?_, ?_, ?_⟩
      · rw [List.dropWhile_cons_of_pos rfl, List.dropWhile_cons_of_pos rfl,
          dropWhile_slashes hslashes hgap (by simp [hmarker]), hbody]
      · exact fun hc => hfree ((List.dropWhile_sublist _).subset hc)
      · rwa [hitems]
      · rw [hitems, reasonOf_trimEnd, reasonOf_trimEnd, reasonOf_trimEnd]

theorem mem_items_iff : key ∈ items list ↔ Lists (String.ofList list) key := by
  rw [← mem_selectionItems_iff, selectionItems, String.toList_ofList, items]
  simp only [List.mem_filterMap, List.mem_map, List.mem_filter]
  constructor
  · rintro ⟨item, hitem, hkey⟩
    split at hkey
    · cases hkey
    · rename_i hne
      exact ⟨item, ⟨hitem, by simpa using hne⟩, Option.some.inj hkey⟩
  · rintro ⟨item, ⟨hitem, hne⟩, rfl⟩
    exact ⟨item, hitem, if_neg (by simpa using hne)⟩

theorem exists_parse_iff : (∃ d, parse line = some d ∧ key ∈ d.rules) ↔ Names line key := by
  constructor
  · rintro ⟨d, hd, hkey⟩
    obtain ⟨list, rest, hform, _, rfl⟩ := exists_form_of_parse hd
    exact ⟨list, rest, hform, mem_items_iff.mp hkey⟩
  · rintro ⟨list, rest, hform, hkey⟩
    have hmem := mem_items_iff.mpr hkey
    exact ⟨_, parse_of_form hform (List.ne_nil_of_mem hmem), hmem⟩

instance (line : List Char) (key : String) : Decidable (Names line key) :=
  decidable_of_iff (∃ d ∈ parse line, key ∈ d.rules) exists_parse_iff

/-- The line with the given number exists, counting from one, and has an allowance comment that
lists the key. -/
def NamesAt (content : String) (number : Nat) (key : String) : Prop :=
  ∃ i line, number = i + 1 ∧ (Text.lines content.toList)[i]? = some line ∧ Names line key

theorem namesAt_iff {content : String} {number : Nat} : NamesAt content number key ↔
    number ≠ 0 ∧ ∃ line, (Text.lines content.toList)[number - 1]? = some line ∧ Names line key := by
  constructor
  · rintro ⟨i, line, rfl, hline, hnames⟩
    exact ⟨Nat.succ_ne_zero i, line, hline, hnames⟩
  · rintro ⟨hne, line, hline, hnames⟩
    exact ⟨number - 1, line, by omega, hline, hnames⟩

instance (content : String) (number : Nat) (key : String) :
    Decidable (NamesAt content number key) :=
  decidable_of_iff (number ≠ 0 ∧ ∃ line ∈ (Text.lines content.toList)[number - 1]?, Names line key)
    namesAt_iff.symm

theorem covers_iff (d : Directive) (keys : List String) :
    d.covers keys ↔ ∃ key ∈ everyRule :: keys, key ∈ d.rules := by
  simp [covers]

end Directive

/-! ## Allowance at a line -/

namespace Allowance

variable {content : String} {number : Nat} {keys : List String}

theorem isSome_coveringDirective_iff (h : number ≠ 0) :
    (coveringDirective (Text.lines content.toList) keys number).isSome ↔
      ∃ key ∈ Directive.everyRule :: keys, Directive.NamesAt content number key := by
  simp only [coveringDirective, Option.bind_eq_bind, Option.isSome_iff_exists,
    Option.bind_eq_some_iff, Option.ite_none_right_eq_some, Directive.covers_iff,
    Directive.namesAt_iff, ← Directive.exists_parse_iff]
  constructor
  · rintro ⟨d', line, hline, d, hd, ⟨key, hkey, hmem⟩, _⟩
    exact ⟨key, hkey, h, line, hline, d, hd, hmem⟩
  · rintro ⟨key, hkey, _, line, hline, d, hd, hmem⟩
    exact ⟨d, line, hline, d, hd, ⟨key, hkey, hmem⟩, rfl⟩

theorem isAllowed_check_iff_reaching : (check content number keys).isAllowed ↔
    ∃ n ∈ reachingLines number,
      (coveringDirective (Text.lines content.toList) keys n).isSome := by
  rw [← List.findSome?_isSome_iff, check]
  cases (reachingLines number).findSome?
    (coveringDirective (Text.lines content.toList) keys) <;> simp [isAllowed]

/-- A comment reaches its own line and the next one. -/
theorem isAllowed_check_iff : (check content number keys).isAllowed ↔
    ∃ key ∈ Directive.everyRule :: keys,
      Directive.NamesAt content (number - 1) key ∨ Directive.NamesAt content number key := by
  rw [isAllowed_check_iff_reaching]
  constructor
  · rintro ⟨n, hn, hcovers⟩
    obtain ⟨hn, hne⟩ := List.mem_filter.mp hn
    obtain ⟨key, hkey, hnames⟩ := (isSome_coveringDirective_iff (of_decide_eq_true hne)).mp hcovers
    simp only [List.mem_cons, List.not_mem_nil, or_false] at hn
    rcases hn with rfl | rfl
    · exact ⟨key, hkey, .inl hnames⟩
    · exact ⟨key, hkey, .inr hnames⟩
  · rintro ⟨key, hkey, hnames⟩
    have hreached (n : Nat) (hn : n ∈ [number - 1, number])
        (hnames : Directive.NamesAt content n key) : ∃ n ∈ reachingLines number,
          (coveringDirective (Text.lines content.toList) keys n).isSome := by
      have hne := (Directive.namesAt_iff.mp hnames).1
      exact ⟨n, List.mem_filter.mpr ⟨hn, decide_eq_true hne⟩,
        (isSome_coveringDirective_iff hne).mpr ⟨key, hkey, hnames⟩⟩
    rcases hnames with hnames | hnames
    · exact hreached _ List.mem_cons_self hnames
    · exact hreached _ (List.mem_cons_of_mem _ List.mem_cons_self) hnames

end Allowance

end ConcurrencyLint
