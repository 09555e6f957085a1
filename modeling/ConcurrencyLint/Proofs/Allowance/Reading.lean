import ConcurrencyLint.Proofs.Allowance.Form
import ConcurrencyLint.Proofs.Text.Offsets

/-!
# Reading an allowance comment

What is read from a line of the form of an allowance comment: the items of the list and the quoted
reason. Every comment that is written out is read back, also by a reader that cuts the line at
offsets in bytes.
-/

namespace ConcurrencyLint.Directive

variable {line before cs list rest : List Char} {key reason : String} {d : Directive}

theorem isCode_iff : IsCode before ↔ ¬['/', '/'] <:+: before ∧ before.getLast? ≠ some '/' := by
  have hlast : ['/', '/'] <:+ before ++ ['/'] ↔ before.getLast? = some '/' := by
    rw [List.suffix_concat_iff, List.getLast?_eq_some_iff]
    constructor
    · rintro (hnil | ⟨word, hword, code, rfl⟩)
      · exact absurd hnil (List.cons_ne_nil _ _)
      · have hslash : ['/'] = word := List.append_inj_left' hword rfl
        exact ⟨code, by rw [hslash]⟩
    · rintro ⟨code, rfl⟩
      exact .inr ⟨['/'], rfl, List.suffix_append code ['/']⟩
  rw [IsCode, List.infix_concat_iff, hlast, not_or, and_comm]

/-! ## The reason -/

/-- The text starts with a reason: after blanks `reason=`, after blanks the text in quotes, which
ends at the first quote. -/
inductive Reasoned : (rest : List Char) → (reason : String) → Prop
  | intro {gap gap' : List Char} {reason : String} (after : List Char) :
      (∀ c ∈ gap, Text.isBlank c) → (∀ c ∈ gap', Text.isBlank c) → '"' ∉ reason.toList →
      Reasoned (gap ++ ("reason=".toList ++ (gap' ++ '"' :: (reason.toList ++ '"' :: after)))) reason

theorem reasonOf_eq_some_iff_steps : reasonOf rest = some reason ↔
    ∃ value quoted after, Text.trim rest = "reason=".toList ++ value ∧
      Text.trim value = '"' :: quoted ∧ quoted = reason.toList ++ '"' :: after ∧
      '"' ∉ reason.toList := by
  simp only [reasonOf, Option.bind_eq_bind, Option.bind_eq_some_iff,
    List.isPrefixOf?_eq_some_iff_append_eq, Prod.exists, Text.cutAt_eq_some_iff]
  constructor
  · rintro ⟨value, hvalue, quoted, hquoted, chars, after, ⟨hchars, hfree⟩, heq⟩
    cases heq
    rw [← String.toList_ofList (l := chars)] at hchars hfree
    exact ⟨value, quoted, after, hvalue.symm, hquoted.symm, hchars, hfree⟩
  · rintro ⟨value, quoted, after, hvalue, hquoted, hchars, hfree⟩
    refine ⟨value, hvalue.symm, quoted, hquoted.symm, reason.toList, after, ⟨hchars, hfree⟩, ?_⟩
    rw [String.ofList_toList]
    rfl

theorem reasonOf_eq_some_iff : reasonOf rest = some reason ↔ Reasoned rest reason := by
  rw [reasonOf_eq_some_iff_steps]
  constructor
  · rintro ⟨value, _, after, hvalue, hquoted, rfl, hfree⟩
    obtain ⟨gap, end₁, hrest, hgap, _⟩ := (Text.trims_trim rest).parts
    obtain ⟨gap', end₂, hvalue', hgap', _⟩ := (Text.trims_trim value).parts
    have htext : rest = gap ++ ("reason=".toList ++ (gap' ++ '"' :: (reason.toList ++
        '"' :: (after ++ (end₂ ++ end₁))))) := by
      rw [hrest, hvalue, hvalue', hquoted]
      simp only [List.append_assoc, List.cons_append]
    rw [htext]
    exact .intro _ hgap hgap' hfree
  · intro h
    cases h with
    | @intro gap gap' _ after hgap hgap' hfree =>
        have hquote : ¬Text.isBlank '"' := by decide
        have hreason : "reason=".toList.head? = some 'r' := rfl
        have hopening : ['"'].head? = some '"' := rfl
        have hvalue := trim_word hreason (by decide) hquote hgap (gap' ++ '"' :: reason.toList) after
        have hquoted := trim_word hopening hquote hquote hgap' reason.toList (Text.trimEnd after)
        simp only [List.append_assoc, List.cons_append, List.nil_append] at hvalue hquoted
        exact ⟨_, _, _, hvalue, hquoted, rfl, hfree⟩

/-! ## The list -/

theorem items_append_cons (l r : List Char) : items (l ++ ',' :: r) = items l ++ items r := by
  rw [items, Text.splitAt_append_cons, List.map_append, List.filterMap_append]
  rfl

theorem exists_lists_iff : (∃ key, Lists (String.ofList list) key) ↔ items list ≠ [] := by
  simp only [← mem_items_iff]
  constructor
  · rintro ⟨key, hkey⟩; exact List.ne_nil_of_mem hkey
  · exact List.exists_mem_of_ne_nil _

/-! ## Written comments -/

/-- The text can stand as an item of the list: it is not empty, has no blanks at its ends and
neither a comma nor a closing bracket. -/
structure IsKey (key : String) : Prop where
  ne_empty : key ≠ ""
  head : ∀ c ∈ key.toList.head?, ¬Text.isBlank c
  last : ∀ c ∈ key.toList.getLast?, ¬Text.isBlank c
  comma : ',' ∉ key.toList
  bracket : ')' ∉ key.toList

instance (key : String) : Decidable (IsKey key) :=
  decidable_of_iff (key ≠ "" ∧ (key.toList.head?.all fun c => !Text.isBlank c) ∧
      (key.toList.getLast?.all fun c => !Text.isBlank c) ∧ ',' ∉ key.toList ∧ ')' ∉ key.toList) <| by
    simp only [Option.all_eq_true, Bool.not_eq_true', ← Bool.not_eq_true]
    exact ⟨fun ⟨h₁, h₂, h₃, h₄, h₅⟩ => ⟨h₁, h₂, h₃, h₄, h₅⟩,
      fun ⟨h₁, h₂, h₃, h₄, h₅⟩ => ⟨h₁, h₂, h₃, h₄, h₅⟩⟩

/-- The list as it is written between the brackets. -/
def listText (rules : List String) : List Char :=
  ", ".toList.intercalate (rules.map String.toList)

/-- The reason as it is written behind the brackets. -/
def reasonText : Option String → List Char
  | none => []
  | some reason => " reason=\"".toList ++ reason.toList ++ ['"']

/-- The comment as it is written. -/
def render (d : Directive) : List Char :=
  '/' :: '/' :: ' ' :: (marker ++ ' ' :: ("allow(".toList ++ (listText d.rules ++
    ')' :: reasonText d.reason)))

theorem isBlank_of_mem_space : ∀ c ∈ [' '], Text.isBlank c :=
  List.forall_mem_singleton.mpr (by decide)

theorem listText_cons_cons (key next : String) (rules : List String) :
    listText (key :: next :: rules) = key.toList ++ ',' :: ' ' :: listText (next :: rules) := by
  simp [listText, List.intercalate_cons_cons]

theorem IsKey.items_eq (h : IsKey key) : items key.toList = [key] := by
  have htrim : Text.trim key.toList = key.toList :=
    Text.Trims.trim_eq ⟨⟨[], [], by simp, by simp, by simp⟩, h.head, h.last⟩
  rw [items, Text.splitAt_of_not_mem h.comma]
  simp [htrim, h.ne_empty]

theorem items_listText {rules : List String} (h : ∀ key ∈ rules, IsKey key) :
    items (listText rules) = rules := by
  induction rules with
  | nil => rfl
  | cons key rules ih =>
      obtain ⟨hkey, hrules⟩ := List.forall_mem_cons.mp h
      cases rules with
      | nil => simpa [listText] using hkey.items_eq
      | cons next rules =>
          have hgap : items (' ' :: listText (next :: rules)) = next :: rules :=
            (items_append isBlank_of_mem_space _).trans (ih hrules)
          rw [listText_cons_cons, items_append_cons, hkey.items_eq, hgap]
          rfl

theorem bracket_not_mem_listText {rules : List String} (h : ∀ key ∈ rules, IsKey key) :
    ')' ∉ listText rules := by
  induction rules with
  | nil => simp [listText]
  | cons key rules ih =>
      obtain ⟨hkey, hrules⟩ := List.forall_mem_cons.mp h
      cases rules with
      | nil => simpa [listText] using hkey.bracket
      | cons next rules =>
          rw [listText_cons_cons]
          simp [hkey.bracket, ih hrules]

theorem reasonOf_reasonText {reason : Option String} (h : ∀ r ∈ reason, '"' ∉ r.toList) :
    reasonOf (reasonText reason) = reason := by
  cases reason with
  | none => rfl
  | some reason =>
      have hnone : ∀ c ∈ ([] : List Char), Text.isBlank c := by simp
      have hreasoned := Reasoned.intro [] isBlank_of_mem_space hnone (h reason rfl)
      exact reasonOf_eq_some_iff.mpr hreasoned

theorem form_append_render (hcode : IsCode before) (h : ∀ key ∈ d.rules, IsKey key) :
    Form (before ++ d.render) (listText d.rules) (reasonText d.reason) := by
  have hslashes : ∀ c ∈ ([] : List Char), c = '/' := by simp
  exact .intro hcode hslashes isBlank_of_mem_space isBlank_of_mem_space (bracket_not_mem_listText h)

/-- A comment that is written behind code is read back. -/
theorem parse_append_render (hcode : IsCode before) (hne : d.rules ≠ [])
    (hrules : ∀ key ∈ d.rules, IsKey key) (hreason : ∀ r ∈ d.reason, '"' ∉ r.toList) :
    parse (before ++ d.render) = some d := by
  have hitems := items_listText hrules
  rw [parse_of_form (form_append_render hcode hrules) (by rwa [hitems]), hitems,
    reasonOf_reasonText hreason]

example : parse "f() // concurrency-guard: allow(a, b) reason=\"c\"".toList =
    some ⟨["a", "b"], some "c"⟩ := by decide

/-! ## Reading by offsets -/

open Text.Cutting

/-- The quoted reason, read by offsets. -/
def reasonByOffsets (cs : List Char) : Text.Cutting String := do
  let value ← found ("reason=".toList.isPrefixOf? (Text.trim cs))
  let quoted ← found (['"'].isPrefixOf? (Text.trim value))
  let stop ← found (Text.find ['"'] quoted)
  let reason ← cut (Text.sliceTo stop quoted)
  return String.ofList reason

/-- The allowance comment of a line, read by offsets. -/
def parseByOffsets (line : List Char) : Text.Cutting Directive := do
  let start ← found (Text.find ['/', '/'] line)
  let comment ← cut (Text.sliceFrom start line)
  let body ← found (marker.isPrefixOf? (Text.trim (comment.dropWhile (· == '/'))))
  let allowed ← found ("allow(".toList.isPrefixOf? (Text.trim body))
  let stop ← found (Text.find [')'] (Text.trim allowed))
  let list ← cut (Text.sliceTo stop (Text.trim allowed))
  let rules := items list
  if rules.isEmpty then failure
  else
    let rest ← cut (Text.sliceFrom (stop + 1) (Text.trim allowed))
    let reason ← cut (reasonByOffsets rest).run
    return ⟨rules, reason⟩

theorem commentOf_eq (cs : List Char) :
    commentOf cs = (Text.splitBefore ['/', '/'] cs).map (·.2) := by
  induction cs with
  | nil => rfl
  | cons c cs ih =>
      rw [Text.splitBefore]
      split
      · rename_i h
        obtain ⟨rest, hrest⟩ := h
        rw [← hrest]
        rfl
      · rename_i h
        rw [commentOf_cons h, ih, Option.map_map]
        rfl

theorem find_slashes_bind (f : List Char → Text.Cutting Directive) :
    (do let start ← found (Text.find ['/', '/'] line)
        let comment ← cut (Text.sliceFrom start line)
        f comment) = found (commentOf line) >>= f := by
  have hascii : ∀ a ∈ ['/', '/'], Text.IsAscii a := by simp [Text.IsAscii]
  rw [commentOf_eq, Text.find_eq (List.cons_ne_nil _ _) hascii]
  cases h : Text.splitBefore ['/', '/'] line with
  | none => rfl
  | some parts =>
      obtain ⟨l, r⟩ := parts
      rw [Text.eq_append_of_splitBefore h, Option.map_some, Option.map_some, found_some_bind,
        found_some_bind, Text.sliceFrom_length_encode, cut_some_bind]

theorem reasonByOffsets_eq (cs : List Char) : reasonByOffsets cs = found (reasonOf cs) := by
  refine found_bind fun value _ => found_bind fun quoted _ => ?_
  refine (find_bind (by decide) quoted _).trans ?_
  exact found_bind fun _ _ => rfl

/-- Every offset at which the line is cut lies between two characters, and the parts are the ones
that are read from the line. -/
theorem parseByOffsets_eq (line : List Char) : parseByOffsets line = found (parse line) := by
  refine (find_slashes_bind _).trans ?_
  refine found_bind fun comment _ => found_bind fun body _ => found_bind fun allowed _ => ?_
  refine (find_bind (by decide) (Text.trim allowed) _).trans ?_
  refine found_bind fun parts hparts => ?_
  obtain ⟨list, rest⟩ := parts
  obtain ⟨htext, _⟩ := Text.cutAt_eq_some_iff.mp hparts
  rw [htext, Text.sliceFrom_length_encode_succ (by decide)]
  by_cases hempty : (items list).isEmpty
  · simp only [hempty, if_true]
    rfl
  · simp only [hempty, if_false, Bool.false_eq_true]
    rw [cut_some_bind, reasonByOffsets_eq]
    rfl

/-- A line has an allowance comment exactly if it has the form of one with an item in its list. The
comment names these items, and its reason is the quoted text behind the list. Whatever is written
behind code is read back, and no cut at an offset falls inside a character. -/
theorem parse_reads_form (line : List Char) :
    ((parse line).isSome ↔
      ∃ list rest, Form line list rest ∧ ∃ key, Lists (String.ofList list) key) ∧
    (∀ list rest, Form line list rest → (∃ key, Lists (String.ofList list) key) →
      ∃ d, parse line = some d ∧ (∀ key, key ∈ d.rules ↔ Lists (String.ofList list) key) ∧
        ∀ reason, d.reason = some reason ↔ Reasoned rest reason) ∧
    (∀ before d, line = before ++ render d → ¬['/', '/'] <:+: before →
      before.getLast? ≠ some '/' → d.rules ≠ [] → (∀ key ∈ d.rules, IsKey key) →
      (∀ reason ∈ d.reason, '"' ∉ reason.toList) → parse line = some d) ∧
    (parseByOffsets line).run = some (parse line) := by
  refine ⟨⟨fun h => ?_, ?_⟩, fun list rest hform hlist => ?_, ?_, ?_⟩
  · obtain ⟨d, hd⟩ := Option.isSome_iff_exists.mp h
    obtain ⟨list, rest, hform, hne, _⟩ := exists_form_of_parse hd
    exact ⟨list, rest, hform, exists_lists_iff.mpr hne⟩
  · rintro ⟨list, rest, hform, hlist⟩
    rw [parse_of_form hform (exists_lists_iff.mp hlist)]
    rfl
  · exact ⟨_, parse_of_form hform (exists_lists_iff.mp hlist), fun _ => mem_items_iff,
      fun _ => reasonOf_eq_some_iff⟩
  · rintro before d rfl hslashes hlast hne hrules hreason
    exact parse_append_render (isCode_iff.mpr ⟨hslashes, hlast⟩) hne hrules hreason
  · rw [parseByOffsets_eq]
    rfl

/-- A comment with characters of several bytes. -/
def accented : Directive := ⟨["détaché", "all"], some "tôt"⟩

theorem parse_reads_form_accented :
    parse ("café ".toList ++ accented.render) = some accented ∧
    (∃ list rest, Form ("café ".toList ++ accented.render) list rest ∧
      ∃ d, parse ("café ".toList ++ accented.render) = some d ∧
        (∀ key, key ∈ d.rules ↔ Lists (String.ofList list) key) ∧
        ∀ reason, d.reason = some reason ↔ Reasoned rest reason) ∧
    (parseByOffsets ("café ".toList ++ accented.render)).run = some (some accented) := by
  obtain ⟨hform, hreads, hwritten, hoffsets⟩ :=
    parse_reads_form ("café ".toList ++ accented.render)
  have hparse := hwritten "café ".toList accented rfl (by decide) (by decide) (by decide)
    (by decide) (by decide)
  obtain ⟨list, rest, h, hlist⟩ := hform.mp (by rw [hparse]; rfl)
  refine ⟨hparse, ⟨list, rest, h, hreads list rest h hlist⟩, ?_⟩
  rw [hoffsets, hparse]

end ConcurrencyLint.Directive
