import ConcurrencyLint.Proofs.Text.Pieces
import ConcurrencyLint.Proofs.Walk.Trace
import ConcurrencyLint.Rule.Catalog
import ConcurrencyLint.Rule.Selection

/-!
# Leaving rules out

Rules never see each other's findings, and the scopes do not depend on the rules. So a walk with
fewer rules finds what the walk with all of them finds, without the violations of the rules left out.
-/

namespace ConcurrencyLint

/-- The rule reports the violation, at a node or at the exit of a scope. -/
def Rule.Emits (r : Rule) (v : Violation) : Prop :=
  (∃ ctx n, v ∈ r.checkNode ctx n) ∨ ∃ ctx closed, v ∈ r.checkScopeExit ctx closed

/-- All that the rule reports goes under its own name and code. -/
def Rule.Signs (r : Rule) : Prop := ∀ v, r.Emits v → v.rule = r.name ∧ v.code = r.code

variable {rules : List Rule} {w : Setting} {root : Node} {v : Violation}

/-! ## Walks with fewer rules -/

theorem flatMap_filter_rules {keepRule : Rule → Bool} {keep : Violation → Bool}
    {found : Rule → List Violation} (h : ∀ r ∈ rules, ∀ v ∈ found r, keep v = keepRule r) :
    (rules.filter keepRule).flatMap found = (rules.flatMap found).filter keep := by
  induction rules with
  | nil => rfl
  | cons r rules ih =>
      rw [List.flatMap_cons, List.filter_append, ← ih fun r hr => h r (List.mem_cons_of_mem _ hr)]
      cases hr : keepRule r with
      | true =>
          have hall : (found r).filter keep = found r := by
            rw [List.filter_eq_self]
            exact fun v hv => (h r List.mem_cons_self v hv).trans hr
          rw [List.filter_cons_of_pos hr, List.flatMap_cons, hall]
      | false =>
          have hnone : (found r).filter keep = [] := by
            rw [List.filter_eq_nil_iff]
            intro v hv
            simp [h r List.mem_cons_self v hv, hr]
          rw [List.filter_cons_of_neg (by simp [hr]), hnone, List.nil_append]

/-- If `keep` tells the violations of the rules kept from those of the others, then leaving the
others out filters the walk by `keep`. -/
theorem walkRules_filter {keepRule : Rule → Bool} {keep : Violation → Bool}
    (h : ∀ r ∈ rules, ∀ v, r.Emits v → keep v = keepRule r) (w : Setting) (root : Node) :
    walkRules (rules.filter keepRule) w root = (walkRules rules w root).filter keep := by
  rw [walkRules, walkRules, Visitor.walk_eq_respond (.ofRules rules), List.filter_flatMap,
    Visitor.walk_eq_respond]
  refine List.flatMap_congr fun e _ => ?_
  cases e with
  | enter n ctx => exact flatMap_filter_rules fun r hr v hv => h r hr v (.inl ⟨ctx, n, hv⟩)
  | exit closed ctx => exact flatMap_filter_rules fun r hr v hv => h r hr v (.inr ⟨ctx, closed, hv⟩)

/-- Choosing rules that sign by name and code chooses violations by name and code. -/
theorem walkRules_filter_of_signs (h : ∀ r ∈ rules, r.Signs) (names : String → String → Bool)
    (w : Setting) (root : Node) :
    walkRules (rules.filter fun r => names r.name r.code) w root =
      (walkRules rules w root).filter fun v => names v.rule v.code := by
  refine walkRules_filter ?_ w root
  intro r hr v hv
  rw [(h r hr v hv).1, (h r hr v hv).2]

theorem exists_emits_of_mem_walkRules (h : v ∈ walkRules rules w root) :
    ∃ r ∈ rules, r.Emits v := by
  rw [walkRules, Visitor.walk_eq_respond] at h
  obtain ⟨e, _, he⟩ := List.mem_flatMap.mp h
  cases e with
  | enter n ctx =>
      obtain ⟨r, hr, hv⟩ := List.mem_flatMap.mp he
      exact ⟨r, hr, .inl ⟨ctx, n, hv⟩⟩
  | exit closed ctx =>
      obtain ⟨r, hr, hv⟩ := List.mem_flatMap.mp he
      exact ⟨r, hr, .inr ⟨ctx, closed, hv⟩⟩

/-! ## The built-in rules -/

theorem BuiltinRule.signs_ruleWith (b : BuiltinRule) (severity : Severity) (o : RuleOptions) :
    (b.ruleWith severity o).Signs := by
  rintro v (⟨ctx, n, hv⟩ | ⟨ctx, closed, hv⟩)
  · obtain ⟨f, _, rfl⟩ := List.mem_map.mp hv
    exact ⟨rfl, rfl⟩
  · obtain ⟨f, _, rfl⟩ := List.mem_map.mp hv
    exact ⟨rfl, rfl⟩

theorem signs_of_mem_catalog {o : RuleOptions} {r : Rule} (h : r ∈ catalog o) : r.Signs := by
  obtain ⟨b, _, rfl⟩ := List.mem_map.mp h
  exact b.signs_ruleWith _ o

/-! ## Selection by a list -/

/-- The list names the item: this is what stands between two commas, or between a comma and an end
of the list, without the blanks around it, and it is not empty. -/
def Lists (list item : String) : Prop :=
  item ≠ "" ∧ ∃ pieces : List (List Char), [','].intercalate pieces = list.toList ∧
    (∀ p ∈ pieces, ',' ∉ p) ∧ ∃ p ∈ pieces, Text.Trims p item.toList

theorem mem_selectionItems_iff {list item : String} :
    item ∈ selectionItems list ↔ Lists list item := by
  have hitem (p : List Char) : String.ofList (Text.trim p) = item ↔ Text.Trims p item.toList := by
    rw [← Text.trim_eq_iff]
    constructor
    · rintro rfl; simp
    · intro h; rw [h]; simp
  constructor
  · intro h
    obtain ⟨core, hcore, rfl⟩ := List.mem_map.mp h
    obtain ⟨hmem, hne⟩ := List.mem_filter.mp hcore
    obtain ⟨p, hp, rfl⟩ := List.mem_map.mp hmem
    refine ⟨?_, Text.splitAt ',' list.toList, Text.intercalate_splitAt ',' _,
      fun p => Text.not_mem_of_mem_splitAt, p, hp, (hitem p).mp rfl⟩
    simpa using hne
  · rintro ⟨hne, pieces, hjoin, hfree, p, hp, htrims⟩
    have hsplit : Text.splitAt ',' list.toList = pieces := by
      rw [← hjoin]
      exact Text.splitAt_intercalate hfree (List.ne_nil_of_mem hp)
    refine List.mem_map.mpr ⟨Text.trim p, List.mem_filter.mpr ⟨?_, ?_⟩, (hitem p).mpr htrims⟩
    · rw [hsplit]; exact List.mem_map_of_mem hp
    · rw [htrims.trim_eq]; simpa using hne

/-- A list made of given pieces names what is left of each of them without its blanks. -/
theorem lists_intercalate {pieces : List (List Char)} (hfree : ∀ p ∈ pieces, ',' ∉ p)
    {item : String} : Lists (String.ofList ([','].intercalate pieces)) item ↔
      item ≠ "" ∧ ∃ p ∈ pieces, Text.Trims p item.toList := by
  constructor
  · rintro ⟨hne, pieces', hjoin, hfree', p, hp, htrims⟩
    rw [String.toList_ofList] at hjoin
    have hp' : pieces' ≠ [] := List.ne_nil_of_mem hp
    refine ⟨hne, p, ?_, htrims⟩
    by_cases hnil : pieces = []
    · -- The empty text has one piece, which is empty and names nothing.
      subst hnil
      have hsplit := Text.splitAt_intercalate hfree' hp'
      rw [hjoin] at hsplit
      rw [← hsplit] at hp
      rw [List.mem_singleton.mp hp] at htrims
      have hitem := htrims.trim_eq
      exact absurd (String.toList_inj.mp hitem.symm) hne
    · rw [← Text.splitAt_intercalate hfree hnil, ← hjoin, Text.splitAt_intercalate hfree' hp']
      exact hp
  · rintro ⟨hne, p, hp, htrims⟩
    exact ⟨hne, pieces, by rw [String.toList_ofList], hfree, p, hp, htrims⟩

instance (list item : String) : Decidable (Lists list item) :=
  decidable_of_iff _ mem_selectionItems_iff

theorem selectRules_eq (list : String) (rules : List Rule) :
    selectRules list rules = rules.filter fun r => Lists list r.name ∨ Lists list r.code := by
  refine List.filter_congr fun r _ => ?_
  rw [Bool.eq_iff_iff, List.any_eq_true, decide_eq_true_iff]
  simp only [← mem_selectionItems_iff, Rule.isKnownAs, Bool.or_eq_true, beq_iff_eq]
  constructor
  · rintro ⟨item, hitem, rfl | rfl⟩
    · exact .inl hitem
    · exact .inr hitem
  · rintro (h | h)
    · exact ⟨r.name, h, .inl rfl⟩
    · exact ⟨r.code, h, .inr rfl⟩

theorem walkRules_selectRules (h : ∀ r ∈ rules, r.Signs) (list : String) (w : Setting)
    (root : Node) : walkRules (selectRules list rules) w root =
      (walkRules rules w root).filter fun v => Lists list v.rule ∨ Lists list v.code := by
  rw [selectRules_eq]
  exact walkRules_filter_of_signs h (fun name code => Lists list name ∨ Lists list code) w root

end ConcurrencyLint
