import ConcurrencyLint.Proofs.ParseTree.Callee

/-!
# The bindings of a declaration

A declaration binds several names, and each of them may have an accessor block. The bindings are
read in one pass that marks whichever is the latest. Said of the children by their indices, a
binding is marked if an accessor block stands after its pattern and before the next one.
-/

namespace ConcurrencyLint.ParseTree

variable {source : ByteArray} {t c : ParseTree} {cs : List ParseTree} {found : List Binding}

def isPattern (t : ParseTree) : Bool := t.isNamed && t.kind == "pattern"

def isAccessorBlock (t : ParseTree) : Bool := t.isNamed && t.kind == "computed_property"

/-- After the child with the given index, and before the next pattern, stands an accessor block. -/
def HasBlockAfter (t : ParseTree) (i : Nat) : Prop :=
  ∃ j a, i < j ∧ t.children[j]? = some a ∧ a.isAccessorBlock ∧
    ∀ k c, i < k → k < j → t.children[k]? = some c → ¬c.isPattern

theorem not_isPattern_of_isAccessorBlock (h : t.isAccessorBlock) : ¬t.isPattern := by
  simp only [isAccessorBlock, Bool.and_eq_true, beq_iff_eq] at h
  simp [isPattern, h.2]

/-! ## One pass over the children -/

/-- An accessor block comes before the first pattern. -/
def startsWithBlock (cs : List ParseTree) : Bool :=
  (cs.takeWhile fun c => !c.isPattern).any isAccessorBlock

/-- The bindings that some children of a declaration make, from left to right. -/
def bindingsAmong (source : ByteArray) : List ParseTree → List Binding
  | [] => []
  | c :: cs =>
    if c.isPattern then ⟨c.patternName source, startsWithBlock cs⟩ :: bindingsAmong source cs
    else bindingsAmong source cs

/-- Marks the latest of the bindings found so far, if the flag is set. -/
def markLatest (marked : Bool) : List Binding → List Binding
  | [] => []
  | latest :: before =>
    { latest with hasAccessorBlock := latest.hasAccessorBlock || marked } :: before

@[simp] theorem markLatest_false (found : List Binding) : markLatest false found = found := by
  cases found <;> simp [markLatest]

@[simp] theorem markLatest_true (marked : Bool) (found : List Binding) :
    markLatest marked (markLatest true found) = markLatest true found := by
  cases found <;> simp [markLatest]

theorem startsWithBlock_of_isPattern (h : c.isPattern) : startsWithBlock (c :: cs) = false := by
  simp [startsWithBlock, h]

theorem startsWithBlock_of_isAccessorBlock (h : c.isAccessorBlock) :
    startsWithBlock (c :: cs) = true := by
  simp [startsWithBlock, h, not_isPattern_of_isAccessorBlock h]

theorem startsWithBlock_of_not (hp : ¬c.isPattern) (ha : ¬c.isAccessorBlock) :
    startsWithBlock (c :: cs) = startsWithBlock cs := by
  simp [startsWithBlock, hp, ha]

/-- What one child does to the bindings found before it. -/
theorem addBinding_eq (source : ByteArray) (found : List Binding) (c : ParseTree) :
    (if c.isNamed then addBinding source found c else found) =
      if c.isPattern then ⟨c.patternName source, false⟩ :: found
      else markLatest c.isAccessorBlock found := by
  by_cases hnamed : c.isNamed
  · rw [if_pos hnamed]
    unfold addBinding
    split
    · rename_i hkind
      simp [isPattern, hnamed, hkind]
    · rename_i latest before hkind
      simp [isPattern, isAccessorBlock, markLatest, hnamed, hkind]
    · rename_i found _ _ hpattern hblock
      have hnot : ¬c.isPattern := by simpa [isPattern, hnamed] using hpattern
      rw [if_neg hnot]
      cases found with
      | nil => rfl
      | cons latest before =>
          have hkind : c.kind ≠ "computed_property" := fun h => hblock latest before h rfl
          have hplain : c.isAccessorBlock = false := by simp [isAccessorBlock, hkind]
          rw [hplain, markLatest_false]
  · simp [isPattern, isAccessorBlock, hnamed]

theorem foldl_addBinding (source : ByteArray) (cs : List ParseTree) (found : List Binding) :
    ((cs.filter isNamed).foldl (addBinding source) found).reverse =
      (markLatest (startsWithBlock cs) found).reverse ++ bindingsAmong source cs := by
  rw [List.foldl_filter]
  induction cs generalizing found with
  | nil => simp [startsWithBlock, bindingsAmong]
  | cons c cs ih =>
      rw [List.foldl_cons, addBinding_eq, bindingsAmong]
      by_cases hp : c.isPattern
      · rw [if_pos hp, if_pos hp, ih, startsWithBlock_of_isPattern hp, markLatest_false]
        simp [markLatest]
      · rw [if_neg hp, if_neg hp, ih]
        by_cases ha : c.isAccessorBlock
        · rw [startsWithBlock_of_isAccessorBlock ha, ha, markLatest_true]
        · rw [startsWithBlock_of_not hp ha, Bool.eq_false_iff.mpr ha, markLatest_false]

theorem bindings_eq (source : ByteArray) (t : ParseTree) :
    t.bindings source = bindingsAmong source t.children := by
  rw [bindings, namedChildren, foldl_addBinding]
  rfl

/-! ## Patterns and their indices -/

theorem map_name_bindingsAmong (source : ByteArray) (cs : List ParseTree) :
    (bindingsAmong source cs).map Binding.name =
      (cs.filter isPattern).map (patternName source) := by
  induction cs with
  | nil => rfl
  | cons c cs ih =>
      rw [bindingsAmong]
      by_cases hp : c.isPattern
      · rw [if_pos hp, List.filter_cons_of_pos hp, List.map_cons, List.map_cons, ih]
      · rw [if_neg hp, List.filter_cons_of_neg hp, ih]

theorem getElem?_bindingsAmong {i : Nat} (hi : cs[i]? = some c) (hc : c.isPattern) :
    (bindingsAmong source cs)[(cs.take i).countP isPattern]? =
      some ⟨c.patternName source, startsWithBlock (cs.drop (i + 1))⟩ := by
  induction cs generalizing i with
  | nil => simp at hi
  | cons d cs ih =>
      rw [bindingsAmong]
      cases i with
      | zero =>
          cases hi
          simp [hc]
      | succ i =>
          by_cases hd : d.isPattern
          · simpa [hd] using ih hi
          · simpa [hd] using ih hi

theorem mem_bindingsAmong {b : Binding} :
    b ∈ bindingsAmong source cs ↔ ∃ i c, cs[i]? = some c ∧ c.isPattern ∧
      b = ⟨c.patternName source, startsWithBlock (cs.drop (i + 1))⟩ := by
  constructor
  · intro hb
    induction cs with
    | nil => simp [bindingsAmong] at hb
    | cons d cs ih =>
        rw [bindingsAmong] at hb
        by_cases hd : d.isPattern
        · rw [if_pos hd, List.mem_cons] at hb
          rcases hb with rfl | hb
          · exact ⟨0, d, rfl, hd, rfl⟩
          · obtain ⟨i, c, hi, hc, hb⟩ := ih hb
            exact ⟨i + 1, c, hi, hc, hb⟩
        · rw [if_neg hd] at hb
          obtain ⟨i, c, hi, hc, hb⟩ := ih hb
          exact ⟨i + 1, c, hi, hc, hb⟩
  · rintro ⟨i, c, hi, hc, rfl⟩
    exact List.mem_of_getElem? (getElem?_bindingsAmong hi hc)

theorem bindingsAmong_append {before after : List ParseTree} (h : ∀ c ∈ before, ¬c.isPattern) :
    bindingsAmong source (before ++ after) = bindingsAmong source after := by
  induction before with
  | nil => rfl
  | cons c before ih =>
      obtain ⟨hc, hbefore⟩ := List.forall_mem_cons.mp h
      rw [List.cons_append, bindingsAmong, if_neg hc, ih hbefore]

theorem startsWithBlock_iff (cs : List ParseTree) :
    startsWithBlock cs ↔ ∃ (j : Nat) (a : ParseTree), cs[j]? = some a ∧ a.isAccessorBlock ∧
      ∀ (k : Nat) (c : ParseTree), k < j → cs[k]? = some c → ¬c.isPattern := by
  induction cs with
  | nil => simp [startsWithBlock]
  | cons d cs ih =>
      by_cases ha : d.isAccessorBlock
      · rw [startsWithBlock_of_isAccessorBlock ha]
        exact iff_of_true rfl ⟨0, d, rfl, ha, by simp⟩
      · by_cases hp : d.isPattern
        · rw [startsWithBlock_of_isPattern hp]
          refine iff_of_false Bool.false_ne_true ?_
          rintro ⟨j, a, hj, hblock, hbefore⟩
          cases j with
          | zero => cases hj; exact ha hblock
          | succ j => exact hbefore 0 d (Nat.succ_pos j) rfl hp
        · rw [startsWithBlock_of_not hp ha, ih]
          constructor
          · rintro ⟨j, a, hj, hblock, hbefore⟩
            refine ⟨j + 1, a, hj, hblock, fun k c hk hc => ?_⟩
            cases k with
            | zero => cases hc; exact hp
            | succ k => exact hbefore k c (Nat.lt_of_succ_lt_succ hk) hc
          · rintro ⟨j, a, hj, hblock, hbefore⟩
            cases j with
            | zero => cases hj; exact absurd hblock ha
            | succ j =>
                exact ⟨j, a, hj, hblock, fun k c hk => hbefore (k + 1) c (Nat.succ_lt_succ hk)⟩

theorem startsWithBlock_drop_iff (t : ParseTree) (i : Nat) :
    startsWithBlock (t.children.drop (i + 1)) ↔ t.HasBlockAfter i := by
  rw [startsWithBlock_iff]
  simp only [List.getElem?_drop]
  constructor
  · rintro ⟨j, a, hj, hblock, hbefore⟩
    refine ⟨i + 1 + j, a, by omega, hj, hblock, fun k c hik hkj hk => ?_⟩
    have hindex : i + 1 + (k - (i + 1)) = k := by omega
    exact hbefore (k - (i + 1)) c (by omega) (by rw [hindex]; exact hk)
  · rintro ⟨j, a, hij, hj, hblock, hbefore⟩
    have hindex : i + 1 + (j - (i + 1)) = j := by omega
    refine ⟨j - (i + 1), a, by rw [hindex]; exact hj, hblock, fun k c hk hc => ?_⟩
    exact hbefore (i + 1 + k) c (by omega) (by omega) hc

/-! ## Scopes of declarations -/

theorem any_isComputed_bindings_iff (source : ByteArray) (t : ParseTree) (name : String) :
    (t.bindings source).any (·.isComputed name) ↔ ∃ i c, t.children[i]? = some c ∧ c.isPattern ∧
      c.patternName source = some name ∧ t.HasBlockAfter i := by
  rw [bindings_eq, List.any_eq_true]
  constructor
  · rintro ⟨b, hb, hcomputed⟩
    obtain ⟨i, c, hi, hc, rfl⟩ := mem_bindingsAmong.mp hb
    simp only [Binding.isComputed, Bool.and_eq_true, beq_iff_eq] at hcomputed
    exact ⟨i, c, hi, hc, hcomputed.2, (startsWithBlock_drop_iff t i).mp hcomputed.1⟩
  · rintro ⟨i, c, hi, hc, hname, hblock⟩
    refine ⟨_, mem_bindingsAmong.mpr ⟨i, c, hi, hc, rfl⟩, ?_⟩
    simp [Binding.isComputed, hname, (startsWithBlock_drop_iff t i).mpr hblock]

theorem classify_of_property_declaration (source : ByteArray)
    (hkind : t.kind = "property_declaration") (hsound : ¬t.isFault) :
    t.classify source = .variables (t.bindings source) := by
  rw [classify, if_neg hsound, hkind]
  rfl

/-- The bindings of a declaration are its patterns in order, and the one of a pattern has an
accessor block if such a block follows the pattern before the next one. What stands before all
patterns does not count. So a declaration opens a scope, a rendering routine, if an accessor block
follows a pattern for `body` before the next pattern; a block that follows another pattern never
makes it open one. -/
theorem toNode_bindings (source : ByteArray) (t : ParseTree) :
    (t.bindings source).map Binding.name =
      (t.children.filter isPattern).map (patternName source) ∧
    (∀ i c, t.children[i]? = some c → c.isPattern →
      ∃ b, (t.bindings source)[(t.children.take i).countP isPattern]? = some b ∧
        b.name = c.patternName source ∧ (b.hasAccessorBlock ↔ t.HasBlockAfter i)) ∧
    (∀ before after, t.children = before ++ after → (∀ c ∈ before, ¬c.isPattern) →
      t.bindings source = bindings source { t with children := after }) ∧
    (t.kind = "property_declaration" → ¬t.isFault →
      (t.toNode source).kind = .variables (t.bindings source) ∧
      ∀ points scope, (t.toNode source).opens points = some scope ↔
        scope = .renderingRoutine ∧ ∃ i c, t.children[i]? = some c ∧ c.isPattern ∧
          c.patternName source = some renderProperty ∧ t.HasBlockAfter i) := by
  refine ⟨?_, ?_, ?_, ?_⟩
  · rw [bindings_eq]
    exact map_name_bindingsAmong source t.children
  · intro i c hi hc
    rw [bindings_eq]
    exact ⟨_, getElem?_bindingsAmong hi hc, rfl, startsWithBlock_drop_iff t i⟩
  · intro before after hchildren hbefore
    rw [bindings_eq, bindings_eq, hchildren, bindingsAmong_append hbefore]
  · intro hkind hsound
    have hnode : (t.toNode source).kind = .variables (t.bindings source) := by
      rw [kind_toNode, classify_of_property_declaration source hkind hsound]
    refine ⟨hnode, fun points scope => ?_⟩
    rw [← any_isComputed_bindings_iff, Node.opens, hnode]
    simp only [Option.ite_none_right_eq_some, Option.some_inj]
    exact ⟨fun h => ⟨h.2.symm, h.1⟩, fun h => ⟨h.2, h.1.symm⟩⟩

/-- The tree of `var body: Int { 1 }, c`, or else of `var body: Int, c { 1 }`. -/
def twoBindings (blockFirst : Bool) : ParseTree :=
  let node (kind : String) (named : Bool) (start stop : Nat) (fields : List (String × Nat))
      (children : List ParseTree) : ParseTree :=
    ⟨kind, named, false, false, false, start, stop, 0, start, fields, children⟩
  let pattern (start stop : Nat) : ParseTree :=
    node "pattern" true start stop [("bound_identifier", 0)]
      [node "simple_identifier" true start stop [] []]
  let block (start : Nat) : ParseTree := node "computed_property" true start (start + 5) [] []
  let comma (start : Nat) : ParseTree := node "," false start (start + 1) [] []
  let binder : ParseTree := node "value_binding_pattern" true 0 3 [] []
  let type (start stop : Nat) : ParseTree := node "type_annotation" true start stop [] []
  node "property_declaration" true 0 22 [] <|
    if blockFirst then [binder, pattern 4 8, type 8 13, block 14, comma 19, pattern 21 22]
    else [binder, pattern 4 8, type 8 13, comma 13, pattern 15 16, block 17]

theorem toNode_bindings_twoBindings :
    let first := "var body: Int \x7b 1 \x7d, c".toUTF8
    let second := "var body: Int, c \x7b 1 \x7d".toUTF8
    let t := twoBindings true
    let u := twoBindings false
    t.bindings first = [⟨some "body", true⟩, ⟨some "c", false⟩] ∧
    u.bindings second = [⟨some "body", false⟩, ⟨some "c", true⟩] ∧
    t.HasBlockAfter 1 ∧ ¬u.HasBlockAfter 1 ∧ u.HasBlockAfter 4 ∧
    (∀ points, (t.toNode first).opens points = some .renderingRoutine) ∧
    ∀ points, (u.toNode second).opens points = none := by
  intro first second t u
  have ht : t.bindings first = [⟨some "body", true⟩, ⟨some "c", false⟩] := by decide +kernel
  have hu : u.bindings second = [⟨some "body", false⟩, ⟨some "c", true⟩] := by decide +kernel
  obtain ⟨-, hmarked, -, hscope⟩ := toNode_bindings first t
  obtain ⟨-, hmarked', -, hscope'⟩ := toNode_bindings second u
  obtain ⟨b, hb, hname, hblock⟩ := hmarked 1 _ rfl rfl
  obtain ⟨b', hb', -, hblock'⟩ := hmarked' 1 _ rfl rfl
  obtain ⟨c', hc', -, hblock''⟩ := hmarked' 4 _ rfl rfl
  rw [ht] at hb
  rw [hu] at hb' hc'
  cases hb
  cases hb'
  cases hc'
  refine ⟨ht, hu, hblock.mp rfl, fun h => Bool.false_ne_true (hblock'.mpr h), hblock''.mp rfl,
    fun points => ?_, fun points => ?_⟩
  · exact ((hscope rfl (by decide)).2 points _).mpr ⟨rfl, 1, _, rfl, rfl, hname.symm, hblock.mp rfl⟩
  · rw [Node.opens, (hscope' rfl (by decide)).1, hu]
    rfl

end ConcurrencyLint.ParseTree
