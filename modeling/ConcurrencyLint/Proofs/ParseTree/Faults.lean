import ConcurrencyLint.Proofs.ParseTree.Positions

/-!
# The first fault of a tree

The search for the first fault passes over every branch without the error flag. Where the flags say
of each node whether a fault is at it or below it, nothing is missed: the search finds the first
fault of the pre-order over all children, tokens and comments among them.
-/

namespace ConcurrencyLint.ParseTree

variable {root t : ParseTree} {ts pending : List ParseTree}

/-- At every node the error flag says whether the node or something below it is a fault. -/
def FlagsFaults (t : ParseTree) : Prop :=
  ∀ d ∈ t.preorder, d.hasError ↔ ∃ e ∈ d.preorder, e.isFault

instance (t : ParseTree) : Decidable t.FlagsFaults :=
  inferInstanceAs (Decidable (∀ d ∈ t.preorder, _))

theorem FlagsFaults.child (h : t.FlagsFaults) {c : ParseTree} (hc : c ∈ t.children) :
    c.FlagsFaults :=
  fun d hd => h d (preorder_subset_of_mem_children hc hd)

theorem FlagsFaults.find?_eq_none (h : t.FlagsFaults) (hflag : ¬t.hasError) :
    t.preorder.find? isFault = none := by
  rw [List.find?_eq_none]
  intro e he hfault
  exact hflag ((h t t.mem_preorder_self).mpr ⟨e, he, hfault⟩)

/-- Branches without the flag hold no fault, so the first fault is the same without them. -/
theorem find?_preorderAll_filter (h : ∀ t ∈ ts, t.FlagsFaults) :
    (preorderAll (ts.filter hasError)).find? isFault = (preorderAll ts).find? isFault := by
  induction ts with
  | nil => rfl
  | cons t ts ih =>
      have ih := ih fun u hu => h u (List.mem_cons_of_mem _ hu)
      by_cases hflag : t.hasError
      · rw [List.filter_cons_of_pos hflag, preorderAll, preorderAll, List.find?_append, ih,
          List.find?_append]
      · have hnone := (h t List.mem_cons_self).find?_eq_none hflag
        rw [List.filter_cons_of_neg hflag, ih, preorderAll, List.find?_append, hnone,
          Option.none_or]

/-- What is left of the search at any moment is the search of the pre-order of what is pending. -/
theorem searchFault_eq_find? (h : ∀ t ∈ pending, t.FlagsFaults) :
    searchFault pending = ((preorderAll pending).find? isFault).map span := by
  fun_induction searchFault pending with
  | case1 => rfl
  | case2 t pending hfault =>
      rw [preorderAll, preorder_eq, List.cons_append, List.find?_cons_of_pos hfault,
        Option.map_some]
  | case3 t pending hfault ih =>
      have ht := h t List.mem_cons_self
      have hnext : ∀ u ∈ t.faultyChildren ++ pending, u.FlagsFaults := by
        intro u hu
        rcases List.mem_append.mp hu with hu | hu
        · exact ht.child (List.mem_filter.mp hu).1
        · exact h u (List.mem_cons_of_mem _ hu)
      rw [ih hnext, preorderAll_append, List.find?_append, faultyChildren,
        find?_preorderAll_filter fun c hc => ht.child hc, preorderAll, preorder_eq,
        List.cons_append, List.find?_cons_of_neg hfault, List.find?_append]

theorem searchFault_root (h : root.FlagsFaults) :
    searchFault [root] = (root.preorder.find? isFault).map span := by
  have hroot : ∀ t ∈ [root], t.FlagsFaults := by
    intro t ht
    rw [List.mem_singleton.mp ht]
    exact h
  rw [searchFault_eq_find? hroot, preorderAll, preorderAll, List.append_nil]

theorem isSome_searchFault_iff (h : root.FlagsFaults) :
    (searchFault [root]).isSome ↔ root.hasError := by
  rw [searchFault_root h, Option.isSome_map, List.find?_isSome, h root root.mem_preorder_self]

/-- With the flags in order, the first error of a tree is its first fault in pre-order, and there is
none exactly if nothing in the tree is a fault. A flagged root always has a fault to be found, so
its own place never stands in for one. A sound source file carries this first error. -/
theorem firstError_eq_find? (source : ByteArray) (root : ParseTree) (hflags : root.FlagsFaults) :
    root.firstError = (root.preorder.find? isFault).map span ∧
    (root.firstError = none ↔ ∀ d ∈ root.preorder, ¬d.isFault) ∧
    (root.hasError → (searchFault [root]).isSome) ∧
    (root.kind = "source_file" → ¬root.isFault →
      (root.toNode source).kind = .sourceFile ((root.preorder.find? isFault).map span)) := by
  have hfirst : root.firstError = (root.preorder.find? isFault).map span := by
    rw [firstError]
    split
    · rename_i hroot
      obtain ⟨s, hs⟩ := Option.isSome_iff_exists.mp ((isSome_searchFault_iff hflags).mpr hroot)
      rw [← searchFault_root hflags, hs, Option.getD_some]
    · rename_i hroot
      rw [hflags.find?_eq_none hroot, Option.map_none]
  refine ⟨hfirst, ?_, (isSome_searchFault_iff hflags).mpr, ?_⟩
  · rw [hfirst, Option.map_eq_none_iff, List.find?_eq_none]
  · intro hkind hsound
    rw [toNode_eq, lower_eq, classify_of_source_file hkind hsound, hfirst]

/-- A file with a comment, a call that lacks its closing bracket, and an error with another one
inside: the bracket, of no width, comes first. -/
def missingBracket : ParseTree :=
  ⟨"source_file", true, false, false, true, 0, 16, 0, 0, [], [
    ⟨"comment", true, false, false, false, 0, 4, 0, 0, [], []⟩,
    ⟨"call_expression", true, false, false, true, 5, 7, 1, 0, [], [
      ⟨"simple_identifier", true, false, false, false, 5, 6, 1, 0, [], []⟩,
      ⟨"call_suffix", true, false, false, true, 6, 7, 1, 1, [], [
        ⟨"value_arguments", true, false, false, true, 6, 7, 1, 1, [], [
          ⟨"(", false, false, false, false, 6, 7, 1, 1, [], []⟩,
          ⟨")", false, false, true, true, 7, 7, 1, 2, [], []⟩]⟩]⟩]⟩,
    ⟨"ERROR", true, true, false, true, 8, 15, 2, 0, [], [
      ⟨"ERROR", true, true, false, true, 9, 15, 2, 1, [], []⟩]⟩]⟩

theorem firstError_eq_find?_missingBracket :
    let source := "// c\nf(\n@ b c d\n".toUTF8
    missingBracket.FlagsFaults ∧ missingBracket.hasError ∧
    (missingBracket.preorder.filter isFault).length = 3 ∧
    missingBracket.firstError = some ⟨2, 3, 7, 0⟩ ∧ (searchFault [missingBracket]).isSome ∧
    (missingBracket.toNode source).kind = .sourceFile (some ⟨2, 3, 7, 0⟩) := by
  intro source
  have hflags : missingBracket.FlagsFaults := by decide
  obtain ⟨hfirst, -, hfound, hkind⟩ := firstError_eq_find? source missingBracket hflags
  exact ⟨hflags, rfl, by decide, hfirst, hfound rfl, hkind rfl (by decide)⟩

end ConcurrencyLint.ParseTree
