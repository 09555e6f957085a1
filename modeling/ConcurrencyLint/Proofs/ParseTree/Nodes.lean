import ConcurrencyLint.Proofs.Node.Descendants
import ConcurrencyLint.Proofs.ParseTree.Lowering

/-!
# The nodes of a parse tree

The nodes of a tree in pre-order, over all its children. What is lowered below a node stands below
it in the tree, so every node of a lowered tree is the lowered form of a node of the tree.
-/

namespace ConcurrencyLint.ParseTree

mutual

/-- The nodes of a tree, each before its children and these from left to right. -/
def preorder : ParseTree → List ParseTree
  | t@⟨_, _, _, _, _, _, _, _, _, _, children⟩ => t :: preorderAll children

def preorderAll : List ParseTree → List ParseTree
  | [] => []
  | t :: ts => t.preorder ++ preorderAll ts

end

variable {t c d : ParseTree} {ts : List ParseTree}

theorem preorder_eq (t : ParseTree) : t.preorder = t :: preorderAll t.children := by
  cases t
  rw [preorder]

theorem mem_preorder_self (t : ParseTree) : t ∈ t.preorder := by
  rw [preorder_eq]
  exact List.mem_cons_self

theorem mem_preorderAll : d ∈ preorderAll ts ↔ ∃ t ∈ ts, d ∈ t.preorder := by
  induction ts with
  | nil => simp [preorderAll]
  | cons t ts ih => simp [preorderAll, ih]

theorem mem_preorderAll_of_mem (h : t ∈ ts) : t ∈ preorderAll ts :=
  mem_preorderAll.mpr ⟨t, h, t.mem_preorder_self⟩

theorem mem_preorder_of_mem_preorderAll (h : c ∈ preorderAll t.children) : c ∈ t.preorder := by
  rw [preorder_eq]
  exact List.mem_cons_of_mem _ h

mutual

theorem preorder_subset : (t : ParseTree) → c ∈ t.preorder → c.preorder ⊆ t.preorder
  | ⟨kind, named, error, missing, hasError, start, stop, row, column, fields, children⟩, h => by
      rw [preorder, List.mem_cons] at h
      rcases h with rfl | h
      · exact fun _ hd => hd
      · rw [preorder]
        exact fun d hd => List.mem_cons_of_mem _ (preorderAll_subset children h hd)

theorem preorderAll_subset : (ts : List ParseTree) → c ∈ preorderAll ts →
    c.preorder ⊆ preorderAll ts
  | [], h => by simp [preorderAll] at h
  | t :: ts, h => by
      rw [preorderAll, List.mem_append] at h
      rw [preorderAll]
      intro d hd
      rcases h with h | h
      · exact List.mem_append_left _ (preorder_subset t h hd)
      · exact List.mem_append_right _ (preorderAll_subset ts h hd)

end

theorem preorder_subset_of_mem_children (h : c ∈ t.children) : c.preorder ⊆ t.preorder :=
  preorder_subset t (mem_preorder_of_mem_preorderAll (mem_preorderAll_of_mem h))

/-! ## What is lowered below a node -/

theorem splice_eq (t : ParseTree) :
    t.splice = if t.isTransparent then spliceAll t.children else [t] := by
  cases t
  rw [splice]

mutual

theorem mem_preorder_of_mem_splice : (t : ParseTree) → c ∈ t.splice → c ∈ t.preorder
  | ⟨kind, named, error, missing, hasError, start, stop, row, column, fields, children⟩, h => by
      rw [splice] at h
      rw [preorder]
      split at h
      · exact List.mem_cons_of_mem _ (mem_preorderAll_of_mem_spliceAll children h)
      · rw [List.mem_singleton.mp h]; exact List.mem_cons_self

theorem mem_preorderAll_of_mem_spliceAll : (ts : List ParseTree) → c ∈ spliceAll ts →
    c ∈ preorderAll ts
  | [], h => by simp [spliceAll] at h
  | t :: ts, h => by
      rw [spliceAll, List.mem_append] at h
      rw [preorderAll, List.mem_append]
      rcases h with h | h
      · exact .inl (mem_preorder_of_mem_splice t h)
      · exact .inr (mem_preorderAll_of_mem_spliceAll ts h)

end

theorem mem_children_of_field {name : String} (h : t.field name = some c) : c ∈ t.children := by
  rw [field, Option.bind_eq_some_iff] at h
  obtain ⟨i, _, hi⟩ := h
  exact List.mem_of_getElem? hi

theorem mem_children_of_comparison {lhs rhs : ParseTree} {operator : String}
    (h : t.comparison operator = some (lhs, rhs)) : lhs ∈ t.children ∧ rhs ∈ t.children := by
  unfold comparison at h
  split at h
  · split at h
    · rename_i found lhs' rhs' _ hoperands
      split at h
      · cases h
        have hmem : ∀ c ∈ [lhs, rhs], c ∈ t.children := by
          rw [← hoperands]
          exact fun c hc => (List.mem_filter.mp hc).1
        exact ⟨hmem lhs (by simp), hmem rhs (by simp)⟩
      · cases h
    · cases h
  · cases h

theorem mem_preorderAll_of_genericConstruction {type closure : ParseTree}
    (h : t.genericConstruction = some (type, closure)) :
    type ∈ preorderAll t.children ∧ closure ∈ preorderAll t.children := by
  unfold genericConstruction at h
  split at h
  · cases h
  · rename_i rest hc
    split at h
    · cases h
    · rename_i hr
      split at h
      · cases h
        have ⟨htype, hrest⟩ := mem_children_of_comparison hc
        have hclosure := mem_preorderAll_of_mem (mem_children_of_comparison hr).2
        refine ⟨mem_preorderAll_of_mem htype, mem_preorderAll.mpr ⟨rest, hrest, ?_⟩⟩
        rw [preorder_eq]
        exact List.mem_cons_of_mem _ hclosure
      · cases h

theorem mem_preorderAll_of_mem_constituents {kind : NodeKind} (h : c ∈ t.constituents kind) :
    c ∈ preorderAll t.children := by
  unfold constituents at h
  split at h
  · exact mem_preorderAll_of_mem (mem_children_of_field (Option.mem_toList.mp h))
  · exact mem_preorderAll_of_mem (mem_children_of_field (Option.mem_toList.mp h))
  · simp at h
  · split at h
    · split at h
      · rename_i hg
        have ⟨htype, hclosure⟩ := mem_preorderAll_of_genericConstruction hg
        simp only [List.mem_cons, List.not_mem_nil, or_false] at h
        rcases h with rfl | rfl
        · exact htype
        · exact hclosure
      · simp at h
    · exact mem_preorderAll_of_mem_spliceAll t.children h
  · exact mem_preorderAll_of_mem_spliceAll t.children h

/-- Every node below the root of a lowered tree is the lowered form of a node below the root. -/
theorem exists_of_mem_lower (source : ByteArray) (t : ParseTree) {n : Node}
    (h : n ∈ Node.preorderAll (lower source t).children) :
    ∃ d ∈ preorderAll t.children, lower source d = n := by
  induction t using lower.induct source with
  | case1 t ih =>
      rw [lower_eq, Node.mem_preorderAll] at h
      obtain ⟨m, hm, hn⟩ := h
      obtain ⟨c, hc, rfl⟩ := List.mem_map.mp hm
      have hct := mem_preorderAll_of_mem_constituents (List.mem_filter.mp hc).1
      rw [Node.preorder_eq, List.mem_cons] at hn
      rcases hn with rfl | hn
      · exact ⟨c, hct, rfl⟩
      · obtain ⟨d, hd, hdn⟩ := ih c hc hn
        refine ⟨d, preorderAll_subset t.children hct ?_, hdn⟩
        rw [preorder_eq]
        exact List.mem_cons_of_mem _ hd

end ConcurrencyLint.ParseTree
