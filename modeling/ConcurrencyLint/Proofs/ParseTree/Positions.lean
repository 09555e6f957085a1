import ConcurrencyLint.Proofs.ParseTree.Recovery
import Mathlib.Tactic.MkIffOfInductiveProp

/-!
# Byte positions

The row and the column of an offset are said of the bytes before it. A node is placed if its range
lies in the source and its row and column are those of its start. All that a lowered node can be
reported at is the place of a node of the parse tree.
-/

namespace ConcurrencyLint

namespace Text

def lineFeed : UInt8 := 10

def bytesBefore (source : ByteArray) (offset : Nat) : List UInt8 := source.data.toList.take offset

/-- The number of line feeds before an offset. -/
def rowAt (source : ByteArray) (offset : Nat) : Nat := (bytesBefore source offset).count lineFeed

/-- The number of bytes from the last line feed before an offset, or from the start, up to the
offset. -/
def columnAt (source : ByteArray) (offset : Nat) : Nat :=
  ((bytesBefore source offset).reverse.takeWhile (· ≠ lineFeed)).length

end Text

/-- The places that rules can point at from a node: its own, and that of the first error of a source
file. -/
def Node.places (n : Node) : List Span := n.span :: n.fileError?.toList

namespace ParseTree

variable {source : ByteArray} {t d : ParseTree} {s : Span}

/-- The node stands where it says. -/
@[mk_iff]
structure Placed (source : ByteArray) (t : ParseTree) : Prop where
  start_le_stop : t.start ≤ t.stop
  stop_le_size : t.stop ≤ source.size
  row_eq : t.row = Text.rowAt source t.start
  column_eq : t.column = Text.columnAt source t.start

instance (source : ByteArray) (t : ParseTree) : Decidable (t.Placed source) :=
  decidable_of_iff' _ (placed_iff source t)

/-! ## First errors -/

theorem preorderAll_append (ts us : List ParseTree) :
    preorderAll (ts ++ us) = preorderAll ts ++ preorderAll us := by
  induction ts with
  | nil => rfl
  | cons t ts ih => rw [List.cons_append, preorderAll, preorderAll, ih, List.append_assoc]

theorem mem_preorderAll_of_mem_faultyChildren (h : d ∈ preorderAll t.faultyChildren) :
    d ∈ t.preorder := by
  obtain ⟨c, hc, hd⟩ := mem_preorderAll.mp h
  rw [preorder_eq]
  exact List.mem_cons_of_mem _ (mem_preorderAll.mpr ⟨c, (List.mem_filter.mp hc).1, hd⟩)

/-- The search stays among the pending trees. -/
theorem exists_span_of_searchFault {pending : List ParseTree} (h : searchFault pending = some s) :
    ∃ d ∈ preorderAll pending, d.span = s := by
  fun_induction searchFault pending with
  | case1 => cases h
  | case2 t pending hfault =>
      cases h
      exact ⟨t, mem_preorderAll_of_mem List.mem_cons_self, rfl⟩
  | case3 t pending hfault ih =>
      obtain ⟨d, hd, hs⟩ := ih h
      rw [preorderAll_append, List.mem_append] at hd
      refine ⟨d, ?_, hs⟩
      rw [preorderAll, List.mem_append]
      exact hd.imp_left mem_preorderAll_of_mem_faultyChildren

theorem exists_span_of_firstError (h : t.firstError = some s) : ∃ d ∈ t.preorder, d.span = s := by
  rw [firstError, Option.ite_none_right_eq_some, Option.some_inj] at h
  obtain ⟨_, rfl⟩ := h
  cases hfault : searchFault [t] with
  | none => exact ⟨t, t.mem_preorder_self, rfl⟩
  | some s =>
      obtain ⟨d, hd, hs⟩ := exists_span_of_searchFault hfault
      rw [preorderAll, preorderAll, List.append_nil] at hd
      exact ⟨d, hd, hs⟩

/-! ## Places of lowered trees -/

theorem exists_of_mem_preorder_lower {n : Node} (h : n ∈ (lower source t).preorder) :
    ∃ d ∈ t.preorder, lower source d = n := by
  rw [Node.preorder_eq, List.mem_cons] at h
  rcases h with rfl | h
  · exact ⟨t, t.mem_preorder_self, rfl⟩
  · obtain ⟨d, hd, hn⟩ := exists_of_mem_lower source t h
    rw [preorder_eq]
    exact ⟨d, List.mem_cons_of_mem _ hd, hn⟩

theorem exists_span_of_fileError? (h : (lower source t).fileError? = some s) :
    ∃ d ∈ t.preorder, d.span = s := by
  by_cases hsound : t.kind = "source_file" ∧ ¬t.isFault
  · rw [fileError?_lower_of_source_file hsound.1 hsound.2] at h
    exact exists_span_of_firstError h
  · rcases not_and_or.mp hsound with hkind | hfault
    · rw [fileError?_lower_of_kind_ne hkind] at h
      cases h
    · rw [fileError?_lower_of_isFault (not_not.mp hfault)] at h
      cases h

/-- What is reported of a lowered tree is reported at a node of the tree. -/
theorem exists_span_of_mem_places {n : Node} (hn : n ∈ (lower source t).preorder)
    (hs : s ∈ n.places) : ∃ d ∈ t.preorder, d.span = s := by
  obtain ⟨c, hc, rfl⟩ := exists_of_mem_preorder_lower hn
  rw [Node.places, List.mem_cons, Option.mem_toList] at hs
  rcases hs with rfl | hs
  · exact ⟨c, hc, by rw [lower_eq]⟩
  · obtain ⟨d, hd, hspan⟩ := exists_span_of_fileError? hs
    exact ⟨d, preorder_subset t hc hd, hspan⟩

end ParseTree

end ConcurrencyLint
