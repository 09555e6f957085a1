import ConcurrencyLint.Node.Traversal

/-!
# Descendants

The stack of pending nodes lists a tree in its structural pre-order.
-/

namespace ConcurrencyLint.Node

theorem preorder_eq (n : Node) : n.preorder = n :: preorderAll n.children := by
  cases n
  rw [preorder]

theorem preorderAll_append (ns ms : List Node) :
    preorderAll (ns ++ ms) = preorderAll ns ++ preorderAll ms := by
  induction ns with
  | nil => simp [preorderAll]
  | cons n ns ih => simp only [List.cons_append, preorderAll, ih, List.append_assoc]

theorem preorderAll_eq_flatMap (ns : List Node) : preorderAll ns = ns.flatMap preorder := by
  induction ns with
  | nil => rw [preorderAll, List.flatMap_nil]
  | cons n ns ih => rw [preorderAll, List.flatMap_cons, ih]

theorem mem_preorderAll {n : Node} {ns : List Node} :
    n ∈ preorderAll ns ↔ ∃ m ∈ ns, n ∈ m.preorder := by
  induction ns with
  | nil => simp [preorderAll]
  | cons m ns ih => simp [preorderAll, ih]

theorem unstack_eq (pending found : List Node) :
    unstack pending found = found.reverse ++ preorderAll pending := by
  fun_induction unstack pending found with
  | case1 found => simp [preorderAll]
  | case2 found n pending ih =>
      rw [ih, preorderAll_append, preorderAll, preorder_eq]
      simp

theorem descendants_eq_preorder (n : Node) : n.descendants = n.preorder := by
  simp [descendants, unstack_eq, preorderAll]

/-! ## One node at a time -/

/-- The next node of a stack of pending nodes, and the stack that it leaves. -/
def next? : List Node → Option (Node × List Node)
  | [] => none
  | n :: pending => some (n, n.children ++ pending)

/-- Asked until there is no next node, the stack gives the listed nodes. -/
inductive Yields : List Node → List Node → Prop
  | done {pending} : next? pending = none → Yields pending []
  | more {pending n later ns} : next? pending = some (n, later) → Yields later ns →
      Yields pending (n :: ns)

theorem unstack_of_done {pending : List Node} (h : next? pending = none) (found : List Node) :
    unstack pending found = found.reverse := by
  cases pending with
  | nil => rw [unstack]
  | cons n pending => cases h

theorem unstack_of_more {pending later : List Node} {n : Node} (h : next? pending = some (n, later))
    (found : List Node) : unstack pending found = unstack later (n :: found) := by
  cases pending with
  | nil => cases h
  | cons n pending =>
      cases h
      rw [unstack]

theorem Yields.unstack_eq {pending ns : List Node} (h : Yields pending ns) (found : List Node) :
    unstack pending found = found.reverse ++ ns := by
  induction h generalizing found with
  | done h => rw [unstack_of_done h, List.append_nil]
  | more h _ ih => rw [unstack_of_more h, ih, List.reverse_cons, List.append_assoc]; rfl

theorem yields_preorderAll (pending : List Node) : Yields pending (preorderAll pending) := by
  -- The loop that empties the stack also bounds how often there is a next node.
  induction pending, ([] : List Node) using unstack.induct with
  | case1 found => exact .done rfl
  | case2 found n pending ih =>
      rw [preorderAll_append] at ih
      rw [preorderAll, preorder_eq]
      exact .more rfl ih

theorem yields_singleton_iff {root : Node} {ns : List Node} :
    Yields [root] ns ↔ ns = root.descendants := by
  constructor
  · intro h
    exact (h.unstack_eq []).symm
  · rintro rfl
    have hall := yields_preorderAll [root]
    rw [preorderAll_eq_flatMap, List.flatMap_singleton] at hall
    rwa [descendants_eq_preorder]

end ConcurrencyLint.Node
