import ConcurrencyLint.Node.Basic

/-!
# Pre-order traversal

`Node.preorder` is the structural order: a node, then its children's orders from left to right.
`Node.descendants` lists the same nodes with an explicit stack, so that the depth of a tree is
bounded by memory only.
-/

namespace ConcurrencyLint.Node

mutual

/-- The number of nodes of a tree. -/
def size : Node → Nat
  | ⟨_, _, children⟩ => sizeAll children + 1

/-- The number of nodes of a forest. -/
def sizeAll : List Node → Nat
  | [] => 0
  | n :: ns => n.size + sizeAll ns

end

theorem size_eq (n : Node) : n.size = sizeAll n.children + 1 := by
  cases n
  rw [size]

theorem sizeAll_append (ns ms : List Node) : sizeAll (ns ++ ms) = sizeAll ns + sizeAll ms := by
  induction ns with
  | nil => simp [sizeAll]
  | cons n ns ih => simp [sizeAll, ih, Nat.add_assoc]

mutual

/-- The nodes of a tree, each before its children and these from left to right. -/
def preorder : Node → List Node
  | ⟨kind, span, children⟩ => ⟨kind, span, children⟩ :: preorderAll children

/-- The nodes of a forest in order. -/
def preorderAll : List Node → List Node
  | [] => []
  | n :: ns => n.preorder ++ preorderAll ns

end

/-- Empties a stack of pending nodes onto the reversed list of the nodes found so far. -/
def unstack : List Node → List Node → List Node
  | [], found => found.reverse
  | n :: pending, found => unstack (n.children ++ pending) (n :: found)
termination_by pending => sizeAll pending
decreasing_by
  simp only [sizeAll_append, sizeAll, size_eq]
  omega

/-- The node and everything below it, in pre-order. -/
def descendants (n : Node) : List Node := unstack [n] []

end ConcurrencyLint.Node
