import ConcurrencyLint.Proofs.Node.Address
import ConcurrencyLint.Proofs.Scope.Stack

/-!
# The scopes of a recursive walk

What `Visitor.visit` does at a node, with the open scopes worked out: a subtree leaves them as they
were, but for the spawns that it adds to the innermost one.
-/

namespace ConcurrencyLint.Visitor

variable {α : Type} {v : Visitor α} {w : Setting}

mutual

theorem visit_snd : (n : Node) → (s : ScopeStack) →
    (v.visit w s n).2 = s.addSpawns (n.spawnsOf w.points none n.addresses)
  | ⟨kind, span, children⟩, s => by
      rw [Node.addresses, visit]
      cases h : Node.opens w.points ⟨kind, span, children⟩ with
      | none =>
          simp only [Option.isSome_none, Bool.false_eq_true, ↓reduceIte]
          rw [w.scopesAt_of_not_opens s h, visitAll_snd children, ScopeStack.addSpawns_addSpawns,
            Node.spawnsOf_none_of_not_opens _ h]
      | some opened =>
          simp only [Option.isSome_some, ↓reduceIte]
          rw [w.scopesAt_of_opens s h, visitAll_snd children, ScopeStack.addSpawns_addSpawns,
            ScopeStack.pop_addSpawns_push, Node.spawnsOf_none_of_opens _ h]
          simp

theorem visitAll_snd : (ns : List Node) → (s : ScopeStack) →
    (v.visitAll w s ns).2 = s.addSpawns (Node.spawnsOfAll w.points ns none (Node.addressesAll ns))
  | [], s => by simp [visitAll, Node.spawnsOfAll, Node.addressesAll]
  | n :: ns, s => by
      rw [visitAll, visitAll_snd ns, visit_snd n, ScopeStack.addSpawns_addSpawns,
        Node.spawnsOfAll_none_cons]

end

theorem visitAll_cons (n : Node) (ns : List Node) (s : ScopeStack) :
    (v.visitAll w s (n :: ns)).1 = (v.visit w s n).1 ++
      (v.visitAll w (s.addSpawns (n.spawnsOf w.points none n.addresses)) ns).1 := by
  rw [visitAll, ← visit_snd n]

/-- After the children of a node that opens a scope, this scope is on top with the spawns that the
node owns, over the scopes open before the node. -/
theorem pop_visitAll_of_opens {n : Node} {kind : ScopeKind} (s : ScopeStack)
    (h : n.opens w.points = some kind) :
    (v.visitAll w (w.scopesAt s n) n.children).2.pop =
      (some ⟨kind, n.span, n.spawnsOf w.points (some []) n.addresses⟩, s) := by
  rw [visitAll_snd, w.scopesAt_of_opens s h, ScopeStack.addSpawns_addSpawns,
    ScopeStack.pop_addSpawns_push, n.addresses_eq, Node.spawnsOf_self_of_opens _ h]

/-- What is collected from a tree: at its root, below the root, and at the exit of the root's scope if
there is one. -/
theorem visit_fst (n : Node) (s : ScopeStack) :
    (v.visit w s n).1 = v.enter (w.nodeContext (w.scopesAt s n)) n ++
      (v.visitAll w (w.scopesAt s n) n.children).1 ++
      (n.scopeAt? w.points []).toList.flatMap fun c => v.leave (w.exitContext c) c := by
  rw [Node.scopeAt?_nil]
  cases h : n.opens w.points with
  | none =>
      obtain ⟨kind, span, children⟩ := n
      simp [visit, h]
  | some opened =>
      have hpop := pop_visitAll_of_opens (v := v) s h
      obtain ⟨kind, span, children⟩ := n
      rw [visit]
      simp only [h, Option.isSome_some, ↓reduceIte, Option.map_some, Option.toList_some,
        List.flatMap_singleton]
      rw [hpop]

end ConcurrencyLint.Visitor
