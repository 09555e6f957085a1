import ConcurrencyLint.Proofs.Walk.Recursion
import ConcurrencyLint.Proofs.Walk.Scopes
import ConcurrencyLint.Trace
import Mathlib.Algebra.GroupWithZero.Nat

/-!
# The calls made on a walk

The trace of a walk holds the calls that every visitor gets. Its entries are the nodes of the tree in
pre-order, each in the context of its owner; its exits are the scopes of the tree in post-order, each
with the spawns that it owns.
-/

namespace ConcurrencyLint

/-- What a visitor collects at one call. -/
def Visitor.respond {α : Type} (v : Visitor α) : TraceEvent → List α
  | .enter n ctx => v.enter ctx n
  | .exit closed ctx => v.leave ctx closed

namespace TraceEvent

def entry? : TraceEvent → Option (Node × Context)
  | .enter n ctx => some (n, ctx)
  | .exit _ _ => none

def closing? : TraceEvent → Option (Scope × Context)
  | .enter _ _ => none
  | .exit closed ctx => some (closed, ctx)

/-- The nodes entered on a trace, each with its context. -/
def entries (trace : List TraceEvent) : List (Node × Context) := trace.filterMap entry?

/-- The scopes closed on a trace, each with the context of its exit. -/
def closings (trace : List TraceEvent) : List (Scope × Context) := trace.filterMap closing?

variable {α : Type} {f : TraceEvent → List α} (trace : List TraceEvent)

theorem flatMap_eq_closings (h : ∀ n ctx, f (.enter n ctx) = []) :
    trace.flatMap f = (closings trace).flatMap fun c => f (.exit c.1 c.2) := by
  induction trace with
  | nil => rfl
  | cons e trace ih =>
      cases e with
      | enter n ctx => rw [List.flatMap_cons, h, List.nil_append, ih]; rfl
      | exit closed ctx => rw [List.flatMap_cons, ih]; rfl

theorem flatMap_eq_entries (h : ∀ closed ctx, f (.exit closed ctx) = []) :
    trace.flatMap f = (entries trace).flatMap fun e => f (.enter e.1 e.2) := by
  induction trace with
  | nil => rfl
  | cons e trace ih =>
      cases e with
      | enter n ctx => rw [List.flatMap_cons, ih]; rfl
      | exit closed ctx => rw [List.flatMap_cons, h, List.nil_append, ih]; rfl

end TraceEvent

/-! ## All visitors get the same calls -/

namespace Visitor

variable {α : Type} {v : Visitor α} {w : Setting}

mutual

theorem visit_eq_respond : (n : Node) → (s : ScopeStack) →
    (v.visit w s n).1 = (tracer.visit w s n).1.flatMap v.respond
  | ⟨kind, span, children⟩, s => by
      rw [visit_fst, visit_fst, visitAll_eq_respond children]
      simp [tracer, respond, List.flatMap_assoc]

theorem visitAll_eq_respond : (ns : List Node) → (s : ScopeStack) →
    (v.visitAll w s ns).1 = (tracer.visitAll w s ns).1.flatMap v.respond
  | [], s => by simp [visitAll]
  | n :: ns, s => by
      rw [visitAll_cons, visitAll_cons, visit_eq_respond n, visitAll_eq_respond ns,
        List.flatMap_append]

end

theorem walk_eq_respond (v : Visitor α) (w : Setting) (root : Node) :
    v.walk w root = (tracer.walk w root).flatMap v.respond := by
  rw [walk_eq_visit, walk_eq_visit, visit_eq_respond]

end Visitor

namespace TraceEvent

variable {w : Setting}

/-! ## Exits -/

theorem closings_visit_eq (n : Node) (s : ScopeStack) :
    closings (tracer.visit w s n).1 =
      closings (tracer.visitAll w (w.scopesAt s n) n.children).1 ++
        (n.scopeAt? w.points []).toList.map fun c => (c, w.exitContext c) := by
  rw [Visitor.visit_fst, closings, List.filterMap_append, List.filterMap_append]
  cases n.scopeAt? w.points [] <;> rfl

theorem closings_visitAll_cons (n : Node) (ns : List Node) (s : ScopeStack) :
    closings (tracer.visitAll w s (n :: ns)).1 = closings (tracer.visit w s n).1 ++
      closings (tracer.visitAll w (s.addSpawns (n.spawnsOf w.points none n.addresses)) ns).1 := by
  rw [Visitor.visitAll_cons, closings, List.filterMap_append]
  rfl

mutual

theorem closings_visit : (n : Node) → (s : ScopeStack) →
    closings (tracer.visit w s n).1 =
      (n.addressesUp.filterMap (n.scopeAt? w.points)).map fun c => (c, w.exitContext c)
  | ⟨kind, span, children⟩, s => by
      have hbelow : Node.scopeAt? w.points ⟨kind, span, children⟩ ∘ Place.below =
          Node.scopeAtAll? w.points children := funext (Node.scopeAt?_below _)
      rw [closings_visit_eq, closings_visitAll children, Node.addressesUp, List.filterMap_append,
        List.filterMap_map, hbelow, List.map_append]
      cases h : Node.scopeAt? w.points ⟨kind, span, children⟩ [] <;> simp [h]

theorem closings_visitAll : (ns : List Node) → (s : ScopeStack) →
    closings (tracer.visitAll w s ns).1 =
      ((Node.addressesUpAll ns).filterMap (Node.scopeAtAll? w.points ns)).map fun c =>
        (c, w.exitContext c)
  | [], s => by simp [Visitor.visitAll, Node.addressesUpAll, closings]
  | n :: ns, s => by
      have hfirst : Node.scopeAtAll? w.points (n :: ns) ∘ Place.first = n.scopeAt? w.points :=
        funext (Node.scopeAtAll?_first n ns)
      have hlater : Node.scopeAtAll? w.points (n :: ns) ∘ Place.later =
          Node.scopeAtAll? w.points ns := funext (Node.scopeAtAll?_later n ns)
      rw [closings_visitAll_cons, closings_visit n, closings_visitAll ns, Node.addressesUpAll,
        List.filterMap_append, List.filterMap_map, List.filterMap_map, hfirst, hlater,
        List.map_append]

end

mutual

/-- Every spawn of a tree is counted by one of its scopes or by none: nothing is lost or counted
twice. -/
theorem sum_spawns_closings : (n : Node) → (s : ScopeStack) →
    ((closings (tracer.visit w s n).1).map (·.1.spawns)).sum +
      n.spawnsOf w.points none n.addresses = n.preorder.countP Node.isTaskSpawn
  | ⟨kind, span, children⟩, s => by
      have ih := sum_spawns_closingsAll children (w.scopesAt s ⟨kind, span, children⟩)
      have hself : (if Node.isTaskSpawn ⟨kind, span, children⟩ = true then 1 else 0) =
          (Node.isTaskSpawn ⟨kind, span, children⟩).toNat := by
        cases Node.isTaskSpawn ⟨kind, span, children⟩ <;> rfl
      rw [closings_visit_eq, Node.preorder, List.countP_cons, hself, ← ih, List.map_append,
        List.sum_append, Node.scopeAt?_nil, Node.addresses]
      cases h : Node.opens w.points ⟨kind, span, children⟩ with
      | none =>
          rw [Node.spawnsOf_none_of_not_opens _ h]
          simp only [Option.map_none, Option.toList_none, List.map_nil, List.sum_nil]
          omega
      | some opened =>
          -- What had no owner below the root now counts for the root's scope.
          rw [Node.spawnsOf_none_of_opens _ h, Node.spawnsOf_self_of_opens _ h]
          simp only [Option.map_some, Option.toList_some, List.map_cons, List.map_nil,
            List.sum_cons, List.sum_nil]
          omega

theorem sum_spawns_closingsAll : (ns : List Node) → (s : ScopeStack) →
    ((closings (tracer.visitAll w s ns).1).map (·.1.spawns)).sum +
      Node.spawnsOfAll w.points ns none (Node.addressesAll ns) =
        (Node.preorderAll ns).countP Node.isTaskSpawn
  | [], s => by
      simp [Visitor.visitAll, Node.addressesAll, Node.spawnsOfAll, Node.preorderAll, closings]
  | n :: ns, s => by
      have ih := sum_spawns_closingsAll ns (s.addSpawns (n.spawnsOf w.points none n.addresses))
      rw [closings_visitAll_cons, List.map_append, List.sum_append, Node.spawnsOfAll_none_cons,
        Node.preorderAll, List.countP_append, ← sum_spawns_closings n s, ← ih]
      omega

end

end TraceEvent

/-! ## Contexts -/

namespace Node

variable {w : Setting}

/-- The context of an address: the kind of the owner's scope and the owner's spawns so far, or with
no owner in the tree the scopes around the tree, with the spawns so far that have no owner. -/
def contextAt (w : Setting) (outer : ScopeStack) (n : Node) (past : List Address) (a : Address) :
    Context :=
  match n.owner? w.points a with
  | some o =>
    ⟨w.unit, (n.opensAt? w.points o).getD .topLevel, some (n.spawnsOf w.points (some o) past)⟩
  | none => w.nodeContext (outer.addSpawns (n.spawnsOf w.points none past))

def contextAtAll (w : Setting) (outer : ScopeStack) (ns : List Node) (past : List Place)
    (p : Place) : Context :=
  match ownerAll? w.points ns p with
  | some q =>
    ⟨w.unit, ((atAll? ns q).bind (·.opens w.points)).getD .topLevel,
      some (spawnsOfAll w.points ns (some q) past)⟩
  | none => w.nodeContext (outer.addSpawns (spawnsOfAll w.points ns none past))

theorem contextAt_nil (n : Node) (s : ScopeStack) :
    n.contextAt w s [[]] [] = w.nodeContext (w.scopesAt s n) := by
  have hpast : ([[]] : List Address) = [] :: ([] : List Place).map Place.below := rfl
  rw [contextAt, owner?_nil, hpast]
  cases h : n.opens w.points with
  | none =>
      simp only [Option.map_none]
      rw [spawnsOf_none_of_not_opens _ h, w.scopesAt_of_not_opens s h]; rfl
  | some kind =>
      simp only [Option.map_some]
      rw [spawnsOf_self_of_opens _ h, w.scopesAt_of_opens s h]
      simp [opensAt?, h, spawnsOfAll, Setting.nodeContext]

theorem contextAt_below (n : Node) (s : ScopeStack) (past : List Place) (p : Place) :
    n.contextAt w s ([] :: past.map Place.below) p.below =
      contextAtAll w (w.scopesAt s n) n.children past p := by
  rw [contextAt, contextAtAll, owner?_below, owner?_nil]
  cases ownerAll? w.points n.children p with
  | some q => simp [opensAt?, spawnsOf_below]
  | none =>
      cases h : n.opens w.points with
      | none => simp [spawnsOf_none_of_not_opens _ h, w.scopesAt_of_not_opens s h]
      | some kind =>
          simp [opensAt?, h, spawnsOf_self_of_opens _ h, w.scopesAt_of_opens s h,
            Setting.nodeContext]

theorem contextAtAll_first (n : Node) (ns : List Node) (s : ScopeStack) (past : List Address)
    (a : Address) :
    contextAtAll w s (n :: ns) (past.map Place.first) (.first a) = n.contextAt w s past a := by
  rw [contextAtAll, contextAt, ownerAll?_first]
  cases n.owner? w.points a with
  | none =>
      have hcount : spawnsOfAll w.points (n :: ns) none (past.map .first) =
          n.spawnsOf w.points none past := spawnsOfAll_first n ns past none
      simp only [Option.map_none, hcount]
  | some o =>
      have hcount : spawnsOfAll w.points (n :: ns) (some (.first o)) (past.map .first) =
          n.spawnsOf w.points (some o) past := spawnsOfAll_first n ns past (some o)
      simp only [Option.map_some, hcount, atAll?_first, opensAt?]

theorem contextAtAll_later (n : Node) (ns : List Node) (s : ScopeStack) (past : List Place)
    (p : Place) :
    contextAtAll w s (n :: ns) (n.addresses.map Place.first ++ past.map Place.later) p.later =
      contextAtAll w (s.addSpawns (n.spawnsOf w.points none n.addresses)) ns past p := by
  rw [contextAtAll, contextAtAll, ownerAll?_later]
  cases ownerAll? w.points ns p with
  | none =>
      have hfirst : spawnsOfAll w.points (n :: ns) none (n.addresses.map .first) =
          n.spawnsOf w.points none n.addresses := spawnsOfAll_first n ns _ none
      have hlater : spawnsOfAll w.points (n :: ns) none (past.map .later) =
          spawnsOfAll w.points ns none past := spawnsOfAll_later n ns past none
      simp only [Option.map_none, spawnsOfAll_append, hfirst, hlater,
        ScopeStack.addSpawns_addSpawns]
  | some q =>
      have hlater : spawnsOfAll w.points (n :: ns) (some q.later) (past.map .later) =
          spawnsOfAll w.points ns (some q) past := spawnsOfAll_later n ns past (some q)
      simp only [Option.map_some, spawnsOfAll_append, spawnsOfAll_first_of_later, hlater,
        Nat.zero_add, atAll?_later]

end Node

/-! ## Entries -/

namespace TraceEvent

variable {w : Setting}

theorem entries_visit_eq (n : Node) (s : ScopeStack) :
    entries (tracer.visit w s n).1 = (n, w.nodeContext (w.scopesAt s n)) ::
      entries (tracer.visitAll w (w.scopesAt s n) n.children).1 := by
  rw [Visitor.visit_fst, entries, List.filterMap_append, List.filterMap_append]
  cases n.scopeAt? w.points [] <;> exact List.append_nil _

theorem entries_visitAll_cons (n : Node) (ns : List Node) (s : ScopeStack) :
    entries (tracer.visitAll w s (n :: ns)).1 = entries (tracer.visit w s n).1 ++
      entries (tracer.visitAll w (s.addSpawns (n.spawnsOf w.points none n.addresses)) ns).1 := by
  rw [Visitor.visitAll_cons, entries, List.filterMap_append]
  rfl

mutual

theorem entries_visit : (n : Node) → (s : ScopeStack) →
    (entries (tracer.visit w s n).1).map (Prod.map some id) =
      mapPast (fun past a => (n.at? a, n.contextAt w s past a)) n.addresses
  | ⟨kind, span, children⟩, s => by
      rw [entries_visit_eq, List.map_cons, entries_visitAll children, Node.addresses, mapPast,
        mapPast_map]
      simp only [Node.at?_nil, Node.at?_below, Node.contextAt_nil, Node.contextAt_below]
      rfl

theorem entries_visitAll : (ns : List Node) → (s : ScopeStack) →
    (entries (tracer.visitAll w s ns).1).map (Prod.map some id) =
      mapPast (fun past p => (Node.atAll? ns p, Node.contextAtAll w s ns past p))
        (Node.addressesAll ns)
  | [], s => by simp [Visitor.visitAll, Node.addressesAll, mapPast, entries]
  | n :: ns, s => by
      rw [entries_visitAll_cons, List.map_append, entries_visit n, entries_visitAll ns,
        Node.addressesAll, mapPast_append, mapPast_map, mapPast_map]
      simp only [Node.atAll?_first, Node.atAll?_later, Node.contextAtAll_first,
        Node.contextAtAll_later]

end

end TraceEvent

end ConcurrencyLint
