import ConcurrencyLint.Node.Traversal
import ConcurrencyLint.Rule.Basic

/-!
# Walking a tree under its scopes

A `Visitor` is called on entry to every node and on the exit of every scope. `Visitor.walk` drives
it with an explicit stack of work beside the stack of open scopes, so that the depth of a tree is
bounded by memory only; `Visitor.visit` is the same traversal by recursion on the tree.
-/

namespace ConcurrencyLint

/-- What to collect on a walk. -/
structure Visitor (α : Type) where
  enter : Context → Node → List α
  leave : Context → Scope → List α

/-- The visitor that asks every rule in turn. -/
def Visitor.ofRules (rules : List Rule) : Visitor Violation where
  enter ctx n := rules.flatMap fun r => r.checkNode ctx n
  leave ctx s := rules.flatMap fun r => r.checkScopeExit ctx s

/-- Where a walk takes place: the unit and the entry points in force. -/
structure Setting where
  unit : SourceUnit
  points : EntryPoints

namespace Setting

/-- The context of a node, read off the scopes open at it. -/
def nodeContext (w : Setting) (scopes : ScopeStack) : Context :=
  ⟨w.unit, scopes.current, scopes.spawns⟩

/-- The context of a scope that has just closed: the scope itself. -/
def exitContext (w : Setting) (closed : Scope) : Context :=
  ⟨w.unit, closed.kind, some closed.spawns⟩

/-- The scopes open while a node is looked at: its own scope is open already, and a task spawn has
counted itself. -/
def scopesAt (w : Setting) (scopes : ScopeStack) (n : Node) : ScopeStack :=
  let opened := match n.opens w.points with
    | some kind => scopes.push kind n.span
    | none => scopes
  if n.isTaskSpawn then opened.recordSpawn.2 else opened

end Setting

/-- A piece of pending work. -/
inductive Step where
  | enter (n : Node)
  | exit

/-- The work that remains, as a bound on the steps that a machine can take. -/
def Step.weight : Step → Nat
  | .enter n => 2 * n.size
  | .exit => 1

def Step.weightAll : List Step → Nat
  | [] => 0
  | s :: work => s.weight + weightAll work

/-- A walk in progress: the pending work, the open scopes, and what was collected, the latest
first. -/
structure Machine (α : Type) where
  work : List Step
  scopes : ScopeStack
  collected : List α

namespace Machine

variable {α : Type}

/-- The machine about to walk a tree. -/
def start (root : Node) : Machine α := ⟨[.enter root], .empty, []⟩

/-- Enters a node: opens its scope, counts it, collects, and leaves its children and the exit of its
scope as work. -/
def enterNode (v : Visitor α) (w : Setting) (n : Node) (work : List Step) (scopes : ScopeStack)
    (collected : List α) : Machine α :=
  let inner := w.scopesAt scopes n
  let after := if (n.opens w.points).isSome then .exit :: work else work
  ⟨n.children.map .enter ++ after, inner, (v.enter (w.nodeContext inner) n).reverse ++ collected⟩

/-- Closes the innermost scope and collects. With no scope open there is nothing to do. -/
def leaveScope (v : Visitor α) (w : Setting) (work : List Step) (scopes : ScopeStack)
    (collected : List α) : Machine α :=
  match scopes.pop with
  | (some closed, outer) =>
    ⟨work, outer, (v.leave (w.exitContext closed) closed).reverse ++ collected⟩
  | (none, outer) => ⟨work, outer, collected⟩

/-- One step, unless no work is left. -/
def step (v : Visitor α) (w : Setting) (m : Machine α) : Option (Machine α) :=
  match m.work with
  | [] => none
  | .enter n :: work => some (enterNode v w n work m.scopes m.collected)
  | .exit :: work => some (leaveScope v w work m.scopes m.collected)

theorem weightAll_children (ns : List Node) (work : List Step) :
    Step.weightAll (ns.map .enter ++ work) = 2 * Node.sizeAll ns + Step.weightAll work := by
  induction ns with
  | nil => simp [Node.sizeAll]
  | cons n ns ih =>
    simp only [List.map_cons, List.cons_append, Step.weightAll, Step.weight, Node.sizeAll, ih]
    omega

/-- Every step leaves less work. -/
theorem weightAll_step {v : Visitor α} {w : Setting} {m m' : Machine α}
    (h : m.step v w = some m') : Step.weightAll m'.work < Step.weightAll m.work := by
  obtain ⟨work, scopes, collected⟩ := m
  match work with
  | [] => simp [step] at h
  | .enter n :: work =>
    simp only [step, Option.some.injEq] at h
    subst h
    simp only [enterNode, weightAll_children]
    split
    all_goals
      simp only [Step.weightAll, Step.weight, Node.size_eq]
      omega
  | .exit :: work =>
    simp only [step, Option.some.injEq] at h
    subst h
    simp only [leaveScope]
    split <;> simp only [Step.weightAll, Step.weight] <;> omega

/-- Runs a machine until no work is left. -/
def run (v : Visitor α) (w : Setting) (m : Machine α) : Machine α :=
  match _h : m.step v w with
  | none => m
  | some m' => run v w m'
termination_by Step.weightAll m.work
decreasing_by exact weightAll_step ‹_›

end Machine

namespace Visitor

variable {α : Type}

/-- Walks a tree in pre-order and returns what was collected, in order. -/
def walk (v : Visitor α) (w : Setting) (root : Node) : List α :=
  ((Machine.start root).run v w).collected.reverse

mutual

/-- Walks a tree by recursion and returns what was collected, with the scopes open afterwards. -/
def visit (v : Visitor α) (w : Setting) (scopes : ScopeStack) : Node → List α × ScopeStack
  | ⟨kind, span, children⟩ =>
    let n : Node := ⟨kind, span, children⟩
    let inner := w.scopesAt scopes n
    let entered := v.enter (w.nodeContext inner) n
    let (below, rest) := visitAll v w inner children
    if (n.opens w.points).isSome then
      match rest.pop with
      | (some closed, outer) => (entered ++ below ++ v.leave (w.exitContext closed) closed, outer)
      | (none, outer) => (entered ++ below, outer)
    else (entered ++ below, rest)

/-- Walks a forest by recursion, from left to right. -/
def visitAll (v : Visitor α) (w : Setting) (scopes : ScopeStack) : List Node → List α × ScopeStack
  | [] => ([], scopes)
  | n :: ns =>
    let (first, between) := visit v w scopes n
    let (others, rest) := visitAll v w between ns
    (first ++ others, rest)

end

end Visitor

/-- The violations that a list of rules finds in a tree, in the order in which they fire. -/
def walkRules (rules : List Rule) (w : Setting) (root : Node) : List Violation :=
  (Visitor.ofRules rules).walk w root

end ConcurrencyLint
