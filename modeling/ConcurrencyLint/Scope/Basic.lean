import ConcurrencyLint.Node.Basic

/-!
# Scopes

A declaration may open a scope to which the task spawns below it are attributed. This module says
which nodes open a scope and of which kind, and holds the stack of the scopes open at one moment.
-/

namespace ConcurrencyLint

/-- The kind of scope that code stands in. -/
inductive ScopeKind where
  /-- No enclosing declaration. -/
  | topLevel
  | initializer
  /-- A function or computed property on a rendering path. -/
  | renderingRoutine
  | function
  deriving DecidableEq, Repr, Inhabited

def ScopeKind.label : ScopeKind → String
  | .topLevel => "none"
  | .initializer => "initializer"
  | .renderingRoutine => "rendering-routine"
  | .function => "function"

/-- The names of the functions that rendering calls. -/
structure EntryPoints where
  names : List String
  deriving DecidableEq, Repr

namespace EntryPoints

/-- The entry points known without configuration. -/
def builtin : EntryPoints := ⟨["body", "layoutSubviews", "updateUIView"]⟩

def contains (points : EntryPoints) (name : String) : Bool := points.names.contains name

/-- Adds a name at the end unless it is known already. -/
def insert (points : EntryPoints) (name : String) : EntryPoints :=
  if points.contains name then points else ⟨points.names ++ [name]⟩

/-- The built-in entry points and the extra ones. -/
def withExtra (extra : List String) : EntryPoints := extra.foldl insert builtin

end EntryPoints

/-- The computed property that rendering evaluates. -/
def renderProperty : String := "body"

/-- The kind of the scope that a node opens, if it opens one. -/
def Node.opens (points : EntryPoints) (n : Node) : Option ScopeKind :=
  match n.kind with
  | .initializer => some .initializer
  | .function name => some (if points.contains name then .renderingRoutine else .function)
  | .variables bindings =>
    if bindings.any (·.isComputed renderProperty) then some .renderingRoutine else none
  | _ => none

/-- A scope: its kind, the place of the declaration that opened it, and the task spawns attributed
to it so far. -/
structure Scope where
  kind : ScopeKind
  span : Span
  spawns : Nat := 0
  deriving DecidableEq, Repr

/-- The scopes open at one moment, the innermost first. -/
structure ScopeStack where
  frames : List Scope := []
  deriving DecidableEq, Repr

namespace ScopeStack

def empty : ScopeStack := ⟨[]⟩

/-- Opens a scope with no spawns yet. -/
def push (s : ScopeStack) (kind : ScopeKind) (span : Span) : ScopeStack :=
  ⟨⟨kind, span, 0⟩ :: s.frames⟩

/-- Closes the innermost scope, if one is open. -/
def pop (s : ScopeStack) : Option Scope × ScopeStack := (s.frames.head?, ⟨s.frames.tail⟩)

/-- The kind of the innermost scope. -/
def current (s : ScopeStack) : ScopeKind :=
  match s.frames with
  | [] => .topLevel
  | frame :: _ => frame.kind

/-- The spawns attributed to the innermost scope, if one is open. -/
def spawns (s : ScopeStack) : Option Nat := s.frames.head?.map Scope.spawns

/-- Attributes one task spawn to the innermost scope and says whether there was one. -/
def recordSpawn (s : ScopeStack) : Bool × ScopeStack :=
  match s.frames with
  | [] => (false, s)
  | frame :: outer => (true, ⟨{ frame with spawns := frame.spawns + 1 } :: outer⟩)

/-- The number of open scopes. -/
def depth (s : ScopeStack) : Nat := s.frames.length

end ScopeStack

end ConcurrencyLint
