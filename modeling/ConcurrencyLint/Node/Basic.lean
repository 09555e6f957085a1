/-!
# Syntax trees

The closed tree model that rules look at. Only the constructs a rule or the scope tracker can tell
apart have a kind of their own; every other construct is `NodeKind.other` and is still walked.
-/

namespace ConcurrencyLint

/-- The type whose construction spawns an unstructured task. -/
def taskType : String := "Task"

/-- Where a construct stands in its source unit. Lines and columns count from one; columns and the
extent are measured in bytes. -/
structure Span where
  line : Nat
  column : Nat
  offset : Nat := 0
  length : Nat := 0
  deriving DecidableEq, Repr, Inhabited

/-- The byte offset just after the construct. -/
def Span.stop (s : Span) : Nat := s.offset + s.length

/-- One binding of a variable declaration. The name is absent when the pattern is not a plain
identifier. -/
structure Binding where
  name : Option String
  hasAccessorBlock : Bool
  deriving DecidableEq, Repr

/-- A computed property with the given name. -/
def Binding.isComputed (b : Binding) (name : String) : Bool :=
  b.hasAccessorBlock && b.name == some name

/-- What a node is. -/
inductive NodeKind where
  /-- The root of a unit, with the place of the first construct that had to be recovered from. -/
  | sourceFile (firstError : Option Span)
  | initializer
  | function (name : String)
  | variables (bindings : List Binding)
  /-- A call or construction. The callee is named only when it is a plain reference. -/
  | call (callee : Option String)
  /-- A call argument; its first child is the value. -/
  | argument (label : Option String)
  /-- `base.member`; the base is named only when it is a plain reference. -/
  | memberAccess (base : Option String) (member : String)
  | identifier (name : String)
  | closure
  /-- A region that could not be represented. -/
  | error
  | other (tag : String)
  deriving DecidableEq, Repr, Inhabited

/-- A node of the tree: its kind, its place and its children in source order. -/
structure Node where
  kind : NodeKind
  span : Span
  children : List Node := []
  deriving Inhabited

namespace Node

/-- The name called, if this is a call with a plainly named callee. -/
def callee (n : Node) : Option String :=
  match n.kind with
  | .call callee => callee
  | _ => none

def isCallTo (n : Node) (name : String) : Bool := n.callee == some name

/-- The node spawns an unstructured task. -/
def isTaskSpawn (n : Node) : Bool := n.isCallTo taskType

/-- The label and value of a node that is a call argument. -/
def asArgument (n : Node) : Option (Option String × Option Node) :=
  match n.kind with
  | .argument label => some (label, n.children.head?)
  | _ => none

/-- Labels and values of the call arguments, in source order. -/
def arguments (n : Node) : List (Option String × Option Node) := n.children.filterMap asArgument

def hasArgument (n : Node) (label : String) : Bool :=
  n.arguments.any fun a => a.1 == some label

/-- The value of the first argument with the given label. -/
def argument (n : Node) (label : String) : Option Node :=
  (n.arguments.find? fun a => a.1 == some label).bind Prod.snd

/-- The member named, if this is a member access. -/
def member (n : Node) : Option String :=
  match n.kind with
  | .memberAccess _ member => some member
  | _ => none

def isClosure (n : Node) : Bool := n.kind == .closure

/-- The closure a call's child passes to the call: a trailing closure itself, or the value of an
argument when that value is a closure. -/
def passedClosure (child : Node) : Option Node :=
  match child.kind with
  | .closure => some child
  | .argument _ => child.children.head?.filter isClosure
  | _ => none

/-- The closures passed to a call, in source order. -/
def closureArguments (n : Node) : List Node := n.children.filterMap passedClosure

end Node

end ConcurrencyLint
