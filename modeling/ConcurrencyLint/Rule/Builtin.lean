import ConcurrencyLint.Node.Traversal
import ConcurrencyLint.Rule.Basic

/-!
# The built-in rules

Seven rules about unstructured tasks, streams and recovered sources. Each is given by its header
and by what it finds at a node or at the exit of a scope.
-/

namespace ConcurrencyLint

/-- A rule of the catalogue. -/
inductive BuiltinRule where
  | detachedTask
  | taskInInitializer
  | taskInRenderPath
  | streamTermination
  | excessiveSpawns
  | backgroundPriority
  | unparsableSource
  deriving DecidableEq, Repr

/-- The settings of the rules that have any. -/
structure RuleOptions where
  /-- The most spawns that one scope may hold. -/
  maxTasks : Nat := 3
  /-- The stream types whose construction is checked. -/
  constructors : List String := ["AsyncStream", "AsyncThrowingStream"]
  /-- Also accept a handler that is named inside a closure passed to the construction. -/
  acceptContinuationHandler : Bool := false
  deriving DecidableEq, Repr

/-- The handler that ends a stream's producer. -/
def terminationHandler : String := "onTermination"

/-- A construction of one of the checked stream types. -/
def RuleOptions.isStreamConstruction (o : RuleOptions) (n : Node) : Bool :=
  n.callee.any fun callee => o.constructors.contains callee

/-- The construction installs a termination handler, as an argument or, where that is accepted, in
one of its closures. -/
def RuleOptions.installsHandler (o : RuleOptions) (call : Node) : Bool :=
  call.hasArgument terminationHandler
    || (o.acceptContinuationHandler
      && call.closureArguments.any fun c =>
        c.descendants.any fun n => n.member == some terminationHandler)

namespace BuiltinRule

/-- All built-in rules, in code order. -/
def all : List BuiltinRule :=
  [.detachedTask, .taskInInitializer, .taskInRenderPath, .streamTermination, .excessiveSpawns,
    .backgroundPriority, .unparsableSource]

def header : BuiltinRule → RuleHeader
  | .detachedTask =>
    { name := "detached-task"
      code := "CC-CONC-001"
      description := "Flags Task.detached, which escapes structured concurrency"
      severity := .warning }
  | .taskInInitializer =>
    { name := "task-in-initializer"
      code := "CC-CONC-002"
      description := "Forbids spawning tasks from initializers"
      severity := .error }
  | .taskInRenderPath =>
    { name := "task-in-render-path"
      code := "CC-CONC-003"
      description := "Forbids spawning tasks from body, layoutSubviews and updateUIView"
      severity := .error }
  | .streamTermination =>
    { name := "async-stream-missing-termination"
      code := "CC-CONC-004"
      description := "Requires AsyncStream continuations to set onTermination"
      severity := .warning }
  | .excessiveSpawns =>
    { name := "excessive-concurrent-spawns"
      code := "CC-CONC-005"
      description := "Limits the number of Task \x7b\x7d spawns in a single function"
      severity := .warning }
  | .backgroundPriority =>
    { name := "background-priority-inversion"
      code := "CC-CONC-008"
      description := "Flags Task(priority: .background)"
      severity := .warning }
  | .unparsableSource =>
    { name := "unparsable-source"
      code := "CC-PARSE-001"
      description := "Reports sources with syntax errors"
      severity := .warning }

/-- The built-in rule with the given name. -/
def ofName? (name : String) : Option BuiltinRule := all.find? fun b => b.header.name == name

/-- What a rule finds on entry to a node. -/
def inspectNode (b : BuiltinRule) (o : RuleOptions) (ctx : Context) (n : Node) : Option Finding :=
  match b with
  | .detachedTask =>
    if n.kind = .memberAccess (some taskType) "detached" then
      some ⟨n.span, "Task.detached usage - prefer structured concurrency",
        some "Use a child task (`async let`, a task group) or `Task \x7b\x7d` tied to its owner"⟩
    else none
  | .taskInInitializer =>
    if ctx.scope = .initializer ∧ n.isTaskSpawn then
      some ⟨n.span, "Task \x7b\x7d in initializer - causes side effects during init",
        some "Start the work from an explicit `start()` method or a `.task \x7b\x7d` modifier"⟩
    else none
  | .taskInRenderPath =>
    if ctx.scope = .renderingRoutine ∧ n.isTaskSpawn then
      some ⟨n.span, "Task \x7b\x7d in render/layout path - may block UI",
        some "Use the `.task \x7b\x7d` view modifier or move the work to a view model"⟩
    else none
  | .streamTermination =>
    if o.isStreamConstruction n ∧ !o.installsHandler n then
      some ⟨n.span, "AsyncStream without onTermination handler - may leak resources",
        some "Pass an `onTermination:` handler that cancels the producer"⟩
    else none
  | .excessiveSpawns => none
  | .backgroundPriority =>
    if n.isTaskSpawn ∧ (n.argument "priority").bind Node.member = some "background" then
      some ⟨n.span, ".background priority may cause priority inversion",
        some "Use `.utility` or inherit the caller's priority"⟩
    else none
  | .unparsableSource =>
    match n.kind with
    | .sourceFile (some s) =>
      some ⟨s, "Source could not be fully parsed - results may be incomplete", none⟩
    | _ => none

/-- What a rule finds when a scope closes. -/
def inspectScope (b : BuiltinRule) (o : RuleOptions) (closed : Scope) : Option Finding :=
  match b with
  | .excessiveSpawns =>
    if o.maxTasks < closed.spawns then
      some ⟨closed.span,
        "Too many concurrent Tasks (" ++ toString closed.spawns ++ ") in single function",
        some "Use `withTaskGroup` to run the work as child tasks"⟩
    else none
  | _ => none

/-- The rule under the given settings, reporting with the given severity. -/
def ruleWith (b : BuiltinRule) (severity : Severity) (o : RuleOptions) : Rule :=
  let header := { b.header with severity := severity }
  { toRuleHeader := header
    checkNode := fun ctx n => (b.inspectNode o ctx n).toList.map (header.violation ctx)
    checkScopeExit := fun ctx closed =>
      (b.inspectScope o closed).toList.map (header.violation ctx) }

/-- The rule under the given settings, reporting with its own severity. -/
def rule (b : BuiltinRule) (o : RuleOptions) : Rule := b.ruleWith b.header.severity o

end BuiltinRule

/-- The catalogue under the given settings, in code order. -/
def catalog (o : RuleOptions) : List Rule := BuiltinRule.all.map (·.rule o)

/-- The codes retired from the catalogue, which are never given out again. -/
def reservedCodes : List String := ["CC-CONC-006", "CC-CONC-007"]

end ConcurrencyLint
