import ConcurrencyLint.Report.Basic
import ConcurrencyLint.Scope.Basic

/-!
# Rules

A rule looks at every node on entry and at every scope when it closes. Rules are pure functions of
what they are shown and never see each other's findings.
-/

namespace ConcurrencyLint

/-- One input: the name that tags its violations, and its text. -/
structure SourceUnit where
  identifier : String
  text : String
  deriving DecidableEq, Repr

/-- The name of the unit read from standard input. -/
def stdinIdentifier : String := "<stdin>"

/-- What a rule knows about the place it is called at. -/
structure Context where
  unit : SourceUnit
  scope : ScopeKind
  /-- The spawns attributed so far to the innermost scope, if one is open. -/
  spawns : Option Nat

/-- The place of a span in the unit being walked. -/
def Context.location (ctx : Context) (s : Span) : Location where
  file := ctx.unit.identifier
  line := s.line
  column := s.column
  offset := s.offset
  length := s.length

/-- The fixed part of a rule. -/
structure RuleHeader where
  name : String
  code : String
  description : String := ""
  /-- The severity of the rule's findings, before any override. -/
  severity : Severity := .error
  deriving DecidableEq, Repr

/-- Something a rule found. -/
structure Finding where
  span : Span
  message : String
  suggestion : Option String := none
  deriving DecidableEq, Repr

/-- A finding reported under a rule's name, code and severity. -/
def RuleHeader.violation (h : RuleHeader) (ctx : Context) (f : Finding) : Violation where
  code := h.code
  rule := h.name
  severity := h.severity
  location := ctx.location f.span
  message := f.message
  suggestion := f.suggestion

/-- A check with its names. -/
structure Rule extends RuleHeader where
  /-- The violations on entry to a node. -/
  checkNode : Context → Node → List Violation := fun _ _ => []
  /-- The violations when a scope closes; the context describes that scope itself. -/
  checkScopeExit : Context → Scope → List Violation := fun _ _ => []

/-- The rule goes by the given name or code. -/
def Rule.isKnownAs (r : Rule) (key : String) : Bool := r.name == key || r.code == key

end ConcurrencyLint
