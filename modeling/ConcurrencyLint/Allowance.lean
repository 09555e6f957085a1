import ConcurrencyLint.Text.Blank
import ConcurrencyLint.Text.Split

/-!
# Allowance comments

A comment such as `// concurrency-guard: allow(detached-task) reason="logging"` allows the rules it
names on its own line and on the line after it. Rules are named by name or code; `all` names every
rule.
-/

namespace ConcurrencyLint

/-- A parsed allowance comment. -/
structure Directive where
  /-- The names and codes allowed, as written. -/
  rules : List String
  reason : Option String
  deriving DecidableEq, Repr

namespace Directive

/-- What an allowance comment starts with. -/
def marker : List Char := "concurrency-guard:".toList

/-- The key that allows every rule. -/
def everyRule : String := "all"

/-- The text from the first `//` on. -/
def commentOf : List Char → Option (List Char)
  | [] => none
  | c :: cs =>
    match c, cs with
    | '/', '/' :: _ => some (c :: cs)
    | _, _ => commentOf cs

/-- The non-blank items of a comma-separated list. -/
def items (cs : List Char) : List String :=
  ((Text.splitAt ',' cs).map Text.trim).filterMap fun item =>
    if item.isEmpty then none else some (String.ofList item)

/-- The quoted reason, if the text starts with one. -/
def reasonOf (cs : List Char) : Option String := do
  let value ← "reason=".toList.isPrefixOf? (Text.trim cs)
  let quoted ← ['"'].isPrefixOf? (Text.trim value)
  let (reason, _) ← Text.cutAt '"' quoted
  return String.ofList reason

/-- The allowance comment of a line. The comment is what follows the first `//` of the line. -/
def parse (line : List Char) : Option Directive := do
  let comment ← commentOf line
  let body ← marker.isPrefixOf? (Text.trim (comment.dropWhile (· == '/')))
  let allowed ← "allow(".toList.isPrefixOf? (Text.trim body)
  let (list, rest) ← Text.cutAt ')' (Text.trim allowed)
  let rules := items list
  if rules.isEmpty then none else some ⟨rules, reasonOf rest⟩

/-- The comment names every rule or one of the keys. -/
def covers (d : Directive) (keys : List String) : Bool :=
  d.rules.contains everyRule || keys.any d.rules.contains

end Directive

/-- Whether a rule is allowed at a line. -/
inductive Allowance where
  | denied
  | allowed (reason : Option String)
  deriving DecidableEq, Repr

namespace Allowance

def isAllowed : Allowance → Bool
  | .denied => false
  | .allowed _ => true

def reason : Allowance → Option String
  | .denied => none
  | .allowed reason => reason

/-- The lines whose comment reaches the given line: the one before it, then itself. Lines count from
one, so there is none before the first and none at all for line zero. -/
def reachingLines (line : Nat) : List Nat := [line - 1, line].filter (· ≠ 0)

/-- The comment of a line of the text, if the line exists and has one that covers the keys. -/
def coveringDirective (lines : List (List Char)) (keys : List String) (line : Nat) :
    Option Directive := do
  let text ← lines[line - 1]?
  let directive ← Directive.parse text
  if directive.covers keys then some directive else none

/-- Looks for an allowance comment that reaches a line and names one of the keys. -/
def check (content : String) (line : Nat) (keys : List String) : Allowance :=
  match (reachingLines line).findSome? (coveringDirective (Text.lines content.toList) keys) with
  | some directive => .allowed directive.reason
  | none => .denied

end Allowance

end ConcurrencyLint
