import ConcurrencyLint.Config
import ConcurrencyLint.Rule.Builtin

/-!
# The catalogue under a configuration

Settings of a rule are read from the block under its name or, if there is none, from the block
under its code.
-/

namespace ConcurrencyLint

/-- The block that the settings of a built-in rule come from. -/
def BuiltinRule.block? (b : BuiltinRule) (c : Config) : Option RuleConfig :=
  (c.rule? b.header.name).or (c.rule? b.header.code)

/-- A configured limit: a number that can be used, or the reason why it cannot. -/
def readLimit (v : Toml.Value) : Except String Nat :=
  match v.asInteger? with
  | some n =>
    if 0 ≤ n then .ok n.toNat else .error ("Ignoring negative max_tasks = " ++ v.display)
  | none => .error ("Ignoring non-integer max_tasks = " ++ v.display)

namespace RuleOptions

/-- The limit that a configuration sets for the spawns of one scope, if it sets any. -/
def configuredLimit (c : Config) : Option (Except String Nat) :=
  ((BuiltinRule.excessiveSpawns.block? c).bind (·.option? "max_tasks")).map readLimit

/-- The settings of the rules under a configuration. -/
def ofConfig (c : Config) : RuleOptions :=
  let defaults : RuleOptions := {}
  let limit := match configuredLimit c with
    | some (.ok n) => n
    | _ => defaults.maxTasks
  match BuiltinRule.streamTermination.block? c with
  | none => { defaults with maxTasks := limit }
  | some block =>
    let constructors := block.strings "constructors"
    { maxTasks := limit
      constructors := if constructors.isEmpty then defaults.constructors else constructors
      acceptContinuationHandler := block.bool "accept_continuation_handler" false }

/-- What is said about settings that are passed over. -/
def warnings (c : Config) : List String :=
  match configuredLimit c with
  | some (.error message) => [message]
  | _ => []

end RuleOptions

/-- The catalogue with its settings taken from a configuration. Disabling rules and changing their
severity is the analyzer's work. -/
def catalogFor (c : Config) : List Rule := catalog (.ofConfig c)

end ConcurrencyLint
