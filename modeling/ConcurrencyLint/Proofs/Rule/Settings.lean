import ConcurrencyLint.Rule.Catalog

/-!
# What a configuration sets for the rules

A rule takes its options from one block: the one under its name or, if there is none, the one under
its code. An option of the wrong type counts as absent, and a list of stream types without any text
leaves the usual ones.
-/

namespace ConcurrencyLint

open Toml (Value)

/-! ## The value of an option -/

/-- The value of an option, in the block that the settings of the rule come from. -/
def BuiltinRule.option? (b : BuiltinRule) (c : Config) (key : String) : Option Value :=
  (b.block? c).bind (·.option? key)

namespace RuleOptions

theorem maxTasks_ofConfig (c : Config) : (ofConfig c).maxTasks =
    match (BuiltinRule.excessiveSpawns.option? c "max_tasks").map readLimit with
    | some (.ok n) => n
    | _ => 3 := by
  rw [ofConfig]
  cases BuiltinRule.streamTermination.block? c <;> rfl

theorem constructors_ofConfig (c : Config) : (ofConfig c).constructors =
    let given := (((BuiltinRule.streamTermination.option? c "constructors").bind
      Toml.Value.asArray?).getD []).filterMap Toml.Value.asString?
    if given.isEmpty then ["AsyncStream", "AsyncThrowingStream"] else given := by
  rw [ofConfig, BuiltinRule.option?]
  cases BuiltinRule.streamTermination.block? c <;> rfl

theorem acceptContinuationHandler_ofConfig (c : Config) :
    (ofConfig c).acceptContinuationHandler =
      ((BuiltinRule.streamTermination.option? c "accept_continuation_handler").bind
        Toml.Value.asBoolean?).getD false := by
  rw [ofConfig, BuiltinRule.option?]
  cases BuiltinRule.streamTermination.block? c <;> rfl

end RuleOptions

/-! ## What the blocks say -/

namespace Config

/-- The blocks of a rule, known by its name and code, set an option. A block under the code counts
only where none stands under the name, whatever options that one has. -/
inductive Sets (c : Config) (name code key : String) (v : Value) : Prop
  | byName {block : RuleConfig} : c.rules.lookup name = some block →
      block.options.lookup key = some v → Sets c name code key v
  | byCode {block : RuleConfig} : c.rules.lookup name = none → c.rules.lookup code = some block →
      block.options.lookup key = some v → Sets c name code key v

/-- The blocks of the rule on streams set an option. -/
def SetsForStreams (c : Config) (key : String) (v : Value) : Prop :=
  c.Sets "async-stream-missing-termination" "CC-CONC-004" key v

/-- A stream type is listed among those to check. -/
def ListsStream (c : Config) (name : String) : Prop :=
  ∃ items, c.SetsForStreams "constructors" (.array items) ∧ .string name ∈ items

/-- Constructions of the stream type are checked. -/
inductive ChecksStream (c : Config) (name : String) : Prop
  | listed : c.ListsStream name → ChecksStream c name
  | usual : (∀ other, ¬c.ListsStream other) → name ∈ ["AsyncStream", "AsyncThrowingStream"] →
      ChecksStream c name

/-- A handler counts also where a closure passed to the construction names it. -/
def AcceptsHandlers (c : Config) : Prop :=
  c.SetsForStreams "accept_continuation_handler" (.boolean true)

end Config

/-! ## The settings are what the blocks say -/

theorem BuiltinRule.option?_eq_some_iff (b : BuiltinRule) (c : Config) (key : String) (v : Value) :
    b.option? c key = some v ↔ c.Sets b.header.name b.header.code key v := by
  rw [option?, block?, Option.bind_eq_some_iff]
  constructor
  · rintro ⟨block, hblock, hv⟩
    rcases Option.or_eq_some_iff.mp hblock with hname | ⟨hname, hcode⟩
    · exact .byName hname hv
    · exact .byCode hname hcode hv
  · intro h
    cases h with
    | byName hname hv => exact ⟨_, Option.or_eq_some_iff.mpr (.inl hname), hv⟩
    | byCode hname hcode hv => exact ⟨_, Option.or_eq_some_iff.mpr (.inr ⟨hname, hcode⟩), hv⟩

theorem Toml.Value.asString?_eq_some_iff (v : Value) (s : String) :
    v.asString? = some s ↔ v = .string s := by
  cases v <;> simp [asString?]

/-- The texts of an array are its members that are texts. -/
theorem mem_texts_iff (v : Option Value) (text : String) :
    text ∈ ((v.bind Value.asArray?).getD []).filterMap Value.asString? ↔
      ∃ items, v = some (.array items) ∧ .string text ∈ items := by
  have hitems (items : List Value) : text ∈ items.filterMap Value.asString? ↔
      .string text ∈ items := by
    simp [List.mem_filterMap, Value.asString?_eq_some_iff]
  rcases v with _ | v
  · simp
  · cases v <;> simp [Value.asArray?, hitems]

theorem Config.listsStream_iff (c : Config) (name : String) : c.ListsStream name ↔
    name ∈ (((BuiltinRule.streamTermination.option? c "constructors").bind
      Value.asArray?).getD []).filterMap Value.asString? := by
  rw [mem_texts_iff, ListsStream]
  refine exists_congr fun items => and_congr_left fun _ => ?_
  exact (BuiltinRule.streamTermination.option?_eq_some_iff c "constructors" _).symm

namespace RuleOptions

theorem mem_constructors_ofConfig (c : Config) (name : String) :
    name ∈ (ofConfig c).constructors ↔ c.ChecksStream name := by
  rw [constructors_ofConfig]
  have hlists := c.listsStream_iff
  generalize (((BuiltinRule.streamTermination.option? c "constructors").bind
    Value.asArray?).getD []).filterMap Value.asString? = given at hlists ⊢
  rcases given with _ | ⟨first, given⟩
  · constructor
    · intro h
      exact .usual (fun other hother => List.not_mem_nil ((hlists other).mp hother)) h
    · intro h
      cases h with
      | listed h => exact absurd ((hlists name).mp h) List.not_mem_nil
      | usual _ h => exact h
  · constructor
    · intro h
      exact .listed ((hlists name).mpr h)
    · intro h
      cases h with
      | listed h => exact (hlists name).mp h
      | usual hnone _ => exact absurd ((hlists first).mpr List.mem_cons_self) (hnone first)

theorem acceptContinuationHandler_ofConfig_iff (c : Config) :
    (ofConfig c).acceptContinuationHandler ↔ c.AcceptsHandlers := by
  have hsets : c.AcceptsHandlers ↔
      BuiltinRule.streamTermination.option? c "accept_continuation_handler" =
        some (.boolean true) :=
    (BuiltinRule.streamTermination.option?_eq_some_iff c _ _).symm
  rw [acceptContinuationHandler_ofConfig, hsets]
  rcases BuiltinRule.streamTermination.option? c "accept_continuation_handler" with _ | v
  · simp
  · cases v <;> simp [Value.asBoolean?]

end RuleOptions

end ConcurrencyLint
