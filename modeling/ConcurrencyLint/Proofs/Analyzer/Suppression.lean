import ConcurrencyLint.Proofs.Allowance.Form
import ConcurrencyLint.Proofs.Analyzer.Agreement
import ConcurrencyLint.Proofs.Walk.Attribution
import Mathlib.Data.List.Forall2

/-!
# Suppressed violations

Of the violations that a walk finds, those under an allowance comment are dropped. The others stay
in their order, each with the severity that the configuration gives it. What is dropped has been
found all the same, so a suppressed spawn counts for its scope.
-/

namespace ConcurrencyLint

variable {c : Config} {v v' : Violation} {s : Severity}

/-- The line of the violation or the line before it has an allowance comment that lists `all`, the
name of the violation's rule or its code. -/
def Violation.Suppressed (content : String) (v : Violation) : Prop :=
  ∃ key ∈ ["all", v.rule, v.code], Directive.NamesAt content (v.location.line - 1) key ∨
    Directive.NamesAt content v.location.line key

instance (content : String) (v : Violation) : Decidable (v.Suppressed content) :=
  inferInstanceAs (Decidable (∃ key ∈ ["all", v.rule, v.code], _))

theorem Analyzer.isAllowed_iff (u : SourceUnit) (v : Violation) :
    isAllowed u v ↔ v.Suppressed u.text :=
  Allowance.isAllowed_check_iff

/-! ## Severities -/

namespace Config

/-- No block under the key sets a severity. -/
def Ungraded (c : Config) (key : String) : Prop :=
  ∀ block, c.rule? key = some block → block.severity = none

/-- The severity of a violation under a configuration. -/
inductive Grades (c : Config) (v : Violation) : Severity → Prop
  | byName {block : RuleConfig} {s : Severity} : c.rule? v.rule = some block →
      block.severity = some s → Grades c v s
  | byCode {block : RuleConfig} {s : Severity} : c.Ungraded v.rule → c.rule? v.code = some block →
      block.severity = some s → Grades c v s
  | own : c.Ungraded v.rule → c.Ungraded v.code → Grades c v v.severity

/-- The second violation is the first one, with the severity under the configuration. -/
def Regrades (c : Config) (v v' : Violation) : Prop :=
  ∃ s, c.Grades v s ∧ v' = { v with severity := s }

theorem severity?_eq_some_iff {key : String} : c.severity? key = some s ↔
    ∃ block, c.rule? key = some block ∧ block.severity = some s := by
  rw [severity?, Option.bind_eq_some_iff]

theorem severity?_eq_none_iff {key : String} : c.severity? key = none ↔ c.Ungraded key := by
  rw [severity?, Option.bind_eq_none_iff, Ungraded]

theorem grades_severityOf (c : Config) (v : Violation) : c.Grades v (Analyzer.severityOf c v) := by
  rw [Analyzer.severityOf]
  cases hname : c.severity? v.rule with
  | some s =>
      obtain ⟨block, hblock, hs⟩ := severity?_eq_some_iff.mp hname
      exact .byName hblock hs
  | none =>
      have hungraded := severity?_eq_none_iff.mp hname
      cases hcode : c.severity? v.code with
      | some s =>
          obtain ⟨block, hblock, hs⟩ := severity?_eq_some_iff.mp hcode
          exact .byCode hungraded hblock hs
      | none => exact .own hungraded (severity?_eq_none_iff.mp hcode)

theorem Grades.eq_severityOf (h : c.Grades v s) : s = Analyzer.severityOf c v := by
  rw [Analyzer.severityOf]
  cases h with
  | byName hblock hs => rw [severity?_eq_some_iff.mpr ⟨_, hblock, hs⟩]; rfl
  | byCode hname hblock hs =>
      rw [severity?_eq_none_iff.mpr hname, severity?_eq_some_iff.mpr ⟨_, hblock, hs⟩]; rfl
  | own hname hcode => rw [severity?_eq_none_iff.mpr hname, severity?_eq_none_iff.mpr hcode]; rfl

theorem regrades_iff : c.Regrades v v' ↔ v' = Analyzer.withSeverity c v := by
  constructor
  · rintro ⟨s, hs, rfl⟩
    rw [hs.eq_severityOf, Analyzer.withSeverity]
  · rintro rfl
    exact ⟨_, c.grades_severityOf v, rfl⟩

theorem forall₂_regrades_map (c : Config) (vs : List Violation) :
    List.Forall₂ c.Regrades vs (vs.map (Analyzer.withSeverity c)) := by
  rw [List.forall₂_map_right_iff, List.forall₂_same]
  exact fun v _ => regrades_iff.mpr rfl

end Config

/-- A built-in rule reports with the severity that it was given. -/
theorem BuiltinRule.severity_of_emits (b : BuiltinRule) {o : RuleOptions}
    (h : (b.ruleWith s o).Emits v) : v.severity = s := by
  rcases h with ⟨ctx, n, hv⟩ | ⟨ctx, closed, hv⟩
  · obtain ⟨f, _, rfl⟩ := List.mem_map.mp hv
    rfl
  · obtain ⟨f, _, rfl⟩ := List.mem_map.mp hv
    rfl

/-! ## What is left of a walk -/

namespace Analyzer

variable {a : Analyzer} {u : SourceUnit} {root : Node}

theorem filter_isAllowed (u : SourceUnit) (vs : List Violation) :
    vs.filter (fun v => !isAllowed u v) = vs.filter fun v => ¬v.Suppressed u.text := by
  refine List.filter_congr fun v _ => ?_
  simp only [← isAllowed_iff, decide_not, Bool.decide_eq_true]

theorem analyzeTree_eq (a : Analyzer) (u : SourceUnit) (root : Node) : a.analyzeTree u root =
    ((walkRules a.rules ⟨u, a.points⟩ root).filter fun v => ¬v.Suppressed u.text).map
      (withSeverity a.config) := by
  rw [analyzeTree, filter_isAllowed]

theorem suppressed_withSeverity {content : String} :
    (withSeverity c v).Suppressed content ↔ v.Suppressed content := Iff.rfl

theorem exists_regraded_iff (hv : v ∈ walkRules a.rules ⟨u, a.points⟩ root) :
    (∃ v' ∈ a.analyzeTree u root, a.config.Regrades v v') ↔ ¬v.Suppressed u.text := by
  rw [analyzeTree_eq]
  constructor
  · rintro ⟨v', hmem, hregraded⟩
    obtain ⟨v'', hkept, rfl⟩ := List.mem_map.mp hmem
    have hsame := Config.regrades_iff.mp hregraded
    have hfree := of_decide_eq_true (List.mem_filter.mp hkept).2
    rwa [← suppressed_withSeverity, hsame, suppressed_withSeverity] at hfree
  · intro hfree
    refine ⟨_, List.mem_map_of_mem (List.mem_filter.mpr ⟨hv, ?_⟩), Config.regrades_iff.mpr rfl⟩
    exact decide_eq_true hfree

/-- The scopes with too many spawns are reported unless they are suppressed themselves. -/
theorem filter_analyzeTree_excessiveSpawns {severity : Severity} {o : RuleOptions}
    (hsigns : ∀ r ∈ a.rules, r.Signs) (honly : a.rules.filter (·.code = "CC-CONC-005") =
      [BuiltinRule.excessiveSpawns.ruleWith severity o]) (u : SourceUnit) (root : Node) :
    (a.analyzeTree u root).filter (·.code = "CC-CONC-005") =
      (((root.addressesUp.filterMap (root.scopeAt? a.points)).filterMap fun scope =>
        if o.maxTasks < scope.spawns then some (tooManySpawns ⟨u, a.points⟩ severity scope)
        else none).filter fun v => ¬v.Suppressed u.text).map (withSeverity a.config) := by
  rw [filter_analyzeTree a fun _ code => code = "CC-CONC-005",
    ← walkRules_filter_of_signs hsigns fun _ code => code = "CC-CONC-005", honly,
    walkRules_excessiveSpawns, filter_isAllowed]

/-- A violation that the walk of a unit finds is in the result exactly if no allowance comment on
its line or the line before lists it. Those that stay keep their order and their number, and only
their severity is set anew. What is dropped still counts: scopes are reported for all the spawns
that they own. -/
theorem analyzeUnit_unsuppressed (a : Analyzer) (u : SourceUnit) (root : Node)
    (hparse : a.parser.parse u.text = .ok root) :
    let w : Setting := ⟨u, a.points⟩
    let found := walkRules a.rules w root
    let scopes := root.addressesUp.filterMap (root.scopeAt? a.points)
    ∃ result, a.analyzeUnit u = .ok result ∧
      List.Forall₂ a.config.Regrades (found.filter fun v => ¬v.Suppressed u.text) result ∧
      (∀ v ∈ found, (∃ v' ∈ result, a.config.Regrades v v') ↔ ¬v.Suppressed u.text) ∧
      (∀ v ∈ found, ∃ r ∈ a.rules, r.Emits v) ∧
      (∀ (b : BuiltinRule) severity o v, (b.ruleWith severity o).Emits v → v.severity = severity) ∧
      ∀ severity o, (∀ r ∈ a.rules, r.Signs) →
        a.rules.filter (·.code = "CC-CONC-005") =
          [BuiltinRule.excessiveSpawns.ruleWith severity o] →
        List.Forall₂ a.config.Regrades
          ((scopes.filterMap fun scope =>
            if o.maxTasks < scope.spawns then some (tooManySpawns w severity scope)
            else none).filter fun v => ¬v.Suppressed u.text)
          (result.filter (·.code = "CC-CONC-005")) := by
  intro w found scopes
  refine ⟨a.analyzeTree u root, ?_, ?_, ?_, ?_, ?_, ?_⟩
  · rw [analyzeUnit, hparse]
  · rw [analyzeTree_eq]
    exact a.config.forall₂_regrades_map _
  · exact fun v hv => exists_regraded_iff hv
  · exact fun v hv => exists_emits_of_mem_walkRules hv
  · exact fun b severity o v hv => b.severity_of_emits hv
  · intro severity o hsigns honly
    rw [filter_analyzeTree_excessiveSpawns hsigns honly]
    exact a.config.forall₂_regrades_map _

/-- An initializer with two tasks, the first one under an allowance comment. -/
def guardedInitializer : Node :=
  ⟨.initializer, ⟨1, 1, 0, 91⟩, [⟨.call (some taskType), ⟨3, 3, 62, 12⟩, []⟩,
    ⟨.call (some taskType), ⟨4, 3, 77, 12⟩, []⟩]⟩

def guardedText : String :=
  "init() \x7b\n  // concurrency-guard: allow(task-in-initializer)\n" ++
    "  Task \x7b a() \x7d\n  Task \x7b b() \x7d\n\x7d"

theorem analyzeUnit_unsuppressed_guarded :
    let a : Analyzer := {
      parser := ⟨"swift", ["swift"], fun _ => .ok guardedInitializer⟩
      rules := catalog { maxTasks := 1 }
      excludes := []
      points := .builtin
      config := { rules := [("CC-CONC-002", { severity := some .info })] } }
    let u : SourceUnit := ⟨"A.swift", guardedText⟩
    let found := walkRules a.rules ⟨u, a.points⟩ guardedInitializer
    found.map (fun v => (v.code, v.location.line)) =
      [("CC-CONC-002", 3), ("CC-CONC-002", 4), ("CC-CONC-005", 1)] ∧
    ∃ result, a.analyzeUnit u = .ok result ∧
      result.map (fun v => (v.code, v.location.line, v.severity)) =
        [("CC-CONC-002", 4, .info), ("CC-CONC-005", 1, .warning)] ∧
      List.Forall₂ a.config.Regrades (found.filter fun v => ¬v.Suppressed u.text) result ∧
      List.Forall₂ a.config.Regrades
        [tooManySpawns ⟨u, a.points⟩ .warning ⟨.initializer, ⟨1, 1, 0, 91⟩, 2⟩]
        (result.filter (·.code = "CC-CONC-005")) := by
  intro a u found
  have hfound : found.map (fun v => (v.code, v.location.line)) =
      [("CC-CONC-002", 3), ("CC-CONC-002", 4), ("CC-CONC-005", 1)] := by
    rw [show found = _ from Visitor.walk_eq_visit _ _ _]
    rfl
  have hresult : (a.analyzeTree u guardedInitializer).map
      (fun v => (v.code, v.location.line, v.severity)) =
        [("CC-CONC-002", 4, .info), ("CC-CONC-005", 1, .warning)] := by
    rw [analyzeTree, walkRules, Visitor.walk_eq_visit]
    decide
  obtain ⟨result, hunit, hkept, _, _, _, hspawns⟩ :=
    analyzeUnit_unsuppressed a u guardedInitializer rfl
  cases hunit
  -- The initializer owns both spawns, the suppressed one included, and is not suppressed itself.
  have hscopes : ((guardedInitializer.addressesUp.filterMap
      (guardedInitializer.scopeAt? a.points)).filterMap fun scope =>
        if 1 < scope.spawns then some (tooManySpawns ⟨u, a.points⟩ .warning scope) else none).filter
          (fun v => ¬v.Suppressed u.text) =
        [tooManySpawns ⟨u, a.points⟩ .warning ⟨.initializer, ⟨1, 1, 0, 91⟩, 2⟩] := by
    decide
  have hreported := hspawns .warning { maxTasks := 1 } (fun r => signs_of_mem_catalog) rfl
  exact ⟨hfound, _, rfl, hresult, hkept, hscopes ▸ hreported⟩

end Analyzer

end ConcurrencyLint
