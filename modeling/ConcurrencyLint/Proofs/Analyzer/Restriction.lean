import ConcurrencyLint.Proofs.Analyzer.Agreement

/-!
# Analysing with fewer rules

A list of wanted rules, or a block that disables a rule, takes the violations of the rules left out
away from every report. Nothing else in the report changes.
-/

namespace ConcurrencyLint

namespace Analyzer

variable (parser : SourceParser) (config : Config) {rules : List Rule}

theorem agree_of_rules (a : Analyzer) (h : ∀ r ∈ a.rules, r.Signs)
    (names : String → String → Bool) :
    Agree (fun v => names v.rule v.code) (fun _ => true) a
      { a with rules := a.rules.filter fun r => names r.name r.code } where
  parser := rfl
  excludes := rfl
  gitignore := rfl
  trees := by
    intro u root
    rw [filter_analyzeTree, List.filter_true, analyzeTree, walkRules_filter_of_signs h]

/-- The rules that some item of a list names are the only ones that report. -/
theorem agree_selectRules (h : ∀ r ∈ rules, r.Signs) (list : String)
    (patterns : List Glob.Pattern) :
    Agree (fun v => Lists list v.rule ∨ Lists list v.code) (fun _ => true)
      (assemble parser config rules patterns)
      (assemble parser config (selectRules list rules) patterns) := by
  have hagree := agree_of_rules (assemble parser config rules patterns)
    (fun r hr => h r (List.mem_filter.mp hr).1)
    fun name code => Lists list name ∨ Lists list code
  simp only [assemble, selectRules_eq] at hagree ⊢
  rwa [List.filter_comm] at hagree

/-- The rules that the configuration leaves enabled are the only ones that report. -/
theorem agree_isRuleEnabled (h : ∀ r ∈ rules, r.Signs) (patterns : List Glob.Pattern) :
    Agree (fun v => config.isEnabled v.rule && config.isEnabled v.code) (fun _ => true)
      { assemble parser config rules patterns with rules := rules }
      (assemble parser config rules patterns) :=
  agree_of_rules { assemble parser config rules patterns with rules := rules } h
    fun name code => config.isEnabled name && config.isEnabled code

theorem map_analyze_selectRules (h : ∀ r ∈ rules, r.Signs) (list : String)
    (excludes : List String) (o : Cli.CheckOptions) (env : Cli.Environment) :
    (build (some parser) config (selectRules list rules) excludes).map (o.analyze env) =
      (build (some parser) config rules excludes).map fun a =>
        (o.analyze env a).restrict fun v => Lists list v.rule ∨ Lists list v.code := by
  obtain ⟨e, hlist, hall⟩ | ⟨patterns, hlist, hall⟩ :=
    build_cases parser (selectRules list rules) rules excludes (Eq.refl config.analyzer.exclude)
  · rw [hlist, hall]
    rfl
  · have hagree := (agree_selectRules parser config h list patterns).analyze o env
    rw [Logged.restrict_true] at hagree
    rw [hlist, hall]
    exact congrArg Except.ok hagree.symm

theorem analyze_of_build {parser : SourceParser} {config : Config} (h : ∀ r ∈ rules, r.Signs)
    {excludes : List String} {a : Analyzer}
    (hbuild : build (some parser) config rules excludes = .ok a) (o : Cli.CheckOptions)
    (env : Cli.Environment) : o.analyze env a =
      (o.analyze env { a with rules := rules }).restrict fun v =>
        config.isEnabled v.rule && config.isEnabled v.code := by
  obtain ⟨e, hfail, _⟩ | ⟨patterns, hok, _⟩ :=
    build_cases parser rules rules excludes (Eq.refl config.analyzer.exclude)
  · rw [hfail] at hbuild
    contradiction
  · rw [hok] at hbuild
    cases hbuild
    have hagree := (agree_isRuleEnabled parser config h patterns).analyze o env
    rw [Logged.restrict_true] at hagree
    exact hagree.symm

end Analyzer

theorem selectRules_intercalate {pieces pieces' : List (List Char)}
    (hfree : ∀ p ∈ pieces, ',' ∉ p) (hfree' : ∀ p ∈ pieces', ',' ∉ p)
    (hsame : ∀ item ≠ [], (∃ p ∈ pieces, Text.Trims p item) ↔ ∃ p ∈ pieces', Text.Trims p item)
    (rules : List Rule) :
    selectRules (.ofList ([','].intercalate pieces)) rules =
      selectRules (.ofList ([','].intercalate pieces')) rules := by
  have hlists (item : String) : Lists (.ofList ([','].intercalate pieces)) item ↔
      Lists (.ofList ([','].intercalate pieces')) item := by
    rw [lists_intercalate hfree, lists_intercalate hfree']
    refine and_congr_right fun hne => hsame item.toList ?_
    simpa using hne
  rw [selectRules_eq, selectRules_eq]
  simp only [hlists]

/-- Walking with the rules of some codes is walking with all rules and keeping the violations with
these codes. So a list of wanted rules, read as its items and not as it is written, and a
configuration that disables rules take away the violations of the rules left out, from a walk and
from the report of a whole check, and change nothing else. -/
theorem walkRules_filter_codes :
    (∀ (rules : List Rule) (w : Setting) (root : Node) (p : String → Bool),
      (∀ r ∈ rules, ∀ v, r.Emits v → v.code = r.code) →
      walkRules (rules.filter fun r => p r.code) w root =
        (walkRules rules w root).filter fun v => p v.code) ∧
    (∀ (b : BuiltinRule) severity o, (b.ruleWith severity o).Signs) ∧
    (∀ list rules, selectRules list rules =
      rules.filter fun r => Lists list r.name ∨ Lists list r.code) ∧
    (∀ pieces pieces' : List (List Char), (∀ p ∈ pieces, ',' ∉ p) → (∀ p ∈ pieces', ',' ∉ p) →
      (∀ item ≠ [], (∃ p ∈ pieces, Text.Trims p item) ↔ ∃ p ∈ pieces', Text.Trims p item) →
      ∀ rules, selectRules (.ofList ([','].intercalate pieces)) rules =
        selectRules (.ofList ([','].intercalate pieces')) rules) ∧
    (∀ rules : List Rule, (∀ r ∈ rules, r.Signs) → ∀ w root,
      (∀ list, walkRules (selectRules list rules) w root =
        (walkRules rules w root).filter fun v => Lists list v.rule ∨ Lists list v.code) ∧
      ∀ config, walkRules (rules.filter (Analyzer.isRuleEnabled config)) w root =
        (walkRules rules w root).filter fun v =>
          config.isEnabled v.rule && config.isEnabled v.code) ∧
    (∀ (o : Cli.CheckOptions) (env : Cli.Environment) (parser : SourceParser) (config : Config)
      (list : String),
      (Analyzer.build (some parser) config ({ o with rules := some list }.chooseRules config).result
        o.excludes).map (o.analyze env) =
      (Analyzer.build (some parser) config ({ o with rules := none }.chooseRules config).result
        o.excludes).map fun a =>
          (o.analyze env a).restrict fun v => Lists list v.rule ∨ Lists list v.code) ∧
    ∀ (parser : SourceParser) (config : Config) (rules : List Rule) (excludes : List String)
      (a : Analyzer), (∀ r ∈ rules, r.Signs) →
      Analyzer.build (some parser) config rules excludes = .ok a →
      ∀ (o : Cli.CheckOptions) (env : Cli.Environment),
        o.analyze env a = (o.analyze env { a with rules := rules }).restrict fun v =>
          config.isEnabled v.rule && config.isEnabled v.code := by
  refine ⟨?_, BuiltinRule.signs_ruleWith, selectRules_eq, ?_, ?_, ?_, ?_⟩
  · intro rules w root p h
    refine walkRules_filter ?_ w root
    intro r hr v hv
    rw [h r hr v hv]
  · intro pieces pieces' hfree hfree' hsame rules
    exact selectRules_intercalate hfree hfree' hsame rules
  · intro rules h w root
    exact ⟨fun list => walkRules_selectRules h list w root,
      fun config => walkRules_filter_of_signs h
        (fun name code => config.isEnabled name && config.isEnabled code) w root⟩
  · intro o env parser config list
    exact Analyzer.map_analyze_selectRules parser config (fun r => signs_of_mem_catalog) list
      o.excludes o env
  · intro parser config rules excludes a h hbuild o env
    exact Analyzer.analyze_of_build h hbuild o env

/-- A function with a detached task and a task of background priority. -/
def twoTasks : Node :=
  ⟨.function "load", ⟨1, 1, 0, 70⟩, [
    ⟨.call none, ⟨2, 3, 15, 18⟩, [⟨.memberAccess (some taskType) "detached", ⟨2, 3, 15, 13⟩, []⟩]⟩,
    ⟨.call (some taskType), ⟨3, 3, 36, 30⟩, [
      ⟨.argument (some "priority"), ⟨3, 8, 41, 21⟩, [
        ⟨.memberAccess none "background", ⟨3, 18, 51, 11⟩, []⟩]⟩]⟩]⟩

theorem walkRules_filter_codes_twoTasks :
    let w : Setting := ⟨⟨stdinIdentifier, ""⟩, .builtin⟩
    let config : Config :=
      { analyzer := {}, rules := [("detached-task", { enabled := some false })] }
    let parser : SourceParser := ⟨"swift", ["swift"], fun _ => .ok twoTasks⟩
    (walkRules (catalog {}) w twoTasks).map (·.code) = ["CC-CONC-001", "CC-CONC-008"] ∧
    walkRules ((catalog {}).filter fun r => r.code == "CC-CONC-001") w twoTasks =
      (walkRules (catalog {}) w twoTasks).filter (fun v => v.code == "CC-CONC-001") ∧
    selectRules (.ofList ([','].intercalate ["CC-CONC-001".toList, "detached-task".toList]))
        (catalog {}) =
      selectRules (.ofList ([','].intercalate
        [" detached-task ".toList, [], "CC-CONC-001".toList, "detached-task".toList]))
        (catalog {}) ∧
    walkRules (selectRules "detached-task" (catalog {})) w twoTasks =
      (walkRules (catalog {}) w twoTasks).filter (fun v =>
        Lists "detached-task" v.rule ∨ Lists "detached-task" v.code) ∧
    ∃ a, Analyzer.build (some parser) config (catalog {}) [] = .ok a ∧
      ∀ (o : Cli.CheckOptions) (env : Cli.Environment),
        o.analyze env a = (o.analyze env { a with rules := catalog {} }).restrict fun v =>
          config.isEnabled v.rule && config.isEnabled v.code := by
  intro w config parser
  have hsigns : ∀ r ∈ catalog {}, r.Signs := fun r => signs_of_mem_catalog
  have hfound : (walkRules (catalog {}) w twoTasks).map (·.code) =
      ["CC-CONC-001", "CC-CONC-008"] := by
    rw [walkRules, Visitor.walk_eq_visit]
    rfl
  obtain ⟨hcodes, _, _, hlists, hwalks, _, hbuilds⟩ := walkRules_filter_codes
  refine ⟨hfound,
    hcodes (catalog {}) w twoTasks (· == "CC-CONC-001") fun r hr v hv => (hsigns r hr v hv).2,
    hlists _ _ (by decide) (by decide) ?_ (catalog {}),
    (hwalks (catalog {}) hsigns w twoTasks).1 "detached-task",
    _, rfl, hbuilds parser config (catalog {}) [] _ hsigns rfl⟩
  intro item hne
  simp only [← Text.trim_eq_iff]
  have hspaced : Text.trim " detached-task ".toList = "detached-task".toList := by decide
  have hplain : Text.trim "detached-task".toList = "detached-task".toList := by decide
  have hempty : Text.trim [] ≠ item := hne.symm
  simp only [List.mem_cons, List.not_mem_nil, or_false, exists_eq_or_imp, exists_eq_left, hspaced,
    hplain, hempty, false_or]
  tauto

end ConcurrencyLint
