import ConcurrencyLint.Proofs.Analyzer.Agreement
import ConcurrencyLint.Proofs.Rule.Settings

/-!
# Blocks of other rules

A rule reads the blocks under its own name and code and no others. So the blocks of one rule decide
nothing about the violations of another, and blocks that belong to no rule decide nothing.
-/

namespace ConcurrencyLint

/-! ## Whose block it is -/

namespace BuiltinRule

/-- The key is the name or the code of the rule. -/
def GoesBy (b : BuiltinRule) (key : String) : Prop := key = b.header.name ∨ key = b.header.code

theorem GoesBy.find? {b : BuiltinRule} {key : String} (h : b.GoesBy key) :
    all.find? (fun b => key == b.header.name || key == b.header.code) = some b := by
  rcases h with rfl | rfl <;> cases b <;> rfl

theorem GoesBy.unique {b b' : BuiltinRule} {key : String} (h : b.GoesBy key)
    (h' : b'.GoesBy key) : b = b' :=
  Option.some.inj (h.find?.symm.trans h'.find?)

end BuiltinRule

namespace Config

variable {b b' : BuiltinRule} {c c' : Config}

/-- A block under the rule's name or code disables it. -/
def Disables (c : Config) (b : BuiltinRule) : Prop :=
  ∃ key block, b.GoesBy key ∧ c.rule? key = some block ∧ block.enabled = some false

/-- The configurations hold the same blocks for the rule. -/
def AgreeOn (b : BuiltinRule) (c c' : Config) : Prop :=
  ∀ key, b.GoesBy key → c.rule? key = c'.rule? key

/-- The configurations hold the same blocks for everything but the rule. -/
def AgreeBut (b : BuiltinRule) (c c' : Config) : Prop :=
  ∀ key, ¬b.GoesBy key → c.rule? key = c'.rule? key

theorem AgreeBut.agreeOn (h : AgreeBut b c c') (hne : b' ≠ b) : AgreeOn b' c c' :=
  fun key hkey => h key fun hb => hne (hkey.unique hb)

theorem Disables.isRuleEnabled (h : c.Disables b) (o : RuleOptions) :
    Analyzer.isRuleEnabled c (b.rule o) = false := by
  obtain ⟨key, block, hkey, hblock, hoff⟩ := h
  have hdisabled : c.isEnabled key = false := by simp [isEnabled, hblock, hoff]
  rcases hkey with rfl | rfl
  · exact Bool.and_eq_false_iff.mpr (.inl hdisabled)
  · exact Bool.and_eq_false_iff.mpr (.inr hdisabled)

end Config

/-! ## What a rule takes from its blocks -/

namespace BuiltinRule

/-- The options that the rule reads. -/
def optionKeys : BuiltinRule → List String
  | .streamTermination => ["constructors", "accept_continuation_handler"]
  | .excessiveSpawns => ["max_tasks"]
  | _ => []

variable {o o' : RuleOptions}

theorem rule_streamTermination (hconstructors : o.constructors = o'.constructors)
    (haccept : o.acceptContinuationHandler = o'.acceptContinuationHandler) :
    streamTermination.rule o = streamTermination.rule o' := by
  cases o
  cases o'
  cases hconstructors
  cases haccept
  rfl

theorem rule_excessiveSpawns (h : o.maxTasks = o'.maxTasks) :
    excessiveSpawns.rule o = excessiveSpawns.rule o' := by
  cases o
  cases o'
  cases h
  rfl

end BuiltinRule

/-- The configurations treat the rule alike: both enable it or neither does, and they give it the
same severity and the same options. -/
structure Config.AlikeFor (b : BuiltinRule) (c c' : Config) : Prop where
  enabled : (c.isEnabled b.header.name && c.isEnabled b.header.code) =
    (c'.isEnabled b.header.name && c'.isEnabled b.header.code)
  severity : (c.severity? b.header.name).or (c.severity? b.header.code) =
    (c'.severity? b.header.name).or (c'.severity? b.header.code)
  options : ∀ key ∈ b.optionKeys, b.option? c key = b.option? c' key

namespace Config.AlikeFor

variable {b : BuiltinRule} {c c' : Config}

theorem isRuleEnabled (h : AlikeFor b c c') (o : RuleOptions) :
    Analyzer.isRuleEnabled c (b.rule o) = Analyzer.isRuleEnabled c' (b.rule o) := h.enabled

theorem withSeverity (h : AlikeFor b c c') {v : Violation} (hname : v.rule = b.header.name)
    (hcode : v.code = b.header.code) :
    Analyzer.withSeverity c v = Analyzer.withSeverity c' v := by
  rw [Analyzer.withSeverity, Analyzer.withSeverity, Analyzer.severityOf, Analyzer.severityOf,
    hname, hcode, h.severity]

theorem configuredLimit (h : AlikeFor .excessiveSpawns c c') :
    RuleOptions.configuredLimit c = RuleOptions.configuredLimit c' :=
  congrArg (Option.map readLimit) (h.options "max_tasks" (.head _))

theorem rule (h : AlikeFor b c c') : b.rule (.ofConfig c) = b.rule (.ofConfig c') := by
  cases b with
  | streamTermination =>
      refine BuiltinRule.rule_streamTermination ?_ ?_
      · rw [RuleOptions.constructors_ofConfig, RuleOptions.constructors_ofConfig,
          h.options _ (.head _)]
      · rw [RuleOptions.acceptContinuationHandler_ofConfig,
          RuleOptions.acceptContinuationHandler_ofConfig, h.options _ (.tail _ (.head _))]
  | excessiveSpawns =>
      refine BuiltinRule.rule_excessiveSpawns ?_
      rw [RuleOptions.maxTasks_ofConfig, RuleOptions.maxTasks_ofConfig, h.options _ (.head _)]
  -- The other rules have no options.
  | detachedTask | taskInInitializer | taskInRenderPath | backgroundPriority
  | unparsableSource => rfl

end Config.AlikeFor

namespace Config.AgreeOn

variable {b : BuiltinRule} {c c' : Config}

theorem alikeFor (h : AgreeOn b c c') : AlikeFor b c c' where
  enabled := by simp only [isEnabled, h _ (.inl rfl), h _ (.inr rfl)]
  severity := by simp only [severity?, h _ (.inl rfl), h _ (.inr rfl)]
  options key _ := by
    simp only [BuiltinRule.option?, BuiltinRule.block?, h _ (.inl rfl), h _ (.inr rfl)]

theorem configuredLimit (h : AgreeOn .excessiveSpawns c c') :
    RuleOptions.configuredLimit c = RuleOptions.configuredLimit c' := h.alikeFor.configuredLimit

end Config.AgreeOn

/-! ## Analysing under two configurations -/

namespace Analyzer

variable (parser : SourceParser) {c c' : Config} {b : BuiltinRule}

/-- The rules of the catalogue that are enabled and have a wanted code. -/
theorem filter_enabled_catalogFor (p : String → Bool) (c : Config) :
    ((catalogFor c).filter (isRuleEnabled c)).filter (fun r => p r.code) =
      (BuiltinRule.all.filter fun b => p b.header.code && isRuleEnabled c (b.rule {})).map
        (·.rule (.ofConfig c)) := by
  rw [List.filter_filter, catalogFor, catalog, List.filter_map]
  rfl

theorem enabled_catalogFor_congr {p : String → Bool}
    (h : ∀ b : BuiltinRule, p b.header.code → Config.AlikeFor b c c') :
    ((catalogFor c).filter (isRuleEnabled c)).filter (fun r => p r.code) =
      ((catalogFor c').filter (isRuleEnabled c')).filter (fun r => p r.code) := by
  rw [filter_enabled_catalogFor, filter_enabled_catalogFor]
  have hsame : (BuiltinRule.all.filter fun b => p b.header.code && isRuleEnabled c (b.rule {})) =
      BuiltinRule.all.filter fun b => p b.header.code && isRuleEnabled c' (b.rule {}) := by
    refine List.filter_congr fun b _ => ?_
    cases hp : p b.header.code with
    | false => rfl
    | true => rw [(h b hp).isRuleEnabled]
  rw [hsame]
  refine List.map_congr_left fun b hb => (h b ?_).rule
  exact (Bool.and_eq_true_iff.mp (List.mem_filter.mp hb).2).1

theorem exists_builtin_of_mem_walkRules {keep : Rule → Bool} {w : Setting} {root : Node}
    {v : Violation} (h : v ∈ walkRules ((catalogFor c).filter keep) w root) :
    ∃ b : BuiltinRule, keep (b.rule (.ofConfig c)) ∧ v.rule = b.header.name ∧
      v.code = b.header.code := by
  obtain ⟨r, hr, hemits⟩ := exists_emits_of_mem_walkRules h
  obtain ⟨hmem, hkeep⟩ := List.mem_filter.mp hr
  obtain ⟨b, _, rfl⟩ := List.mem_map.mp hmem
  exact ⟨b, hkeep, b.signs_ruleWith _ _ v hemits⟩

/-- The violations with some codes depend on the treatment of the rules with these codes only. -/
theorem agree_of_alikeFor (p : String → Bool) (hanalyzer : c.analyzer = c'.analyzer)
    (h : ∀ b : BuiltinRule, p b.header.code → Config.AlikeFor b c c')
    (patterns : List Glob.Pattern) :
    Agree (fun v => p v.code) (fun v => p v.code) (assemble parser c (catalogFor c) patterns)
      (assemble parser c' (catalogFor c') patterns) where
  parser := rfl
  excludes := rfl
  gitignore := congrArg AnalyzerConfig.respectGitignore hanalyzer
  trees := by
    intro u root
    have hsigns (c : Config) : ∀ r ∈ (catalogFor c).filter (isRuleEnabled c), r.Signs :=
      fun r hr => signs_of_mem_catalog (List.mem_filter.mp hr).1
    have hpoints : c.entryPoints = c'.entryPoints := by
      rw [Config.entryPoints, Config.entryPoints, hanalyzer]
    rw [filter_analyzeTree _ fun _ code => p code, filter_analyzeTree _ fun _ code => p code]
    simp only [assemble, hpoints]
    rw [← walkRules_filter_of_signs (hsigns c) fun _ code => p code,
      ← walkRules_filter_of_signs (hsigns c') fun _ code => p code, ← enabled_catalogFor_congr h]
    refine List.map_congr_left fun v hv => ?_
    have hwalk := (List.mem_filter.mp hv).1
    rw [List.filter_filter] at hwalk
    obtain ⟨b, hb, hname, hcode⟩ := exists_builtin_of_mem_walkRules hwalk
    exact (h b (Bool.and_eq_true_iff.mp hb).1).withSeverity hname hcode

/-- The violations with some codes depend on the blocks of the rules with these codes only. -/
theorem agree_of_agreeOn (p : String → Bool) (hanalyzer : c.analyzer = c'.analyzer)
    (h : ∀ b : BuiltinRule, p b.header.code → Config.AgreeOn b c c')
    (patterns : List Glob.Pattern) :
    Agree (fun v => p v.code) (fun v => p v.code) (assemble parser c (catalogFor c) patterns)
      (assemble parser c' (catalogFor c') patterns) :=
  agree_of_alikeFor parser p hanalyzer (fun b hb => (h b hb).alikeFor) patterns

theorem agree_of_agreeBut (hanalyzer : c.analyzer = c'.analyzer) (h : Config.AgreeBut b c c')
    (patterns : List Glob.Pattern) :
    Agree (fun v => v.code != b.header.code) (fun v => v.code != b.header.code)
      (assemble parser c (catalogFor c) patterns)
      (assemble parser c' (catalogFor c') patterns) := by
  refine agree_of_agreeOn parser (fun code => code != b.header.code) hanalyzer ?_ patterns
  intro b' hcode
  refine h.agreeOn ?_
  rintro rfl
  exact bne_iff_ne.mp hcode rfl

theorem code_ne_of_disables (h : c.Disables b) {patterns : List Glob.Pattern} {u : SourceUnit}
    {root : Node} {v : Violation}
    (hv : v ∈ (assemble parser c (catalogFor c) patterns).analyzeTree u root) :
    v.code ≠ b.header.code := by
  obtain ⟨v, hwalk, rfl⟩ := List.mem_map.mp hv
  obtain ⟨b', henabled, _, hcode⟩ :=
    exists_builtin_of_mem_walkRules (List.mem_filter.mp hwalk).1
  intro (heq : v.code = b.header.code)
  have hb : b = b' := BuiltinRule.GoesBy.unique (.inr heq) (.inr hcode)
  rw [← hb, h.isRuleEnabled] at henabled
  contradiction

/-- A configuration that disables a rule takes its violations away from those under another one that
differs in the rule's blocks only. -/
theorem agree_of_disables (hanalyzer : c.analyzer = c'.analyzer) (h : Config.AgreeBut b c c')
    (hoff : c'.Disables b) (patterns : List Glob.Pattern) :
    Agree (fun v => v.code != b.header.code) (fun _ => true)
      (assemble parser c (catalogFor c) patterns)
      (assemble parser c' (catalogFor c') patterns) := by
  have hothers := agree_of_agreeBut parser hanalyzer h patterns
  refine { hothers with trees := ?_ }
  intro u root
  rw [hothers.trees u root, List.filter_true, List.filter_eq_self]
  intro v hv
  exact bne_iff_ne.mpr (code_ne_of_disables parser hoff hv)

/-- What the standard analyzer makes of a unit. -/
def checkUnit (parser : SourceParser) (c : Config) (u : SourceUnit) :
    Except AnalysisError (List Violation) :=
  (standard parser c).bind (·.analyzeUnit u)

/-- What the standard analyzer makes of files and directories. -/
def checkPaths (parser : SourceParser) (c : Config) (files : FileAccess) (paths : List String) :
    Except AnalysisError (Logged Report) :=
  (standard parser c).map (·.analyzePaths files paths)

theorem map_checkUnit {keep keep' : Violation → Bool} (hanalyzer : c.analyzer = c'.analyzer)
    (h : ∀ patterns, Agree keep keep' (assemble parser c (catalogFor c) patterns)
      (assemble parser c' (catalogFor c') patterns)) (u : SourceUnit) :
    (checkUnit parser c u).map (·.filter keep) = (checkUnit parser c' u).map (·.filter keep') := by
  rw [checkUnit, checkUnit, standard, standard]
  obtain ⟨e, hc, hc'⟩ | ⟨patterns, hc, hc'⟩ :=
    build_cases parser (catalogFor c) (catalogFor c') [] (congrArg _ hanalyzer)
  · rw [hc, hc']
    rfl
  · rw [hc, hc']
    exact (h patterns).analyzeUnit u

theorem map_checkPaths {keep keep' : Violation → Bool} (hanalyzer : c.analyzer = c'.analyzer)
    (h : ∀ patterns, Agree keep keep' (assemble parser c (catalogFor c) patterns)
      (assemble parser c' (catalogFor c') patterns)) (files : FileAccess) (paths : List String) :
    (checkPaths parser c files paths).map (·.restrict keep) =
      (checkPaths parser c' files paths).map (·.restrict keep') := by
  rw [checkPaths, checkPaths, standard, standard]
  obtain ⟨e, hc, hc'⟩ | ⟨patterns, hc, hc'⟩ :=
    build_cases parser (catalogFor c) (catalogFor c') [] (congrArg _ hanalyzer)
  · rw [hc, hc']
    rfl
  · rw [hc, hc']
    exact congrArg Except.ok ((h patterns).analyzePaths files paths)

theorem map_filter_true (x : Except AnalysisError (List Violation)) :
    x.map (·.filter fun _ => true) = x := by
  simp only [List.filter_true]
  exact congrFun Except.map_id x

theorem map_restrict_true (x : Except AnalysisError (Logged Report)) :
    x.map (·.restrict fun _ => true) = x := by
  simp only [Logged.restrict_true]
  exact congrFun Except.map_id x

/-- The blocks of a rule decide about the violations with its code only, in every unit and in the
report of any files, and disabling it takes these away from what they are under any other blocks of
the rule. Blocks under other keys than the names and codes of the rules decide nothing. -/
theorem standard_isolated (parser : SourceParser) (c c' : Config)
    (hanalyzer : c.analyzer = c'.analyzer) :
    (∀ b, Config.AgreeBut b c c' →
      (∀ u, (checkUnit parser c u).map (·.filter (·.code != b.header.code)) =
        (checkUnit parser c' u).map (·.filter (·.code != b.header.code))) ∧
      (∀ files paths,
        (checkPaths parser c files paths).map (·.restrict (·.code != b.header.code)) =
          (checkPaths parser c' files paths).map (·.restrict (·.code != b.header.code))) ∧
      (c'.Disables b →
        (∀ u, checkUnit parser c' u =
          (checkUnit parser c u).map (·.filter (·.code != b.header.code))) ∧
        ∀ files paths, checkPaths parser c' files paths =
          (checkPaths parser c files paths).map (·.restrict (·.code != b.header.code)))) ∧
    ((∀ b, Config.AgreeOn b c c') →
      RuleOptions.warnings c = RuleOptions.warnings c' ∧
      (∀ u, checkUnit parser c u = checkUnit parser c' u) ∧
      ∀ files paths, checkPaths parser c files paths = checkPaths parser c' files paths) := by
  refine ⟨?_, ?_⟩
  · intro b h
    have hothers := agree_of_agreeBut parser hanalyzer h
    refine ⟨map_checkUnit parser hanalyzer hothers, map_checkPaths parser hanalyzer hothers, ?_⟩
    intro hoff
    have hdisabled := agree_of_disables parser hanalyzer h hoff
    refine ⟨fun u => ?_, fun files paths => ?_⟩
    · rw [map_checkUnit parser hanalyzer hdisabled u, map_filter_true]
    · rw [map_checkPaths parser hanalyzer hdisabled files paths, map_restrict_true]
  · intro h
    have hsame := agree_of_agreeOn parser (fun _ => true) hanalyzer fun b _ => h b
    refine ⟨?_, fun u => ?_, fun files paths => ?_⟩
    · rw [RuleOptions.warnings, RuleOptions.warnings, (h .excessiveSpawns).configuredLimit]
    · rw [← map_filter_true (checkUnit parser c u), map_checkUnit parser hanalyzer hsame u,
        map_filter_true]
    · rw [← map_restrict_true (checkPaths parser c files paths),
        map_checkPaths parser hanalyzer hsame files paths, map_restrict_true]

theorem standard_isolated_nestedFunctions :
    let parser : SourceParser := ⟨"swift", ["swift"], fun _ => .ok nestedFunctions⟩
    let u : SourceUnit := ⟨stdinIdentifier, ""⟩
    let limit : String × RuleConfig := ("CC-CONC-005", { options := [("max_tasks", .integer 0)] })
    let info : String × RuleConfig := ("task-in-render-path", { severity := some .info })
    let off : String × RuleConfig := ("CC-CONC-003", { enabled := some false })
    let stray : String × RuleConfig := ("CC-CONC-006", { enabled := some false })
    let c : Config := { analyzer := {}, rules := [limit, info] }
    let c' : Config := { analyzer := {}, rules := [off, limit] }
    let c'' : Config := { analyzer := {}, rules := [limit, stray, info] }
    checkUnit parser c' u = (checkUnit parser c u).map (·.filter (·.code != "CC-CONC-003")) ∧
    checkUnit parser c u = checkUnit parser c'' u := by
  intro parser u limit info off stray c c' c''
  have hbut : Config.AgreeBut .taskInRenderPath c c' := by
    intro key hkey
    have hname : (key == "task-in-render-path") = false := beq_false_of_ne fun h => hkey (.inl h)
    have hcode : (key == "CC-CONC-003") = false := beq_false_of_ne fun h => hkey (.inr h)
    simp [Config.rule?, c, c', off, limit, info, List.lookup_cons, hname, hcode]
  have hon : ∀ b, Config.AgreeOn b c c'' := by
    rintro b key (rfl | rfl) <;> cases b <;> rfl
  have hoff : c'.Disables .taskInRenderPath := ⟨"CC-CONC-003", _, .inr rfl, rfl, rfl⟩
  exact ⟨((standard_isolated parser c c' rfl).1 _ hbut).2.2 hoff |>.1 u,
    ((standard_isolated parser c c'' rfl).2 hon).2.1 u⟩

end Analyzer

end ConcurrencyLint
