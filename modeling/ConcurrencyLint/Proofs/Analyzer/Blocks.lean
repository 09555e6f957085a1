import ConcurrencyLint.Proofs.Analyzer.Isolation

/-!
# Blocks under a name and under a code

A rule may have a block under its name, another under its code, or both. What they set can be said
by one block under either key: the rule is enabled if neither disables it, and its severity is that
of the name's block, else that of the code's. Options are read from one block only, the name's if
there is one; so those of the code's block are lost when a block of the name stands beside it.
-/

namespace ConcurrencyLint

/-! ## The keys of a rule -/

namespace BuiltinRule

theorem name_ne_code (b : BuiltinRule) : b.header.name ≠ b.header.code := by
  cases b <;> decide

/-- A rule goes by two keys only. -/
theorem GoesBy.eq_of_ne {b : BuiltinRule} {key key' other : String} (hkey : b.GoesBy key)
    (hkey' : b.GoesBy key') (hother : b.GoesBy other) (hne : key' ≠ key) (hne' : other ≠ key) :
    other = key' := by
  rcases hkey' with rfl | rfl <;> rcases hother with rfl | rfl
  · rfl
  · rcases hkey with rfl | rfl <;> contradiction
  · rcases hkey with rfl | rfl <;> contradiction
  · rfl

end BuiltinRule

theorem lookup_filter_keys {α : Type} (p : String → Bool) (entries : List (String × α))
    (key : String) :
    (entries.filter fun e => p e.1).lookup key = if p key then entries.lookup key else none := by
  induction entries with
  | nil => simp
  | cons e entries ih =>
      obtain ⟨k, a⟩ := e
      by_cases hk : key = k
      · subst hk
        cases hp : p key <;> simp [hp, ih]
      · cases hp : p k <;> simp [List.lookup_cons, beq_false_of_ne hk, hp, ih]

/-! ## One block for all -/

namespace Config

variable {b : BuiltinRule} {key key' : String} {c c' : Config} {block : RuleConfig}

/-- The block sets for the rule what the blocks of the configuration set for it. -/
structure SumsUp (block : RuleConfig) (c : Config) (b : BuiltinRule) : Prop where
  enabled : (c.isEnabled b.header.name && c.isEnabled b.header.code) = block.enabled.getD true
  severity : (c.severity? b.header.name).or (c.severity? b.header.code) = block.severity
  options : ∀ o ∈ b.optionKeys, b.option? c o = block.option? o

theorem SumsUp.alikeFor (h : SumsUp block c b) (h' : SumsUp block c' b) : AlikeFor b c c' where
  enabled := h.enabled.trans h'.enabled.symm
  severity := h.severity.trans h'.severity.symm
  options o ho := (h.options o ho).trans (h'.options o ho).symm

/-- The only block of a rule works under either key. -/
theorem SumsUp.of_only (hkey : b.GoesBy key) (hblock : c.rule? key = some block)
    (honly : ∀ key', b.GoesBy key' → key' ≠ key → c.rule? key' = none) : SumsUp block c b := by
  rcases hkey with rfl | rfl
  · have hcode := honly _ (.inr rfl) b.name_ne_code.symm
    refine ⟨?_, ?_, fun o _ => ?_⟩
    · simp [isEnabled, hblock, hcode]
    · simp [severity?, hblock, hcode]
    · simp [BuiltinRule.option?, BuiltinRule.block?, hblock]
  · have hname := honly _ (.inl rfl) b.name_ne_code
    refine ⟨?_, ?_, fun o _ => ?_⟩
    · simp [isEnabled, hblock, hname]
    · simp [severity?, hblock, hname]
    · simp [BuiltinRule.option?, BuiltinRule.block?, hblock, hname]

/-- The configuration with the given block, under the given key, as the only block of the rule. -/
def withOnly (c : Config) (b : BuiltinRule) (key : String) (block : RuleConfig) : Config :=
  { c with
    rules := (key, block) ::
      c.rules.filter fun e => e.1 ≠ b.header.name ∧ e.1 ≠ b.header.code }

variable (c block)

theorem rule?_withOnly_self : (c.withOnly b key block).rule? key = some block :=
  List.lookup_cons_self

theorem rule?_withOnly_of_ne (hne : key' ≠ key) : (c.withOnly b key block).rule? key' =
    if key' ≠ b.header.name ∧ key' ≠ b.header.code then c.rule? key' else none := by
  rw [rule?, withOnly, List.lookup_cons, beq_false_of_ne hne]
  simp only [lookup_filter_keys (fun k => k ≠ b.header.name ∧ k ≠ b.header.code),
    decide_eq_true_eq]
  rfl

theorem rule?_withOnly_of_goesBy (hkey' : b.GoesBy key') (hne : key' ≠ key) :
    (c.withOnly b key block).rule? key' = none := by
  rw [rule?_withOnly_of_ne c block hne, if_neg]
  rintro ⟨hname, hcode⟩
  exact hkey'.elim hname hcode

theorem agreeBut_withOnly (hkey : b.GoesBy key) : AgreeBut b c (c.withOnly b key block) := by
  intro key' hkey'
  have hne : key' ≠ key := fun h => hkey' (h ▸ hkey)
  rw [rule?_withOnly_of_ne c block hne, if_pos]
  exact ⟨fun h => hkey' (.inl h), fun h => hkey' (.inr h)⟩

theorem sumsUp_withOnly (hkey : b.GoesBy key) : SumsUp block (c.withOnly b key block) b :=
  .of_only hkey (c.rule?_withOnly_self block) fun _ => c.rule?_withOnly_of_goesBy block

end Config

/-! ## Checks under two configurations -/

namespace Analyzer

variable {parser : SourceParser} {c c' : Config} {b : BuiltinRule} {block : RuleConfig}

/-- The standard analyzer gives the same warnings under both configurations, and makes the same of
every unit and of any files. -/
structure SameChecks (parser : SourceParser) (c c' : Config) : Prop where
  warnings : RuleOptions.warnings c = RuleOptions.warnings c'
  units : ∀ u, checkUnit parser c u = checkUnit parser c' u
  paths : ∀ files paths, checkPaths parser c files paths = checkPaths parser c' files paths

theorem SameChecks.of_alikeFor (hanalyzer : c.analyzer = c'.analyzer)
    (h : ∀ b, Config.AlikeFor b c c') : SameChecks parser c c' := by
  have hsame := agree_of_alikeFor parser (fun _ => true) hanalyzer fun b _ => h b
  refine ⟨?_, fun u => ?_, fun files paths => ?_⟩
  · rw [RuleOptions.warnings, RuleOptions.warnings, (h .excessiveSpawns).configuredLimit]
  · rw [← map_filter_true (checkUnit parser c u), map_checkUnit parser hanalyzer hsame u,
      map_filter_true]
  · rw [← map_restrict_true (checkPaths parser c files paths),
      map_checkPaths parser hanalyzer hsame files paths, map_restrict_true]

/-- The blocks of a rule may be replaced by one that sums them up, under either key. -/
theorem SameChecks.of_sumsUp (h : Config.SumsUp block c b) {key : String} (hkey : b.GoesBy key) :
    SameChecks parser c (c.withOnly b key block) := by
  refine .of_alikeFor rfl fun b' => ?_
  by_cases hb : b' = b
  · subst hb
    exact h.alikeFor (c.sumsUp_withOnly block hkey)
  · exact ((c.agreeBut_withOnly block hkey).agreeOn hb).alikeFor

theorem checkUnit_of_parse (parser : SourceParser) (c : Config) (u : SourceUnit) {root : Node}
    (hexclude : c.analyzer.exclude = []) (hparse : parser.parse u.text = .ok root) :
    checkUnit parser c u =
      .ok ((assemble parser c (catalogFor c) []).analyzeTree u root) := by
  rw [checkUnit, standard, build_eq, hexclude]
  simp only [compilePatterns, List.append_nil, List.mapM_nil, pure, Except.pure, Except.mapError,
    Except.map, Except.bind, analyzeUnit, assemble, hparse]

/-! ## Moving a block -/

/-- A function that spawns three tasks. -/
def threeTasks : Node :=
  let task (column : Nat) : Node :=
    ⟨.call (some taskType), ⟨1, column, column - 1, 8⟩, [
      ⟨.identifier taskType, ⟨1, column, column - 1, 4⟩, []⟩,
      ⟨.closure, ⟨1, column + 5, column + 4, 3⟩, []⟩]⟩
  ⟨.function "f", ⟨1, 1, 0, 41⟩, [task 12, task 22, task 32]⟩

/-- The only block of a rule may be moved from the rule's name to its code, and back: every check
comes out as before. -/
theorem standard_withOnly_moved (parser : SourceParser) (c : Config) (b : BuiltinRule)
    {key key' : String} {block : RuleConfig} (hkey : b.GoesBy key) (hkey' : b.GoesBy key')
    (hblock : c.rule? key = some block) (hfree : c.rule? key' = none) :
    let moved := c.withOnly b key' block
    (moved.rule? key' = some block ∧ moved.rule? key = none ∧ Config.AgreeBut b c moved ∧
      moved.analyzer = c.analyzer ∧ moved.failOn = c.failOn) ∧
    SameChecks parser c moved := by
  have hne : key' ≠ key := by
    rintro rfl
    rw [hblock] at hfree
    contradiction
  have honly : ∀ other, b.GoesBy other → other ≠ key → c.rule? other = none := by
    intro other hother hne'
    rw [hkey.eq_of_ne hkey' hother hne hne', hfree]
  exact ⟨⟨c.rule?_withOnly_self block, c.rule?_withOnly_of_goesBy block hkey hne.symm,
    c.agreeBut_withOnly block hkey', rfl, rfl⟩, .of_sumsUp (.of_only hkey hblock honly) hkey'⟩

theorem standard_withOnly_moved_threeTasks :
    let parser : SourceParser := ⟨"swift", ["swift"], fun _ => .ok threeTasks⟩
    let u : SourceUnit := ⟨stdinIdentifier, ""⟩
    let block : RuleConfig := { severity := some .info, options := [("max_tasks", .integer 2)] }
    let stray : String × RuleConfig := ("CC-CONC-001", { enabled := some false })
    let c : Config := { analyzer := {}, rules := [stray, ("CC-CONC-005", block)] }
    let moved : Config := { c with rules := [("excessive-concurrent-spawns", block), stray] }
    ∃ found, checkUnit parser c u = .ok found ∧
      found.map (fun v => (v.code, v.severity)) = [("CC-CONC-005", .info)] ∧
      checkUnit parser moved u = .ok found := by
  intro parser u block stray c moved
  have hcheck := checkUnit_of_parse parser c u rfl rfl
  obtain ⟨_, hsame⟩ :=
    standard_withOnly_moved parser c .excessiveSpawns (.inr rfl) (.inl rfl) rfl rfl
  refine ⟨_, hcheck, ?_, (hsame.units u).symm.trans hcheck⟩
  rw [analyzeTree, walkRules, Visitor.walk_eq_visit]
  decide +kernel

end Analyzer

/-! ## Two blocks -/

namespace RuleConfig

/-- The settings of both blocks; where both set the same, the first one's. -/
def union (first second : RuleConfig) : RuleConfig where
  enabled := first.enabled.or second.enabled
  severity := first.severity.or second.severity
  options := first.options ++ second.options

/-- No setting is in both blocks. -/
structure Disjoint (first second : RuleConfig) : Prop where
  enabled : first.enabled = none ∨ second.enabled = none
  severity : first.severity = none ∨ second.severity = none
  options : ∀ key, first.option? key = none ∨ second.option? key = none

theorem option?_union (first second : RuleConfig) (key : String) :
    (first.union second).option? key = (first.option? key).or (second.option? key) :=
  List.lookup_append

end RuleConfig

/-- The blocks of a rule are summed up by their union, with options in it that are the same to the
rule as those of the name's block. -/
theorem Config.sumsUp_union {b : BuiltinRule} {c : Config} {byName byCode : RuleConfig}
    (hname : c.rule? b.header.name = some byName) (hcode : c.rule? b.header.code = some byCode)
    (hdisjoint : byName.Disjoint byCode) {options : List (String × Toml.Value)}
    (hoptions : ∀ o ∈ b.optionKeys, byName.option? o = options.lookup o) :
    SumsUp { byName.union byCode with options := options } c b where
  enabled := by
    simp only [isEnabled, hname, hcode, Option.bind_some, RuleConfig.union]
    -- A block that does not say whether the rule is enabled leaves that to the other.
    rcases hdisjoint.enabled with h | h <;> simp [h]
  severity := by simp only [severity?, hname, hcode, Option.bind_some, RuleConfig.union]
  options o ho := by
    simp only [BuiltinRule.option?, BuiltinRule.block?, hname, Option.some_or, Option.bind_some]
    exact hoptions o ho

namespace Analyzer

/-- Blocks under the name and the code of a rule, with no setting in both, work as one block that
has the settings of both, apart from the options of the code's block: these are passed over. So the
union of the two blocks does the same if the code's block sets no option that the rule reads. -/
theorem standard_withOnly_union (parser : SourceParser) (c : Config) (b : BuiltinRule)
    {byName byCode : RuleConfig} (hname : c.rule? b.header.name = some byName)
    (hcode : c.rule? b.header.code = some byCode) (hdisjoint : byName.Disjoint byCode) :
    SameChecks parser c (c.withOnly b b.header.name
      { byName.union byCode with options := byName.options }) ∧
    ((∀ key ∈ b.optionKeys, byCode.option? key = none) →
      SameChecks parser c (c.withOnly b b.header.name (byName.union byCode))) := by
  refine ⟨?_, fun hnone => ?_⟩
  · exact .of_sumsUp (Config.sumsUp_union hname hcode hdisjoint fun _ _ => rfl) (.inl rfl)
  · refine .of_sumsUp (Config.sumsUp_union hname hcode hdisjoint fun o ho => ?_) (.inl rfl)
    have hunion := byName.option?_union byCode o
    rw [hnone o ho, Option.or_none] at hunion
    exact hunion.symm

theorem standard_withOnly_union_threeTasks :
    let parser : SourceParser := ⟨"swift", ["swift"], fun _ => .ok threeTasks⟩
    let u : SourceUnit := ⟨stdinIdentifier, ""⟩
    let byName : RuleConfig := { enabled := some true, options := [("max_tasks", .integer 2)] }
    let byCode : RuleConfig := { severity := some .error, options := [("note", .boolean true)] }
    let c : Config := { analyzer := {}, rules :=
      [("CC-CONC-005", byCode), ("excessive-concurrent-spawns", byName)] }
    let merged : Config := { analyzer := {}, rules :=
      [("excessive-concurrent-spawns", byName.union byCode)] }
    ∃ found, checkUnit parser c u = .ok found ∧
      found.map (fun v => (v.code, v.severity)) = [("CC-CONC-005", .error)] ∧
      checkUnit parser merged u = .ok found := by
  intro parser u byName byCode c merged
  have hcheck := checkUnit_of_parse parser c u rfl rfl
  have hdisjoint : byName.Disjoint byCode := by
    refine ⟨.inr rfl, .inl rfl, fun key => ?_⟩
    by_cases hkey : key = "max_tasks"
    · subst hkey
      exact .inr rfl
    · left
      simp [byName, RuleConfig.option?, List.lookup_cons, beq_false_of_ne hkey]
  obtain ⟨_, hunion⟩ := standard_withOnly_union parser c .excessiveSpawns rfl rfl hdisjoint
  have hsame := hunion fun key hkey => by
    cases List.mem_singleton.mp hkey
    rfl
  refine ⟨_, hcheck, ?_, (hsame.units u).symm.trans hcheck⟩
  rw [analyzeTree, walkRules, Visitor.walk_eq_visit]
  decide +kernel

/-- The limit under the code is lost beside a block of the name that only sets the severity, though
the union of the two blocks has it. -/
theorem limitByCode_lost :
    let parser : SourceParser := ⟨"swift", ["swift"], fun _ => .ok threeTasks⟩
    let u : SourceUnit := ⟨stdinIdentifier, ""⟩
    let byName : RuleConfig := { severity := some .error }
    let byCode : RuleConfig := { options := [("max_tasks", .integer 2)] }
    let c : Config := { analyzer := {}, rules :=
      [("excessive-concurrent-spawns", byName), ("CC-CONC-005", byCode)] }
    let merged := c.withOnly .excessiveSpawns "excessive-concurrent-spawns" (byName.union byCode)
    byName.Disjoint byCode ∧ checkUnit parser c u = .ok [] ∧
    ∃ found, checkUnit parser merged u = .ok found ∧
      found.map (fun v => (v.code, v.severity)) = [("CC-CONC-005", .error)] := by
  intro parser u byName byCode c merged
  have hcheck (c : Config) (hexclude : c.analyzer.exclude = []) :=
    checkUnit_of_parse parser c u hexclude rfl
  refine ⟨⟨.inl rfl, .inr rfl, fun _ => .inl rfl⟩, ?_, _, hcheck merged rfl, ?_⟩
  · rw [hcheck c rfl, analyzeTree, walkRules, Visitor.walk_eq_visit]
    refine congrArg Except.ok ?_
    decide +kernel
  · rw [analyzeTree, walkRules, Visitor.walk_eq_visit]
    decide +kernel

end Analyzer

end ConcurrencyLint
