import ConcurrencyLint.Proofs.Analyzer.Agreement
import ConcurrencyLint.Proofs.Analyzer.Inputs

/-!
# The names of units

The built-in rules show the name of a unit in the locations of their violations and do nothing else
with it, and they do not look at its text. Suppression looks at the text, and severities at the names
of rules. So analysing a text under two names gives the same violations in two files.
-/

namespace ConcurrencyLint

/-- The violation, in another file. -/
def Violation.inFile (file : String) (v : Violation) : Violation :=
  { v with location := { v.location with file := file } }

theorem map_inFile_inFile (file file' : String) (vs : List Violation) :
    (vs.map (·.inFile file')).map (·.inFile file) = vs.map (·.inFile file) := by
  rw [List.map_map]
  rfl

theorem file_of_mem_map_inFile {file : String} {vs : List Violation} {v : Violation}
    (h : v ∈ vs.map (·.inFile file)) : v.location.file = file := by
  obtain ⟨_, _, rfl⟩ := List.mem_map.mp h
  rfl

/-! ## Rules that ignore the unit -/

/-- All that the rule takes from the unit is the file that its violations are in. -/
structure Rule.IgnoresUnit (r : Rule) : Prop where
  node (ctx : Context) (u : SourceUnit) (n : Node) :
    r.checkNode { ctx with unit := u } n = (r.checkNode ctx n).map (·.inFile u.identifier)
  exit (ctx : Context) (u : SourceUnit) (closed : Scope) :
    r.checkScopeExit { ctx with unit := u } closed =
      (r.checkScopeExit ctx closed).map (·.inFile u.identifier)

namespace BuiltinRule

theorem inspectNode_unit (b : BuiltinRule) (o : RuleOptions) (ctx : Context) (u : SourceUnit)
    (n : Node) : b.inspectNode o { ctx with unit := u } n = b.inspectNode o ctx n := by
  cases b <;> rfl

theorem ignoresUnit_ruleWith (b : BuiltinRule) (severity : Severity) (o : RuleOptions) :
    (b.ruleWith severity o).IgnoresUnit where
  node ctx u n := by
    simp only [ruleWith, inspectNode_unit, List.map_map]
    rfl
  exit ctx u closed := by
    simp only [ruleWith, List.map_map]
    rfl

end BuiltinRule

/-! ## Walks of another unit -/

namespace Visitor

variable {α : Type} {v : Visitor α} {u u' : SourceUnit} {points : EntryPoints}

/-- The visitor as it works when it is shown the given unit in place of the one that is walked. -/
def inUnit (v : Visitor α) (u : SourceUnit) : Visitor α where
  enter ctx n := v.enter { ctx with unit := u } n
  leave ctx closed := v.leave { ctx with unit := u } closed

mutual

theorem visit_inUnit : (n : Node) → (s : ScopeStack) →
    v.visit ⟨u', points⟩ s n = (v.inUnit u').visit ⟨u, points⟩ s n
  | ⟨kind, span, children⟩, s => by
      rw [visit, visit, visitAll_inUnit children]
      rfl

theorem visitAll_inUnit : (ns : List Node) → (s : ScopeStack) →
    v.visitAll ⟨u', points⟩ s ns = (v.inUnit u').visitAll ⟨u, points⟩ s ns
  | [], s => by rw [visitAll, visitAll]
  | n :: ns, s => by simp only [visitAll, visit_inUnit n, visitAll_inUnit ns]

end

theorem walk_inUnit (v : Visitor α) (u u' : SourceUnit) (points : EntryPoints) (root : Node) :
    v.walk ⟨u', points⟩ root = (v.inUnit u').walk ⟨u, points⟩ root := by
  rw [walk_eq_visit, walk_eq_visit, visit_inUnit]

theorem respond_inUnit {rules : List Rule} (h : ∀ r ∈ rules, r.IgnoresUnit) (u : SourceUnit)
    (e : TraceEvent) : ((ofRules rules).inUnit u).respond e =
      ((ofRules rules).respond e).map (·.inFile u.identifier) := by
  cases e with
  | enter n ctx =>
      simp only [respond, inUnit, ofRules, List.map_flatMap]
      exact List.flatMap_congr fun r hr => (h r hr).node ctx u n
  | exit closed ctx =>
      simp only [respond, inUnit, ofRules, List.map_flatMap]
      exact List.flatMap_congr fun r hr => (h r hr).exit ctx u closed

end Visitor

/-- A walk finds the same in the same tree of another unit, in the file of that unit. -/
theorem walkRules_inFile {rules : List Rule} (h : ∀ r ∈ rules, r.IgnoresUnit) (u u' : SourceUnit)
    (points : EntryPoints) (root : Node) : walkRules rules ⟨u', points⟩ root =
      (walkRules rules ⟨u, points⟩ root).map (·.inFile u'.identifier) := by
  rw [walkRules, walkRules, Visitor.walk_inUnit _ u u', Visitor.walk_eq_respond (.inUnit _ u'),
    Visitor.walk_eq_respond (.ofRules rules), List.map_flatMap]
  exact List.flatMap_congr fun e _ => Visitor.respond_inUnit h u' e

theorem walkRules_text {rules : List Rule} (h : ∀ r ∈ rules, r.IgnoresUnit)
    (identifier text text' : String) (points : EntryPoints) (root : Node) :
    walkRules rules ⟨⟨identifier, text⟩, points⟩ root =
      walkRules rules ⟨⟨identifier, text'⟩, points⟩ root := by
  rw [walkRules_inFile h ⟨"", ""⟩ ⟨identifier, text⟩,
    walkRules_inFile h ⟨"", ""⟩ ⟨identifier, text'⟩]

/-! ## Analyses of another unit -/

namespace Analyzer

variable {a : Analyzer}

/-- Neither suppression nor the configured severities look at the file of a violation. -/
theorem analyzeTree_inFile (h : ∀ r ∈ a.rules, r.IgnoresUnit) (identifier identifier' text : String)
    (root : Node) : a.analyzeTree ⟨identifier', text⟩ root =
      (a.analyzeTree ⟨identifier, text⟩ root).map (·.inFile identifier') := by
  rw [analyzeTree, walkRules_inFile h ⟨identifier, text⟩, List.filter_map, List.map_map, analyzeTree,
    List.map_map]
  rfl

theorem file_of_mem_analyzeTree (h : ∀ r ∈ a.rules, r.IgnoresUnit) {u : SourceUnit} {root : Node}
    {v : Violation} (hv : v ∈ a.analyzeTree u root) : v.location.file = u.identifier := by
  rw [analyzeTree_inFile h u.identifier] at hv
  exact file_of_mem_map_inFile hv

theorem analyzeUnit_cases (h : ∀ r ∈ a.rules, r.IgnoresUnit) (text first second : String) :
    (∃ cause, a.analyzeUnit ⟨first, text⟩ = .error (.unparsable first cause) ∧
      a.analyzeUnit ⟨second, text⟩ = .error (.unparsable second cause)) ∨
    ∃ vs vs', a.analyzeUnit ⟨first, text⟩ = .ok vs ∧ a.analyzeUnit ⟨second, text⟩ = .ok vs' ∧
      (∀ file, vs.map (·.inFile file) = vs'.map (·.inFile file)) ∧
      (∀ v ∈ vs, v.location.file = first) ∧ ∀ v ∈ vs', v.location.file = second := by
  rw [analyzeUnit, analyzeUnit]
  cases a.parser.parse text with
  | error cause => exact .inl ⟨cause, rfl, rfl⟩
  | ok root =>
      refine .inr ⟨_, _, rfl, rfl, fun file => ?_, ?_, ?_⟩
      · rw [analyzeTree_inFile h first second, map_inFile_inFile]
      · exact fun v hv => file_of_mem_analyzeTree h hv
      · exact fun v hv => file_of_mem_analyzeTree h hv

/-! ## Files and standard input -/

/-- The reports have checked as many files, and their violations are the same but for the files that
they are in: one file for each report. -/
structure SameFindings (file file' : String) (r r' : Report) : Prop where
  filesChecked : r.filesChecked = r'.filesChecked
  violations : ∀ any, r.violations.map (·.inFile any) = r'.violations.map (·.inFile any)
  first : ∀ v ∈ r.violations, v.location.file = file
  second : ∀ v ∈ r'.violations, v.location.file = file'

theorem sameFindings_errors (file file' : String) (errors errors' : List InputError) :
    SameFindings file file' { inputErrors := errors } { inputErrors := errors' } where
  filesChecked := rfl
  violations _ := rfl
  first := by simp
  second := by simp

theorem SameFindings.of_alike {file file' : String} {r r' s : Report} (halike : r.Alike s)
    (h : SameFindings file file' s r') : SameFindings file file' r r' where
  filesChecked := halike.filesChecked.trans h.filesChecked
  violations := by
    rw [halike.violations]
    exact h.violations
  first := by
    rw [halike.violations]
    exact h.first
  second := h.second

theorem sameFindings_reportUnit (h : ∀ r ∈ a.rules, r.IgnoresUnit) (text first second : String) :
    SameFindings first second (a.reportUnit ⟨first, text⟩) (a.reportUnit ⟨second, text⟩) := by
  rw [reportUnit, reportUnit]
  obtain ⟨cause, hfirst, hsecond⟩ | ⟨vs, vs', hfirst, hsecond, hsame, hfile, hfile'⟩ :=
    analyzeUnit_cases h text first second
  · rw [hfirst, hsecond]
    exact sameFindings_errors first second _ _
  · rw [hfirst, hsecond]
    exact ⟨rfl, hsame, hfile, hfile'⟩

theorem checkStdin_result {content : ByteArray} {text : String}
    (h : String.fromUTF8? content = some text) :
    (Cli.checkStdin a content).result = a.reportUnit ⟨stdinIdentifier, text⟩ := by
  simp only [Cli.checkStdin, h]
  rw [analyzeUnits_eq_join, List.map_singleton, Report.join, Report.join, Report.append_empty]

theorem sameFindings_stdin (h : ∀ r ∈ a.rules, r.IgnoresUnit) {files : FileAccess} {path : String}
    {content : ByteArray} (hfile : files.isDirectory path = false)
    (hread : files.read path = .ok content) :
    SameFindings path stdinIdentifier (a.analyzePaths files [path]).result
      (Cli.checkStdin a content).result := by
  have halike := a.analyzePaths_alike files [path]
  rw [List.map_singleton, Report.join, Report.join, Report.append_empty, reportInput_of_file hfile]
    at halike
  refine .of_alike halike ?_
  cases htext : String.fromUTF8? content with
  | none =>
      have hunit : readUnit files path = .error (.notText path) := by
        simp only [readUnit, hread, htext]
      simp only [reportFile, settle_of_error hunit, Cli.checkStdin, htext]
      exact sameFindings_errors path stdinIdentifier _ _
  | some text =>
      have hunit : readUnit files path = .ok ⟨path, text⟩ := by
        simp only [readUnit, hread, htext]
      rw [reportFile, settle_of_ok hunit, checkStdin_result htext]
      exact sameFindings_reportUnit h text path stdinIdentifier

/-- The name of a unit has no influence on what is found in it. Under two names a text fails to parse
for the same reason, or has the same violations but for their files, and these are the names. So it
is the same whether a text is read from a file or from standard input. A walk does not depend on the
text at all, given the tree. -/
theorem analyzeUnit_identifiers (a : Analyzer)
    (h : ∀ r ∈ a.rules, ∃ b severity o, r = BuiltinRule.ruleWith b severity o) :
    (∀ text first second,
      (∃ cause, a.analyzeUnit ⟨first, text⟩ = .error (.unparsable first cause) ∧
        a.analyzeUnit ⟨second, text⟩ = .error (.unparsable second cause)) ∨
      ∃ vs vs', a.analyzeUnit ⟨first, text⟩ = .ok vs ∧ a.analyzeUnit ⟨second, text⟩ = .ok vs' ∧
        (∀ file, vs.map (·.inFile file) = vs'.map (·.inFile file)) ∧
        (∀ v ∈ vs, v.location.file = first) ∧ ∀ v ∈ vs', v.location.file = second) ∧
    (∀ (files : FileAccess) path content, files.isDirectory path = false →
      files.read path = .ok content →
      SameFindings path "<stdin>" (a.analyzePaths files [path]).result
        (Cli.checkStdin a content).result) ∧
    ∀ identifier text text' points root,
      walkRules a.rules ⟨⟨identifier, text⟩, points⟩ root =
        walkRules a.rules ⟨⟨identifier, text'⟩, points⟩ root := by
  have hignores : ∀ r ∈ a.rules, r.IgnoresUnit := by
    intro r hr
    obtain ⟨b, severity, o, rfl⟩ := h r hr
    exact b.ignoresUnit_ruleWith severity o
  exact ⟨analyzeUnit_cases hignores, fun files path content => sameFindings_stdin hignores,
    walkRules_text hignores⟩

theorem analyzeUnit_identifiers_nestedFunctions :
    let parser : SourceParser := ⟨"swift", ["swift"], fun _ => .ok nestedFunctions⟩
    let config : Config :=
      { analyzer := {}, rules := [("CC-CONC-003", { severity := some .info })] }
    let content := "func outer() \x7b".toUTF8
    let files : FileAccess := ⟨fun _ => false, fun _ => .ok content, fun _ _ => .ok []⟩
    ∃ a, standard parser config = .ok a ∧
      (∀ r ∈ a.rules, ∃ b severity o, r = BuiltinRule.ruleWith b severity o) ∧
      (∃ vs vs', a.analyzeUnit ⟨"A.swift", ""⟩ = .ok vs ∧ a.analyzeUnit ⟨"B.swift", ""⟩ = .ok vs' ∧
        vs.map (fun v => (v.code, v.severity, v.location.file)) =
          [("CC-CONC-003", .info, "A.swift")] ∧
        ∀ file, vs.map (·.inFile file) = vs'.map (·.inFile file)) ∧
      SameFindings "A.swift" "<stdin>" (a.analyzePaths files ["A.swift"]).result
        (Cli.checkStdin a content).result := by
  intro parser config content files
  have hbuiltin : ∀ r ∈ (catalogFor config).filter (isRuleEnabled config),
      ∃ b severity o, r = BuiltinRule.ruleWith b severity o := by
    intro r hr
    obtain ⟨b, _, rfl⟩ := List.mem_map.mp (List.mem_filter.mp hr).1
    exact ⟨b, _, _, rfl⟩
  let a := assemble parser config (catalogFor config) []
  obtain ⟨hunits, hstdin, _⟩ := analyzeUnit_identifiers a hbuiltin
  refine ⟨a, rfl, hbuiltin, ?_, hstdin files "A.swift" content rfl rfl⟩
  obtain ⟨cause, hfail, _⟩ | ⟨vs, vs', hfirst, hsecond, hsame, _⟩ := hunits "" "A.swift" "B.swift"
  · cases hfail
  · refine ⟨vs, vs', hfirst, hsecond, ?_, hsame⟩
    cases hfirst
    decide +kernel

end Analyzer

end ConcurrencyLint
