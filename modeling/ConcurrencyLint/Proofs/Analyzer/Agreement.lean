import ConcurrencyLint.Cli.Run
import ConcurrencyLint.Proofs.Rule.Selection

/-!
# Analyzers that agree

Two analyzers agree if, of the violations of any tree, the ones kept of the first are the ones kept
of the second, in the same order. Then their reports on any inputs agree in the same way, and are equal
in everything else.
-/

namespace ConcurrencyLint

namespace Report

/-- The report with those of its violations that are kept. -/
def restrict (keep : Violation → Bool) (r : Report) : Report :=
  { r with violations := r.violations.filter keep }

@[simp] theorem restrict_true (r : Report) : r.restrict (fun _ => true) = r := by
  simp [restrict]

theorem restrict_append (keep : Violation → Bool) (r s : Report) :
    (r ++ s).restrict keep = r.restrict keep ++ s.restrict keep := by
  change (append r s).restrict keep = append (r.restrict keep) (s.restrict keep)
  simp [restrict, append]

end Report

def Logged.restrict (keep : Violation → Bool) (l : Logged Report) : Logged Report :=
  { l with result := l.result.restrict keep }

@[simp] theorem Logged.restrict_true (l : Logged Report) : l.restrict (fun _ => true) = l := by
  simp [Logged.restrict]

namespace Analyzer

variable {keep keep' : Violation → Bool} {a a' : Analyzer} {parser : SourceParser}
  {config config' : Config} {rules rules' : List Rule}

/-- The analyzers read the same inputs in the same way, and of the violations of a tree, those that
`keep` leaves of the first are those that `keep'` leaves of the second. -/
structure Agree (keep keep' : Violation → Bool) (a a' : Analyzer) : Prop where
  parser : a.parser = a'.parser
  excludes : a.excludes = a'.excludes
  gitignore : a.config.analyzer.respectGitignore = a'.config.analyzer.respectGitignore
  trees : ∀ u root, (a.analyzeTree u root).filter keep = (a'.analyzeTree u root).filter keep'

/-! ## From trees to reports -/

namespace Agree

theorem analyzeUnit (h : Agree keep keep' a a') (u : SourceUnit) :
    (a.analyzeUnit u).map (·.filter keep) = (a'.analyzeUnit u).map (·.filter keep') := by
  rw [Analyzer.analyzeUnit, Analyzer.analyzeUnit, h.parser]
  cases a'.parser.parse u.text with
  | error cause => rfl
  | ok root => exact congrArg Except.ok (h.trees u root)

theorem reportUnit (h : Agree keep keep' a a') (u : SourceUnit) :
    (a.reportUnit u).restrict keep = (a'.reportUnit u).restrict keep' := by
  rw [Analyzer.reportUnit, Analyzer.reportUnit, Analyzer.analyzeUnit, Analyzer.analyzeUnit,
    h.parser]
  cases a'.parser.parse u.text with
  | error cause => rfl
  | ok root => simp [Report.restrict, h.trees u root]

theorem analyzeUnits (h : Agree keep keep' a a') (units : List SourceUnit) :
    (a.analyzeUnits units).restrict keep = (a'.analyzeUnits units).restrict keep' := by
  have hfold (r r' : Report) (hr : r.restrict keep = r'.restrict keep') :
      (units.foldl (fun report u => report ++ a.reportUnit u) r).restrict keep =
        (units.foldl (fun report u => report ++ a'.reportUnit u) r').restrict keep' := by
    induction units generalizing r r' with
    | nil => exact hr
    | cons u units ih =>
        refine ih _ _ ?_
        rw [Report.restrict_append, Report.restrict_append, hr, h.reportUnit u]
  exact hfold .empty .empty rfl

theorem filesOf (h : Agree keep keep' a a') (files : FileAccess) :
    a.filesOf files = a'.filesOf files := by
  funext path
  rw [Analyzer.filesOf, Analyzer.filesOf, h.parser, h.excludes, h.gitignore]

theorem analyzePaths (h : Agree keep keep' a a') (files : FileAccess) (paths : List String) :
    (a.analyzePaths files paths).restrict keep = (a'.analyzePaths files paths).restrict keep' := by
  have hunits := h.analyzeUnits (partition (readUnit files)
    (partition (a'.filesOf files) paths).2.flatten).2
  have herrors := congrArg Report.inputErrors hunits
  simp only [Report.restrict] at herrors
  simp only [Analyzer.analyzePaths, Logged.restrict, Report.restrict_append, h.filesOf files,
    hunits, herrors]
  rfl

theorem checkStdin (h : Agree keep keep' a a') (content : ByteArray) :
    (Cli.checkStdin a content).restrict keep = (Cli.checkStdin a' content).restrict keep' := by
  rw [Cli.checkStdin, Cli.checkStdin]
  cases String.fromUTF8? content with
  | none => rfl
  | some text =>
      have hunits := h.analyzeUnits [⟨stdinIdentifier, text⟩]
      have herrors := congrArg Report.inputErrors hunits
      simp only [Report.restrict] at herrors
      simp only [Logged.restrict, hunits, herrors]

theorem analyze (h : Agree keep keep' a a') (o : Cli.CheckOptions) (env : Cli.Environment) :
    (o.analyze env a).restrict keep = (o.analyze env a').restrict keep' := by
  rw [Cli.CheckOptions.analyze, Cli.CheckOptions.analyze]
  split
  · exact h.checkStdin env.stdin
  · exact h.analyzePaths env.files.access o.inputs

end Agree

/-! ## From walks to trees -/

/-- What is kept of a violation by its name and code does not depend on when its severity is set or
when allowances are looked up. -/
theorem filter_analyzeTree (a : Analyzer) (names : String → String → Bool) (u : SourceUnit)
    (root : Node) : (a.analyzeTree u root).filter (fun v => names v.rule v.code) =
      (((walkRules a.rules ⟨u, a.points⟩ root).filter fun v => names v.rule v.code).filter
        fun v => !isAllowed u v).map (withSeverity a.config) := by
  rw [analyzeTree, List.filter_map, List.filter_filter, List.filter_filter]
  simp only [Function.comp_def, withSeverity, Bool.and_comm]

/-- The analyzer that building gives for compiled patterns. -/
def assemble (parser : SourceParser) (config : Config) (rules : List Rule)
    (patterns : List Glob.Pattern) : Analyzer :=
  ⟨parser, rules.filter (isRuleEnabled config), patterns, config.entryPoints, config⟩

theorem build_eq (parser : SourceParser) (config : Config) (rules : List Rule)
    (excludes : List String) : build (some parser) config rules excludes =
      ((compilePatterns (excludes ++ config.analyzer.exclude)).mapError .badPattern).map
        (assemble parser config rules) := by
  simp only [build]
  cases compilePatterns (excludes ++ config.analyzer.exclude) <;> rfl

/-- Configurations that exclude the same patterns fail to build for the same reason, or build over
the same compiled patterns. -/
theorem build_cases (parser : SourceParser) (rules rules' : List Rule) (excludes : List String)
    (hexclude : config.analyzer.exclude = config'.analyzer.exclude) :
    (∃ e, build (some parser) config rules excludes = .error e ∧
      build (some parser) config' rules' excludes = .error e) ∨
    ∃ patterns,
      build (some parser) config rules excludes = .ok (assemble parser config rules patterns) ∧
      build (some parser) config' rules' excludes =
        .ok (assemble parser config' rules' patterns) := by
  rw [build_eq, build_eq, hexclude]
  cases compilePatterns (excludes ++ config'.analyzer.exclude) with
  | error cause => exact .inl ⟨_, rfl, rfl⟩
  | ok patterns => exact .inr ⟨patterns, rfl, rfl⟩

end Analyzer

end ConcurrencyLint
