import ConcurrencyLint.Analyzer
import Mathlib.Algebra.GroupWithZero.Nat
import Mathlib.Data.List.Perm.Basic

/-!
# One report for each input

An analysis of paths works in phases, and every phase sets its failures apart from what goes on to
the next. Up to the order of the input errors, the report is still that of the inputs one after
another. So every input is accounted for once, and an input that fails changes nothing about the
others.
-/

namespace ConcurrencyLint

/-! ## Reports one after another -/

attribute [ext] Report

namespace Report

variable {r r' s s' t : Report}

@[simp] theorem violations_append (r s : Report) :
    (r ++ s).violations = r.violations ++ s.violations := rfl

@[simp] theorem filesChecked_append (r s : Report) :
    (r ++ s).filesChecked = r.filesChecked + s.filesChecked := rfl

@[simp] theorem inputErrors_append (r s : Report) :
    (r ++ s).inputErrors = r.inputErrors ++ s.inputErrors := rfl

@[simp] theorem empty_append (r : Report) : empty ++ r = r := by
  ext1 <;> simp [empty]

@[simp] theorem append_empty (r : Report) : r ++ empty = r := by
  ext1 <;> simp [empty]

theorem append_assoc (r s t : Report) : r ++ s ++ t = r ++ (s ++ t) := by
  ext1 <;> simp [Nat.add_assoc]

def join : List Report → Report
  | [] => empty
  | r :: rs => r ++ join rs

theorem join_append (rs ss : List Report) : join (rs ++ ss) = join rs ++ join ss := by
  induction rs with
  | nil => rw [List.nil_append, join, empty_append]
  | cons r rs ih => rw [List.cons_append, join, join, ih, append_assoc]

theorem join_map_flatten {α : Type} (report : α → Report) (xss : List (List α)) :
    join (xss.flatten.map report) = join (xss.map fun xs => join (xs.map report)) := by
  induction xss with
  | nil => rfl
  | cons xs xss ih => rw [List.flatten_cons, List.map_append, join_append, ih, List.map_cons, join]

/-- The number of inputs that a report tells of. -/
def handled (r : Report) : Nat := r.filesChecked + r.inputErrors.length

theorem handled_append (r s : Report) : (r ++ s).handled = r.handled + s.handled := by
  simp only [handled, filesChecked_append, inputErrors_append, List.length_append]
  omega

theorem handled_join_map {α : Type} (report : α → Report) (xs : List α) :
    (join (xs.map report)).handled = (xs.map fun x => (report x).handled).sum := by
  induction xs with
  | nil => rfl
  | cons x xs ih => rw [List.map_cons, join, handled_append, ih, List.map_cons, List.sum_cons]

/-- Inputs without violations that are not checked can be left out. -/
theorem join_map_filter {α : Type} {report : α → Report} {keep : α → Bool} {xs : List α}
    (h : ∀ x ∈ xs, ¬keep x → (report x).violations = [] ∧ (report x).filesChecked = 0) :
    (join ((xs.filter keep).map report)).violations = (join (xs.map report)).violations ∧
      (join ((xs.filter keep).map report)).filesChecked = (join (xs.map report)).filesChecked := by
  induction xs with
  | nil => exact ⟨rfl, rfl⟩
  | cons x xs ih =>
      obtain ⟨hviolations, hfiles⟩ := ih fun y hy => h y (List.mem_cons_of_mem _ hy)
      by_cases hx : keep x
      · rw [List.filter_cons_of_pos hx]
        simp [join, hviolations, hfiles]
      · obtain ⟨hnone, hzero⟩ := h x List.mem_cons_self hx
        rw [List.filter_cons_of_neg hx]
        simp [join, hnone, hzero, hviolations, hfiles]

/-- The reports say the same, but may list the input errors in different orders. -/
structure Alike (r s : Report) : Prop where
  violations : r.violations = s.violations
  filesChecked : r.filesChecked = s.filesChecked
  inputErrors : r.inputErrors.Perm s.inputErrors

namespace Alike

theorem refl (r : Report) : Alike r r := ⟨rfl, rfl, .refl _⟩

theorem symm (h : Alike r s) : Alike s r :=
  ⟨h.violations.symm, h.filesChecked.symm, h.inputErrors.symm⟩

theorem trans (h : Alike r s) (h' : Alike s t) : Alike r t :=
  ⟨h.violations.trans h'.violations, h.filesChecked.trans h'.filesChecked,
    h.inputErrors.trans h'.inputErrors⟩

theorem append (h : Alike r r') (h' : Alike s s') : Alike (r ++ s) (r' ++ s') where
  violations := by rw [violations_append, h.violations, h'.violations, violations_append]
  filesChecked := by rw [filesChecked_append, h.filesChecked, h'.filesChecked, filesChecked_append]
  inputErrors := h.inputErrors.append h'.inputErrors

theorem handled (h : Alike r s) : r.handled = s.handled := by
  rw [Report.handled, Report.handled, h.filesChecked, h.inputErrors.length_eq]

/-- Errors found on their own can be told before or after a report. -/
theorem append_left_comm (errors : List InputError) (r s : Report) :
    Alike (({ inputErrors := errors } : Report) ++ (r ++ s))
      (r ++ (({ inputErrors := errors } : Report) ++ s)) where
  violations := rfl
  filesChecked := by simp only [filesChecked_append]; omega
  inputErrors := List.perm_append_comm_assoc _ _ _

end Alike

end Report

/-! ## The phases of an analysis -/

namespace Analyzer

variable {a : Analyzer} {files : FileAccess} {path : String}

/-- The report of an attempt: that of its result, or its failure. -/
def settle {β : Type} (attempt : String → Except AnalysisError β) (report : β → Report)
    (path : String) : Report :=
  match attempt path with
  | .error e => failure path e
  | .ok b => report b

/-- The report of one file. -/
def reportFile (a : Analyzer) (files : FileAccess) : String → Report :=
  settle (readUnit files) a.reportUnit

/-- The report of one input. -/
def reportInput (a : Analyzer) (files : FileAccess) : String → Report :=
  settle (a.filesOf files) fun found => .join (found.map (a.reportFile files))

theorem analyzeUnits_eq_join (a : Analyzer) (units : List SourceUnit) :
    a.analyzeUnits units = .join (units.map a.reportUnit) := by
  have hfold (report : Report) : units.foldl (fun report u => report ++ a.reportUnit u) report =
      report ++ .join (units.map a.reportUnit) := by
    induction units generalizing report with
    | nil => exact (Report.append_empty report).symm
    | cons u units ih => rw [List.foldl_cons, ih, List.map_cons, Report.join, Report.append_assoc]
  rw [analyzeUnits, hfold, Report.empty_append]

section

variable {β : Type} {attempt : String → Except AnalysisError β} {report : β → Report}
  {e : AnalysisError} {b : β}

theorem settle_of_error (h : attempt path = .error e) :
    settle attempt report path = failure path e := by
  rw [settle, h]

theorem settle_of_ok (h : attempt path = .ok b) : settle attempt report path = report b := by
  rw [settle, h]

theorem partition_cons_of_error (h : attempt path = .error e) (paths : List String) :
    partition attempt (path :: paths) =
      ((path, e) :: (partition attempt paths).1, (partition attempt paths).2) := by
  simp only [partition, List.filterMap_cons, h]

theorem partition_cons_of_ok (h : attempt path = .ok b) (paths : List String) :
    partition attempt (path :: paths) =
      ((partition attempt paths).1, b :: (partition attempt paths).2) := by
  simp only [partition, List.filterMap_cons, h]

variable (attempt report) in
/-- A phase that sets its failures apart reports what one attempt after another would. -/
theorem partition_alike (paths : List String) :
    Report.Alike
      ({ inputErrors := errorsOf (partition attempt paths).1 } ++
        Report.join ((partition attempt paths).2.map report))
      (.join (paths.map (settle attempt report))) := by
  induction paths with
  | nil => exact .refl _
  | cons path paths ih =>
      rw [List.map_cons, Report.join]
      cases h : attempt path with
      | error e =>
          rw [partition_cons_of_error h, settle_of_error h]
          have hfirst := (Report.Alike.refl (failure path e)).append ih
          rw [← Report.append_assoc] at hfirst
          exact hfirst
      | ok b =>
          rw [partition_cons_of_ok h, settle_of_ok h]
          exact (Report.Alike.append_left_comm _ _ _).trans ((Report.Alike.refl _).append ih)

end

/-- The report of paths is that of the inputs one after another. -/
theorem analyzePaths_alike (a : Analyzer) (files : FileAccess) (paths : List String) :
    (a.analyzePaths files paths).result.Alike (.join (paths.map (a.reportInput files))) := by
  have hfiles := partition_alike (readUnit files) a.reportUnit
    (partition (a.filesOf files) paths).2.flatten
  rw [← analyzeUnits_eq_join, Report.join_map_flatten] at hfiles
  have hinputs := partition_alike (a.filesOf files)
    (fun found => .join (found.map (a.reportFile files))) paths
  refine .trans ?_ hinputs
  have hphases := (Report.Alike.refl
    { inputErrors := errorsOf (partition (a.filesOf files) paths).1 }).append hfiles
  rwa [← Report.append_assoc] at hphases

/-! ## Accounting for every input -/

/-- What comes of reading and analysing one file. -/
inductive Attempted (a : Analyzer) (files : FileAccess) (path : String) : Report → Prop
  | unreadable {cause : FileError} : files.read path = .error cause →
      Attempted a files path (failure path (.unreadable path cause))
  | notText {content : ByteArray} : files.read path = .ok content →
      String.fromUTF8? content = none → Attempted a files path (failure path (.notText path))
  | unparsable {content : ByteArray} {text : String} {cause : ParseError} :
      files.read path = .ok content → String.fromUTF8? content = some text →
      a.parser.parse text = .error cause →
      Attempted a files path (failure path (.unparsable path cause))
  | checked {content : ByteArray} {text : String} {root : Node} :
      files.read path = .ok content → String.fromUTF8? content = some text →
      a.parser.parse text = .ok root →
      Attempted a files path
        { violations := a.analyzeTree ⟨path, text⟩ root, filesChecked := 1 }

theorem attempted_reportFile (a : Analyzer) (files : FileAccess) (path : String) :
    a.Attempted files path (a.reportFile files path) := by
  cases hread : files.read path with
  | error cause =>
      have hunit : readUnit files path = .error (.unreadable path cause) := by rw [readUnit, hread]
      rw [reportFile, settle_of_error hunit]
      exact .unreadable hread
  | ok content =>
      cases htext : String.fromUTF8? content with
      | none =>
          have hunit : readUnit files path = .error (.notText path) := by
            simp only [readUnit, hread, htext]
          rw [reportFile, settle_of_error hunit]
          exact .notText hread htext
      | some text =>
          have hunit : readUnit files path = .ok ⟨path, text⟩ := by
            simp only [readUnit, hread, htext]
          rw [reportFile, settle_of_ok hunit, reportUnit, analyzeUnit]
          cases hparse : a.parser.parse text with
          | error cause => exact .unparsable hread htext hparse
          | ok root => exact .checked hread htext hparse

/-- The input is no directory, and its file cannot be read as a text that the parser accepts. -/
def Unusable (a : Analyzer) (files : FileAccess) (path : String) : Prop :=
  files.isDirectory path = false ∧ ¬∃ content text root, files.read path = .ok content ∧
    String.fromUTF8? content = some text ∧ a.parser.parse text = .ok root

namespace Attempted

variable {r : Report}

theorem handled (h : a.Attempted files path r) : r.handled = 1 := by
  cases h <;> rfl

theorem unusable_iff (h : a.Attempted files path r) (hfile : files.isDirectory path = false) :
    a.Unusable files path ↔ r.filesChecked = 0 := by
  rw [Unusable, and_iff_right hfile]
  cases h with
  | unreadable hread => simp [hread, failure]
  | notText hread htext => simp [hread, htext, failure]
  | unparsable hread htext hparse => simp [hread, htext, hparse, failure]
  | checked hread htext hparse => simp [hread, htext, hparse]

theorem violations_of_unusable (h : a.Attempted files path r) (hr : r.filesChecked = 0) :
    r.violations = [] := by
  cases h with
  | unreadable hread => rfl
  | notText hread htext => rfl
  | unparsable hread htext hparse => rfl
  | checked hread htext hparse => cases hr

end Attempted

instance (a : Analyzer) (files : FileAccess) (path : String) :
    Decidable (a.Unusable files path) :=
  decidable_of_iff
    (files.isDirectory path = false ∧ (a.reportFile files path).filesChecked = 0) <| by
      constructor
      · rintro ⟨hfile, hr⟩
        exact ((attempted_reportFile a files path).unusable_iff hfile).mpr hr
      · intro h
        exact ⟨h.1, ((attempted_reportFile a files path).unusable_iff h.1).mp h⟩

theorem reportInput_of_file (h : files.isDirectory path = false) :
    a.reportInput files path = a.reportFile files path := by
  have hfound : a.filesOf files path = .ok [path] := by simp [filesOf, h]
  rw [reportInput, settle_of_ok hfound, List.map_singleton, Report.join, Report.join,
    Report.append_empty]

theorem handled_reportInput_of_directory (a : Analyzer) (files : FileAccess) (path : String) :
    (a.reportInput files path).handled = match a.filesOf files path with
      | .ok found => found.length
      | .error _ => 1 := by
  cases hfound : a.filesOf files path with
  | error e => rw [reportInput, settle_of_error hfound]; rfl
  | ok found =>
      rw [reportInput, settle_of_ok hfound, Report.handled_join_map]
      simp [(attempted_reportFile a files _).handled]

/-- A file counts as one input, whatever comes of it. -/
theorem sum_handled_reportInput (a : Analyzer) (files : FileAccess) (paths : List String) :
    (paths.map fun path => (a.reportInput files path).handled).sum =
      paths.countP (fun path => !files.isDirectory path) +
        ((paths.filter files.isDirectory).map fun path => match a.filesOf files path with
          | .ok found => found.length
          | .error _ => 1).sum := by
  induction paths with
  | nil => rfl
  | cons path paths ih =>
      rw [List.map_cons, List.sum_cons, ih]
      cases h : files.isDirectory path with
      | false =>
          rw [reportInput_of_file h, (attempted_reportFile a files path).handled,
            List.countP_cons_of_pos (by simp [h]), List.filter_cons_of_neg (by simp [h])]
          omega
      | true =>
          rw [handled_reportInput_of_directory, List.countP_cons_of_neg (by simp [h]),
            List.filter_cons_of_pos h, List.map_cons, List.sum_cons]
          omega

theorem analyzePaths_append_alike (a : Analyzer) (files : FileAccess) (paths paths' : List String) :
    (a.analyzePaths files (paths ++ paths')).result.Alike
      ((a.analyzePaths files paths).result ++ (a.analyzePaths files paths').result) := by
  have hall := a.analyzePaths_alike files (paths ++ paths')
  rw [List.map_append, Report.join_append] at hall
  have hparts := (a.analyzePaths_alike files paths).append (a.analyzePaths_alike files paths')
  exact hall.trans hparts.symm

theorem analyzePaths_file_alike (h : files.isDirectory path = false) (before after : List String) :
    (a.analyzePaths files (before ++ path :: after)).result.Alike
      ((a.analyzePaths files before).result ++ a.reportFile files path ++
        (a.analyzePaths files after).result) := by
  have hone := a.analyzePaths_alike files [path]
  rw [List.map_singleton, Report.join, Report.join, Report.append_empty, reportInput_of_file h]
    at hone
  rw [List.append_cons]
  have hsplit := a.analyzePaths_append_alike files (before ++ [path]) after
  refine hsplit.trans (.append ?_ (.refl _))
  exact (a.analyzePaths_append_alike files before [path]).trans ((Report.Alike.refl _).append hone)

/-- Every input is told of once: a directory by the files found in it or by the failure to walk it,
any other input by one attempt, whatever its extension and the patterns to exclude. Inputs that
cannot be used can be left out without a change to violations or to the number of files checked. -/
theorem analyzePaths_accounts (a : Analyzer) (files : FileAccess) :
    (∀ paths, let report := (a.analyzePaths files paths).result
      report.filesChecked + report.inputErrors.length =
        paths.countP (fun path => !files.isDirectory path) +
          ((paths.filter files.isDirectory).map fun path => match a.filesOf files path with
            | .ok found => found.length
            | .error _ => 1).sum) ∧
    (∀ path, files.isDirectory path = false → ∃ r, a.Attempted files path r ∧
      r.filesChecked + r.inputErrors.length = 1 ∧
      ∀ excludes extensions before after,
        let report paths := (analyzePaths { a with
          excludes := excludes, parser := { a.parser with extensions := extensions } }
            files paths).result
        (report (before ++ path :: after)).Alike (report before ++ r ++ report after)) ∧
    ∀ paths, let report := (a.analyzePaths files paths).result
      let usable := (a.analyzePaths files (paths.filter fun path => ¬a.Unusable files path)).result
      usable.violations = report.violations ∧ usable.filesChecked = report.filesChecked := by
  refine ⟨fun paths => ?_, fun path hfile => ?_, fun paths => ?_⟩
  · exact (a.analyzePaths_alike files paths).handled.trans <|
      (Report.handled_join_map _ _).trans (sum_handled_reportInput a files paths)
  · have hattempt := attempted_reportFile a files path
    exact ⟨_, hattempt, hattempt.handled, fun _ _ before after =>
      analyzePaths_file_alike hfile before after⟩
  · intro report usable
    have hreport := a.analyzePaths_alike files paths
    have husable := a.analyzePaths_alike files (paths.filter fun path => ¬a.Unusable files path)
    rw [husable.violations, husable.filesChecked, hreport.violations, hreport.filesChecked]
    refine Report.join_map_filter fun path _ hpath => ?_
    have hunusable : a.Unusable files path := by simpa using hpath
    have hattempt := attempted_reportFile a files path
    have hnone := (hattempt.unusable_iff hunusable.1).mp hunusable
    rw [reportInput_of_file hunusable.1]
    exact ⟨hattempt.violations_of_unusable hnone, hnone⟩

/-- A text file beside a directory with two sources, one of which is not text. -/
def mixedFiles : FileAccess where
  isDirectory path := path == "Sources"
  read path := match path with
    | "notes.txt" | "Sources/a.swift" => .ok "let a = 1\n".toUTF8
    | "Sources/b.swift" => .ok ⟨#[0xFF]⟩
    | _ => .error .notFound
  walk _ _ := .ok [⟨["a.swift"], true⟩, ⟨["b.swift"], true⟩]

theorem analyzePaths_accounts_mixedFiles :
    let a : Analyzer := {
      parser := ⟨"swift", ["swift"], fun _ => .ok ⟨.sourceFile none, ⟨1, 1, 0, 10⟩, []⟩⟩
      rules := catalog {}
      excludes := []
      points := .builtin
      config := {} }
    let report := (a.analyzePaths mixedFiles ["gone.swift", "Sources", "notes.txt"]).result
    let usable := (a.analyzePaths mixedFiles ["Sources", "notes.txt"]).result
    report.filesChecked + report.inputErrors.length = 4 ∧
    (∃ r, a.Attempted mixedFiles "notes.txt" r ∧ r.filesChecked + r.inputErrors.length = 1) ∧
    usable.violations = report.violations ∧ usable.filesChecked = report.filesChecked := by
  intro a report usable
  obtain ⟨hcount, hattempt, husable⟩ := analyzePaths_accounts a mixedFiles
  obtain ⟨r, hr, hone, _⟩ := hattempt "notes.txt" rfl
  have husable := husable ["gone.swift", "Sources", "notes.txt"]
  have hkept : ["gone.swift", "Sources", "notes.txt"].filter
      (fun path => ¬a.Unusable mixedFiles path) = ["Sources", "notes.txt"] := by decide +kernel
  rw [hkept] at husable
  have hfound : ((selectSources ["swift"] [] [⟨["a.swift"], true⟩, ⟨["b.swift"], true⟩]).map
      (pathBelow "Sources")).length = 2 := by
    rw [List.length_map, selectSources, List.length_mergeSort]
    rfl
  have hinputs := hcount ["gone.swift", "Sources", "notes.txt"]
  exact ⟨hinputs.trans (congrArg (2 + ·) hfound), ⟨r, hr, hone⟩, husable⟩

end Analyzer

end ConcurrencyLint
