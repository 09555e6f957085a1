import ConcurrencyLint.Cli.Run
import ConcurrencyLint.Proofs.Analyzer.Inputs

/-!
# Exit statuses of combined runs

Statuses are ordered by how much they say: a clean run, then input errors, then violations at the
threshold. The status of a run over more inputs is the join of the statuses of its parts.
-/

namespace ConcurrencyLint.Cli

variable {r s : Report} {status status' : Nat}

/-! ## The order of the statuses -/

/-- How much a status says. -/
def statusRank (status : Nat) : Nat :=
  [cleanStatus, inputErrorStatus, violationStatus].idxOf status

/-- The status that says more. -/
def worse (status status' : Nat) : Nat :=
  if statusRank status ≤ statusRank status' then status' else status

theorem statusRank_eq_zero_iff : statusRank status = 0 ↔ status = cleanStatus := by
  rw [statusRank, List.idxOf_cons]
  by_cases h : status = cleanStatus
  · simp [h]
  · have hne : (cleanStatus == status) = false := beq_false_of_ne (Ne.symm h)
    simp [h, hne]

theorem worse_self (status : Nat) : worse status status = status := if_pos (Nat.le_refl _)

theorem worse_eq_cleanStatus_iff :
    worse status status' = cleanStatus ↔ status = cleanStatus ∧ status' = cleanStatus := by
  rw [worse]
  constructor
  · intro h
    split at h
    case isTrue hle =>
      rw [statusRank_eq_zero_iff.mpr h, Nat.le_zero_eq, statusRank_eq_zero_iff] at hle
      exact ⟨hle, h⟩
    case isFalse hlt =>
      rw [statusRank_eq_zero_iff.mpr h] at hlt
      exact absurd (Nat.zero_le _) hlt
  · rintro ⟨rfl, rfl⟩
    exact if_pos (Nat.le_refl _)

/-! ## Statuses of reports -/

theorem reaches_append (r s : Report) (threshold : Severity) :
    (r ++ s).reaches threshold = (r.reaches threshold || s.reaches threshold) :=
  List.any_append

theorem hasInputErrors_append (r s : Report) :
    (r ++ s).hasInputErrors = (r.hasInputErrors || s.hasInputErrors) := by
  rw [Report.hasInputErrors, Report.inputErrors_append, Report.hasInputErrors]
  cases r.inputErrors with
  | nil => rfl
  | cons e es => rfl

theorem exitStatus_append (r s : Report) (threshold : Severity) :
    exitStatus (r ++ s) threshold = worse (exitStatus r threshold) (exitStatus s threshold) := by
  simp only [exitStatus, reaches_append, hasInputErrors_append]
  cases r.reaches threshold <;> cases s.reaches threshold <;>
    cases r.hasInputErrors <;> cases s.hasInputErrors <;> rfl

/-- The status does not depend on the order of the input errors. -/
theorem exitStatus_of_alike (h : r.Alike s) (threshold : Severity) :
    exitStatus r threshold = exitStatus s threshold := by
  have hreaches : r.reaches threshold = s.reaches threshold := by
    rw [Report.reaches, h.violations, Report.reaches]
  have herrors : r.hasInputErrors = s.hasInputErrors := by
    rw [Report.hasInputErrors, h.inputErrors.isEmpty_eq, Report.hasInputErrors]
  rw [exitStatus, hreaches, herrors, exitStatus]

theorem exitStatus_analyzePaths_append (a : Analyzer) (files : FileAccess)
    (paths paths' : List String) (threshold : Severity) :
    exitStatus (a.analyzePaths files (paths ++ paths')).result threshold =
      worse (exitStatus (a.analyzePaths files paths).result threshold)
        (exitStatus (a.analyzePaths files paths').result threshold) :=
  (exitStatus_of_alike (a.analyzePaths_append_alike files paths paths') threshold).trans
    (exitStatus_append _ _ _)

/-! ## Statuses of checks -/

/-- The same check of given paths, with a given configuration. -/
def CheckOptions.checkOf (o : CheckOptions) (config : String) (paths : List String) :
    CheckOptions :=
  { o with paths := paths, config := some config, readsStdin := false }

variable {o : CheckOptions} {env : Environment} {config path : String}

/-- What a check starts with comes from its configuration, whatever its paths are. -/
theorem CheckOptions.start_checkOf (o : CheckOptions) (env : Environment) (config : String)
    (paths : List String) :
    (o.checkOf config paths).start env = (o.checkOf config []).start env := by
  have hsource (paths : List String) :
      ((o.checkOf config paths).configPlaces env).find? env.files = some config := Option.some_or
  rw [start, start, hsource paths, hsource []]
  rfl

theorem CheckOptions.run_checkOf_of_error {e : StartError × List String}
    (h : (o.checkOf config []).start env = .error e) (paths : List String) :
    ((o.checkOf config paths).run env).status = inputErrorStatus := by
  rw [CheckOptions.run, CheckOptions.start_checkOf, h]

theorem CheckOptions.run_checkOf_of_ok {start : Start}
    (h : (o.checkOf config []).start env = .ok start) (path : String) (paths : List String) :
    ((o.checkOf config (path :: paths)).run env).status =
      exitStatus (start.analyzer.analyzePaths env.files.access (path :: paths)).result
        start.analyzer.config.failThreshold := by
  rw [CheckOptions.run, CheckOptions.start_checkOf, h]
  rfl

/-- More inputs add to a report, and the status of a run is the join of the statuses of its parts:
no input turns a failing run into a passing one. -/
theorem analyzePaths_append (a : Analyzer) (files : FileAccess) (paths paths' : List String) :
    let report paths := (a.analyzePaths files paths).result
    let status threshold paths := exitStatus (report paths) threshold
    (report (paths ++ paths')).violations =
      (report paths).violations ++ (report paths').violations ∧
    (report (paths ++ paths')).filesChecked =
      (report paths).filesChecked + (report paths').filesChecked ∧
    (report (paths ++ paths')).inputErrors.Perm
      ((report paths).inputErrors ++ (report paths').inputErrors) ∧
    (∀ threshold, status threshold (paths ++ paths') =
        worse (status threshold paths) (status threshold paths') ∧
      (status threshold (paths ++ paths') = cleanStatus ↔
        status threshold paths = cleanStatus ∧ status threshold paths' = cleanStatus)) ∧
    ∀ (o : CheckOptions) (env : Environment) (config path path' : String),
      let status paths := ((o.checkOf config paths).run env).status
      status (path :: paths ++ path' :: paths') =
        worse (status (path :: paths)) (status (path' :: paths')) := by
  intro report status
  have hboth := a.analyzePaths_append_alike files paths paths'
  refine ⟨hboth.violations, hboth.filesChecked, hboth.inputErrors, fun threshold => ?_,
    fun o env config path path' => ?_⟩
  · have hstatus := exitStatus_analyzePaths_append a files paths paths' threshold
    refine ⟨hstatus, ?_⟩
    rw [← worse_eq_cleanStatus_iff]
    exact Eq.congr hstatus rfl
  · intro status
    cases hstart : (o.checkOf config []).start env with
    | error e =>
        simp only [status, CheckOptions.run_checkOf_of_error hstart, worse_self]
    | ok start =>
        simp only [status, List.cons_append, CheckOptions.run_checkOf_of_ok hstart]
        exact exitStatus_analyzePaths_append _ _ (path :: paths) (path' :: paths') _

end ConcurrencyLint.Cli
