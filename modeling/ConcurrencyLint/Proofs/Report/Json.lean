import Mathlib.Data.List.Nodup
import ConcurrencyLint.Proofs.Json.RoundTrip
import ConcurrencyLint.Report.Json

/-!
# Reports survive their JSON form

A report whose numbers have at most 64 bits is read back from its JSON form, as a value and as text.
-/

namespace ConcurrencyLint

/-! ## Taking written values apart -/

namespace JsonValue

theorem map_fst_members (members : List (String × JsonValue)) :
    (members.map fun (name, v) => (some name, v)).map Prod.fst
      = (members.map Prod.fst).map some := by
  simp only [List.map_map]
  rfl

theorem lookup_members (members : List (String × JsonValue)) (name : String) :
    (members.map fun (name, v) => (some name, v)).lookup (some name) = members.lookup name := by
  induction members with
  | nil => rfl
  | cons m members ih =>
    obtain ⟨key, v⟩ := m
    simp [List.lookup_cons, ih]

/-- A written record is taken apart by the names of its members. -/
theorem fields_ofMembers {members : List (String × JsonValue)}
    (h : (members.map Prod.fst).Nodup) (names : List String) :
    (ofMembers members).fields names = some (names.map fun name => members.lookup name) := by
  have hn : ((members.map Prod.fst).map some).Nodup := h.map fun _ _ => Option.some.inj
  have hc (name : String) : ((members.map Prod.fst).map some).count (some name) ≤ 1 :=
    List.nodup_iff_count_le_one.1 hn (some name)
  simp only [ofMembers, fields, map_fst_members, lookup_members]
  rw [if_pos]
  constructor
  · simp
  · exact List.all_eq_true.2 fun name _ => decide_eq_true (hc name)

theorem asCount?_ofNat {n : Nat} (h : n ≤ 0xFFFFFFFFFFFFFFFF) : asCount? (ofNat n) = some n := by
  have hd : (Nat.toDigits 10 n).all Text.isDigit = true :=
    List.all_eq_true.2 fun c => Text.isDigit_of_mem_toDigits
  have hm : n ≤ maxCount := h
  simp only [ofNat, asCount?, Nat.toString_eq_repr, Nat.toList_repr, Text.ofDigits_toDigits, hd, hm,
    and_self, if_true]

theorem asArray?_map {α : Type} {read : JsonValue → Option α} {write : α → JsonValue} {xs : List α}
    (h : ∀ x ∈ xs, read (write x) = some x) : asArray? read (.array (xs.map write)) = some xs := by
  rw [asArray?]
  induction xs with
  | nil => rfl
  | cons x xs ih =>
    obtain ⟨hx, hxs⟩ := List.forall_mem_cons.1 h
    simp [hx, ih hxs]

end JsonValue

/-! ## Records read back -/

open JsonValue (asString? asCount? asArray? ofString fields_ofMembers asCount?_ofNat asArray?_map)

structure Location.Fits (l : Location) : Prop where
  line : l.line ≤ 0xFFFFFFFFFFFFFFFF
  column : l.column ≤ 0xFFFFFFFFFFFFFFFF
  offset : l.offset ≤ 0xFFFFFFFFFFFFFFFF
  length : l.length ≤ 0xFFFFFFFFFFFFFFFF

/-- The numbers of a report have at most 64 bits. -/
structure Report.Fits (r : Report) : Prop where
  filesChecked : r.filesChecked ≤ 0xFFFFFFFFFFFFFFFF
  locations : ∀ v ∈ r.violations, v.location.Fits

theorem Severity.ofJson?_toJson (s : Severity) : Severity.ofJson? s.toJson = some s := by
  cases s <;> rfl

theorem Location.ofJson?_toJson {l : Location} (h : l.Fits) :
    Location.ofJson? l.toJson = some l := by
  rw [Location.ofJson?, Location.toJson, fields_ofMembers (by simp)]
  simp [List.lookup_cons, asString?, ofString, asCount?_ofNat h.line, asCount?_ofNat h.column,
    asCount?_ofNat h.offset, asCount?_ofNat h.length]

theorem suggestionOfJson?_toJson (s : String) :
    suggestionOfJson? (suggestionToJson s) = some s := by
  rw [suggestionOfJson?, suggestionToJson, fields_ofMembers (by simp)]
  simp [List.lookup_cons, asString?, ofString]

theorem optionalSuggestion_toJson (s : String) :
    optionalSuggestion (some (suggestionToJson s)) = some (some s) :=
  congrArg (Option.map some) (suggestionOfJson?_toJson s)

theorem Violation.ofJson?_toJson {v : Violation} (h : v.location.Fits) :
    Violation.ofJson? v.toJson = some v := by
  obtain ⟨code, rule, severity, location, message, suggestion⟩ := v
  have hl : Location.ofJson? location.toJson = some location := Location.ofJson?_toJson h
  rw [Violation.ofJson?, Violation.toJson, fields_ofMembers (by cases suggestion <;> simp)]
  cases suggestion with
  | none =>
    simp [List.lookup_cons, asString?, ofString, severity.ofJson?_toJson, hl, optionalSuggestion]
  | some s =>
    simp [List.lookup_cons, asString?, ofString, severity.ofJson?_toJson, hl,
      optionalSuggestion_toJson]

theorem InputError.ofJson?_toJson (e : InputError) : InputError.ofJson? e.toJson = some e := by
  rw [InputError.ofJson?, InputError.toJson, fields_ofMembers (by simp)]
  simp [List.lookup_cons, asString?, ofString]

theorem optionalErrors_toJson (es : List InputError) :
    optionalErrors (some (.array (es.map InputError.toJson))) = some es :=
  asArray?_map fun e _ => e.ofJson?_toJson

theorem Report.ofJson?_toJson {r : Report} (h : r.Fits) : Report.ofJson? r.toJson = some r := by
  obtain ⟨violations, filesChecked, inputErrors⟩ := r
  have hv : asArray? Violation.ofJson? (.array (violations.map Violation.toJson))
      = some violations :=
    asArray?_map fun v hv => Violation.ofJson?_toJson (h.locations v hv)
  have hf : asCount? (.ofNat filesChecked) = some filesChecked := asCount?_ofNat h.filesChecked
  have he := optionalErrors_toJson inputErrors
  rw [Report.ofJson?, Report.toJson, fields_ofMembers (by split <;> simp)]
  by_cases hn : inputErrors = []
  · simp [List.lookup_cons, hv, hf, hn, optionalErrors]
  · simp [List.lookup_cons, hv, hf, hn, he]

/-! ## Records are written without loss -/

attribute [simp] JsonValue.Plain.ofNat JsonValue.Plain.ofString

theorem Location.plain_toJson (l : Location) : l.toJson.Plain :=
  .ofMembers (by simp)

theorem Violation.plain_toJson (v : Violation) : v.toJson.Plain := by
  obtain ⟨code, rule, severity, location, message, suggestion⟩ := v
  have hs : severity.toJson.Plain := .ofString _
  have hm (s : String) : (suggestionToJson s).Plain := .ofMembers (by simp)
  refine .ofMembers ?_
  cases suggestion with
  | none => simp [hs, location.plain_toJson]
  | some s => simp [hs, location.plain_toJson, hm]

theorem InputError.plain_toJson (e : InputError) : e.toJson.Plain :=
  .ofMembers (by simp)

theorem plain_array_map {α : Type} {write : α → JsonValue} (h : ∀ x, (write x).Plain)
    (xs : List α) : (JsonValue.array (xs.map write)).Plain := by
  refine .array fun v hv => ?_
  obtain ⟨x, -, rfl⟩ := List.mem_map.1 hv
  exact h x

theorem Report.plain_toJson (r : Report) : r.toJson.Plain := by
  have hv := plain_array_map Violation.plain_toJson r.violations
  have he := plain_array_map InputError.plain_toJson r.inputErrors
  refine .ofMembers ?_
  split
  case isTrue => simp [hv]
  case isFalse => simp [hv, he]

theorem Report.parse_prettyJson {r : Report} (h : r.Fits) : Report.parse r.prettyJson = some r := by
  rw [Report.parse, Report.prettyJson, r.plain_toJson.parse_pretty, Option.bind_some,
    Report.ofJson?_toJson h]

/-! ## What is left out -/

theorem Violation.fields_suggestion (v : Violation) :
    v.toJson.fields ["suggestion"] = some [v.suggestion.map suggestionToJson] := by
  rw [Violation.toJson, fields_ofMembers (by cases v.suggestion <;> simp)]
  cases v.suggestion <;> simp [List.lookup_cons]

theorem Report.fields_inputErrors (r : Report) :
    r.toJson.fields ["input_errors"]
      = some [if r.inputErrors = [] then none
          else some (.array (r.inputErrors.map InputError.toJson))] := by
  rw [Report.toJson, fields_ofMembers (by split <;> simp)]
  by_cases hn : r.inputErrors = [] <;> simp [List.lookup_cons, hn]

/-- A report comes back from its JSON form, and the form that is then written is the same. The
suggestion of a violation and the input errors are left out exactly where there are none, and still
no two reports have one form. -/
theorem Report.json_roundTrip (r : Report) (h : r.Fits) :
    Report.ofJson? r.toJson = some r ∧
    Report.parse r.prettyJson = some r ∧
    JsonValue.parse r.prettyJson = some r.toJson ∧
    (∀ s, Report.ofJson? r.toJson = some s → s.toJson = r.toJson) ∧
    (∀ s, Report.parse r.prettyJson = some s → s.prettyJson = r.prettyJson) ∧
    (∀ v ∈ r.violations, v.toJson.fields ["suggestion"] = some [none] ↔ v.suggestion = none) ∧
    (r.toJson.fields ["input_errors"] = some [none] ↔ r.inputErrors = []) ∧
    (∀ s : Report, s.Fits → s.toJson = r.toJson → s = r) ∧
    (∀ s : Report, s.Fits → s.prettyJson = r.prettyJson → s = r) := by
  have hj := Report.ofJson?_toJson h
  have hp := Report.parse_prettyJson h
  refine ⟨hj, hp, r.plain_toJson.parse_pretty, ?_, ?_, ?_, ?_, ?_, ?_⟩
  · intro s hs
    rw [hj] at hs
    rw [Option.some.inj hs]
  · intro s hs
    rw [hp] at hs
    rw [Option.some.inj hs]
  · intro v _
    simp [v.fields_suggestion]
  · simp [r.fields_inputErrors]
  · intro s hs he
    rw [← he, Report.ofJson?_toJson hs] at hj
    exact Option.some.inj hj
  · intro s hs he
    rw [← he, Report.parse_prettyJson hs] at hp
    exact Option.some.inj hp

/-- A violation with a text that needs every kind of escape and the greatest number. -/
def escapedViolation (suggestion : Option String) : Violation where
  code := "CC-STREAM-TERM"
  rule := "stream-termination"
  severity := .warning
  location := {
    file := "a\"\\\n\x01é😀.swift", line := 0xFFFFFFFFFFFFFFFF, column := 0, offset := 10,
    length := 1 }
  message := ""
  suggestion := suggestion

/-- An empty suggestion is told from an absent one. -/
theorem Report.json_roundTrip_escaped :
    let r : Report := { violations := [escapedViolation none, escapedViolation (some "")] }
    let s : Report := { violations := [escapedViolation none, escapedViolation none] }
    r.Fits ∧ s.Fits ∧ Report.parse r.prettyJson = some r ∧ s.prettyJson ≠ r.prettyJson := by
  intro r s
  have hv (suggestion : Option String) : (escapedViolation suggestion).location.Fits := by
    constructor <;> simp [escapedViolation]
  have hr : r.Fits := ⟨by decide, by simp [r, hv]⟩
  have hs : s.Fits := ⟨by decide, by simp [s, hv]⟩
  obtain ⟨-, hp, -, -, -, -, -, -, hinj⟩ := Report.json_roundTrip r hr
  exact ⟨hr, hs, hp, fun he => absurd (hinj s hs he) (by decide)⟩

end ConcurrencyLint
