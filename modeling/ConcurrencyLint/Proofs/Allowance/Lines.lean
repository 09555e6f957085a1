import ConcurrencyLint.Proofs.Analyzer.Locations
import ConcurrencyLint.Proofs.Text.Lines
import Mathlib.Data.Nat.PSub

/-!
# The lines of a violation

An allowance for a violation is looked for on the line that holds the start of its node and on the
line above. The numbers of these lines are never counted down below zero.
-/

namespace ConcurrencyLint.Allowance

variable {keys : List String}

/-- The answer of lines that are looked at in turn: that of the first comment that covers the keys. -/
def ofLines (keys : List String) : List (List Char) → Allowance
  | [] => .denied
  | line :: lines =>
    match (Directive.parse line).filter (·.covers keys) with
    | some directive => .allowed directive.reason
    | none => ofLines keys lines

/-- The lines with the given numbers, counting from one. -/
def linesNumbered (lines : List (List Char)) (numbers : List Nat) : List (List Char) :=
  numbers.filterMap fun number => lines[number - 1]?

theorem coveringDirective_eq (lines : List (List Char)) (keys : List String) (number : Nat) :
    coveringDirective lines keys number =
      lines[number - 1]?.bind fun line => (Directive.parse line).filter (·.covers keys) := by
  rw [coveringDirective]
  cases lines[number - 1]? with
  | none => rfl
  | some line =>
      cases hparse : Directive.parse line with
      | none => simp [hparse]
      | some directive => simp [hparse, Option.filter_some]

theorem ofLines_linesNumbered (lines : List (List Char)) (numbers : List Nat) :
    ofLines keys (linesNumbered lines numbers) =
      match numbers.findSome? (coveringDirective lines keys) with
      | some directive => .allowed directive.reason
      | none => .denied := by
  induction numbers with
  | nil => rfl
  | cons number numbers ih =>
      rw [linesNumbered, List.filterMap_cons, ← linesNumbered, List.findSome?_cons,
        coveringDirective_eq]
      cases lines[number - 1]? with
      | none => exact ih
      | some line =>
          rw [Option.bind_some, ofLines]
          cases (Directive.parse line).filter (·.covers keys) with
          | none => exact ih
          | some directive => rfl

theorem check_eq_ofLines (content : String) (number : Nat) (keys : List String) :
    check content number keys =
      ofLines keys (linesNumbered (Text.lines content.toList) (reachingLines number)) :=
  (ofLines_linesNumbered _ _).symm

/-! ## Counting down -/

/-- Looks at the lines with the given numbers in turn, where zero is no line. Gives nothing at all if
a number has to be counted down below zero. -/
def lookByCounts (lines : List (List Char)) (keys : List String) : List Nat → Option Allowance
  | [] => some .denied
  | number :: numbers =>
    if number = 0 then lookByCounts lines keys numbers
    else do
      let i ← number.psub 1
      match (lines[i]?.bind Directive.parse).filter (·.covers keys) with
      | some directive => some (.allowed directive.reason)
      | none => lookByCounts lines keys numbers

/-- Looks for an allowance comment on the line before the given one, then on this line itself. -/
def checkByCounts (content : String) (number : Nat) (keys : List String) : Option Allowance :=
  if number = 0 then some .denied
  else do
    let above ← number.psub 1
    lookByCounts (Text.lines content.toList) keys [above, number]

theorem lookByCounts_eq (lines : List (List Char)) (numbers : List Nat) :
    lookByCounts lines keys numbers =
      some (ofLines keys (linesNumbered lines (numbers.filter (· ≠ 0)))) := by
  induction numbers with
  | nil => rfl
  | cons number numbers ih =>
      rw [lookByCounts]
      split
      · rename_i hzero
        rw [ih, List.filter_cons_of_neg (by simpa using hzero)]
      · rename_i hpos
        rw [Nat.psub_eq_sub (Nat.pos_of_ne_zero hpos), List.filter_cons_of_pos (by simpa using hpos),
          linesNumbered, List.filterMap_cons, ← linesNumbered]
        cases hline : lines[number - 1]? with
        | none => simp [hline, ih]
        | some line =>
            cases hfound : (Directive.parse line).filter (·.covers keys) with
            | none => simp [ofLines, hline, hfound, ih]
            | some directive => simp [ofLines, hline, hfound]

/-- Every number that is counted down is at least one. -/
theorem checkByCounts_eq (content : String) (number : Nat) (keys : List String) :
    checkByCounts content number keys = some (check content number keys) := by
  rw [checkByCounts, check_eq_ofLines, reachingLines, ← lookByCounts_eq]
  split
  · rename_i hzero
    subst hzero
    rfl
  · rename_i hpos
    rw [Nat.psub_eq_sub (Nat.pos_of_ne_zero hpos)]
    rfl

/-! ## The lines of a node -/

theorem check_one (content : String) (keys : List String) :
    check content 1 keys = ofLines keys (Text.lines content.toList)[0]?.toList := by
  rw [check_eq_ofLines]
  cases h : (Text.lines content.toList)[0]? <;> simp [reachingLines, linesNumbered, h]

theorem check_add_two (content : String) (row : Nat) (keys : List String) {above : List Char}
    (h : (Text.lines content.toList)[row]? = some above) :
    check content (row + 2) keys =
      ofLines keys (above :: (Text.lines content.toList)[row + 1]?.toList) := by
  rw [check_eq_ofLines]
  cases h' : (Text.lines content.toList)[row + 1]? <;> simp [reachingLines, linesNumbered, h, h']

/-- A node whose row is the number of line feeds before its start is looked up on the line that holds
the start, and before that on the line right above it, if there is one. Only the empty line at the end
of a text cannot be looked at. A violation at the node is allowed by this look-up. No number of a
line is counted down below zero. -/
theorem check_reads_lines (u : SourceUnit) (d : ParseTree)
    (hrow : d.row = Text.rowAt u.text.toUTF8 d.start) :
    let text := u.text.toList
    let number := d.span.line
    (∃ before line after,
      Text.LineAt text d.row before line after ∧
      (Text.encode before).length ≤ d.start ∧
      (d.start ≤ u.text.utf8ByteSize → d.start ≤ (Text.encode (before ++ line)).length) ∧
      Text.Reads line after (Text.lines text)[number - 1]? ∧
      ((Text.lines text)[number - 1]? = none → line = [] ∧ after = []) ∧
      (number = 1 → ∀ keys,
        check u.text number keys = ofLines keys (Text.lines text)[number - 1]?.toList) ∧
      (1 < number → ∃ before' above shown,
        Text.LineAt text (d.row - 1) before' above ('\n' :: (line ++ after)) ∧
        Text.Reads above ('\n' :: (line ++ after)) (some shown) ∧
        ∀ keys, check u.text number keys =
          ofLines keys (shown :: (Text.lines text)[number - 1]?.toList))) ∧
    (∀ v, v.location = u.locate d.span →
      Analyzer.isAllowed u v = (check u.text number [v.rule, v.code]).isAllowed) ∧
    ∀ content number keys, checkByCounts content number keys = some (check content number keys) := by
  intro text number
  obtain ⟨before, line, after, hline, hstart, hstop⟩ := Text.exists_lineAt text d.start
  rw [← Text.rowAt_toUTF8, ← hrow] at hline
  rw [Text.length_encode_toList] at hstop
  have hreads : Text.Reads line after (Text.lines text)[number - 1]? := hline.reads
  refine ⟨⟨before, line, after, hline, hstart, hstop, hreads, ?_, ?_, ?_⟩, ?_, checkByCounts_eq⟩
  · intro hnone
    rw [hnone] at hreads
    exact hreads.eq_nil_of_none
  · intro hfirst keys
    rw [hfirst]
    exact check_one u.text keys
  · intro hlater
    obtain ⟨row, hrow⟩ : ∃ row, d.row = row + 1 :=
      Nat.exists_eq_succ_of_ne_zero (Nat.ne_of_gt (Nat.lt_of_succ_lt_succ hlater))
    rw [hrow] at hline ⊢
    obtain ⟨before', above, habove⟩ := hline.exists_above
    obtain ⟨shown, hshown⟩ := habove.reads.exists_some
    refine ⟨before', above, shown, habove, hshown ▸ habove.reads, fun keys => ?_⟩
    have hnumber : number = row + 2 := congrArg (· + 1) hrow
    rw [hnumber]
    exact check_add_two u.text row keys hshown
  · intro v hv
    rw [Analyzer.isAllowed, hv]
    rfl

/-- Lines that end in a line feed, in a carriage return and a line feed, and in a return alone. -/
def mixedEndings : String :=
  "é\r\n\n// concurrency-guard: allow(detached-task)\r\n\tTask.detached\r(a)\r"

/-- The access to a member on the last of these lines. -/
def lastAccess : ParseTree :=
  ⟨"navigation_expression", true, false, false, false, 50, 63, 3, 1, [], []⟩

theorem check_reads_lines_mixedEndings :
    let own := "\tTask.detached\r(a)\r".toList
    lastAccess.row = Text.rowAt mixedEndings.toUTF8 lastAccess.start ∧
    (∃ before line after, Text.LineAt mixedEndings.toList 3 before line after ∧
      (Text.encode before).length ≤ 50 ∧ 50 ≤ (Text.encode (before ++ line)).length ∧
      Text.Reads line after (some own) ∧
      ∃ before' above shown,
        Text.LineAt mixedEndings.toList 2 before' above ('\n' :: (line ++ after)) ∧
        Text.Reads above ('\n' :: (line ++ after)) (some shown) ∧
        ∀ keys, check mixedEndings 4 keys = ofLines keys [shown, own]) ∧
    check mixedEndings 4 ["detached-task"] = .allowed none ∧
    checkByCounts mixedEndings 4 ["detached-task"] = some (.allowed none) ∧
    checkByCounts mixedEndings 1 [] = some .denied ∧
    checkByCounts mixedEndings 0 [] = some .denied := by
  intro own
  have hrow : lastAccess.row = Text.rowAt mixedEndings.toUTF8 lastAccess.start := by decide
  have hown : (Text.lines mixedEndings.toList)[3]? = some own := by decide
  have hallowed : check mixedEndings 4 ["detached-task"] = .allowed none := by decide
  obtain ⟨⟨before, line, after, hline, hstart, hstop, hreads, _, _, habove⟩, _, hcounts⟩ :=
    check_reads_lines ⟨"A.swift", mixedEndings⟩ lastAccess hrow
  obtain ⟨before', above, shown, hline', hreads', hcheck⟩ := habove (by decide)
  have hstop := hstop (by decide)
  have hreads : Text.Reads line after (some own) := hown ▸ hreads
  refine ⟨hrow, ⟨before, line, after, hline, hstart, hstop, hreads, before', above, shown, hline',
    hreads', fun keys => ?_⟩, hallowed, ?_, ?_, ?_⟩
  · refine (hcheck keys).trans ?_
    rw [show (Text.lines mixedEndings.toList)[lastAccess.span.line - 1]? = some own from hown]
    rfl
  · rw [hcounts, hallowed]
  · rw [hcounts]
    decide
  · rw [hcounts]
    decide

end ConcurrencyLint.Allowance
