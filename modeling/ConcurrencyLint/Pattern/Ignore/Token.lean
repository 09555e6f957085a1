/-!
# Patterns of ignore files

A pattern is compiled into tokens. Patterns with unbalanced braces, with a range that runs backwards
or with a lone backslash at the end are refused.
-/

namespace ConcurrencyLint.Ignore

/-- A piece of a pattern. -/
inductive Token where
  | literal (c : Char)
  /-- One byte other than a separator. -/
  | any
  /-- Any bytes other than separators. -/
  | star
  /-- Any leading components. -/
  | leading
  /-- Everything inside a directory. -/
  | inside
  /-- Any components between two separators. -/
  | between
  | charClass (negated : Bool) (ranges : List (Char × Char))
  | alternatives (branches : List (List Token))

/-- An unfinished group of alternatives: what stands before it, and its branches so far, the latest
first. All tokens are kept in reverse. -/
structure Group where
  outer : List Token
  branches : List (List Token)

/-- A compilation in progress: the open groups, the innermost first, and the tokens of the branch
being read, in reverse. -/
structure Progress where
  groups : List Group := []
  tokens : List Token := []
  /-- A bracket was found that nothing closes, so that brackets stand for themselves. -/
  plainBrackets : Bool := false

namespace Progress

def push (p : Progress) (t : Token) : Progress := { p with tokens := t :: p.tokens }

/-- Opens a group of alternatives. -/
def openGroup (p : Progress) : Progress :=
  { p with groups := ⟨p.tokens, []⟩ :: p.groups, tokens := [] }

/-- Goes on to the next branch; outside of a group a comma is a comma. -/
def comma (p : Progress) : Progress :=
  match p.groups with
  | [] => p.push (.literal ',')
  | g :: groups =>
    let longer : Group := { g with branches := p.tokens.reverse :: g.branches }
    { p with groups := longer :: groups, tokens := [] }

/-- Closes the innermost group, if one is open. -/
def closeGroup (p : Progress) : Option Progress :=
  match p.groups with
  | [] => none
  | g :: groups =>
    let alternatives : Token := .alternatives (p.tokens.reverse :: g.branches).reverse
    some { p with groups := groups, tokens := alternatives :: g.outer }

/-- Two stars that are no whole component. -/
def twoStars (p : Progress) : Progress := (p.push .star).push .star

/-- A component starts after the given character: after a separator, or at the start of a branch. -/
def startsComponent (p : Progress) (before : Option Char) : Bool :=
  before == some '/'
    || (!p.groups.isEmpty && (before == some ',' || before == some '\x7b'))

/-- The character ends a branch of a group. -/
def endsBranch (p : Progress) (c : Char) : Bool :=
  !p.groups.isEmpty && (c == ',' || c == '\x7d')

/-- Puts a recursive wildcard in place of the separator before it. Another recursive wildcard there
absorbs it. -/
def recursive (p : Progress) (t : Token) : Progress :=
  match p.tokens with
  | .leading :: _ => p
  | .inside :: _ => p
  | _ :: tokens => { p with tokens := t :: tokens }
  | [] => p.push t

end Progress

/-- Why a bracket holds no set. -/
inductive ClassFault where
  | unclosed
  /-- A range runs backwards. -/
  | backwards
  deriving DecidableEq, Repr

/-- Reads the set between brackets: the ranges so far in reverse, whether a range is open, and
whether nothing was read yet. -/
def classRanges (ranges : List (Char × Char)) (inRange first : Bool) :
    List Char → Except ClassFault (List (Char × Char) × List Char)
  | [] => .error .unclosed
  | c :: cs =>
    if c = ']' ∧ !first then
      .ok ((if inRange then ('-', '-') :: ranges else ranges).reverse, cs)
    else if c = '-' ∧ !first ∧ !inRange then classRanges ranges true false cs
    else match inRange, ranges with
      | true, (low, _) :: others =>
        if c < low then .error .backwards else classRanges ((low, c) :: others) false false cs
      | _, _ => classRanges ((c, c) :: ranges) false false cs

/-- The set of a bracket, from what follows its opening, and the rest. -/
def charClass (cs : List Char) : Except ClassFault (Token × List Char) :=
  match cs with
  | '!' :: rest | '^' :: rest =>
    (classRanges [] false true rest).map fun (ranges, rest) => (.charClass true ranges, rest)
  | _ => (classRanges [] false true cs).map fun (ranges, rest) => (.charClass false ranges, rest)

theorem length_classRanges {ranges ranges' : List (Char × Char)} {inRange first : Bool}
    {cs rest : List Char} (h : classRanges ranges inRange first cs = .ok (ranges', rest)) :
    rest.length < cs.length := by
  fun_induction classRanges ranges inRange first cs with
  | case1 => cases h
  | case2 => simp_all
  | case3 _ _ _ _ _ _ _ ih => have := ih h; simp only [List.length_cons]; omega
  | case4 => cases h
  | case5 _ _ _ _ _ _ _ _ _ ih => have := ih h; simp only [List.length_cons]; omega
  | case6 _ _ _ _ _ _ _ _ ih => have := ih h; simp only [List.length_cons]; omega

theorem length_of_map_classRanges {negated : Bool} {cs rest : List Char} {t : Token}
    (h : ((classRanges [] false true cs).map fun (ranges, rest) =>
      (Token.charClass negated ranges, rest)) = .ok (t, rest)) : rest.length < cs.length := by
  cases hc : classRanges [] false true cs with
  | error => rw [hc] at h; cases h
  | ok read =>
    rw [hc] at h
    cases h
    exact length_classRanges hc

theorem length_charClass {cs rest : List Char} {t : Token} (h : charClass cs = .ok (t, rest)) :
    rest.length < cs.length := by
  unfold charClass at h
  split at h
  · exact Nat.lt_succ_of_lt (length_of_map_classRanges h)
  · exact Nat.lt_succ_of_lt (length_of_map_classRanges h)
  · exact length_of_map_classRanges h

/-- What two stars stand for, from the progress so far, the character before them and the text after
them; with the text that is left. -/
def doubleStar (p : Progress) (before : Option Char) (cs : List Char) : Progress × List Char :=
  if p.tokens.isEmpty then
    match cs with
    | [] => (p.push .leading, [])
    | '/' :: rest => (p.push .leading, rest)
    | _ => (p.twoStars, cs)
  else if p.startsComponent before then
    match cs with
    | [] => (p.recursive .inside, [])
    | '/' :: rest => (p.recursive .between, rest)
    | c :: _ => if p.endsBranch c then (p.recursive .inside, cs) else (p.twoStars, cs)
  else (p.twoStars, cs)

theorem length_doubleStar (p : Progress) (before : Option Char) (cs : List Char) :
    (doubleStar p before cs).2.length ≤ cs.length := by
  unfold doubleStar
  split
  · split <;> simp
  · split
    · split
      · simp
      · simp
      · split <;> simp
    · simp

/-- Compiles the rest of a pattern, given the character before it. -/
def compileFrom (p : Progress) (before : Option Char) (cs : List Char) : Option (List Token) :=
  match cs with
  | [] => if p.groups.isEmpty then some p.tokens.reverse else none
  | '?' :: rest => compileFrom (p.push .any) (some '?') rest
  | '*' :: '*' :: rest =>
    let next := doubleStar p before rest
    compileFrom next.1 (some (if next.2.length < rest.length then '/' else '*')) next.2
  | '*' :: rest => compileFrom (p.push .star) (some '*') rest
  | '[' :: inside =>
    if p.plainBrackets then compileFrom (p.push (.literal '[')) (some '[') inside
    else match _h : charClass inside with
      | .ok (t, rest) => compileFrom (p.push t) (some ']') rest
      | .error .unclosed =>
        compileFrom { p.push (.literal '[') with plainBrackets := true } (some '[') inside
      | .error .backwards => none
  | '\x7b' :: rest => compileFrom p.openGroup (some '\x7b') rest
  | '\x7d' :: rest =>
    match p.closeGroup with
    | some p => compileFrom p (some '\x7d') rest
    | none => none
  | ',' :: rest => compileFrom p.comma (some ',') rest
  | '\\' :: c :: rest => compileFrom (p.push (.literal c)) (some c) rest
  | '\\' :: [] => none
  | c :: rest => compileFrom (p.push (.literal c)) (some c) rest
termination_by cs.length
decreasing_by
  all_goals try simp only [List.length_cons]
  all_goals try omega
  · have := length_doubleStar p before rest
    omega
  · have := length_charClass _h
    omega

/-- Compiles a pattern. -/
def compile (pattern : List Char) : Option (List Token) := compileFrom {} none pattern

end ConcurrencyLint.Ignore
