import ConcurrencyLint.Text.Split

/-!
# Exclude patterns

Shell-like patterns over whole paths. `?` and `*` also match separators, `**` stands for any number
of whole path components and must itself be one, and brackets hold a set of characters.
-/

namespace ConcurrencyLint

/-- Why a pattern is refused. -/
inductive PatternFault where
  /-- Three or more stars in a row. -/
  | tooManyStars
  /-- Two stars beside something else than a separator. -/
  | partialComponent
  /-- A bracket that nothing closes. -/
  | badRange
  deriving DecidableEq, Repr

def PatternFault.message : PatternFault → String
  | .tooManyStars => "wildcards are either regular `*` or recursive `**`"
  | .partialComponent => "recursive wildcards must form a single path component"
  | .badRange => "invalid range pattern"

/-- A fault and the character, counted from zero, near which it stands. -/
structure PatternError where
  position : Nat
  fault : PatternFault
  deriving DecidableEq, Repr

def PatternError.message (e : PatternError) : String :=
  "Pattern syntax error near position " ++ toString e.position ++ ": " ++ e.fault.message

namespace Glob

/-- A set of characters, as inclusive ranges. -/
abbrev CharSet := List (Char × Char)

def CharSet.has (set : CharSet) (c : Char) : Bool := set.any fun r => r.1 ≤ c && c ≤ r.2

/-- The ranges written between brackets. -/
def charSet : List Char → CharSet
  | a :: '-' :: b :: rest => (a, b) :: charSet rest
  | a :: rest => (a, a) :: charSet rest
  | [] => []

/-- A piece of a pattern. -/
inductive Token where
  | char (c : Char)
  | anyChar
  | within (set : CharSet)
  | except (set : CharSet)
  /-- Any characters. -/
  | anySequence
  /-- Any whole path components. -/
  | anyComponents
  deriving DecidableEq, Repr

/-- Matches exactly one character, if it is one of the tokens that do. -/
def Token.admits : Token → Char → Bool
  | .char d, c => c == d
  | .anyChar, _ => true
  | .within set, c => set.has c
  | .except set, c => !set.has c
  | .anySequence, _ => false
  | .anyComponents, _ => false

/-! ## Compiling -/

/-- The token for a bracket, from what follows its opening, with the number of characters read and
the rest. The first character of a set is never the closing bracket. -/
def bracket (cs : List Char) : Option (Token × Nat × List Char) :=
  match cs with
  | '!' :: first :: more =>
    (Text.cutAt ']' more).map fun (inside, rest) =>
      (.except (charSet (first :: inside)), inside.length + 3, rest)
  | '!' :: [] => none
  | first :: more =>
    (Text.cutAt ']' more).map fun (inside, rest) =>
      (.within (charSet (first :: inside)), inside.length + 2, rest)
  | [] => none

/-- Adds a recursive wildcard to the tokens so far, in reverse. After another one, further than at
the start, it adds nothing. -/
def addComponents (tokens : List Token) : List Token :=
  match tokens with
  | .anyComponents :: _ :: _ => tokens
  | _ => .anyComponents :: tokens

theorem length_cutAt {c : Char} {cs l r : List Char} (h : Text.cutAt c cs = some (l, r)) :
    r.length < cs.length := by
  induction cs generalizing l with
  | nil => simp [Text.cutAt] at h
  | cons d cs ih =>
    rw [Text.cutAt] at h
    split at h
    · simp only [Option.some.injEq, Prod.mk.injEq] at h
      simp [h.2]
    · simp only [Option.map_eq_some_iff, Prod.mk.injEq, Prod.exists] at h
      obtain ⟨l', r', hc, -, rfl⟩ := h
      have := ih hc
      simp only [List.length_cons]
      omega

theorem length_bracket {cs rest : List Char} {t : Token} {n : Nat}
    (h : bracket cs = some (t, n, rest)) : rest.length < cs.length := by
  unfold bracket at h
  split at h
  · simp only [Option.map_eq_some_iff, Prod.mk.injEq, Prod.exists] at h
    obtain ⟨l, r, hc, -, -, rfl⟩ := h
    have := length_cutAt hc
    simp only [List.length_cons]
    omega
  · cases h
  · simp only [Option.map_eq_some_iff, Prod.mk.injEq, Prod.exists] at h
    obtain ⟨l, r, hc, -, -, rfl⟩ := h
    have := length_cutAt hc
    simp only [List.length_cons]
    omega
  · cases h

/-- Compiles the rest of a pattern: the character before it, its position, the tokens so far in
reverse. -/
def compileFrom (before : Option Char) (position : Nat) (tokens : List Token) (cs : List Char) :
    Except PatternError (List Token) :=
  match cs with
  | [] => .ok tokens.reverse
  | '?' :: rest => compileFrom (some '?') (position + 1) (.anyChar :: tokens) rest
  | '*' :: '*' :: '*' :: _ => .error ⟨position + 2, .tooManyStars⟩
  | '*' :: '*' :: rest =>
    match before with
    | none | some '/' =>
      match rest with
      | [] => .ok (addComponents tokens).reverse
      | c :: rest =>
        if c = '/' then compileFrom (some '/') (position + 3) (addComponents tokens) rest
        else .error ⟨position + 2, .partialComponent⟩
    | some _ => .error ⟨position - 1, .partialComponent⟩
  | '*' :: rest => compileFrom (some '*') (position + 1) (.anySequence :: tokens) rest
  | '[' :: inside =>
    match _h : bracket inside with
    | some (token, length, rest) =>
      compileFrom (some ']') (position + 1 + length) (token :: tokens) rest
    | none => .error ⟨position, .badRange⟩
  | c :: rest => compileFrom (some c) (position + 1) (.char c :: tokens) rest
termination_by cs.length
decreasing_by
  all_goals try simp only [List.length_cons]
  all_goals try omega
  have := length_bracket _h
  omega

/-! ## Matching -/

/-- How an attempt to match ends. When the text runs out within a pattern, no later attempt with
less text is made. -/
inductive Outcome where
  | matched
  | mismatch
  | exhausted
  deriving DecidableEq, Repr

/-- Tries a continuation on a text and, as long as that is a mismatch, on what is left after each
further character that ends a run: any character, or separators only. Runs out into the
continuation on the empty text. -/
def attempt (separatorsOnly : Bool) (continuation : List Char → Outcome) : List Char → Outcome
  | [] => continuation []
  | c :: cs =>
    if separatorsOnly && c != '/' then attempt separatorsOnly continuation cs
    else match continuation cs with
      | .mismatch => attempt separatorsOnly continuation cs
      | outcome => outcome

/-- Matches a text against tokens. -/
def run : List Token → List Char → Outcome
  | [], [] => .matched
  | [], _ :: _ => .mismatch
  | token :: tokens, cs =>
    match token with
    | .anySequence =>
      match run tokens cs with
      | .mismatch => attempt false (run tokens) cs
      | outcome => outcome
    | .anyComponents =>
      match run tokens cs with
      | .mismatch => attempt true (run tokens) cs
      | outcome => outcome
    | token =>
      match cs with
      | [] => .exhausted
      | c :: cs => if token.admits c then run tokens cs else .mismatch

/-- A compiled pattern with the text it came from. -/
structure Pattern where
  source : String
  tokens : List Token
  deriving DecidableEq, Repr

def Pattern.compile (source : String) : Except PatternError Pattern :=
  (compileFrom none 0 [] source.toList).map fun tokens => ⟨source, tokens⟩

/-- The pattern matches the whole path. -/
def Pattern.isMatch (p : Pattern) (path : String) : Bool := run p.tokens path.toList == .matched

end Glob

end ConcurrencyLint
