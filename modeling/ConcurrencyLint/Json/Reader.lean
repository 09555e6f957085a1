import ConcurrencyLint.Json.Value

/-!
# Reading JSON

The reader keeps the arrays and objects that are still open on a stack, so that the depth of a text
is bounded by memory only. Nothing but blanks may follow the value.
-/

namespace ConcurrencyLint.JsonValue

open Text (isDigit isHexDigit)

def isBlank (c : Char) : Bool := c == ' ' || c == '\n' || c == '\t' || c == '\r'

def skipBlanks (cs : List Char) : List Char := cs.dropWhile isBlank

theorem length_skipBlanks (cs : List Char) : (skipBlanks cs).length ≤ cs.length :=
  (List.dropWhile_sublist _).length_le

/-! ## Strings -/

/-- A piece of a string: a character, or the sixteen-bit unit that an escape names. -/
inductive Piece where
  | char (c : Char)
  | unit (n : Nat)
  deriving DecidableEq, Repr

/-- The pieces of a string after its opening quote, and what follows its closing one. -/
def readPieces : List Char → Option (List Piece × List Char)
  | [] => none
  | '"' :: rest => some ([], rest)
  | '\\' :: 'u' :: a :: b :: c :: d :: rest =>
    if [a, b, c, d].all isHexDigit then
      (readPieces rest).map fun (ps, r) => (.unit (Text.ofDigits 16 [a, b, c, d]) :: ps, r)
    else none
  | '\\' :: c :: rest =>
    match c with
    | '"' | '\\' | '/' => (readPieces rest).map fun (ps, r) => (.char c :: ps, r)
    | 'b' => (readPieces rest).map fun (ps, r) => (.char '\x08' :: ps, r)
    | 'f' => (readPieces rest).map fun (ps, r) => (.char '\x0c' :: ps, r)
    | 'n' => (readPieces rest).map fun (ps, r) => (.char '\n' :: ps, r)
    | 'r' => (readPieces rest).map fun (ps, r) => (.char '\r' :: ps, r)
    | 't' => (readPieces rest).map fun (ps, r) => (.char '\t' :: ps, r)
    | _ => none
  | c :: rest =>
    if c.toNat < 0x20 || c == '\\' then none
    else (readPieces rest).map fun (ps, r) => (.char c :: ps, r)

/-- A unit that opens a pair. -/
def isHighHalf (n : Nat) : Bool := 0xD800 ≤ n && n < 0xDC00

/-- A unit that closes a pair. -/
def isLowHalf (n : Nat) : Bool := 0xDC00 ≤ n && n < 0xE000

/-- The character of a pair of units. -/
def joinHalves (high low : Nat) : Char :=
  Char.ofNat (0x10000 + (high - 0xD800) * 0x400 + (low - 0xDC00))

/-- The text of pieces, if every half of a character has its other half. -/
def textOf : List Piece → Option (List Char)
  | [] => some []
  | .char c :: ps => (textOf ps).map (c :: ·)
  | .unit n :: ps =>
    if isLowHalf n then none
    else if isHighHalf n then
      match ps with
      | .unit m :: ps => if isLowHalf m then (textOf ps).map (joinHalves n m :: ·) else none
      | _ => none
    else (textOf ps).map (Char.ofNat n :: ·)

/-- The text of a string after its opening quote, and what follows its closing one. -/
def readString (cs : List Char) : Option (Option String × List Char) :=
  (readPieces cs).map fun (ps, rest) => ((textOf ps).map String.ofList, rest)

theorem length_readPieces {cs rest : List Char} {ps : List Piece}
    (h : readPieces cs = some (ps, rest)) : rest.length < cs.length := by
  fun_induction readPieces cs generalizing ps rest <;>
    simp_all only [Option.map_eq_some_iff, Prod.mk.injEq, Prod.exists, Option.some.injEq,
      reduceCtorEq, List.length_cons]
  case case2 => obtain ⟨-, rfl⟩ := h; omega
  all_goals
    rename_i ih
    obtain ⟨_, _, he, -, rfl⟩ := h
    have := ih he
    omega

theorem length_readString {cs rest : List Char} {s : Option String}
    (h : readString cs = some (s, rest)) : rest.length < cs.length := by
  simp only [readString, Option.map_eq_some_iff, Prod.mk.injEq, Prod.exists] at h
  obtain ⟨_, _, he, -, rfl⟩ := h
  exact length_readPieces he

/-! ## Numbers -/

/-- A row of at least one digit, and the rest. -/
def readDigits (cs : List Char) : Option (List Char × List Char) :=
  let digits := cs.takeWhile isDigit
  if digits.isEmpty then none else some (digits, cs.dropWhile isDigit)

/-- The whole part of a number: a zero or a row of digits that does not start with one. -/
def readWhole (cs : List Char) : Option (List Char × List Char) :=
  match cs with
  | '0' :: rest => if (rest.head?.map isDigit).getD false then none else some (['0'], rest)
  | _ => readDigits cs

/-- The fraction of a number, if it has one. -/
def readFraction (cs : List Char) : Option (List Char × List Char) :=
  match cs with
  | '.' :: rest => (readDigits rest).map fun (d, r) => ('.' :: d, r)
  | _ => some ([], cs)

/-- The exponent of a number, if it has one. -/
def readExponent (cs : List Char) : Option (List Char × List Char) :=
  match cs with
  | e :: rest =>
    if e = 'e' ∨ e = 'E' then
      match rest with
      | s :: more =>
        if s = '+' ∨ s = '-' then (readDigits more).map fun (d, r) => (e :: s :: d, r)
        else (readDigits rest).map fun (d, r) => (e :: d, r)
      | [] => none
    else some ([], cs)
  | [] => some ([], [])

/-- A number as written, and the rest. -/
def readNumber (cs : List Char) : Option (List Char × List Char) := do
  let (sign, cs) := match cs with
    | '-' :: rest => (['-'], rest)
    | _ => ([], cs)
  let (whole, cs) ← readWhole cs
  let (fraction, cs) ← readFraction cs
  let (exponent, cs) ← readExponent cs
  return (sign ++ whole ++ fraction ++ exponent, cs)

theorem length_readDigits {cs d r : List Char} (h : readDigits cs = some (d, r)) :
    r.length < cs.length := by
  simp only [readDigits] at h
  split at h
  · cases h
  · rename_i hne
    simp only [Option.some.injEq, Prod.mk.injEq] at h
    obtain ⟨-, rfl⟩ := h
    have hl : (cs.takeWhile isDigit ++ cs.dropWhile isDigit).length = cs.length := by
      rw [List.takeWhile_append_dropWhile]
    have hpos : 0 < (cs.takeWhile isDigit).length :=
      List.length_pos_iff.2 fun he => hne (by simp [he])
    rw [List.length_append] at hl
    omega

theorem length_readWhole {cs d r : List Char} (h : readWhole cs = some (d, r)) :
    r.length < cs.length := by
  unfold readWhole at h
  split at h
  · split at h
    · cases h
    · simp only [Option.some.injEq, Prod.mk.injEq] at h
      simp [← h.2]
  · exact length_readDigits h

theorem length_readFraction {cs d r : List Char} (h : readFraction cs = some (d, r)) :
    r.length ≤ cs.length := by
  unfold readFraction at h
  split at h
  · simp only [Option.map_eq_some_iff, Prod.mk.injEq, Prod.exists] at h
    obtain ⟨_, _, he, -, rfl⟩ := h
    have := length_readDigits he
    simp only [List.length_cons]
    omega
  · simp only [Option.some.injEq, Prod.mk.injEq] at h
    simp [h.2]

theorem length_readExponent {cs d r : List Char} (h : readExponent cs = some (d, r)) :
    r.length ≤ cs.length := by
  unfold readExponent at h
  split at h
  · split at h
    · split at h
      · split at h
        all_goals
          simp only [Option.map_eq_some_iff, Prod.mk.injEq, Prod.exists] at h
          obtain ⟨_, _, he, -, rfl⟩ := h
          have := length_readDigits he
          simp only [List.length_cons] at *
          omega
      · cases h
    · simp only [Option.some.injEq, Prod.mk.injEq] at h
      simp [h.2]
  · simp only [Option.some.injEq, Prod.mk.injEq] at h
    simp [← h.2]

theorem length_readNumber {cs d r : List Char} (h : readNumber cs = some (d, r)) :
    r.length < cs.length := by
  simp only [readNumber, Option.bind_eq_bind, Option.bind_eq_some_iff, Option.pure_def,
    Option.some.injEq, Prod.mk.injEq, Prod.exists] at h
  obtain ⟨w, c₁, hw, f, c₂, hf, e, c₃, he, -, rfl⟩ := h
  have h₁ := length_readWhole hw
  have h₂ := length_readFraction hf
  have h₃ := length_readExponent he
  split at h₁ <;> simp only [List.length_cons] at * <;> omega

/-! ## Values -/

/-- An array or object that is still open: what it holds so far, the latest first, and for an object
the key whose value is being read. -/
inductive Opened where
  | array (items : List JsonValue)
  | object (members : List (Option String × JsonValue)) (key : Option String)

/-- A key with its colon, and the rest. -/
def readKey (cs : List Char) : Option (Option String × List Char) :=
  match skipBlanks cs with
  | '"' :: rest =>
    (readString rest).bind fun (key, rest) =>
      match skipBlanks rest with
      | ':' :: rest => some (key, rest)
      | _ => none
  | _ => none

theorem length_readKey {cs rest : List Char} {key : Option String}
    (h : readKey cs = some (key, rest)) : rest.length < cs.length := by
  have hb := length_skipBlanks cs
  unfold readKey at h
  split at h
  · rename_i tail heq
    rw [heq] at hb
    simp only [List.length_cons] at hb
    simp only [Option.bind_eq_some_iff, Prod.exists] at h
    obtain ⟨_, r, hs, h⟩ := h
    have h₁ := length_readString hs
    have h₂ := length_skipBlanks r
    split at h
    · rename_i heq'
      simp only [Option.some.injEq, Prod.mk.injEq] at h
      obtain ⟨-, rfl⟩ := h
      rw [heq'] at h₂
      simp only [List.length_cons] at h₂
      omega
    · cases h
  · cases h

/-- How a value starts: it is complete, or it opens an array or object with something in it. -/
inductive Start where
  | complete (v : JsonValue)
  | opens (o : Opened)

/-- Reads the start of a value, and gives the rest. -/
def readStart (cs : List Char) : Option (Start × List Char) :=
  match cs with
  | 'n' :: 'u' :: 'l' :: 'l' :: rest => some (.complete .null, rest)
  | 't' :: 'r' :: 'u' :: 'e' :: rest => some (.complete (.bool true), rest)
  | 'f' :: 'a' :: 'l' :: 's' :: 'e' :: rest => some (.complete (.bool false), rest)
  | '"' :: rest => (readString rest).map fun (s, rest) => (.complete (.string s), rest)
  | '[' :: rest =>
    match skipBlanks rest with
    | ']' :: rest => some (.complete (.array []), rest)
    | rest => some (.opens (.array []), rest)
  | '\x7b' :: rest =>
    match skipBlanks rest with
    | '\x7d' :: rest => some (.complete (.object []), rest)
    | rest => (readKey rest).map fun (key, rest) => (.opens (.object [] key), rest)
  | _ => (readNumber cs).map fun (d, rest) => (.complete (.number d), rest)

theorem length_readStart {cs rest : List Char} {s : Start} (h : readStart cs = some (s, rest)) :
    rest.length < cs.length := by
  unfold readStart at h
  split at h
  · simp only [Option.some.injEq, Prod.mk.injEq] at h
    simp only [← h.2, List.length_cons]
    omega
  · simp only [Option.some.injEq, Prod.mk.injEq] at h
    simp only [← h.2, List.length_cons]
    omega
  · simp only [Option.some.injEq, Prod.mk.injEq] at h
    simp only [← h.2, List.length_cons]
    omega
  · simp only [Option.map_eq_some_iff, Prod.mk.injEq, Prod.exists] at h
    obtain ⟨_, _, he, -, rfl⟩ := h
    have := length_readString he
    simp only [List.length_cons]
    omega
  · rename_i tail
    have hb := length_skipBlanks tail
    split at h
    · rename_i heq
      simp only [Option.some.injEq, Prod.mk.injEq] at h
      rw [heq] at hb
      simp only [← h.2, List.length_cons] at *
      omega
    · simp only [Option.some.injEq, Prod.mk.injEq] at h
      simp only [← h.2, List.length_cons]
      omega
  · rename_i tail
    have hb := length_skipBlanks tail
    split at h
    · rename_i heq
      simp only [Option.some.injEq, Prod.mk.injEq] at h
      rw [heq] at hb
      simp only [← h.2, List.length_cons] at *
      omega
    · simp only [Option.map_eq_some_iff, Prod.mk.injEq, Prod.exists] at h
      obtain ⟨_, _, he, -, rfl⟩ := h
      have := length_readKey he
      simp only [List.length_cons]
      omega
  · simp only [Option.map_eq_some_iff, Prod.mk.injEq, Prod.exists] at h
    obtain ⟨_, _, he, -, rfl⟩ := h
    exact length_readNumber he

/-- What follows a finished value inside an open array or object: the array or object is finished
as well, or it goes on. -/
def readAfter (o : Opened) (v : JsonValue) (cs : List Char) : Option (Start × List Char) :=
  match o, skipBlanks cs with
  | .array items, ',' :: rest => some (.opens (.array (v :: items)), rest)
  | .array items, ']' :: rest => some (.complete (.array (v :: items).reverse), rest)
  | .object members key, ',' :: rest =>
    (readKey rest).map fun (next, rest) => (.opens (.object ((key, v) :: members) next), rest)
  | .object members key, '\x7d' :: rest =>
    some (.complete (.object ((key, v) :: members).reverse), rest)
  | _, _ => none

theorem length_readAfter {o : Opened} {v : JsonValue} {cs rest : List Char} {s : Start}
    (h : readAfter o v cs = some (s, rest)) : rest.length < cs.length := by
  have hb := length_skipBlanks cs
  unfold readAfter at h
  split at h
  · rename_i heq
    rw [heq] at hb
    simp only [Option.some.injEq, Prod.mk.injEq] at h
    simp only [← h.2, List.length_cons] at *
    omega
  · rename_i heq
    rw [heq] at hb
    simp only [Option.some.injEq, Prod.mk.injEq] at h
    simp only [← h.2, List.length_cons] at *
    omega
  · rename_i heq
    rw [heq] at hb
    simp only [Option.map_eq_some_iff, Prod.mk.injEq, Prod.exists] at h
    obtain ⟨_, _, he, -, rfl⟩ := h
    have := length_readKey he
    simp only [List.length_cons] at *
    omega
  · rename_i heq
    rw [heq] at hb
    simp only [Option.some.injEq, Prod.mk.injEq] at h
    simp only [← h.2, List.length_cons] at *
    omega
  · cases h

/-- Goes on reading: `s` is what was just read inside the open arrays and objects. -/
def readRest (stack : List Opened) (s : Start) (cs : List Char) : Option JsonValue :=
  match s with
  | .opens o =>
    match _h : readStart (skipBlanks cs) with
    | some (s, rest) => readRest (o :: stack) s rest
    | none => none
  | .complete v =>
    match stack with
    | [] => if (skipBlanks cs).isEmpty then some v else none
    | o :: stack =>
      match _h : readAfter o v cs with
      | some (s, rest) => readRest stack s rest
      | none => none
termination_by cs.length
decreasing_by
  · have h₁ := length_readStart _h
    have h₂ := length_skipBlanks cs
    omega
  · exact length_readAfter _h

/-- Reads a whole text. -/
def parse (text : String) : Option JsonValue :=
  (readStart (skipBlanks text.toList)).bind fun (s, rest) => readRest [] s rest

end ConcurrencyLint.JsonValue
