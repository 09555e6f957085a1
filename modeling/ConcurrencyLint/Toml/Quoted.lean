import ConcurrencyLint.Text.Digits
import ConcurrencyLint.Text.Parser

/-!
# TOML strings

The four kinds of quoted string: with or without escapes, on one line or over several.
-/

namespace ConcurrencyLint.Toml

open Text (Parser)

/-- Allowed in comments and in every kind of string: a tab or no control character. -/
def isTextChar (c : Char) : Bool := c == '\t' || (0x20 ≤ c.toNat && c.toNat != 0x7F)

/-- The character with the code that a row of hexadecimal digits names, if there is one. -/
def charOfHex (digits : List Char) : Option Char :=
  let code := Text.ofDigits 16 digits
  if digits.all Text.isHexDigit ∧ code.isValidChar then some (Char.ofNat code) else none

/-- The character named by what follows a backslash, and the rest. -/
def unescape : List Char → Option (Char × List Char)
  | 'b' :: cs => some ('\x08', cs)
  | 't' :: cs => some ('\t', cs)
  | 'n' :: cs => some ('\n', cs)
  | 'f' :: cs => some ('\x0c', cs)
  | 'r' :: cs => some ('\r', cs)
  | '"' :: cs => some ('"', cs)
  | '\\' :: cs => some ('\\', cs)
  | 'u' :: a :: b :: c :: d :: cs => (charOfHex [a, b, c, d]).map fun x => (x, cs)
  | 'U' :: a :: b :: c :: d :: e :: f :: g :: h :: cs =>
    (charOfHex [a, b, c, d, e, f, g, h]).map fun x => (x, cs)
  | _ => none

theorem length_of_unescape {cs rest : List Char} {c : Char} (h : unescape cs = some (c, rest)) :
    rest.length < cs.length := by
  unfold unescape at h
  split at h
  all_goals simp only [Option.some.injEq, Prod.mk.injEq, Option.map_eq_some_iff, reduceCtorEq] at h
  all_goals first
    | (obtain ⟨-, rfl⟩ := h; exact Nat.lt_succ_self _)
    | (obtain ⟨_, -, -, rfl⟩ := h; simp only [List.length_cons]; omega)

/-- Drops blanks and line ends. -/
def dropBlankLines : List Char → List Char
  | '\r' :: '\n' :: cs => dropBlankLines cs
  | c :: cs => if c == ' ' || c == '\t' || c == '\n' then dropBlankLines cs else c :: cs
  | [] => []

theorem length_dropBlankLines (cs : List Char) : (dropBlankLines cs).length ≤ cs.length := by
  fun_induction dropBlankLines cs <;> simp_all <;> omega

/-- After a backslash at the end of a line, the text with the line break and the blanks that follow
it left out. -/
def continueLine (cs : List Char) : Option (List Char) :=
  match cs.dropWhile fun c => c == ' ' || c == '\t' with
  | '\n' :: rest => some (dropBlankLines rest)
  | '\r' :: '\n' :: rest => some (dropBlankLines rest)
  | _ => none

theorem length_continueLine {cs rest : List Char} (h : continueLine cs = some rest) :
    rest.length < cs.length := by
  have hd : (cs.dropWhile fun c => c == ' ' || c == '\t').length ≤ cs.length :=
    (List.dropWhile_sublist _).length_le
  unfold continueLine at h
  split at h
  · rename_i heq
    simp only [Option.some.injEq] at h
    subst h
    rename_i tail
    have := length_dropBlankLines tail
    rw [heq] at hd
    simp only [List.length_cons] at hd
    omega
  · rename_i heq
    simp only [Option.some.injEq] at h
    subst h
    rename_i tail
    have := length_dropBlankLines tail
    rw [heq] at hd
    simp only [List.length_cons] at hd
    omega
  · cases h

/-- The rest of a string with escapes on one line, after its opening quote. -/
def basicBody (cs : List Char) : Option (List Char × List Char) :=
  match cs with
  | [] => none
  | '"' :: rest => some ([], rest)
  | '\\' :: rest =>
    match _h : unescape rest with
    | some (c, rest') => (basicBody rest').map fun (s, r) => (c :: s, r)
    | none => none
  | c :: rest => if isTextChar c then (basicBody rest).map fun (s, r) => (c :: s, r) else none
termination_by cs.length
decreasing_by
  · have := length_of_unescape _h
    simp only [List.length_cons]
    omega
  · simp

/-- The rest of a string without escapes on one line, after its opening quote. -/
def literalBody : List Char → Option (List Char × List Char)
  | [] => none
  | c :: rest =>
    if c = '\'' then some ([], rest)
    else if isTextChar c then (literalBody rest).map fun (s, r) => (c :: s, r)
    else none

/-- Closing quotes of a string over several lines: three, or up to five of which the first ones
belong to the string. -/
def closing (quote : Char) (cs : List Char) : Option (List Char × List Char) :=
  let run := min 5 (cs.takeWhile (· == quote)).length
  if 3 ≤ run then some (List.replicate (run - 3) quote, cs.drop run) else none

/-- The rest of a string with escapes over several lines. -/
def multilineBasicBody (cs : List Char) : Option (List Char × List Char) :=
  match closing '"' cs with
  | some done => some done
  | none =>
    match cs with
    | [] => none
    | '\\' :: rest =>
      match _h : continueLine rest with
      | some rest' => multilineBasicBody rest'
      | none =>
        match _h : unescape rest with
        | some (c, rest') => (multilineBasicBody rest').map fun (s, r) => (c :: s, r)
        | none => none
    | '\r' :: '\n' :: rest => (multilineBasicBody rest).map fun (s, r) => ('\n' :: s, r)
    | c :: rest =>
      if isTextChar c || c == '\n' then
        (multilineBasicBody rest).map fun (s, r) => (c :: s, r)
      else none
termination_by cs.length
decreasing_by
  · have := length_continueLine _h
    simp only [List.length_cons]
    omega
  · have := length_of_unescape _h
    simp only [List.length_cons]
    omega
  · simp only [List.length_cons]
    omega
  · simp

/-- The rest of a string without escapes over several lines. -/
def multilineLiteralBody (cs : List Char) : Option (List Char × List Char) :=
  match closing '\'' cs with
  | some done => some done
  | none =>
    match cs with
    | [] => none
    | '\r' :: '\n' :: rest => (multilineLiteralBody rest).map fun (s, r) => ('\n' :: s, r)
    | c :: rest =>
      if isTextChar c || c == '\n' then
        (multilineLiteralBody rest).map fun (s, r) => (c :: s, r)
      else none
termination_by cs.length

/-- Drops a line break right after opening quotes. -/
def dropFirstBreak : List Char → List Char
  | '\n' :: cs => cs
  | '\r' :: '\n' :: cs => cs
  | cs => cs

/-- A string in quotes on one line, which may also be a key. -/
def lineString : Parser String := fun cs =>
  (match cs with
    | '"' :: rest => basicBody rest
    | '\'' :: rest => literalBody rest
    | _ => none).map fun (s, r) => (String.ofList s, r)

/-- Any quoted string. -/
def quotedString : Parser String := fun cs =>
  match cs with
  | '"' :: '"' :: '"' :: rest =>
    (multilineBasicBody (dropFirstBreak rest)).map fun (s, r) => (String.ofList s, r)
  | '\'' :: '\'' :: '\'' :: rest =>
    (multilineLiteralBody (dropFirstBreak rest)).map fun (s, r) => (String.ofList s, r)
  | _ => lineString cs

end ConcurrencyLint.Toml
