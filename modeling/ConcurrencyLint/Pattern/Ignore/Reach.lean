import ConcurrencyLint.Pattern.Ignore.Token

/-!
# Matching paths

A path is swept from front to back once for every token. Between two tokens stands the set of the
places that the tokens so far may have reached, so that no pattern takes long.
-/

namespace ConcurrencyLint.Ignore

/-! ## Bytes -/

/-- The bytes of a character. -/
def bytesOf (c : Char) : List UInt8 := c.toString.toUTF8.toList

def separator : UInt8 := 47

/-- The byte ranges of a set of characters. A character outside of ASCII stands for its bytes one by
one, and a range then runs from the last byte of its low end to the first byte of its high end. -/
def byteRanges (r : Char × Char) : List (UInt8 × UInt8) :=
  let low := bytesOf r.1
  let high := bytesOf r.2
  if r.1 = r.2 then low.map fun b => (b, b)
  else low.dropLast.map (fun b => (b, b))
    ++ [(low.getLastD 0, high.headD 0)] ++ high.tail.map fun b => (b, b)

def classHas (negated : Bool) (ranges : List (Char × Char)) (b : UInt8) : Bool :=
  negated != (ranges.flatMap byteRanges).any fun r => r.1 ≤ b && b ≤ r.2

/-! ## Sweeps -/

/-- The places reached in a path: whether the place before each byte is, then the one at the end.
Places that are not listed are not reached. -/
abbrev Places := List Bool

namespace Places

/-- Only the place at the front. -/
def front : Places := [true]

/-- The places reached by either. -/
def union : Places → Places → Places
  | [], ys => ys
  | xs, [] => xs
  | x :: xs, y :: ys => (x || y) :: union xs ys

/-- Sweeps over a path with a state. At every place `holds` tells whether the place is reached now,
from the state and whether the place was reached before; `next` takes the state past a byte. -/
def sweep {σ : Type} (holds : σ → Bool → Bool) (next : σ → Bool → UInt8 → σ) :
    σ → List UInt8 → Places → Places
  | s, [], places => [holds s (places.headD false)]
  | s, b :: bs, places =>
    let here := places.headD false
    holds s here :: sweep holds next (next s here b) bs places.tail

/-- After one byte that passes the test. -/
def afterByte (test : UInt8 → Bool) : List UInt8 → Places → Places :=
  sweep (fun reached _ => reached) (fun _ here b => here && test b) false

/-- After any bytes of one component. -/
def afterStar : List UInt8 → Places → Places :=
  sweep (fun running here => running || here)
    (fun running here b => (running || here) && b != separator) false

/-- After nothing, or after any bytes up to a separator. The state tells whether any place was
reached so far, and whether a separator follows one. -/
def afterLeading : List UInt8 → Places → Places :=
  sweep (fun (_, ready) here => here || ready)
    (fun (seen, _) here b => (seen || here, (seen || here) && b == separator)) (false, false)

/-- After a separator and any bytes. -/
def afterInside : List UInt8 → Places → Places :=
  sweep (fun opened _ => opened) (fun opened here b => opened || (here && b == separator)) false

/-- After a separator, or after any bytes between two separators. The state tells whether the first
of two separators was passed, and whether a last one was. -/
def afterBetween : List UInt8 → Places → Places :=
  sweep (fun (_, ready) _ => ready)
    (fun (opened, _) here b =>
      (opened || (here && b == separator), (opened || here) && b == separator)) (false, false)

end Places

/-! ## Tokens -/

mutual

/-- The token is a group of alternatives without a single token in it. -/
def Token.isVoid : Token → Bool
  | .alternatives branches => allVoid branches
  | _ => false

def sequenceVoid : List Token → Bool
  | [] => true
  | t :: ts => t.isVoid && sequenceVoid ts

def allVoid : List (List Token) → Bool
  | [] => true
  | branch :: branches => sequenceVoid branch && allVoid branches

end

mutual

/-- The places in a path that are reached after a token. A void group stands for nothing. -/
def Token.advance (path : List UInt8) : Token → Places → Places
  | .literal c, places => (bytesOf c).foldl (fun ps b => ps.afterByte (· == b) path) places
  | .any, places => places.afterByte (· != separator) path
  | .star, places => places.afterStar path
  | .leading, places => places.afterLeading path
  | .inside, places => places.afterInside path
  | .between, places => places.afterBetween path
  | .charClass negated ranges, places => places.afterByte (classHas negated ranges) path
  | .alternatives branches, places =>
    if allVoid branches then places else advanceAny path branches places

/-- The places reached after all tokens in order. -/
def advanceAll (path : List UInt8) : List Token → Places → Places
  | [], places => places
  | t :: ts, places => advanceAll path ts (t.advance path places)

/-- The places reached after one of several branches. Void branches count for nothing. -/
def advanceAny (path : List UInt8) : List (List Token) → Places → Places
  | [], _ => []
  | branch :: branches, places =>
    let others := advanceAny path branches places
    if sequenceVoid branch then others else (advanceAll path branch places).union others

end

/-- The tokens match a whole path. A lone recursive wildcard matches every path. -/
def matchesPath (tokens : List Token) (path : List UInt8) : Bool :=
  match tokens with
  | [.leading] => true
  | _ => (advanceAll path tokens .front).getD path.length false

end ConcurrencyLint.Ignore
