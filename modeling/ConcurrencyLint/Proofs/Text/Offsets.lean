import ConcurrencyLint.Proofs.Text.Pieces
import Mathlib.Data.List.Infix

/-!
# Byte offsets

A text can be searched and cut by offsets into its bytes. Where an ASCII text is found, a character
begins, so that a cut there is a cut between characters.
-/

namespace ConcurrencyLint.Text

variable {a c : Char} {cs l r needle : List Char}

/-- The bytes of a text. -/
def encode (cs : List Char) : List UInt8 := cs.flatMap String.utf8EncodeChar

/-- The offset of the first place where the bytes of the needle stand. -/
def findBytes (needle : List UInt8) : List UInt8 → Option Nat
  | [] => if needle = [] then some 0 else none
  | b :: bs => if needle <+: b :: bs then some 0 else (findBytes needle bs).map (· + 1)

/-- The offset in bytes of the first place where a text stands in another one. -/
def find (needle cs : List Char) : Option Nat := findBytes (encode needle) (encode cs)

/-- The parts of a text before and from an offset in bytes on. There are none if the offset lies
inside a character or beyond the text. -/
def sliceAt : Nat → List Char → Option (List Char × List Char)
  | 0, cs => some ([], cs)
  | _ + 1, [] => none
  | offset + 1, c :: cs =>
    if c.utf8Size ≤ offset + 1 then
      (sliceAt (offset + 1 - c.utf8Size) cs).map fun (l, r) => (c :: l, r)
    else none

/-- The part of a text before an offset in bytes. -/
def sliceTo (offset : Nat) (cs : List Char) : Option (List Char) := (sliceAt offset cs).map (·.1)

/-- The part of a text from an offset in bytes on. -/
def sliceFrom (offset : Nat) (cs : List Char) : Option (List Char) := (sliceAt offset cs).map (·.2)

/-- The parts of a text before and from the first place on where the needle stands. -/
def splitBefore (needle : List Char) : List Char → Option (List Char × List Char)
  | [] => if needle = [] then some ([], []) else none
  | c :: cs =>
    if needle <+: c :: cs then some ([], c :: cs)
    else (splitBefore needle cs).map fun (l, r) => (c :: l, r)

/-! ## Characters and bytes -/

def IsAscii (c : Char) : Prop := c.val.toNat ≤ 127

instance (c : Char) : Decidable (IsAscii c) := inferInstanceAs (Decidable (_ ≤ _))

theorem encode_cons (c : Char) (cs : List Char) :
    encode (c :: cs) = String.utf8EncodeChar c ++ encode cs := List.flatMap_cons

theorem encode_append (l r : List Char) : encode (l ++ r) = encode l ++ encode r :=
  List.flatMap_append

theorem length_encode_cons (c : Char) (cs : List Char) :
    (encode (c :: cs)).length = c.utf8Size + (encode cs).length := by
  rw [encode_cons, List.length_append, String.length_utf8EncodeChar]

theorem utf8EncodeChar_of_isAscii (h : IsAscii c) :
    String.utf8EncodeChar c = [UInt8.ofNat c.val.toNat] := by
  rw [IsAscii] at h
  simp only [String.utf8EncodeChar, h, if_true]

theorem utf8Size_of_isAscii (h : IsAscii c) : c.utf8Size = 1 := by
  rw [← String.length_utf8EncodeChar, utf8EncodeChar_of_isAscii h]
  rfl

/-- Every byte of a longer character has its highest bit set. -/
theorem le_of_mem_utf8EncodeChar {b : UInt8} (hc : ¬IsAscii c) (hb : b ∈ String.utf8EncodeChar c) :
    128 ≤ b.toNat := by
  rw [IsAscii] at hc
  simp only [String.utf8EncodeChar, hc, if_false] at hb
  split at hb
  · simp only [List.mem_cons, List.not_mem_nil, or_false] at hb
    rcases hb with rfl | rfl <;> simp only [UInt8.toNat_ofNat'] <;> omega
  · split at hb
    · simp only [List.mem_cons, List.not_mem_nil, or_false] at hb
      rcases hb with rfl | rfl | rfl <;> simp only [UInt8.toNat_ofNat'] <;> omega
    · simp only [List.mem_cons, List.not_mem_nil, or_false] at hb
      rcases hb with rfl | rfl | rfl | rfl <;> simp only [UInt8.toNat_ofNat'] <;> omega

theorem toNat_ofNat_of_isAscii (h : IsAscii c) : (UInt8.ofNat c.val.toNat).toNat = c.val.toNat := by
  rw [UInt8.toNat_ofNat', Nat.mod_eq_of_lt]
  exact Nat.lt_of_le_of_lt h (by decide)

/-- The byte of an ASCII character stands in no other character. -/
theorem not_mem_utf8EncodeChar (ha : IsAscii a) (hne : c ≠ a) :
    UInt8.ofNat a.val.toNat ∉ String.utf8EncodeChar c := by
  intro hmem
  by_cases hc : IsAscii c
  · rw [utf8EncodeChar_of_isAscii hc, List.mem_singleton] at hmem
    have hnat := congrArg UInt8.toNat hmem
    rw [toNat_ofNat_of_isAscii ha, toNat_ofNat_of_isAscii hc] at hnat
    exact hne (Char.ext (UInt32.toNat_inj.mp hnat.symm))
  · have hhigh := le_of_mem_utf8EncodeChar hc hmem
    rw [toNat_ofNat_of_isAscii ha] at hhigh
    exact absurd ha (Nat.not_le.mpr hhigh)

/-! ## Searching -/

theorem encode_prefix_iff (h : ∀ a ∈ needle, IsAscii a) :
    encode needle <+: encode cs ↔ needle <+: cs := by
  induction needle generalizing cs with
  | nil => simp [encode]
  | cons a needle ih =>
      obtain ⟨ha, hneedle⟩ := List.forall_mem_cons.mp h
      rw [encode_cons, utf8EncodeChar_of_isAscii ha, List.singleton_append]
      cases cs with
      | nil => simp [encode]
      | cons c cs =>
          rw [encode_cons]
          by_cases hc : c = a
          · subst hc
            rw [utf8EncodeChar_of_isAscii ha, List.singleton_append, List.cons_prefix_cons,
              List.cons_prefix_cons, ih hneedle]
            simp
          · have hbyte := not_mem_utf8EncodeChar ha hc
            constructor
            · rintro ⟨rest, hrest⟩
              obtain ⟨b, bs, hb⟩ := List.exists_cons_of_ne_nil (String.utf8EncodeChar_ne_nil (c := c))
              rw [hb] at hbyte hrest
              exact absurd (List.cons.inj hrest).1 (fun h => hbyte (h ▸ List.mem_cons_self))
            · intro hstarts
              exact absurd (List.cons_prefix_cons.mp hstarts).1.symm hc

theorem findBytes_append {b : UInt8} {bs xs ys : List UInt8} (h : b ∉ xs) :
    findBytes (b :: bs) (xs ++ ys) = (findBytes (b :: bs) ys).map (· + xs.length) := by
  induction xs with
  | nil => simp
  | cons x xs ih =>
      rw [List.mem_cons, not_or] at h
      obtain ⟨hx, hxs⟩ := h
      have hnot : ¬b :: bs <+: x :: (xs ++ ys) := fun hp => hx (List.cons_prefix_cons.mp hp).1
      rw [List.cons_append, findBytes, if_neg hnot, ih hxs, Option.map_map]
      rfl

theorem findBytes_of_prefix {bs xs : List UInt8} (h : bs <+: xs) : findBytes bs xs = some 0 := by
  cases xs with
  | nil => rw [findBytes, if_pos (List.prefix_nil.mp h)]
  | cons x xs => rw [findBytes, if_pos h]

/-- A character at which the needle does not stand is passed over with all its bytes. -/
theorem find_cons (ha : IsAscii a) (h : ¬encode (a :: needle) <+: encode (c :: cs)) :
    find (a :: needle) (c :: cs) = (find (a :: needle) cs).map (· + c.utf8Size) := by
  have hstart : encode (a :: needle) = UInt8.ofNat a.val.toNat :: encode needle := by
    rw [encode_cons, utf8EncodeChar_of_isAscii ha, List.singleton_append]
  by_cases hc : c = a
  · subst hc
    rw [encode_cons c cs, utf8EncodeChar_of_isAscii ha, List.singleton_append] at h
    rw [find, encode_cons c cs, utf8EncodeChar_of_isAscii ha, List.singleton_append, findBytes,
      if_neg h, find, utf8Size_of_isAscii ha]
  · rw [find, find, hstart, encode_cons c cs, findBytes_append (not_mem_utf8EncodeChar ha hc),
      String.length_utf8EncodeChar]

/-- An ASCII text is found in bytes where it stands in characters. -/
theorem find_eq (hne : needle ≠ []) (h : ∀ a ∈ needle, IsAscii a) (cs : List Char) :
    find needle cs = (splitBefore needle cs).map fun (l, _) => (encode l).length := by
  obtain ⟨a, needle, rfl⟩ := List.exists_cons_of_ne_nil hne
  have ha := h a List.mem_cons_self
  induction cs with
  | nil =>
      have hbytes : encode (a :: needle) ≠ [] := by
        rw [encode_cons]
        exact List.append_ne_nil_of_left_ne_nil String.utf8EncodeChar_ne_nil _
      rw [find, splitBefore, if_neg hne]
      exact if_neg hbytes
  | cons c cs ih =>
      have hstarts : encode (a :: needle) <+: encode (c :: cs) ↔ a :: needle <+: c :: cs :=
        encode_prefix_iff h
      rw [splitBefore]
      split
      · rename_i hfound
        rw [find, findBytes_of_prefix (hstarts.mpr hfound)]
        rfl
      · rename_i hnot
        rw [find_cons ha (mt hstarts.mp hnot), ih, Option.map_map, Option.map_map]
        congr 1
        funext ⟨l, r⟩
        simp only [Function.comp_apply, length_encode_cons]
        exact Nat.add_comm _ _

theorem eq_append_of_splitBefore (h : splitBefore needle cs = some (l, r)) : cs = l ++ r := by
  induction cs generalizing l with
  | nil =>
      rw [splitBefore] at h
      split at h
      · cases h
        rfl
      · cases h
  | cons c cs ih =>
      rw [splitBefore] at h
      split at h
      · cases h
        rfl
      · obtain ⟨⟨l, r⟩, hsplit, heq⟩ := Option.map_eq_some_iff.mp h
        cases heq
        rw [ih hsplit, List.cons_append]

theorem splitBefore_singleton (c : Char) (cs : List Char) :
    splitBefore [c] cs = (cutAt c cs).map fun (l, r) => (l, c :: r) := by
  induction cs with
  | nil => rfl
  | cons d cs ih =>
      rw [splitBefore, cutAt, ih]
      by_cases h : d = c
      · simp [h]
      · simp [h, Ne.symm h, Function.comp_def]

theorem find_singleton (h : IsAscii c) (cs : List Char) :
    find [c] cs = (cutAt c cs).map fun (l, _) => (encode l).length := by
  rw [find_eq (List.cons_ne_nil c []) (by simpa using h), splitBefore_singleton, Option.map_map]
  rfl

/-! ## Cutting -/

theorem sliceAt_length_encode (l r : List Char) :
    sliceAt (encode l).length (l ++ r) = some (l, r) := by
  induction l with
  | nil => simp [encode, sliceAt]
  | cons c l ih =>
      have hsize : 0 < c.utf8Size := Char.utf8Size_pos c
      obtain ⟨offset, hoffset⟩ : ∃ offset, (encode (c :: l)).length = offset + 1 :=
        ⟨(encode (c :: l)).length - 1, by rw [length_encode_cons]; omega⟩
      rw [hoffset, List.cons_append, sliceAt, ← hoffset, length_encode_cons, if_pos (by omega),
        Nat.add_sub_cancel_left, ih]
      rfl

theorem sliceTo_length_encode (l r : List Char) : sliceTo (encode l).length (l ++ r) = some l := by
  rw [sliceTo, sliceAt_length_encode]
  rfl

theorem sliceFrom_length_encode (l r : List Char) :
    sliceFrom (encode l).length (l ++ r) = some r := by
  rw [sliceFrom, sliceAt_length_encode]
  rfl

/-- One byte further on, the ASCII character is left behind. -/
theorem sliceFrom_length_encode_succ (h : IsAscii c) (l r : List Char) :
    sliceFrom ((encode l).length + 1) (l ++ c :: r) = some r := by
  have hlength : (encode (l ++ [c])).length = (encode l).length + 1 := by
    rw [encode_append, List.length_append, length_encode_cons, utf8Size_of_isAscii h]
    rfl
  have hslice := sliceFrom_length_encode (l ++ [c]) r
  rwa [hlength, List.append_assoc] at hslice

/-! ## Readings that cut -/

/-- A reading that cuts a text at offsets. It gives nothing at all if a cut falls inside a character
or beyond the text; otherwise it may still find nothing. -/
abbrev Cutting := OptionT Option

namespace Cutting

variable {α β : Type}

/-- What is found, if anything is. -/
def found (a : Option α) : Cutting α := OptionT.mk (some a)

/-- What a cut leaves. -/
def cut (part : Option α) : Cutting α := OptionT.lift part

theorem found_some_bind (a : α) (f : α → Cutting β) : found (some a) >>= f = f a := rfl

theorem cut_some_bind (a : α) (f : α → Cutting β) : cut (some a) >>= f = f a := rfl

theorem found_bind {a : Option α} {f : α → Cutting β} {g : α → Option β}
    (h : ∀ x ∈ a, f x = found (g x)) : found a >>= f = found (a >>= g) := by
  cases a with
  | none => rfl
  | some x => exact h x rfl

/-- Where an ASCII character is found, the text can be cut. -/
theorem find_bind {c : Char} (hc : IsAscii c) (cs : List Char)
    (f : Nat → List Char → Cutting β) :
    (do let stop ← found (find [c] cs)
        let l ← cut (sliceTo stop cs)
        f stop l) =
      found (cutAt c cs) >>= fun parts => f (encode parts.1).length parts.1 := by
  rw [find_singleton hc]
  cases h : cutAt c cs with
  | none => rfl
  | some parts =>
      obtain ⟨l, r⟩ := parts
      rw [(cutAt_eq_some_iff.mp h).1, Option.map_some, found_some_bind, found_some_bind,
        sliceTo_length_encode, cut_some_bind]

end Cutting

end ConcurrencyLint.Text
