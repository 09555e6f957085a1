import ConcurrencyLint.Json.Decoding

/-!
# Written values read back

The reader gives back every value that the printer writes without loss: one whose strings and keys
have a text and whose numbers are counts. A written value may stand inside arrays and objects that
are still open, so the statement is about the rest of the text and about the stack.
-/

namespace ConcurrencyLint

/-! ## Digits -/

namespace Text

theorem isDigit_of_mem_toDigits {n : Nat} {c : Char} (h : c ∈ Nat.toDigits 10 n) :
    isDigit c = true :=
  Nat.isDigit_of_mem_toDigits (by omega) (by omega) h

theorem ne_of_isDigit {c x : Char} (hc : isDigit c = true) (hx : isDigit x = false) : c ≠ x := by
  rintro rfl
  cases hc.symm.trans hx

theorem exists_toDigits_eq_cons (n : Nat) :
    ∃ d ds, Nat.toDigits 10 n = d :: ds ∧ isDigit d = true := by
  obtain ⟨d, ds, h⟩ := List.exists_cons_of_ne_nil (Nat.toDigits_ne_nil (n := n) (b := 10))
  exact ⟨d, ds, h, isDigit_of_mem_toDigits (h ▸ List.mem_cons_self)⟩

/-- No number but zero starts with a zero. -/
theorem eq_zero_of_toDigits {n : Nat} {cs : List Char} (h : Nat.toDigits 10 n = '0' :: cs) :
    n = 0 := by
  induction n using Nat.strongRecOn generalizing cs with
  | ind n ih =>
    rw [Nat.toDigits_eq_if (by omega)] at h
    split at h
    case isTrue => exact Nat.digitChar_eq_zero.1 (List.cons.inj h).1
    case isFalse hn =>
      obtain ⟨d, ds, hd, -⟩ := exists_toDigits_eq_cons (n / 10)
      rw [hd, List.cons_append] at h
      obtain ⟨rfl, -⟩ := List.cons.inj h
      have := ih (n / 10) (by omega) hd
      omega

theorem digitValue_of_isDigit {c : Char} (h : isDigit c = true) :
    digitValue c = c.toNat - '0'.toNat := by
  rw [isDigit, Bool.and_eq_true, decide_eq_true_eq, decide_eq_true_eq] at h
  rw [digitValue, if_pos h]

theorem foldl_digitValue {cs : List Char} (h : ∀ c ∈ cs, isDigit c = true) (n : Nat) :
    cs.foldl (fun n c => n * 10 + digitValue c) n = Nat.ofDigitChars 10 cs n := by
  induction cs generalizing n with
  | nil => rfl
  | cons c cs ih =>
    obtain ⟨hc, hcs⟩ := List.forall_mem_cons.1 h
    rw [List.foldl_cons, ih hcs, digitValue_of_isDigit hc, Nat.mul_comm]
    rfl

theorem ofDigits_toDigits (n : Nat) : ofDigits 10 (Nat.toDigits 10 n) = n := by
  rw [ofDigits, foldl_digitValue fun c => isDigit_of_mem_toDigits]
  exact Nat.ofDigitChars_ten_toDigits

theorem lowerHexDigits_getD :
    ∀ d < 16, isHexDigit (lowerHexDigits.getD d '0') = true ∧
      digitValue (lowerHexDigits.getD d '0') = d := by
  decide

/-- Four hexadecimal digits stand for the number that they were made from. -/
theorem exists_hex4 {n : Nat} (h : n < 0x10000) :
    ∃ a b c d, (hex4 lowerHexDigits n).toList = [a, b, c, d] ∧
      [a, b, c, d].all isHexDigit = true ∧ ofDigits 16 [a, b, c, d] = n := by
  have hd (place : Nat) := lowerHexDigits_getD (n / place % 16) (Nat.mod_lt _ (by omega))
  refine ⟨_, _, _, _, String.toList_ofList, ?_, ?_⟩
  · simp only [List.all_cons, List.all_nil, (hd _).1, Bool.and_true]
  · simp only [ofDigits, List.foldl_cons, List.foldl_nil, (hd _).2]
    omega

end Text

namespace JsonValue

open Text (isDigit)

/-! ## Strings -/

theorem readPieces_cons {c : Char} (hq : c ≠ '"') (hs : c ≠ '\\') (hc : ¬ c.toNat < 0x20)
    (tail : List Char) :
    readPieces (c :: tail) = (readPieces tail).map fun (ps, rest) => (.char c :: ps, rest) := by
  simp [readPieces, hs, hc]

theorem readPieces_unit {n : Nat} (h : n < 0x10000) (tail : List Char) :
    readPieces ('\\' :: 'u' :: ((Text.hex4 Text.lowerHexDigits n).toList ++ tail))
      = (readPieces tail).map fun (ps, rest) => (.unit n :: ps, rest) := by
  obtain ⟨a, b, c, d, hd, hx, hv⟩ := Text.exists_hex4 h
  rw [hd]
  simp only [List.cons_append, List.nil_append, readPieces, hx, hv, if_true]

theorem textOf_unit {n : Nat} (h : n < 0x20) (ps : List Piece) :
    textOf (.unit n :: ps) = (textOf ps).map (Char.ofNat n :: ·) := by
  have hl : isLowHalf n = false := by simp [isLowHalf]; omega
  have hh : isHighHalf n = false := by simp [isHighHalf]; omega
  rw [textOf.eq_def]
  simp [hl, hh]

/-- An escaped character is one piece, and its text is the character. -/
theorem exists_piece (c : Char) :
    ∃ p, (∀ ps, textOf (p :: ps) = (textOf ps).map (c :: ·)) ∧
      ∀ tail, readPieces (escapeChar c ++ tail)
        = (readPieces tail).map fun (ps, rest) => (p :: ps, rest) := by
  unfold escapeChar
  split
  case h_8 hq hs _ _ _ _ _ =>
    split
    case isTrue hc =>
      refine ⟨.unit c.toNat, fun ps => ?_, readPieces_unit (by omega)⟩
      rw [textOf_unit hc, Char.ofNat_toNat]
    case isFalse hc => exact ⟨.char c, fun ps => rfl, readPieces_cons hq hs hc⟩
  all_goals exact ⟨.char _, fun ps => rfl, fun tail => by simp [readPieces]⟩

theorem readPieces_escaped (cs rest : List Char) :
    ∃ ps, readPieces (cs.flatMap escapeChar ++ '"' :: rest) = some (ps, rest) ∧
      textOf ps = some cs := by
  induction cs with
  | nil => exact ⟨[], by simp [readPieces], rfl⟩
  | cons c cs ih =>
    obtain ⟨ps, hr, ht⟩ := ih
    obtain ⟨p, hp, hc⟩ := exists_piece c
    refine ⟨p :: ps, ?_, ?_⟩
    · rw [List.flatMap_cons, List.append_assoc, hc, hr, Option.map_some]
    · rw [hp, ht, Option.map_some]

theorem readString_escaped (s : String) (rest : List Char) :
    readString (s.toList.flatMap escapeChar ++ '"' :: rest) = some (some s, rest) := by
  obtain ⟨ps, hr, ht⟩ := readPieces_escaped s.toList rest
  simp only [readString, hr, ht, Option.map_some, String.ofList_toList]

/-! ## Numbers -/

/-- No character that a number could go on with comes next. -/
def EndsNumber (rest : List Char) : Prop :=
  ∀ c ∈ rest.head?, isDigit c = false ∧ c ≠ '.' ∧ c ≠ 'e' ∧ c ≠ 'E'

theorem endsNumber_nil : EndsNumber [] := by
  simp [EndsNumber]

theorem endsNumber_comma (rest : List Char) : EndsNumber (',' :: rest) := by
  simp [EndsNumber, isDigit]

theorem endsNumber_lineBreak (level : Nat) (rest : List Char) :
    EndsNumber (lineBreak level ++ rest) := by
  simp [EndsNumber, isDigit, lineBreak]

theorem readDigits_append {ds rest : List Char} (hne : ds ≠ []) (hd : ∀ c ∈ ds, isDigit c = true)
    (hr : EndsNumber rest) : readDigits (ds ++ rest) = some (ds, rest) := by
  have ht : rest.takeWhile isDigit = [] ∧ rest.dropWhile isDigit = rest := by
    cases rest with
    | nil => exact ⟨rfl, rfl⟩
    | cons c rest => simp [(hr c rfl).1]
  simp [readDigits, List.takeWhile_append_of_pos hd, List.dropWhile_append_of_pos hd, ht, hne]

theorem readWhole_toDigits (n : Nat) {rest : List Char} (hr : EndsNumber rest) :
    readWhole (Nat.toDigits 10 n ++ rest) = some (Nat.toDigits 10 n, rest) := by
  obtain ⟨d, ds, hd, -⟩ := Text.exists_toDigits_eq_cons n
  by_cases hz : d = '0'
  · subst hz
    obtain rfl := Text.eq_zero_of_toDigits hd
    cases rest with
    | nil => rfl
    | cons c rest => simp [readWhole, (hr c rfl).1]
  · have hw : readWhole (Nat.toDigits 10 n ++ rest) = readDigits (Nat.toDigits 10 n ++ rest) := by
      simp [hd, readWhole, hz]
    rw [hw]
    exact readDigits_append Nat.toDigits_ne_nil (fun c => Text.isDigit_of_mem_toDigits) hr

theorem readFraction_of_endsNumber {rest : List Char} (hr : EndsNumber rest) :
    readFraction rest = some ([], rest) := by
  unfold readFraction
  split
  case h_1 => exact absurd rfl (hr _ rfl).2.1
  case h_2 => rfl

theorem readExponent_of_endsNumber {rest : List Char} (hr : EndsNumber rest) :
    readExponent rest = some ([], rest) := by
  cases rest with
  | nil => rfl
  | cons c rest =>
    obtain ⟨-, -, he, hE⟩ := hr c rfl
    simp [readExponent, he, hE]

/-- What starts with a digit has no sign. -/
theorem readNumber_digit {c : Char} (hc : isDigit c = true) (cs : List Char) :
    readNumber (c :: cs) = (do
      let (whole, cs) ← readWhole (c :: cs)
      let (fraction, cs) ← readFraction cs
      let (exponent, cs) ← readExponent cs
      return (whole ++ fraction ++ exponent, cs)) := by
  simp [readNumber, Text.ne_of_isDigit (x := '-') hc rfl]

theorem readNumber_toDigits (n : Nat) {rest : List Char} (hr : EndsNumber rest) :
    readNumber (Nat.toDigits 10 n ++ rest) = some (Nat.toDigits 10 n, rest) := by
  obtain ⟨d, ds, hd, hc⟩ := Text.exists_toDigits_eq_cons n
  have hw := readWhole_toDigits n hr
  rw [hd, List.cons_append] at hw ⊢
  simp [readNumber_digit hc, hw, readFraction_of_endsNumber hr, readExponent_of_endsNumber hr]

/-! ## Starts of values -/

theorem readStart_digit {c : Char} (hc : isDigit c = true) (cs : List Char) :
    readStart (c :: cs)
      = (readNumber (c :: cs)).map fun (d, rest) => (.complete (.number d), rest) := by
  have hn {x : Char} : isDigit x = false → c ≠ x := Text.ne_of_isDigit hc
  simp [readStart, hn (x := 'n') rfl, hn (x := 't') rfl, hn (x := 'f') rfl, hn (x := '"') rfl,
    hn (x := '[') rfl, hn (x := '\x7b') rfl]

theorem readStart_ofNat (n : Nat) {rest : List Char} (hr : EndsNumber rest) :
    readStart (Nat.toDigits 10 n ++ rest) = some (.complete (ofNat n), rest) := by
  obtain ⟨d, ds, hd, hc⟩ := Text.exists_toDigits_eq_cons n
  have h := readNumber_toDigits n hr
  rw [hd, List.cons_append] at h ⊢
  simp [readStart_digit hc, h, ofNat, hd]

theorem readStart_quote (s : String) (rest : List Char) :
    readStart (quote s ++ rest) = some (.complete (ofString s), rest) := by
  simp [readStart, quote, readString_escaped, ofString]

/-! ## Blanks and keys -/

theorem skipBlanks_cons {c : Char} (h : isBlank c = false) (cs : List Char) :
    skipBlanks (c :: cs) = c :: cs := by
  simp [skipBlanks, h]

theorem skipBlanks_space (cs : List Char) : skipBlanks (' ' :: cs) = skipBlanks cs := rfl

theorem skipBlanks_lineBreak (level : Nat) (cs : List Char) :
    skipBlanks (lineBreak level ++ cs) = skipBlanks cs := by
  refine List.dropWhile_append_of_pos fun c hc => ?_
  simp only [lineBreak, List.mem_cons, List.mem_replicate] at hc
  obtain rfl | ⟨-, rfl⟩ := hc <;> rfl

theorem readKey_lineBreak (level : Nat) (cs : List Char) :
    readKey (lineBreak level ++ cs) = readKey cs := by
  rw [readKey, skipBlanks_lineBreak, readKey]

theorem readKey_quote (key : String) (rest : List Char) :
    readKey (quote key ++ ':' :: rest) = some (some key, rest) := by
  simp [readKey, quote, skipBlanks_cons (c := '"') rfl, readString_escaped,
    skipBlanks_cons (c := ':') rfl]

/-! ## Inside arrays and objects -/

theorem readStart_object (key : String) (level : Nat) (rest : List Char) :
    readStart ('\x7b' :: (lineBreak level ++ (quote key ++ ':' :: rest)))
      = some (.opens (.object [] (some key)), rest) := by
  have hk := readKey_quote key rest
  rw [quote, List.cons_append] at hk ⊢
  generalize _ ++ ':' :: rest = cs at hk ⊢
  simp [readStart, skipBlanks_lineBreak, skipBlanks_cons (c := '"') rfl, hk]

theorem readAfter_item (items : List JsonValue) (v : JsonValue) (rest : List Char) :
    readAfter (.array items) v (',' :: rest) = some (.opens (.array (v :: items)), rest) := by
  simp [readAfter, skipBlanks_cons (c := ',') rfl]

theorem readAfter_array (items : List JsonValue) (v : JsonValue) (level : Nat) (rest : List Char) :
    readAfter (.array items) v (lineBreak level ++ ']' :: rest)
      = some (.complete (.array (v :: items).reverse), rest) := by
  simp [readAfter, skipBlanks_lineBreak, skipBlanks_cons (c := ']') rfl]

theorem readAfter_member (members : List (Option String × JsonValue)) (key : Option String)
    (v : JsonValue) (next : String) (level : Nat) (rest : List Char) :
    readAfter (.object members key) v (',' :: (lineBreak level ++ (quote next ++ ':' :: rest)))
      = some (.opens (.object ((key, v) :: members) (some next)), rest) := by
  simp [readAfter, skipBlanks_cons (c := ',') rfl, readKey_lineBreak, readKey_quote]

theorem readAfter_object (members : List (Option String × JsonValue)) (key : Option String)
    (v : JsonValue) (level : Nat) (rest : List Char) :
    readAfter (.object members key) v (lineBreak level ++ '\x7d' :: rest)
      = some (.complete (.object ((key, v) :: members).reverse), rest) := by
  simp [readAfter, skipBlanks_lineBreak, skipBlanks_cons (c := '\x7d') rfl]

/-! ## Values -/

/-- Reads a value inside the open arrays and objects, and goes on. -/
def readValue (stack : List Opened) (cs : List Char) : Option JsonValue :=
  (readStart cs).bind fun (s, rest) => readRest stack s rest

theorem readRest_opens (stack : List Opened) (o : Opened) (cs : List Char) :
    readRest stack (.opens o) cs = readValue (o :: stack) (skipBlanks cs) := by
  rw [readRest, readValue]
  split
  case h_1 s rest h => simp [h]
  case h_2 h => simp [h]

theorem readRest_complete {o : Opened} {v : JsonValue} {cs rest : List Char} {s : Start}
    (h : readAfter o v cs = some (s, rest)) (stack : List Opened) :
    readRest (o :: stack) (.complete v) cs = readRest stack s rest := by
  rw [readRest]
  split
  case h_1 h' =>
    obtain ⟨rfl, rfl⟩ := Prod.mk.inj (Option.some.inj (h.symm.trans h'))
    rfl
  case h_2 h' => cases h.symm.trans h'

theorem readValue_of_start {s : Start} {cs rest : List Char} (h : readStart cs = some (s, rest))
    (stack : List Opened) : readValue stack cs = readRest stack s rest := by
  rw [readValue, h, Option.bind_some]

/-- A value that the printer writes without loss. -/
inductive Plain : JsonValue → Prop where
  | null : Plain .null
  | bool (b : Bool) : Plain (.bool b)
  | ofNat (n : Nat) : Plain (.ofNat n)
  | ofString (s : String) : Plain (.ofString s)
  | array {items : List JsonValue} (h : ∀ v ∈ items, Plain v) : Plain (.array items)
  | ofMembers {members : List (String × JsonValue)} (h : ∀ m ∈ members, Plain m.2) :
    Plain (.ofMembers members)

theorem print_ofNat (level n : Nat) : (ofNat n).print level = Nat.toDigits 10 n := by
  simp [ofNat, print]

/-- A written value starts neither with a blank nor with the end of an array. -/
theorem Plain.exists_print_eq_cons {v : JsonValue} (h : v.Plain) (level : Nat) :
    ∃ c cs, v.print level = c :: cs ∧ isBlank c = false ∧ c ≠ ']' := by
  cases h with
  | null => exact ⟨_, _, rfl, rfl, by decide⟩
  | bool b => cases b <;> exact ⟨_, _, rfl, rfl, by decide⟩
  | ofNat n =>
    obtain ⟨d, ds, hd, hc⟩ := Text.exists_toDigits_eq_cons n
    have hn {x : Char} : isDigit x = false → d ≠ x := Text.ne_of_isDigit hc
    refine ⟨d, ds, by rw [print_ofNat, hd], ?_, hn rfl⟩
    simp [isBlank, hn (x := ' ') rfl, hn (x := '\n') rfl, hn (x := '\t') rfl, hn (x := '\r') rfl]
  | ofString s => exact ⟨_, _, rfl, rfl, by decide⟩
  | @array items => cases items <;> exact ⟨_, _, rfl, rfl, by decide⟩
  | @ofMembers members => cases members <;> exact ⟨_, _, rfl, rfl, by decide⟩

theorem Plain.skipBlanks_print {v : JsonValue} (h : v.Plain) (level : Nat) (rest : List Char) :
    skipBlanks (v.print level ++ rest) = v.print level ++ rest := by
  obtain ⟨c, cs, hp, hb, -⟩ := h.exists_print_eq_cons level
  rw [hp, List.cons_append, skipBlanks_cons hb]

theorem Plain.readStart_array {v : JsonValue} (h : v.Plain) (level : Nat) (rest : List Char) :
    readStart ('[' :: (lineBreak level ++ (v.print level ++ rest)))
      = some (.opens (.array []), v.print level ++ rest) := by
  obtain ⟨c, cs, hp, hb, hc⟩ := h.exists_print_eq_cons level
  rw [hp, List.cons_append]
  simp [readStart, skipBlanks_lineBreak, skipBlanks_cons hb, hc]

/-- The reader takes the value from the front of a text, whatever is open around it. -/
def ReadsBack (v : JsonValue) : Prop :=
  ∀ (level : Nat) (stack : List Opened) (rest : List Char), EndsNumber rest →
    readValue stack (v.print level ++ rest) = readRest stack (.complete v) rest

theorem endsNumber_printItems (level : Nat) (vs : List JsonValue) (rest : List Char) :
    EndsNumber (printItems (level + 1) vs ++ (lineBreak level ++ rest)) := by
  cases vs with
  | nil => exact endsNumber_lineBreak level rest
  | cons v vs => exact endsNumber_comma _

theorem endsNumber_printMembers (level : Nat) (members : List (Option String × JsonValue))
    (rest : List Char) :
    EndsNumber (printMembers (level + 1) members ++ (lineBreak level ++ rest)) := by
  cases members with
  | nil => exact endsNumber_lineBreak level rest
  | cons m members => exact endsNumber_comma _

/-- From a finished item on, the rest of an array is read. -/
theorem readRest_printItems {vs : List JsonValue} (hp : ∀ v ∈ vs, v.Plain)
    (hb : ∀ v ∈ vs, v.ReadsBack) (v : JsonValue) (items : List JsonValue) (level : Nat)
    (stack : List Opened) (rest : List Char) :
    readRest (.array items :: stack) (.complete v)
        (printItems (level + 1) vs ++ (lineBreak level ++ ']' :: rest))
      = readRest stack (.complete (.array (items.reverse ++ v :: vs))) rest := by
  induction vs generalizing v items with
  | nil =>
    rw [printItems, List.nil_append, readRest_complete (readAfter_array items v level rest),
      List.reverse_cons]
  | cons w ws ih =>
    obtain ⟨hw, hws⟩ := List.forall_mem_cons.1 hp
    obtain ⟨hbw, hbws⟩ := List.forall_mem_cons.1 hb
    rw [printItems, List.cons_append, readRest_complete (readAfter_item items v _), readRest_opens,
      List.append_assoc, List.append_assoc, skipBlanks_lineBreak, hw.skipBlanks_print,
      hbw _ _ _ (endsNumber_printItems level ws _), ih hws hbws, List.reverse_cons,
      List.append_assoc, List.singleton_append]

/-- From the value of a member on, the rest of an object is read. -/
theorem readRest_printMembers {ms : List (String × JsonValue)} (hp : ∀ m ∈ ms, m.2.Plain)
    (hb : ∀ m ∈ ms, m.2.ReadsBack) (key : Option String) (v : JsonValue)
    (members : List (Option String × JsonValue)) (level : Nat) (stack : List Opened)
    (rest : List Char) :
    readRest (.object members key :: stack) (.complete v)
        (printMembers (level + 1) (ms.map fun (name, v) => (some name, v))
          ++ (lineBreak level ++ '\x7d' :: rest))
      = readRest stack (.complete (.object
          (members.reverse ++ (key, v) :: ms.map fun (name, v) => (some name, v)))) rest := by
  induction ms generalizing key v members with
  | nil =>
    rw [List.map_nil, printMembers, List.nil_append,
      readRest_complete (readAfter_object members key v level rest), List.reverse_cons]
  | cons m ms ih =>
    obtain ⟨hm, hms⟩ := List.forall_mem_cons.1 hp
    obtain ⟨hbm, hbms⟩ := List.forall_mem_cons.1 hb
    rw [List.map_cons, printMembers, quote?, Option.getD_some]
    simp only [List.append_assoc, List.cons_append, List.nil_append]
    rw [readRest_complete (readAfter_member members key v m.1 _ _), readRest_opens,
      skipBlanks_space, hm.skipBlanks_print,
      hbm _ _ _ (endsNumber_printMembers level _ _), ih hms hbms, List.reverse_cons,
      List.append_assoc, List.singleton_append]

theorem readsBack_array {items : List JsonValue} (hp : ∀ v ∈ items, v.Plain)
    (hb : ∀ v ∈ items, v.ReadsBack) : (array items).ReadsBack := by
  intro level stack rest _
  cases items with
  | nil => exact readValue_of_start rfl stack
  | cons v vs =>
    obtain ⟨hv, hvs⟩ := List.forall_mem_cons.1 hp
    obtain ⟨hbv, hbvs⟩ := List.forall_mem_cons.1 hb
    rw [print]
    simp only [List.append_assoc, List.cons_append, List.nil_append]
    rw [readValue_of_start (hv.readStart_array _ _), readRest_opens, hv.skipBlanks_print,
      hbv _ _ _ (endsNumber_printItems level vs _), readRest_printItems hvs hbvs]
    rfl

theorem readsBack_ofMembers {members : List (String × JsonValue)} (hp : ∀ m ∈ members, m.2.Plain)
    (hb : ∀ m ∈ members, m.2.ReadsBack) : (ofMembers members).ReadsBack := by
  intro level stack rest _
  cases members with
  | nil => exact readValue_of_start rfl stack
  | cons m ms =>
    obtain ⟨hm, hms⟩ := List.forall_mem_cons.1 hp
    obtain ⟨hbm, hbms⟩ := List.forall_mem_cons.1 hb
    rw [ofMembers, List.map_cons, print, quote?, Option.getD_some]
    simp only [List.append_assoc, List.cons_append, List.nil_append]
    rw [readValue_of_start (readStart_object m.1 _ _), readRest_opens, skipBlanks_space,
      hm.skipBlanks_print, hbm _ _ _ (endsNumber_printMembers level _ _),
      readRest_printMembers hms hbms]
    rfl

theorem Plain.readsBack {v : JsonValue} (h : v.Plain) : v.ReadsBack := by
  induction h with
  | null => exact fun level stack rest _ => readValue_of_start rfl stack
  | bool b =>
    cases b <;> exact fun level stack rest _ => readValue_of_start rfl stack
  | ofNat n =>
    intro level stack rest hr
    rw [print_ofNat]
    exact readValue_of_start (readStart_ofNat n hr) stack
  | ofString s =>
    exact fun level stack rest _ => readValue_of_start (readStart_quote s rest) stack
  | array hp hb => exact readsBack_array hp hb
  | ofMembers hp hb => exact readsBack_ofMembers hp hb

/-- What is written without loss reads back. -/
theorem Plain.parse_pretty {v : JsonValue} (h : v.Plain) : parse v.pretty = some v := by
  have hr := h.readsBack 0 [] [] endsNumber_nil
  have hs := h.skipBlanks_print 0 []
  rw [List.append_nil] at hr hs
  calc parse v.pretty
    _ = readValue [] (skipBlanks (v.print 0)) := by
      rw [parse, pretty, String.toList_ofList]
      rfl
    _ = readRest [] (.complete v) [] := by rw [hs, hr]
    _ = some v := by
      rw [readRest]
      rfl

end JsonValue

end ConcurrencyLint
