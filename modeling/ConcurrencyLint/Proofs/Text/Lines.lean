import ConcurrencyLint.Proofs.ParseTree.Positions
import ConcurrencyLint.Proofs.Text.Offsets

/-!
# Lines of a text

What is read as a line of a text is what stands between two line feeds, less a carriage return before
the second one. The line feeds before an offset in bytes count the lines up to the one that holds the
offset.
-/

namespace ConcurrencyLint.Text

variable {cs text before line after rest : List Char} {row : Nat}

/-- A line, between what stands before and after it in a text. It begins at the start of the text or
behind a line feed, has none in it, and goes up to the next one or to the end of the text. Its row is
the number of line feeds before it. -/
@[mk_iff]
structure LineAt (text : List Char) (row : Nat) (before line after : List Char) : Prop where
  text_eq : text = before ++ (line ++ after)
  row_eq : before.count '\n' = row
  begins : before = [] ∨ before.getLast? = some '\n'
  no_feed : '\n' ∉ line
  ends : after = [] ∨ after.head? = some '\n'

instance (text : List Char) (row : Nat) (before line after : List Char) :
    Decidable (LineAt text row before line after) :=
  decidable_of_iff' _ (lineAt_iff text row before line after)

/-- What is read of a line, by what stands after it. A carriage return belongs to the line feed that
follows it; any other one is part of the line. The empty line at the end of a text is not read. -/
inductive Reads : (line after : List Char) → Option (List Char) → Prop
  | feed {line rest : List Char} : line.getLast? ≠ some '\r' → Reads line ('\n' :: rest) (some line)
  | returnFeed {line rest : List Char} : Reads (line ++ ['\r']) ('\n' :: rest) (some line)
  | unended {line : List Char} : line ≠ [] → Reads line [] (some line)
  | absent : Reads [] [] none

theorem Reads.eq_nil_of_none (h : Reads line after none) : line = [] ∧ after = [] := by
  cases h with
  | absent => exact ⟨rfl, rfl⟩

theorem Reads.exists_some {read : Option (List Char)} (h : Reads line ('\n' :: rest) read) :
    ∃ shown, read = some shown := by
  cases h with
  | feed _ => exact ⟨_, rfl⟩
  | returnFeed => exact ⟨_, rfl⟩

/-! ## Line by line -/

/-- A text as its lines: all but the last one are ended by a line feed. -/
inductive Lined : List Char → Prop
  | last {line : List Char} : '\n' ∉ line → Lined line
  | feed {line rest : List Char} : '\n' ∉ line → Lined rest → Lined (line ++ '\n' :: rest)

theorem lined (text : List Char) : Lined text := by
  induction text with
  | nil => exact .last List.not_mem_nil
  | cons c text ih =>
      by_cases hc : c = '\n'
      · subst hc
        exact .feed List.not_mem_nil ih
      · cases ih with
        | last h => exact .last (by simp [h, Ne.symm hc])
        | @feed line rest h hrest =>
            have hfree : '\n' ∉ c :: line := by simp [h, Ne.symm hc]
            exact .feed hfree hrest

theorem count_append_feed (h : '\n' ∉ line) (rest : List Char) :
    (line ++ '\n' :: rest).count '\n' = rest.count '\n' + 1 := by
  rw [List.count_append, List.count_eq_zero.mpr h, Nat.zero_add, List.count_cons_self]

theorem getLast?_append_feed_iff : (line ++ '\n' :: rest).getLast? = some '\n' ↔
    rest = [] ∨ rest.getLast? = some '\n' := by
  rw [List.getLast?_append_cons]
  cases rest with
  | nil => simp
  | cons c rest => simp [List.getLast?_cons_cons]

theorem LineAt.below {last : List Char} (h : LineAt rest row before last after)
    (hfree : '\n' ∉ line) :
    LineAt (line ++ '\n' :: rest) (row + 1) (line ++ '\n' :: before) last after where
  text_eq := by rw [List.append_assoc, List.cons_append, ← h.text_eq]
  row_eq := by rw [count_append_feed hfree, h.row_eq]
  begins := .inr (getLast?_append_feed_iff.mpr h.begins)
  no_feed := h.no_feed
  ends := h.ends

theorem linesFrom_append (h : '\n' ∉ line) (begun rest : List Char) :
    linesFrom begun (line ++ rest) = linesFrom (line.reverse ++ begun) rest := by
  induction line generalizing begun with
  | nil => rfl
  | cons c line ih =>
      rw [List.mem_cons, not_or] at h
      obtain ⟨hc, hline⟩ := h
      rw [List.cons_append, linesFrom, if_neg (Ne.symm hc), ih hline, List.reverse_cons,
        List.append_assoc]
      rfl

theorem lines_append_feed (h : '\n' ∉ line) (rest : List Char) :
    lines (line ++ '\n' :: rest) = dropReturn line :: lines rest := by
  rw [lines, linesFrom_append h, linesFrom, if_pos rfl, List.append_nil, List.reverse_reverse, lines]

theorem lines_of_not_mem (h : '\n' ∉ line) (hne : line ≠ []) : lines line = [line] := by
  have hlines := linesFrom_append h [] []
  rw [List.append_nil, List.append_nil] at hlines
  rw [lines, hlines, linesFrom, if_neg (by simpa using hne), List.reverse_reverse]

/-! ## The line of a row -/

/-- Behind whole lines, the next one is found at the number of their line feeds. -/
theorem getElem?_lines_append (h : before = [] ∨ before.getLast? = some '\n') (rest : List Char) :
    (lines (before ++ rest))[before.count '\n']? = (lines rest).head? := by
  induction lined before with
  | @last before hfree =>
      rcases h with rfl | hlast
      · rw [List.nil_append, List.count_nil, List.head?_eq_getElem?]
      · exact absurd (List.mem_of_getLast? hlast) hfree
  | @feed line before hfree _ ih =>
      have hbegins : before = [] ∨ before.getLast? = some '\n' := by
        rcases h with hnil | hlast
        · simp at hnil
        · exact getLast?_append_feed_iff.mp hlast
      rw [List.append_assoc, List.cons_append, lines_append_feed hfree, count_append_feed hfree,
        List.getElem?_cons_succ, ih hbegins]

theorem reads_dropReturn (line rest : List Char) : Reads line ('\n' :: rest) (dropReturn line) := by
  rw [dropReturn]
  split
  · rename_i hlast
    obtain ⟨line, rfl⟩ := List.getLast?_eq_some_iff.mp hlast
    rw [List.dropLast_concat]
    exact .returnFeed
  · rename_i hlast
    exact .feed hlast

theorem reads_head?_lines (hfree : '\n' ∉ line) (hends : after = [] ∨ after.head? = some '\n') :
    Reads line after (lines (line ++ after)).head? := by
  cases after with
  | nil =>
      rw [List.append_nil]
      by_cases hne : line = []
      · subst hne
        exact .absent
      · rw [lines_of_not_mem hfree hne]
        exact .unended hne
  | cons c rest =>
      rcases hends with hnil | hfeed
      · cases hnil
      · cases hfeed
        rw [lines_append_feed hfree]
        exact reads_dropReturn line rest

theorem LineAt.reads (h : LineAt text row before line after) :
    Reads line after (lines text)[row]? := by
  rw [h.text_eq, ← h.row_eq, getElem?_lines_append h.begins]
  exact reads_head?_lines h.no_feed h.ends

example : LineAt "a\r\n\r".toList 1 "a\r\n".toList "\r".toList [] ∧
    lines "a\r\n\r".toList = ["a".toList, "\r".toList] := by decide

/-! ## The line above -/

theorem exists_lineAt_end (text : List Char) :
    ∃ before line, LineAt text (text.count '\n') before line [] := by
  induction lined text with
  | @last line hfree =>
      exact ⟨[], line, by simp, (List.count_eq_zero.mpr hfree).symm, .inl rfl, hfree, .inl rfl⟩
  | @feed line rest hfree _ ih =>
      obtain ⟨before, last, h⟩ := ih
      rw [count_append_feed hfree]
      exact ⟨line ++ '\n' :: before, last, h.below hfree⟩

theorem LineAt.exists_above (h : LineAt text (row + 1) before line after) :
    ∃ before' above, LineAt text row before' above ('\n' :: (line ++ after)) := by
  have hlast : before.getLast? = some '\n' := by
    rcases h.begins with rfl | hlast
    · exact absurd h.row_eq (Nat.succ_ne_zero row).symm
    · exact hlast
  -- Without the line feed at its end, what stands before the line ends with the line above.
  obtain ⟨begun, rfl⟩ := List.getLast?_eq_some_iff.mp hlast
  obtain ⟨before', above, habove⟩ := exists_lineAt_end begun
  have hrow : begun.count '\n' = row := by
    have hcount := h.row_eq
    rw [List.count_append, List.count_singleton_self] at hcount
    exact Nat.succ.inj hcount
  have hbegun : begun = before' ++ above := by
    rw [habove.text_eq, List.append_nil]
  refine ⟨before', above, ?_, habove.row_eq.trans hrow, habove.begins, habove.no_feed, .inr rfl⟩
  rw [h.text_eq, hbegun, ← List.append_cons, List.append_assoc]

/-! ## The line of an offset -/

theorem encode_singleton_feed : encode ['\n'] = [lineFeed] := rfl

theorem lineFeed_not_mem_encode (h : '\n' ∉ cs) : lineFeed ∉ encode cs := by
  intro hmem
  obtain ⟨c, hc, hbyte⟩ := List.mem_flatMap.mp hmem
  have hne : c ≠ '\n' := by
    rintro rfl
    exact h hc
  exact not_mem_utf8EncodeChar (a := '\n') (by decide) hne hbyte

theorem count_take_encode (h : '\n' ∉ cs) (offset : Nat) :
    ((encode cs).take offset).count lineFeed = 0 :=
  List.count_eq_zero.mpr fun hmem => lineFeed_not_mem_encode h (List.mem_of_mem_take hmem)

theorem encode_append_feed (line rest : List Char) :
    encode (line ++ '\n' :: rest) = (encode line ++ [lineFeed]) ++ encode rest := by
  rw [List.append_cons, encode_append, encode_append, encode_singleton_feed]

/-- As many line feeds stand before an offset as before the line that holds it. An offset beyond the
text is taken to the last line. -/
theorem exists_lineAt (text : List Char) (offset : Nat) : ∃ before line after,
    LineAt text (((encode text).take offset).count lineFeed) before line after ∧
      (encode before).length ≤ offset ∧
      (offset ≤ (encode text).length → offset ≤ (encode (before ++ line)).length) := by
  induction lined text generalizing offset with
  | @last line hfree =>
      refine ⟨[], line, [], ⟨by simp, ?_, .inl rfl, hfree, .inl rfl⟩, Nat.zero_le _, id⟩
      rw [count_take_encode hfree, List.count_nil]
  | @feed line rest hfree _ ih =>
      rw [encode_append_feed]
      by_cases hfirst : offset ≤ (encode line).length
      · refine ⟨[], line, '\n' :: rest, ⟨rfl, ?_, .inl rfl, hfree, .inr rfl⟩, Nat.zero_le _,
          fun _ => hfirst⟩
        rw [List.append_assoc, List.take_append_of_le_length hfirst, count_take_encode hfree,
          List.count_nil]
      · -- The offset lies behind the first line feed; the rest of the text is searched from there.
        have hlength : (encode line ++ [lineFeed]).length ≤ offset := by simp; omega
        obtain ⟨offset, rfl⟩ := Nat.exists_eq_add_of_le hlength
        obtain ⟨before, last, after, h, hstart, hstop⟩ := ih offset
        have hcount : ((encode line ++ [lineFeed]) ++ (encode rest).take offset).count lineFeed =
            ((encode rest).take offset).count lineFeed + 1 := by
          rw [List.count_append, List.count_append, List.count_singleton_self,
            List.count_eq_zero.mpr (lineFeed_not_mem_encode hfree)]
          omega
        rw [List.take_length_add_append, hcount]
        refine ⟨line ++ '\n' :: before, last, after, h.below hfree, ?_, ?_⟩
        · rw [encode_append_feed, List.length_append]
          omega
        · intro hoffset
          rw [List.append_assoc, List.cons_append, encode_append_feed]
          simp only [List.length_append] at hoffset ⊢
          omega

theorem data_toUTF8 (s : String) : s.toUTF8.data.toList = encode s.toList := by
  rw [String.toUTF8, ← String.utf8Encode_toList, List.utf8Encode, List.toList_data_toByteArray,
    encode]

theorem rowAt_toUTF8 (s : String) (offset : Nat) :
    rowAt s.toUTF8 offset = ((encode s.toList).take offset).count lineFeed := by
  rw [rowAt, bytesBefore, data_toUTF8]

theorem length_encode_toList (s : String) : (encode s.toList).length = s.utf8ByteSize := by
  rw [← data_toUTF8]
  rfl

end ConcurrencyLint.Text
