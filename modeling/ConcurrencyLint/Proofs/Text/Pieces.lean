import ConcurrencyLint.Text.Blank
import ConcurrencyLint.Text.Split
import Mathlib.Data.List.TakeWhile

/-!
# Pieces of text

The pieces between separators are the only ones without a separator that join to the text, and
trimming leaves the part of a text between the blanks at its two ends.
-/

namespace ConcurrencyLint.Text

variable {sep c x : Char} {cs core first l r : List Char} {pieces others : List (List Char)}

/-! ## Between separators -/

theorem splitAt_eq_splitOn (sep : Char) (cs : List Char) : splitAt sep cs = cs.splitOn sep := by
  induction cs with
  | nil => rfl
  | cons c cs ih =>
      rw [List.splitOn_cons_eq_if_modifyHead, splitAt, ih]
      by_cases h : c = sep
      · simp [h]
      · cases hs : cs.splitOn sep with
        | nil => exact absurd hs (List.splitOn_ne_nil sep cs)
        | cons piece pieces => simp [h]

theorem splitAt_cons_self (sep : Char) (cs : List Char) :
    splitAt sep (sep :: cs) = [] :: splitAt sep cs := by
  rw [splitAt, if_pos rfl]

theorem splitAt_cons_of_ne (hc : c ≠ sep) (h : splitAt sep cs = first :: others) :
    splitAt sep (c :: cs) = (c :: first) :: others := by
  rw [splitAt, if_neg hc, h]

theorem splitAt_ne_nil (sep : Char) (cs : List Char) : splitAt sep cs ≠ [] := by
  rw [splitAt_eq_splitOn]
  exact List.splitOn_ne_nil sep cs

theorem not_mem_of_mem_splitAt {piece : List Char} (h : piece ∈ splitAt sep cs) : sep ∉ piece := by
  induction cs generalizing piece with
  | nil =>
      rw [List.mem_singleton.mp h]
      exact List.not_mem_nil
  | cons c cs ih =>
      rw [splitAt] at h
      split at h
      · rcases List.mem_cons.mp h with rfl | h
        · exact List.not_mem_nil
        · exact ih h
      · rename_i hc
        cases hs : splitAt sep cs with
        | nil => exact absurd hs (splitAt_ne_nil sep cs)
        | cons first others =>
            rw [hs] at h ih
            rcases List.mem_cons.mp h with rfl | h
            · have hfirst := ih (List.mem_cons_self (a := first))
              simp [hfirst, Ne.symm hc]
            · exact ih (List.mem_cons_of_mem _ h)

theorem intercalate_splitAt (sep : Char) (cs : List Char) :
    [sep].intercalate (splitAt sep cs) = cs := by
  rw [splitAt_eq_splitOn]
  exact List.intercalate_splitOn sep

theorem splitAt_intercalate (h : ∀ p ∈ pieces, sep ∉ p) (hne : pieces ≠ []) :
    splitAt sep ([sep].intercalate pieces) = pieces := by
  rw [splitAt_eq_splitOn]
  exact List.splitOn_intercalate sep h hne

theorem splitAt_of_not_mem (h : sep ∉ cs) : splitAt sep cs = [cs] := by
  have hsplit : splitAt sep ([sep].intercalate [cs]) = [cs] :=
    splitAt_intercalate (by simpa using h) (List.cons_ne_nil cs [])
  rwa [List.intercalate_singleton] at hsplit

theorem splitAt_append_cons (sep : Char) (l r : List Char) :
    splitAt sep (l ++ sep :: r) = splitAt sep l ++ splitAt sep r := by
  rw [splitAt_eq_splitOn, splitAt_eq_splitOn, splitAt_eq_splitOn]
  exact List.splitOnP_append_cons l r (beq_self_eq_true sep)

theorem intercalate_append {ps qs : List (List Char)} (hp : ps ≠ []) (hq : qs ≠ []) :
    [sep].intercalate (ps ++ qs) = [sep].intercalate ps ++ sep :: [sep].intercalate qs := by
  induction ps with
  | nil => exact absurd rfl hp
  | cons p ps ih =>
      rw [List.cons_append, List.intercalate_cons_of_ne_nil (by simp [hq])]
      by_cases hnil : ps = []
      · subst hnil
        simp
      · rw [ih hnil, List.intercalate_cons_of_ne_nil hnil]
        simp

/-- Joining texts is joining their characters. -/
theorem toList_joinWith (sep : String) (ss : List String) :
    (joinWith sep ss).toList = sep.toList.intercalate (ss.map String.toList) := by
  have hfold (s : String) (ss : List String) :
      (ss.foldl (fun joined t => joined ++ sep ++ t) s).toList =
        sep.toList.intercalate ((s :: ss).map String.toList) := by
    induction ss generalizing s with
    | nil => simp
    | cons t ss ih =>
        rw [List.foldl_cons, ih]
        cases ss with
        | nil => simp [List.intercalate_cons_cons]
        | cons u ss => simp [List.intercalate_cons_cons]
  cases ss with
  | nil => rfl
  | cons s ss => exact hfold s ss

/-! ## Between blanks -/

/-- The text is `core` with blanks before and after it, and `core` has none at its ends. -/
structure Trims (cs core : List Char) : Prop where
  parts : ∃ l r, cs = l ++ core ++ r ∧ (∀ c ∈ l, isBlank c) ∧ ∀ c ∈ r, isBlank c
  head : ∀ c ∈ core.head?, ¬isBlank c
  last : ∀ c ∈ core.getLast?, ¬isBlank c

theorem dropWhile_isBlank_of_head {r : List Char} (h : ∀ c ∈ cs.head?, ¬isBlank c)
    (hne : cs ≠ []) : (cs ++ r).dropWhile isBlank = cs ++ r := by
  cases cs with
  | nil => exact absurd rfl hne
  | cons c cs => exact List.dropWhile_cons_of_neg (h c rfl)

theorem head?_dropWhile_isBlank (cs : List Char) :
    ∀ c ∈ (cs.dropWhile isBlank).head?, ¬isBlank c := by
  intro c hc
  have h := List.head?_dropWhile_not isBlank cs
  rw [Option.mem_def.mp hc] at h
  simp [h]

/-- A character that is kept stops the dropping. -/
theorem dropWhile_append_cons {p : Char → Bool} (hx : ¬p x) (l r : List Char) :
    (l ++ x :: r).dropWhile p = l.dropWhile p ++ x :: r := by
  rw [List.dropWhile_append]
  split
  · rename_i hnil
    rw [List.isEmpty_iff.mp hnil, List.nil_append]
    exact List.dropWhile_cons_of_neg hx
  · rfl

/-- A word without the character that ends a text stands at the start of the text. -/
theorem prefix_of_prefix_append_cons {w : List Char} (hx : x ∉ w) (h : w <+: l ++ x :: r) :
    w <+: l := by
  rcases List.prefix_or_prefix_of_prefix h (List.prefix_append l (x :: r)) with hw | ⟨w', rfl⟩
  · exact hw
  · rw [List.prefix_append_right_inj] at h
    cases w' with
    | nil => simp
    | cons y w' =>
        obtain ⟨rfl, _⟩ := List.cons_prefix_cons.mp h
        exact absurd (List.mem_append_right l List.mem_cons_self) hx

theorem infix_of_infix_concat {w : List Char} (hx : x ∉ w) (h : w <:+: l ++ [x]) : w <:+: l := by
  rcases List.infix_concat_iff.mp h with hend | hinside
  · rcases List.suffix_concat_iff.mp hend with rfl | ⟨w', rfl, _⟩
    · exact List.nil_infix
    · exact absurd (List.mem_append_right w' List.mem_cons_self) hx
  · exact hinside

theorem trims_trim (cs : List Char) : Trims cs (trim cs) := by
  -- `core ++ r` is the text without the blanks at its start.
  have hstart : cs.takeWhile isBlank ++ trimStart cs = cs := List.takeWhile_append_dropWhile
  have hend : trim cs ++ ((trimStart cs).reverse.takeWhile isBlank).reverse = trimStart cs := by
    rw [trim, trimEnd, ← List.reverse_append, List.takeWhile_append_dropWhile, List.reverse_reverse]
  refine ⟨⟨cs.takeWhile isBlank, ((trimStart cs).reverse.takeWhile isBlank).reverse, ?_, ?_, ?_⟩,
    ?_, ?_⟩
  · rw [List.append_assoc, hend, hstart]
  · exact fun c hc => List.mem_takeWhile_imp hc
  · exact fun c hc => List.mem_takeWhile_imp (List.mem_reverse.mp hc)
  · intro c hc
    refine head?_dropWhile_isBlank cs c ?_
    rw [← trimStart, ← hend, List.head?_append, Option.mem_def.mp hc]
    rfl
  · intro c hc
    refine head?_dropWhile_isBlank (trimStart cs).reverse c ?_
    rw [trim, trimEnd, List.getLast?_reverse] at hc
    exact hc

theorem Trims.trim_eq (h : Trims cs core) : trim cs = core := by
  obtain ⟨l, r, rfl, hl, hr⟩ := h.parts
  have hblank : r.reverse.dropWhile isBlank = [] := by
    rw [List.dropWhile_eq_nil_iff]
    exact fun c hc => hr c (List.mem_reverse.mp hc)
  rw [trim, trimStart, List.append_assoc, List.dropWhile_append_of_pos hl, trimEnd]
  by_cases hne : core = []
  · subst hne
    rw [List.nil_append, List.dropWhile_eq_nil_iff.mpr hr]
    rfl
  · have hlast : ∀ c ∈ core.reverse.head?, ¬isBlank c := by
      rw [List.head?_reverse]
      exact h.last
    have hcore := dropWhile_isBlank_of_head (r := []) hlast (by simpa using hne)
    rw [dropWhile_isBlank_of_head h.head hne, List.reverse_append,
      List.dropWhile_append_of_pos fun c hc => hr c (List.mem_reverse.mp hc)]
    rw [List.append_nil] at hcore
    rw [hcore, List.reverse_reverse]

theorem trim_eq_iff : trim cs = core ↔ Trims cs core := by
  constructor
  · rintro rfl; exact trims_trim cs
  · exact Trims.trim_eq

/-- A character that is not blank stops the trimming of what stands before and after it. -/
theorem trim_append_cons (hx : ¬isBlank x) (l r : List Char) :
    trim (l ++ x :: r) = trimStart l ++ x :: trimEnd r := by
  have hend (m : List Char) : trimEnd (m ++ x :: r) = m ++ x :: trimEnd r := by
    rw [trimEnd, List.reverse_append, List.reverse_cons, List.append_assoc, List.dropWhile_append]
    split
    · rename_i hnil
      rw [trimEnd, List.isEmpty_iff.mp hnil, List.singleton_append, List.dropWhile_cons_of_neg hx]
      simp
    · simp [trimEnd]
  rw [trim, trimStart, dropWhile_append_cons hx, hend, trimStart]

theorem trim_cons_of_isBlank (hx : isBlank x) (cs : List Char) : trim (x :: cs) = trim cs := by
  rw [trim, trimStart, List.dropWhile_cons_of_pos hx, ← trimStart, ← trim]

theorem trim_append_of_isBlank (hr : ∀ c ∈ r, isBlank c) (cs : List Char) :
    trim (cs ++ r) = trim cs := by
  have h := trims_trim cs
  obtain ⟨l, r', hcs, hl, hr'⟩ := h.parts
  refine Trims.trim_eq ⟨⟨l, r' ++ r, ?_, hl, ?_⟩, h.head, h.last⟩
  · rw [← List.append_assoc, ← hcs]
  · intro c hc
    rcases List.mem_append.mp hc with hc | hc
    · exact hr' c hc
    · exact hr c hc

theorem trim_trimEnd (cs : List Char) : trim (trimEnd cs) = trim cs := by
  have hcs : trimEnd cs ++ (cs.reverse.takeWhile isBlank).reverse = cs := by
    rw [trimEnd, ← List.reverse_append, List.takeWhile_append_dropWhile, List.reverse_reverse]
  have hblank : ∀ c ∈ (cs.reverse.takeWhile isBlank).reverse, isBlank c :=
    fun c hc => List.mem_takeWhile_imp (List.mem_reverse.mp hc)
  rw [← trim_append_of_isBlank hblank, hcs]

/-! ## Pieces with blanks around them -/

/-- Blanks at the start belong to the first piece, which loses them when it is trimmed. -/
theorem map_trim_splitAt_append (hsep : ¬isBlank sep) (hl : ∀ c ∈ l, isBlank c) (cs : List Char) :
    (splitAt sep (l ++ cs)).map trim = (splitAt sep cs).map trim := by
  induction l with
  | nil => rfl
  | cons c l ih =>
      have hc := hl c List.mem_cons_self
      have hne : c ≠ sep := by
        rintro rfl
        exact hsep hc
      rw [← ih fun d hd => hl d (List.mem_cons_of_mem _ hd), List.cons_append, splitAt, if_neg hne]
      cases hs : splitAt sep (l ++ cs) with
      | nil => exact absurd hs (splitAt_ne_nil sep _)
      | cons piece pieces => simp only [List.map_cons, trim_cons_of_isBlank hc]

theorem cutAt_eq_some_iff {c : Char} : cutAt c cs = some (l, r) ↔ cs = l ++ c :: r ∧ c ∉ l := by
  induction cs generalizing l with
  | nil => simp [cutAt]
  | cons d cs ih =>
      rw [cutAt]
      split
      · rename_i hd
        subst hd
        constructor
        · rintro ⟨⟩
          exact ⟨rfl, List.not_mem_nil⟩
        · rintro ⟨hcs, hl⟩
          cases l with
          | nil => cases hcs; rfl
          | cons e l => cases hcs; exact absurd List.mem_cons_self hl
      · rename_i hd
        rw [Option.map_eq_some_iff]
        constructor
        · rintro ⟨⟨l', r'⟩, hcut, heq⟩
          cases heq
          obtain ⟨rfl, hl⟩ := ih.mp hcut
          exact ⟨rfl, by simp [hl, Ne.symm hd]⟩
        · rintro ⟨hcs, hl⟩
          cases l with
          | nil =>
              cases hcs
              exact absurd rfl hd
          | cons e l =>
              cases hcs
              exact ⟨(l, r), ih.mpr ⟨rfl, fun h => hl (List.mem_cons_of_mem _ h)⟩, rfl⟩

end ConcurrencyLint.Text
