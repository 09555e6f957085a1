import ConcurrencyLint.Pattern.Exclude
import ConcurrencyLint.Proofs.Text.Pieces
import Mathlib.Data.List.Infix

/-!
# Wildcards around a name

What is left of a pattern when its wildcards for any depth are taken out is said of the components of
the pattern: it is a plain name exactly if one component is this name and all others are such
wildcards.
-/

namespace ConcurrencyLint.Glob

variable {source name : String} {cs piece rest text : List Char} {pieces : List (List Char)}

/-- The component of a pattern that stands for any number of components. -/
def anyDepth : List Char := ['*', '*']

/-- The component is this wildcard, or it has no two stars in a row. -/
def KeepsApart (piece : List Char) : Prop := piece = anyDepth ∨ ¬anyDepth <:+: piece

/-- Two stars in a row stand only as a component of their own. -/
def StarsApart (source : String) : Prop := ∀ piece ∈ Text.splitAt '/' source.toList, KeepsApart piece

/-- The components of the source are the name and, on both sides of it, wildcards for any depth. -/
structure Wraps (source name : String) (before after : Nat) : Prop where
  components : Text.splitAt '/' source.toList =
    List.replicate before anyDepth ++ name.toList :: List.replicate after anyDepth
  nonempty : name ≠ ""
  literal : '*' ∉ name.toList

/-! ## Compiled patterns -/

/-- What can follow in a pattern after the given character. -/
structure Continues (before : Option Char) (cs : List Char) : Prop where
  first : ∀ first ∈ (Text.splitAt '/' cs).head?,
    (before = none ∨ before = some '/') ∧ first = anyDepth ∨ ¬anyDepth <:+: first
  others : ∀ piece ∈ (Text.splitAt '/' cs).tail, KeepsApart piece

namespace Continues

variable {before : Option Char} {c : Char}

theorem all (h : Continues before cs) : ∀ piece ∈ Text.splitAt '/' cs, KeepsApart piece := by
  obtain ⟨first, others, hs⟩ := List.exists_cons_of_ne_nil (Text.splitAt_ne_nil '/' cs)
  have hfirst := h.first
  have hothers := h.others
  rw [hs] at hfirst hothers ⊢
  intro piece hpiece
  rcases List.mem_cons.mp hpiece with rfl | hpiece
  · exact (hfirst piece rfl).imp_left And.right
  · exact hothers piece hpiece

theorem slash (h : Continues (some '/') cs) : Continues before ('/' :: cs) := by
  have hpieces := Text.splitAt_cons_self '/' cs
  refine ⟨?_, ?_⟩
  · rw [hpieces]
    rintro _ ⟨⟩
    exact .inr (by simp [anyDepth])
  · rw [hpieces]
    exact h.all

theorem anyDepth_slash (hb : before = none ∨ before = some '/') (h : Continues (some '/') cs) :
    Continues before (anyDepth ++ '/' :: cs) := by
  have hpieces : Text.splitAt '/' (anyDepth ++ '/' :: cs) = anyDepth :: Text.splitAt '/' cs :=
    Text.splitAt_cons_of_ne (by decide)
      (Text.splitAt_cons_of_ne (by decide) (Text.splitAt_cons_self '/' cs))
  refine ⟨?_, ?_⟩
  · rw [hpieces]
    rintro _ ⟨⟩
    exact .inl ⟨hb, rfl⟩
  · rw [hpieces]
    exact h.all

/-- A character that belongs to a component keeps stars apart unless it makes two of them. -/
theorem cons (h : Continues (some c) cs) (hc : c ≠ '/') (hstar : ¬anyDepth <+: c :: cs) :
    Continues before (c :: cs) := by
  obtain ⟨first, others, hs⟩ := List.exists_cons_of_ne_nil (Text.splitAt_ne_nil '/' cs)
  have hpieces := Text.splitAt_cons_of_ne hc hs
  have hfirst := h.first
  have hothers := h.others
  rw [hs] at hfirst hothers
  refine ⟨?_, ?_⟩
  · rw [hpieces]
    rintro _ ⟨⟩
    refine .inr ?_
    rcases hfirst first rfl with ⟨hb | hb, _⟩ | hfree
    · cases hb
    · exact absurd (Option.some.inj hb) hc
    · rw [List.infix_cons_iff, not_or]
      refine ⟨fun hstarts => hstar (hstarts.trans ?_), hfree⟩
      have hcs := Text.intercalate_splitAt '/' cs
      rw [hs] at hcs
      rw [← hcs]
      cases others with
      | nil => simp
      | cons next others => simp [List.intercalate_cons_cons]
  · rw [hpieces]
    exact hothers

end Continues

theorem continues_of_compileFrom {before : Option Char} {position : Nat}
    {tokens result : List Token} (h : compileFrom before position tokens cs = .ok result)
    (hcs : '[' ∉ cs) : Continues before cs := by
  fun_induction compileFrom before position tokens cs with
  | case1 before => exact ⟨by rintro _ ⟨⟩; exact .inr (by simp [anyDepth]), by simp [Text.splitAt]⟩
  | case2 before position tokens rest ih =>
      exact (ih h (List.not_mem_of_not_mem_cons hcs)).cons (by decide) (by simp [anyDepth])
  | case3 => cases h
  | case4 => exact ⟨by rintro _ ⟨⟩; exact .inl ⟨.inl rfl, rfl⟩, by simp [Text.splitAt]⟩
  | case5 position tokens rest _ ih =>
      simp only [List.mem_cons, not_or] at hcs
      exact (ih h hcs.2.2.2).anyDepth_slash (.inl rfl)
  | case6 => cases h
  | case7 => exact ⟨by rintro _ ⟨⟩; exact .inl ⟨.inr rfl, rfl⟩, by simp [Text.splitAt]⟩
  | case8 position tokens rest _ ih =>
      simp only [List.mem_cons, not_or] at hcs
      exact (ih h hcs.2.2.2).anyDepth_slash (.inr rfl)
  | case9 => cases h
  | case10 => cases h
  | case11 before position tokens rest _ hrest ih =>
      refine (ih h (List.not_mem_of_not_mem_cons hcs)).cons (by decide) ?_
      rintro ⟨tail, htail⟩
      cases htail
      exact hrest tail rfl
  | case12 => exact absurd List.mem_cons_self hcs
  | case13 => exact absurd List.mem_cons_self hcs
  | case14 before position tokens c rest _ _ _ hstar _ ih =>
      have hrest := ih h (List.not_mem_of_not_mem_cons hcs)
      by_cases hc : c = '/'
      · subst hc
        exact hrest.slash
      · refine hrest.cons hc ?_
        rintro ⟨tail, htail⟩
        cases htail
        exact hstar rfl

/-! ## Taking wildcards out -/

theorem dropLeadingWildcards_cons {c : Char} (h : ¬['*', '*', '/'] <+: c :: cs) :
    dropLeadingWildcards (c :: cs) = c :: dropLeadingWildcards cs := by
  rw [dropLeadingWildcards]
  rintro rest rfl rfl
  exact h ⟨rest, rfl⟩

theorem dropTrailingWildcards_cons {c : Char} (h : ¬['/', '*', '*'] <+: c :: cs) :
    dropTrailingWildcards (c :: cs) = c :: dropTrailingWildcards cs := by
  rw [dropTrailingWildcards]
  rintro rest rfl rfl
  exact h ⟨rest, rfl⟩

theorem dropLeadingWildcards_append (h : ¬anyDepth <:+: piece) (hrest : rest.head? ≠ some '*') :
    dropLeadingWildcards (piece ++ rest) = piece ++ dropLeadingWildcards rest := by
  induction piece with
  | nil => rfl
  | cons c piece ih =>
      rw [List.infix_cons_iff, not_or] at h
      rw [List.cons_append, dropLeadingWildcards_cons, ih h.2, List.cons_append]
      rintro ⟨tail, htail⟩
      cases piece with
      | nil =>
          rw [List.nil_append] at htail
          cases htail
          exact hrest rfl
      | cons d piece =>
          simp only [List.cons_append, List.cons.injEq] at htail
          obtain ⟨rfl, rfl, _⟩ := htail
          exact h.1 ⟨piece, rfl⟩

/-- Every wildcard component goes, but for the last component of all. -/
theorem dropLeadingWildcards_intercalate {last : List Char}
    (h : ∀ piece ∈ pieces ++ [last], KeepsApart piece) :
    dropLeadingWildcards (['/'].intercalate (pieces ++ [last])) =
      ['/'].intercalate (pieces.filter (· ≠ anyDepth) ++ [last]) := by
  induction pieces with
  | nil =>
      rw [List.filter_nil, List.nil_append, List.intercalate_singleton]
      rcases h last (by simp) with rfl | hlast
      · rfl
      · have hself := dropLeadingWildcards_append hlast (by simp : ([] : List Char).head? ≠ some '*')
        rwa [List.append_nil, dropLeadingWildcards, List.append_nil] at hself
  | cons piece pieces ih =>
      have ih := ih fun q hq => h q (List.mem_cons_of_mem _ hq)
      have hne (qs : List (List Char)) : qs ++ [last] ≠ [] := by simp
      rw [List.cons_append, List.intercalate_cons_of_ne_nil (hne _), List.append_assoc,
        List.singleton_append]
      rcases h piece List.mem_cons_self with rfl | hpiece
      · rw [List.filter_cons_of_neg (by simp), ← ih]
        rfl
      · have hkept : piece ≠ anyDepth := by
          rintro rfl
          exact hpiece (List.infix_refl _)
        rw [dropLeadingWildcards_append hpiece (by simp), dropLeadingWildcards_cons (by simp), ih,
          List.filter_cons_of_pos (by simpa using hkept), List.cons_append,
          List.intercalate_cons_of_ne_nil (hne _), List.append_assoc, List.singleton_append]

theorem dropTrailingWildcards_of_free (h : ¬['/', '*', '*'] <:+: text) :
    dropTrailingWildcards text = text ∧
      dropTrailingWildcards (text ++ ['/', '*', '*']) = text := by
  induction text with
  | nil => exact ⟨rfl, rfl⟩
  | cons c text ih =>
      rw [List.infix_cons_iff, not_or] at h
      obtain ⟨hself, happend⟩ := ih h.2
      constructor
      · rw [dropTrailingWildcards_cons h.1, hself]
      · rw [List.cons_append, dropTrailingWildcards_cons, happend]
        rintro ⟨tail, htail⟩
        match text with
        | [] => cases htail
        | [d] => cases htail
        | d :: e :: text =>
            cases htail
            exact h.1 ⟨text, rfl⟩

/-- Two stars after a separator start a component. -/
theorem exists_mem_splitAt_of_infix (h : ['/', '*', '*'] <:+: text) :
    ∃ piece ∈ (Text.splitAt '/' text).tail, anyDepth <+: piece := by
  induction text with
  | nil => simp at h
  | cons c text ih =>
      obtain ⟨first, others, hs⟩ := List.exists_cons_of_ne_nil (Text.splitAt_ne_nil '/' text)
      rcases List.infix_cons_iff.mp h with ⟨rest, hrest⟩ | h
      · cases hrest
        obtain ⟨first, others, hs⟩ := List.exists_cons_of_ne_nil (Text.splitAt_ne_nil '/' rest)
        have hstars := Text.splitAt_cons_of_ne (by decide : '*' ≠ '/')
          (Text.splitAt_cons_of_ne (by decide : '*' ≠ '/') hs)
        have hpieces := Text.splitAt_cons_self '/' ('*' :: '*' :: rest)
        refine ⟨'*' :: '*' :: first, ?_, ⟨first, rfl⟩⟩
        change _ ∈ (Text.splitAt '/' ('/' :: '*' :: '*' :: rest)).tail
        rw [hpieces, hstars]
        exact List.mem_cons_self
      · obtain ⟨piece, hpiece, hstarts⟩ := ih h
        refine ⟨piece, ?_, hstarts⟩
        by_cases hc : c = '/'
        · rw [hc, Text.splitAt_cons_self]
          exact List.mem_of_mem_tail hpiece
        · rw [Text.splitAt_cons_of_ne hc hs]
          rwa [hs] at hpiece

theorem not_infix_intercalate (hslash : ∀ piece ∈ pieces, '/' ∉ piece)
    (h : ∀ piece ∈ pieces, ¬anyDepth <:+: piece) :
    ¬['/', '*', '*'] <:+: ['/'].intercalate pieces := by
  intro hinside
  obtain ⟨piece, hpiece, hstarts⟩ := exists_mem_splitAt_of_infix hinside
  have hpiece := List.mem_of_mem_tail hpiece
  cases pieces with
  | nil =>
      rw [List.intercalate_nil, Text.splitAt, List.mem_singleton] at hpiece
      rw [hpiece] at hstarts
      exact absurd hstarts (by decide)
  | cons first others =>
      rw [Text.splitAt_intercalate hslash (by simp)] at hpiece
      exact h piece hpiece hstarts.isInfix

/-- What is left of a source when its wildcards are taken out. -/
def bareText (cs : List Char) : List Char := dropTrailingWildcards (dropLeadingWildcards cs)

/-- The components that are no wildcards are left, if there are any. -/
theorem bareText_intercalate (hslash : ∀ piece ∈ pieces, '/' ∉ piece)
    (hapart : ∀ piece ∈ pieces, KeepsApart piece)
    (hne : pieces.filter (· ≠ anyDepth) ≠ []) :
    bareText (['/'].intercalate pieces) = ['/'].intercalate (pieces.filter (· ≠ anyDepth)) := by
  have hfree : ¬['/', '*', '*'] <:+: ['/'].intercalate (pieces.filter (· ≠ anyDepth)) := by
    refine not_infix_intercalate ?_ ?_
    · exact fun q hq => hslash q (List.mem_filter.mp hq).1
    · intro q hq
      obtain ⟨hmem, hkept⟩ := List.mem_filter.mp hq
      exact (hapart q hmem).resolve_left (of_decide_eq_true hkept)
  obtain rfl | ⟨ps, last, rfl⟩ := pieces.eq_nil_or_concat'
  · exact absurd rfl hne
  rw [bareText, dropLeadingWildcards_intercalate hapart]
  by_cases hlast : last = anyDepth
  · subst hlast
    have hfilter : (ps ++ [anyDepth]).filter (· ≠ anyDepth) = ps.filter (· ≠ anyDepth) := by simp
    rw [hfilter] at hne hfree ⊢
    rw [Text.intercalate_append hne (by simp), List.intercalate_singleton]
    exact (dropTrailingWildcards_of_free hfree).2
  · have hfilter : (ps ++ [last]).filter (· ≠ anyDepth) = ps.filter (· ≠ anyDepth) ++ [last] := by
      simp [hlast]
    rw [hfilter] at hfree ⊢
    exact (dropTrailingWildcards_of_free hfree).1

theorem bareText_of_forall (hne : pieces ≠ []) (h : ∀ piece ∈ pieces, piece = anyDepth) :
    bareText (['/'].intercalate pieces) = anyDepth := by
  obtain rfl | ⟨ps, last, rfl⟩ := pieces.eq_nil_or_concat'
  · exact absurd rfl hne
  have hps : ps.filter (· ≠ anyDepth) = [] := by
    rw [List.filter_eq_nil_iff]
    exact fun q hq => by simp [h q (List.mem_append_left _ hq)]
  rw [bareText, dropLeadingWildcards_intercalate fun q hq => .inl (h q hq), hps, h last (by simp)]
  rfl

theorem directoryName?_eq_some_iff {p : Pattern} : p.directoryName? = some name ↔
    bareText p.source.toList = name.toList ∧ name ≠ "" ∧ '*' ∉ name.toList := by
  rw [Pattern.directoryName?, ← bareText]
  constructor
  · intro h
    split at h
    · cases h
    · rename_i hname
      cases h
      simpa using hname
  · rintro ⟨hbare, hne, hstar⟩
    rw [hbare]
    simp [hne, hstar]

theorem not_infix_of_literal (h : '*' ∉ piece) : ¬anyDepth <:+: piece :=
  fun hinside => h (hinside.subset List.mem_cons_self)

theorem Wraps.bareText_eq {before after : Nat} (h : Wraps source name before after) :
    bareText source.toList = name.toList := by
  have hname : name.toList ≠ anyDepth := by
    intro hname
    exact h.literal (hname ▸ List.mem_cons_self)
  have hfilter : (Text.splitAt '/' source.toList).filter (· ≠ anyDepth) = [name.toList] := by
    simp [h.components, hname]
  rw [← Text.intercalate_splitAt '/' source.toList, bareText_intercalate, hfilter,
    List.intercalate_singleton]
  · exact fun q => Text.not_mem_of_mem_splitAt
  · intro q hq
    rw [h.components] at hq
    simp only [List.mem_append, List.mem_cons, List.mem_replicate] at hq
    rcases hq with ⟨_, rfl⟩ | rfl | ⟨_, rfl⟩
    · exact .inl rfl
    · exact .inr (not_infix_of_literal h.literal)
    · exact .inl rfl
  · rw [hfilter]
    exact List.cons_ne_nil _ _

theorem wraps_of_bareText (hapart : StarsApart source) (hslash : '/' ∉ name.toList)
    (hne : name ≠ "") (hstar : '*' ∉ name.toList) (hbare : bareText source.toList = name.toList) :
    ∃ before after, Wraps source name before after := by
  have hfree : ∀ q ∈ Text.splitAt '/' source.toList, '/' ∉ q := fun q => Text.not_mem_of_mem_splitAt
  rw [← Text.intercalate_splitAt '/' source.toList] at hbare
  have hkept : (Text.splitAt '/' source.toList).filter (· ≠ anyDepth) ≠ [] := by
    intro hnil
    rw [bareText_of_forall (Text.splitAt_ne_nil '/' _) (by simpa using hnil)] at hbare
    exact hstar (hbare ▸ List.mem_cons_self)
  rw [bareText_intercalate hfree hapart hkept] at hbare
  -- What is left has no separator, so it is a single component.
  have hone : (Text.splitAt '/' source.toList).filter (· ≠ anyDepth) = [name.toList] := by
    rw [← Text.splitAt_of_not_mem hslash, ← hbare, Text.splitAt_intercalate _ hkept]
    exact fun q hq => hfree q (List.mem_filter.mp hq).1
  obtain ⟨ps, qs, hpieces, hps, _, hqs⟩ := List.filter_eq_cons_iff.mp hone
  refine ⟨ps.length, qs.length, ?_, hne, hstar⟩
  rw [hpieces, ← List.eq_replicate_iff.mpr ⟨rfl, by simpa using hps⟩,
    ← List.eq_replicate_iff.mpr ⟨rfl, by simpa using hqs⟩]

end ConcurrencyLint.Glob
