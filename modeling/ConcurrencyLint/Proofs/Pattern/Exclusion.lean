import ConcurrencyLint.Proofs.Pattern.Wildcards

/-!
# Excluded files

A file is excluded if a pattern matches its path, or if a pattern comes down to the name of a
directory above the file. A name between wildcards matches such a file anyway. A bare name, or one
with wildcards on one side only, does not, so that these patterns exclude more than they match.
-/

namespace ConcurrencyLint.Glob

variable {source name : String} {cs piece rest : List Char}

/-! ## Names between wildcards -/

section Matching

variable {tokens : List Token} {before : Option Char} {position : Nat}

/-- The token for a character of a name. -/
def literal (c : Char) : Token := if c = '?' then .anyChar else .char c

theorem compileFrom_literals (hstar : '*' ∉ piece) (hbracket : '[' ∉ piece) :
    compileFrom before position tokens (piece ++ '/' :: rest) =
      compileFrom (some '/') (position + piece.length + 1)
        (.char '/' :: (piece.map literal).reverse ++ tokens) rest := by
  induction piece generalizing before position tokens with
  | nil => simp [compileFrom]
  | cons c piece ih =>
      simp only [List.mem_cons, not_or] at hstar hbracket
      have hstep : compileFrom before position tokens (c :: (piece ++ '/' :: rest)) =
          compileFrom (some c) (position + 1) (literal c :: tokens) (piece ++ '/' :: rest) := by
        by_cases hc : c = '?'
        · subst hc
          rw [compileFrom]
          rfl
        · rw [compileFrom, literal, if_neg hc]
          · exact hc
          · exact fun _ h => absurd h.symm hstar.1
          · exact fun _ h => absurd h.symm hstar.1
          · exact fun h => hstar.1 h.symm
          · exact fun h => hbracket.1 h.symm
      rw [List.cons_append, hstep, ih hstar.2 hbracket.2]
      simp [Nat.add_assoc, Nat.add_comm 1]

theorem compileFrom_anyDepth (hbefore : before = none ∨ before = some '/') :
    compileFrom before position tokens (anyDepth ++ '/' :: rest) =
      compileFrom (some '/') (position + 3) (addComponents tokens) rest := by
  rcases hbefore with rfl | rfl
  · simp [anyDepth, compileFrom]
  · simp [anyDepth, compileFrom]

theorem addComponents_cases (tokens : List Token) :
    addComponents tokens = tokens ∧ tokens ≠ [] ∨
      addComponents tokens = .anyComponents :: tokens := by
  unfold addComponents
  split
  · exact .inl ⟨rfl, List.cons_ne_nil _ _⟩
  · exact .inr rfl

/-- Wildcards in a row, further than at the start, are one wildcard. -/
theorem compileFrom_replicate (h : addComponents (addComponents tokens) = addComponents tokens)
    (n : Nat) : compileFrom (some '/') position tokens
        (['/'].intercalate (List.replicate (n + 1) anyDepth)) =
      .ok (addComponents tokens).reverse := by
  induction n generalizing position tokens with
  | zero => simp [anyDepth, compileFrom]
  | succ n ih =>
      rw [List.replicate_succ, List.intercalate_cons_of_ne_nil (by simp), List.append_assoc,
        List.singleton_append, compileFrom_anyDepth (.inr rfl), ih (by rw [h, h]), h]

/-- Wildcards before a name are one wildcard or more. -/
theorem exists_of_compileFrom {name : List Char} {after : Nat} {result : List Token}
    (hstar : '*' ∉ name) (hbracket : '[' ∉ name) (hfront : ∀ t ∈ tokens, t = .anyComponents)
    (hbefore : before = none ∨ before = some '/') (n : Nat)
    (h : compileFrom before position tokens (['/'].intercalate
      (List.replicate n anyDepth ++ name :: List.replicate (after + 1) anyDepth)) = .ok result) :
    ∃ front, (∀ t ∈ front, t = .anyComponents) ∧ (tokens ≠ [] ∨ n ≠ 0 → front ≠ []) ∧
      result = front ++ (name.map literal ++ [.char '/', .anyComponents]) := by
  induction n generalizing before position tokens with
  | zero =>
      rw [List.replicate_zero, List.nil_append, List.intercalate_cons_of_ne_nil (by simp),
        List.append_assoc, List.singleton_append, compileFrom_literals hstar hbracket,
        List.cons_append, compileFrom_replicate rfl] at h
      cases h
      exact ⟨tokens.reverse, by simpa using hfront, by simp, by simp [addComponents]⟩
  | succ n ih =>
      rw [List.replicate_succ, List.cons_append, List.intercalate_cons_of_ne_nil (by simp),
        List.append_assoc, List.singleton_append, compileFrom_anyDepth hbefore] at h
      have hadd : (∀ t ∈ addComponents tokens, t = .anyComponents) ∧ addComponents tokens ≠ [] := by
        rcases addComponents_cases tokens with ⟨heq, hne⟩ | heq
        · rw [heq]
          exact ⟨hfront, hne⟩
        · rw [heq]
          exact ⟨List.forall_mem_cons.mpr ⟨rfl, hfront⟩, List.cons_ne_nil _ _⟩
      obtain ⟨front, hall, hne, rfl⟩ := ih hadd.1 (.inr rfl) h
      exact ⟨front, hall, fun _ => hne (.inl hadd.2), rfl⟩

theorem run_literals (tokens : List Token) (piece cs : List Char) :
    run (piece.map literal ++ tokens) (piece ++ cs) = run tokens cs := by
  induction piece with
  | nil => rfl
  | cons c piece ih =>
      rw [List.map_cons, List.cons_append, List.cons_append, literal]
      by_cases hc : c = '?'
      · simpa [hc, run, Token.admits] using ih
      · simpa [hc, run, Token.admits] using ih

theorem run_anyComponents (cs : List Char) : run [.anyComponents] cs = .matched := by
  have hattempt (cs : List Char) : attempt true (run []) cs = .matched := by
    induction cs with
    | nil => rfl
    | cons c cs ih =>
        rw [attempt]
        split
        · exact ih
        · cases cs with
          | nil => rfl
          | cons d cs => exact ih
  cases cs with
  | nil => rfl
  | cons c cs => exact hattempt (c :: cs)

/-- A text that is longer than the name does not run out within the name. -/
theorem run_ne_exhausted (h : piece.length < cs.length) :
    run (piece.map literal ++ [.char '/', .anyComponents]) cs ≠ .exhausted := by
  induction piece generalizing cs with
  | nil =>
      cases cs with
      | nil => simp at h
      | cons c cs =>
          simp only [List.map_nil, List.nil_append, run]
          split
          · change run [.anyComponents] cs ≠ .exhausted
            rw [run_anyComponents]
            exact nofun
          · exact nofun
  | cons d piece ih =>
      cases cs with
      | nil => simp at h
      | cons c cs =>
          have hrest := ih (Nat.lt_of_succ_lt_succ h)
          rw [List.map_cons, List.cons_append, literal]
          by_cases hd : d = '?'
          · simpa [hd, run, Token.admits] using hrest
          · simp only [if_neg hd, run]
            split
            · exact hrest
            · exact nofun

theorem attempt_of_matched {continuation : List Char → Outcome}
    (h : continuation rest = .matched)
    (hlong : ∀ cs, rest.length ≤ cs.length → continuation cs ≠ .exhausted) (l : List Char) :
    attempt true continuation (l ++ '/' :: rest) = .matched := by
  induction l with
  | nil => simp [attempt, h]
  | cons c l ih =>
      rw [List.cons_append, attempt]
      split
      · exact ih
      · cases hc : continuation (l ++ '/' :: rest) with
        | matched => rfl
        | mismatch => exact ih
        | exhausted => exact absurd hc (hlong _ (by simp; omega))

theorem run_replicate_anyComponents {front : List Token} (hfront : ∀ t ∈ front, t = .anyComponents)
    (h : run tokens cs = .matched) : run (front ++ tokens) cs = .matched := by
  induction front with
  | nil => exact h
  | cons t front ih =>
      have hrun := ih fun t ht => hfront t (List.mem_cons_of_mem _ ht)
      rw [hfront t List.mem_cons_self, List.cons_append]
      simp only [run, hrun]

/-- A name between wildcards matches wherever the name is a component that others follow. -/
theorem run_of_mem_components {front : List Token} (hfront : ∀ t ∈ front, t = .anyComponents)
    (hne : front ≠ []) {name : List Char} {above below : List (List Char)} (hbelow : below ≠ []) :
    run (front ++ (name.map literal ++ [.char '/', .anyComponents]))
      (['/'].intercalate (above ++ name :: below)) = .matched := by
  obtain rfl | ⟨front, last, rfl⟩ := front.eq_nil_or_concat'
  · exact absurd rfl hne
  obtain ⟨hfront, hlast⟩ := List.forall_mem_append.mp hfront
  rw [hlast last List.mem_cons_self, List.append_assoc]
  refine run_replicate_anyComponents hfront ?_
  have htail : ['/'].intercalate (name :: below) = name ++ '/' :: ['/'].intercalate below := by
    rw [List.intercalate_cons_of_ne_nil hbelow, List.append_assoc, List.singleton_append]
  have hmatched : run (name.map literal ++ [.char '/', .anyComponents])
      (['/'].intercalate (name :: below)) = .matched := by
    rw [htail, run_literals]
    exact run_anyComponents _
  have hlong (cs : List Char) (hcs : (['/'].intercalate (name :: below)).length ≤ cs.length) :
      run (name.map literal ++ [.char '/', .anyComponents]) cs ≠ .exhausted := by
    refine run_ne_exhausted (Nat.lt_of_lt_of_le ?_ hcs)
    simp [htail]
  by_cases habove : above = []
  · rw [habove, List.nil_append, List.singleton_append, run, hmatched]
  · rw [Text.intercalate_append habove (List.cons_ne_nil _ _), List.singleton_append, run]
    cases hrun : run (name.map literal ++ [.char '/', .anyComponents])
        (['/'].intercalate above ++ '/' :: ['/'].intercalate (name :: below)) with
    | matched => rfl
    | mismatch => exact attempt_of_matched hmatched hlong _
    | exhausted => exact absurd hrun (hlong _ (by simp; omega))

end Matching

variable {p : Pattern} {components : List String} {before after : Nat}

theorem compileFrom_of_compile (h : Pattern.compile p.source = .ok p) :
    compileFrom none 0 [] p.source.toList = .ok p.tokens := by
  rw [Pattern.compile] at h
  cases hc : compileFrom none 0 [] p.source.toList with
  | error e =>
      rw [hc] at h
      cases h
  | ok tokens =>
      rw [hc] at h
      exact congrArg (Except.ok ∘ Pattern.tokens) (Except.ok.inj h)

theorem starsApart_of_compile (h : Pattern.compile p.source = .ok p)
    (hbracket : '[' ∉ p.source.toList) : StarsApart p.source :=
  (continues_of_compileFrom (compileFrom_of_compile h) hbracket).all

theorem Wraps.isMatch (h : Wraps p.source name (before + 1) (after + 1))
    (hcompiled : Pattern.compile p.source = .ok p) (hbracket : '[' ∉ name.toList)
    (hname : name ∈ components.dropLast) : p.isMatch (Text.joinWith "/" components) := by
  obtain ⟨above, below, hparent⟩ := List.append_of_mem hname
  obtain ⟨last, hlast⟩ : ∃ last, components = components.dropLast ++ [last] := by
    refine ⟨components.getLast ?_, (List.dropLast_append_getLast _).symm⟩
    rintro rfl
    simp at hname
  have htokens := compileFrom_of_compile hcompiled
  rw [← Text.intercalate_splitAt '/' p.source.toList, h.components] at htokens
  obtain ⟨front, hfront, hne, htokens⟩ :=
    exists_of_compileFrom h.literal hbracket (by simp) (.inl rfl) _ htokens
  rw [Pattern.isMatch, Text.toList_joinWith, htokens, hlast, hparent]
  simp only [List.append_assoc, List.cons_append, List.map_append, List.map_cons]
  rw [beq_iff_eq]
  exact run_of_mem_components hfront (hne (.inr (Nat.succ_ne_zero _))) (by simp)

theorem excludes_iff (hcompiled : Pattern.compile p.source = .ok p)
    (hnames : ∀ c ∈ components, '/' ∉ c.toList) :
    p.excludes components ↔ p.isMatch (Text.joinWith "/" components) ∨
      ∃ name ∈ components.dropLast, (∃ before after, Wraps p.source name before after) ∨
        '[' ∈ p.source.toList ∧ ¬StarsApart p.source ∧ p.directoryName? = some name := by
  rw [Pattern.excludes, Bool.or_eq_true, Option.any_eq_true]
  refine or_congr_right ⟨?_, ?_⟩
  · rintro ⟨name, hdirectory, hmem⟩
    have hmem := List.contains_iff_mem.mp hmem
    refine ⟨name, hmem, ?_⟩
    obtain ⟨hbare, hne, hstar⟩ := directoryName?_eq_some_iff.mp hdirectory
    have hslash := hnames name ((List.dropLast_sublist _).subset hmem)
    by_cases hapart : StarsApart p.source
    · exact .inl (wraps_of_bareText hapart hslash hne hstar hbare)
    · refine .inr ⟨?_, hapart, hdirectory⟩
      by_contra hbracket
      exact hapart (starsApart_of_compile hcompiled hbracket)
  · rintro ⟨name, hmem, ⟨before, after, hwraps⟩ | ⟨_, _, hdirectory⟩⟩
    · exact ⟨name, directoryName?_eq_some_iff.mpr ⟨hwraps.bareText_eq, hwraps.nonempty,
        hwraps.literal⟩, List.contains_iff_mem.mpr hmem⟩
    · exact ⟨name, hdirectory, List.contains_iff_mem.mpr hmem⟩

theorem Wraps.source_eq (h : Wraps source name 1 1) : source = "**/" ++ name ++ "/**" := by
  rw [← String.toList_inj, ← Text.intercalate_splitAt '/' source.toList, h.components]
  simp [anyDepth, List.intercalate_cons_cons]

/-- A file is excluded exactly if a pattern matches its path or wraps the name of a directory above
it; only two stars inside brackets can make a pattern come down to a name otherwise. If wildcards
stand on both sides of a name, the pattern matches already. So if every pattern that is a name with
wildcards has one of them on each side, then nothing is excluded that no pattern describes. -/
theorem isExcluded_iff_wraps {patterns : List Pattern}
    (hcompiled : ∀ p ∈ patterns, Pattern.compile p.source = .ok p)
    (hnames : ∀ c ∈ components, '/' ∉ c.toList) :
    let path := Text.joinWith "/" components
    (isExcluded patterns components ↔ ∃ p ∈ patterns, p.isMatch path ∨
      ∃ name ∈ components.dropLast, (∃ before after, Wraps p.source name before after) ∨
        '[' ∈ p.source.toList ∧ ¬StarsApart p.source ∧ p.directoryName? = some name) ∧
    (∀ p ∈ patterns, ∀ name ∈ components.dropLast, ∀ before after,
      Wraps p.source name (before + 1) (after + 1) → '[' ∉ name.toList → p.isMatch path) ∧
    ((∀ p ∈ patterns, StarsApart p.source ∧
        ∀ name before after, Wraps p.source name before after → before = 1 ∧ after = 1) →
      isExcluded patterns components → ∃ p ∈ patterns, p.isMatch path ∨
        ∃ name ∈ components.dropLast, '*' ∉ name.toList ∧ '/' ∉ name.toList ∧
          p.source = "**/" ++ name ++ "/**") := by
  intro path
  have hiff : isExcluded patterns components ↔ ∃ p ∈ patterns, p.isMatch path ∨
      ∃ name ∈ components.dropLast, (∃ before after, Wraps p.source name before after) ∨
        '[' ∈ p.source.toList ∧ ¬StarsApart p.source ∧ p.directoryName? = some name := by
    rw [isExcluded, List.any_eq_true]
    exact exists_congr fun p => and_congr_right fun hp => excludes_iff (hcompiled p hp) hnames
  refine ⟨hiff, ?_, ?_⟩
  · intro p hp name hname before after hwraps hbracket
    exact hwraps.isMatch (hcompiled p hp) hbracket hname
  · intro hwrapped hexcluded
    obtain ⟨p, hp, hmatch | ⟨name, hname, hcause⟩⟩ := hiff.mp hexcluded
    · exact ⟨p, hp, .inl hmatch⟩
    obtain ⟨hapart, hsides⟩ := hwrapped p hp
    rcases hcause with ⟨before, after, hwraps⟩ | ⟨_, hnot, _⟩
    · obtain ⟨rfl, rfl⟩ := hsides name before after hwraps
      exact ⟨p, hp, .inr ⟨name, hname, hwraps.literal,
        hnames name ((List.dropLast_sublist _).subset hname), hwraps.source_eq⟩⟩
    · exact absurd hapart hnot

/-- The path of a file in a directory `Gen` that is not at the root. -/
def deepFile : List String := ["App", "Gen", "A.swift"]

def anywhereGen : Pattern :=
  ⟨"**/Gen/**", [.anyComponents, .char 'G', .char 'e', .char 'n', .char '/', .anyComponents]⟩

theorem isExcluded_iff_wraps_anywhereGen :
    Pattern.compile "**/Gen/**" = .ok anywhereGen ∧
      (StarsApart "**/Gen/**" ∧
        ∀ name before after, Wraps "**/Gen/**" name before after → before = 1 ∧ after = 1) ∧
      isExcluded [anywhereGen] deepFile ∧ anywhereGen.isMatch (Text.joinWith "/" deepFile) ∧
      ∃ p ∈ [anywhereGen], p.isMatch (Text.joinWith "/" deepFile) ∨ ∃ name ∈ deepFile.dropLast,
        '*' ∉ name.toList ∧ '/' ∉ name.toList ∧ p.source = "**/" ++ name ++ "/**" := by
  have hcompiled : Pattern.compile "**/Gen/**" = .ok anywhereGen := by decide +kernel
  have hall : ∀ p ∈ [anywhereGen], Pattern.compile p.source = .ok p :=
    List.forall_mem_singleton.mpr hcompiled
  have hwraps : Wraps "**/Gen/**" "Gen" 1 1 := ⟨by decide, by decide, by decide⟩
  have hsides : ∀ name before after, Wraps "**/Gen/**" name before after →
      before = 1 ∧ after = 1 := by
    intro name before after h
    have hpieces : ['*', '*'] :: "Gen".toList :: [['*', '*']] = _ := h.components
    have hlength := congrArg List.length hpieces
    have hliteral := h.literal
    simp only [List.length_append, List.length_cons, List.length_replicate, List.length_nil] at hlength
    match before with
    | 0 =>
        rw [← (List.cons.inj hpieces).1] at hliteral
        exact absurd hliteral (by decide)
    | 1 => exact ⟨rfl, by omega⟩
    | 2 =>
        rw [← (List.cons.inj (List.cons.inj (List.cons.inj hpieces).2).2).1] at hliteral
        exact absurd hliteral (by decide)
    | before + 3 => omega
  have hapart : StarsApart anywhereGen.source := starsApart_of_compile hcompiled (by decide)
  obtain ⟨hiff, hmatch, hdescribed⟩ :=
    isExcluded_iff_wraps hall (by decide : ∀ c ∈ deepFile, '/' ∉ c.toList)
  have hexcluded : isExcluded [anywhereGen] deepFile :=
    hiff.mpr ⟨_, List.mem_cons_self, .inr ⟨"Gen", by decide, .inl ⟨1, 1, hwraps⟩⟩⟩
  exact ⟨hcompiled, ⟨hapart, hsides⟩, hexcluded,
    hmatch _ List.mem_cons_self "Gen" (by decide) 0 0 hwraps (by decide),
    hdescribed (List.forall_mem_singleton.mpr ⟨hapart, hsides⟩) hexcluded⟩

def rootGen : Pattern :=
  ⟨"Gen/**", [.char 'G', .char 'e', .char 'n', .char '/', .anyComponents]⟩

def bareGen : Pattern := ⟨"Gen", [.char 'G', .char 'e', .char 'n']⟩

/-- A pattern for the directory `Gen` at the root, or for a file of this name, excludes all files in
deeper directories with the name `Gen`. -/
theorem rootGen_excludes_deepFile :
    Pattern.compile "Gen/**" = .ok rootGen ∧ Pattern.compile "Gen" = .ok bareGen ∧
      ∀ p ∈ [rootGen, bareGen], isExcluded [p] deepFile ∧
        ¬p.isMatch (Text.joinWith "/" deepFile) ∧ ∀ name, p.source ≠ "**/" ++ name ++ "/**" := by
  refine ⟨by decide +kernel, by decide +kernel, ?_⟩
  intro p hp
  refine ⟨?_, ?_, ?_⟩
  · revert p
    decide
  · revert p
    decide
  · intro name hname
    have hhead : p.source.toList.head? = some '*' := by simp [hname]
    clear hname
    revert p
    decide

end ConcurrencyLint.Glob
