import ConcurrencyLint.Scope.Basic
import Mathlib.Data.List.Infix
import Mathlib.Data.List.Induction
import Mathlib.Data.List.Sort
import Mathlib.Tactic.MkIffOfInductiveProp

/-!
# Pushes and the pops that match them

A stack of scopes against the history of what was done to it. In a history, surplus pops and all, a
pop matches a push if what lies between them is balanced. The open scopes are the pushes without a
match, the latest first, and each has counted the spawns recorded while it was the latest of them.
-/

namespace ConcurrencyLint

/-- What can be done to a stack of scopes. -/
inductive ScopeOp where
  | push (kind : ScopeKind) (span : Span)
  | pop
  | spawn
  deriving DecidableEq, Repr

namespace ScopeOp

variable {ops rest : List ScopeOp} {op : ScopeOp} {i j : Nat}

def perform (s : ScopeStack) : ScopeOp → ScopeStack
  | .push kind span => s.push kind span
  | .pop => s.pop.2
  | .spawn => s.recordSpawn.2

/-- The stack that a history leads to from the empty one. -/
def run (ops : List ScopeOp) : ScopeStack := ops.foldl perform .empty

def isPush : ScopeOp → Bool
  | .push _ _ => true
  | .pop => false
  | .spawn => false

def isPop : ScopeOp → Bool
  | .push _ _ => false
  | .pop => true
  | .spawn => false

def pushes (ops : List ScopeOp) : Nat := ops.countP isPush

def pops (ops : List ScopeOp) : Nat := ops.countP isPop

/-! ## Matching -/

/-- At no moment there have been more pops than pushes. -/
def NeverCloses (ops : List ScopeOp) : Prop := ∀ part ∈ ops.inits, pops part ≤ pushes part

@[mk_iff]
structure Balanced (ops : List ScopeOp) : Prop where
  neverCloses : NeverCloses ops
  pops_eq : pops ops = pushes ops

/-- The pop at `j` matches the push at `i`. -/
@[mk_iff]
structure Matches (ops : List ScopeOp) (i j : Nat) : Prop where
  push : ops[i]?.any isPush
  pop : ops[j]? = some .pop
  lt : i < j
  between : Balanced ((ops.take j).drop (i + 1))

/-- The operation at `i` is a push, and no pop matches it. -/
def Unmatched (ops : List ScopeOp) (i : Nat) : Prop :=
  ops[i]?.any isPush ∧ ∀ j < ops.length, ¬Matches ops i j

/-- The push at `i` is the latest of the unmatched ones. -/
@[mk_iff]
structure Latest (ops : List ScopeOp) (i : Nat) : Prop where
  unmatched : Unmatched ops i
  latest : ∀ j < ops.length, Unmatched ops j → j ≤ i

instance (ops : List ScopeOp) : Decidable (NeverCloses ops) :=
  inferInstanceAs (Decidable (∀ part ∈ ops.inits, _))

instance (ops : List ScopeOp) : Decidable (Balanced ops) := decidable_of_iff' _ (balanced_iff ops)

instance (ops : List ScopeOp) (i j : Nat) : Decidable (Matches ops i j) :=
  decidable_of_iff' _ (matches_iff ops i j)

instance (ops : List ScopeOp) : DecidablePred (Unmatched ops) := fun i =>
  inferInstanceAs (Decidable (_ ∧ ∀ j < ops.length, ¬Matches ops i j))

instance (ops : List ScopeOp) (i : Nat) : Decidable (Latest ops i) :=
  decidable_of_iff' _ (latest_iff ops i)

/-- The spawns recorded while the push at `i` was the latest without a match. -/
def ownSpawns (ops : List ScopeOp) (i : Nat) : Nat :=
  (List.range ops.length).countP fun m => ops[m]? = some .spawn ∧ Latest (ops.take m) i

/-! ## Counting -/

@[simp] theorem pushes_append (ops ops' : List ScopeOp) :
    pushes (ops ++ ops') = pushes ops + pushes ops' := List.countP_append

@[simp] theorem pops_append (ops ops' : List ScopeOp) :
    pops (ops ++ ops') = pops ops + pops ops' := List.countP_append

@[simp] theorem pushes_cons (op : ScopeOp) (ops : List ScopeOp) :
    pushes (op :: ops) = pushes ops + op.isPush.toNat := by
  rw [pushes, List.countP_cons]
  cases op <;> rfl

@[simp] theorem pops_cons (op : ScopeOp) (ops : List ScopeOp) :
    pops (op :: ops) = pops ops + op.isPop.toNat := by
  rw [pops, List.countP_cons]
  cases op <;> rfl

@[simp] theorem pushes_nil : pushes [] = 0 := rfl

@[simp] theorem pops_nil : pops [] = 0 := rfl

theorem neverCloses_nil : NeverCloses [] := by decide

theorem NeverCloses.le (h : NeverCloses ops) : pops ops ≤ pushes ops :=
  h ops ((List.mem_inits ops ops).mpr List.prefix_rfl)

theorem NeverCloses.of_isPrefix (h : NeverCloses rest) (hops : ops <+: rest) : NeverCloses ops := by
  intro part hpart
  rw [List.mem_inits] at hpart
  exact h part ((List.mem_inits part rest).mpr (hpart.trans hops))

theorem neverCloses_concat : NeverCloses (ops ++ [op]) ↔
    NeverCloses ops ∧ pops (ops ++ [op]) ≤ pushes (ops ++ [op]) := by
  constructor
  · intro h
    exact ⟨h.of_isPrefix (List.prefix_append ops [op]), h.le⟩
  · rintro ⟨h, hle⟩ part hpart
    rw [List.mem_inits, List.prefix_concat_iff] at hpart
    rcases hpart with rfl | hpart
    · exact hle
    · exact h part ((List.mem_inits part ops).mpr hpart)

/-- The first moment with more pops than pushes is a pop after a balanced part. -/
theorem exists_balanced_pop (h : ¬NeverCloses rest) :
    ∃ inner, inner ++ [.pop] <+: rest ∧ Balanced inner := by
  induction rest using List.reverseRecOn with
  | nil => exact absurd neverCloses_nil h
  | append_singleton rest op ih =>
      by_cases hrest : NeverCloses rest
      · have hle := hrest.le
        rw [neverCloses_concat, and_iff_right hrest, Nat.not_le] at h
        cases op with
        | push kind span => simp [isPush, isPop] at h; omega
        | spawn => simp [isPush, isPop] at h; omega
        | pop =>
            simp [isPush, isPop] at h
            exact ⟨rest, List.prefix_rfl, hrest, by omega⟩
      · obtain ⟨inner, hinner, hbalanced⟩ := ih hrest
        exact ⟨inner, hinner.trans (List.prefix_append rest [op]), hbalanced⟩

/-- Every surplus of pushes is what is left after one of them that is never closed. -/
theorem exists_push_of_lt (k : Nat) (h : pops ops + k < pushes ops) :
    ∃ before op after, ops = before ++ op :: after ∧ op.isPush ∧ NeverCloses after ∧
      pushes after = pops after + k := by
  induction ops using List.reverseRecOn generalizing k with
  | nil => simp at h
  | append_singleton ops op ih =>
      have hextend (k' : Nat) (hlt : pops ops + k' < pushes ops)
          (hk : k' + op.isPush.toNat = k + op.isPop.toNat) :
          ∃ before op' after, ops ++ [op] = before ++ op' :: after ∧ op'.isPush ∧
            NeverCloses after ∧ pushes after = pops after + k := by
        obtain ⟨before, op', after, rfl, hop, hafter, hcount⟩ := ih k' hlt
        have hcount' : pushes (after ++ [op]) = pops (after ++ [op]) + k := by
          simp only [pushes_append, pops_append, pushes_cons, pops_cons, pushes_nil, pops_nil]
          omega
        exact ⟨before, op', after ++ [op], by simp, hop, neverCloses_concat.mpr ⟨hafter, by omega⟩,
          hcount'⟩
      cases op with
      | push kind span =>
          cases k with
          | zero => exact ⟨ops, _, [], rfl, rfl, neverCloses_nil, rfl⟩
          | succ k => exact hextend k (by simp [isPush, isPop] at h; omega) rfl
      | spawn => exact hextend k (by simpa [isPush, isPop] using h) rfl
      | pop => exact hextend (k + 1) (by simp [isPush, isPop] at h; omega) rfl

/-! ## Unmatched pushes -/

theorem lt_length_of_any (h : ops[i]?.any isPush) : i < ops.length := by
  by_contra hi
  rw [List.getElem?_eq_none (Nat.le_of_not_lt hi)] at h
  simp at h

theorem Matches.lt_length (h : Matches ops i j) : j < ops.length :=
  (List.getElem?_eq_some_iff.mp h.pop).1

theorem Unmatched.lt_length (h : Unmatched ops i) : i < ops.length := lt_length_of_any h.1

theorem Matches.isPrefix (h : Matches ops i j) :
    (ops.take j).drop (i + 1) ++ [.pop] <+: ops.drop (i + 1) := by
  obtain ⟨hj, hpop⟩ := List.getElem?_eq_some_iff.mp h.pop
  refine ⟨ops.drop (j + 1), ?_⟩
  have hlt := h.lt
  have hsplit : ops = ops.take j ++ .pop :: ops.drop (j + 1) := by
    rw [← hpop, ← List.drop_eq_getElem_cons hj, List.take_append_drop]
  conv_rhs => rw [hsplit]
  rw [List.drop_append_of_le_length (by simp; omega)]
  simp

theorem unmatched_iff : Unmatched ops i ↔ ops[i]?.any isPush ∧ NeverCloses (ops.drop (i + 1)) := by
  refine and_congr_right fun hpush => ?_
  constructor
  · intro hnone
    by_contra hcloses
    obtain ⟨inner, hinner, hbalanced⟩ := exists_balanced_pop hcloses
    obtain ⟨after, hafter⟩ := hinner
    have hlength := congrArg List.length hafter
    simp at hlength
    refine hnone (i + 1 + inner.length) (by omega) ⟨hpush, ?_, by omega, ?_⟩
    · rw [← List.getElem?_drop, ← hafter]
      simp
    · rw [List.drop_take, ← hafter]
      simpa using hbalanced
  · intro hnever j _ hmatches
    have hle := (hnever.of_isPrefix hmatches.isPrefix).le
    have heq := hmatches.between.pops_eq
    simp [isPush, isPop] at hle
    omega

theorem exists_drop_eq (hj : ops[j]?.any isPush) (hij : i < j) :
    ∃ part op, op.isPush ∧ ops.drop (i + 1) = part ++ op :: ops.drop (j + 1) := by
  have hlt := lt_length_of_any hj
  rw [List.getElem?_eq_getElem hlt, Option.any_some] at hj
  refine ⟨(ops.drop (i + 1)).take (j - (i + 1)), ops[j], hj, ?_⟩
  have hdrop : (ops.drop (i + 1)).drop (j - (i + 1)) = ops.drop j := by
    rw [List.drop_drop, Nat.add_sub_of_le hij]
  rw [← List.drop_eq_getElem_cons hlt, ← hdrop, List.take_append_drop]

/-- The latest of the unmatched pushes is the one with a balanced history since. -/
theorem latest_iff_balanced :
    Latest ops i ↔ ops[i]?.any isPush ∧ Balanced (ops.drop (i + 1)) := by
  constructor
  · intro h
    obtain ⟨hpush, hnever⟩ := unmatched_iff.mp h.unmatched
    refine ⟨hpush, hnever, ?_⟩
    by_contra hne
    have hlt : pops (ops.drop (i + 1)) + 0 < pushes (ops.drop (i + 1)) :=
      Nat.lt_of_le_of_ne hnever.le hne
    obtain ⟨before, op, after, hsplit, hop, hafter, _⟩ := exists_push_of_lt 0 hlt
    -- The push that is left over is unmatched in the whole history, and it is later.
    have hlater : Unmatched ops (i + 1 + before.length) := by
      rw [unmatched_iff]
      constructor
      · rw [← List.getElem?_drop, hsplit]
        simpa using hop
      · rw [Nat.add_assoc, ← List.drop_drop, hsplit]
        simpa using hafter
    have := h.latest _ hlater.lt_length hlater
    omega
  · rintro ⟨hpush, hbalanced⟩
    refine ⟨unmatched_iff.mpr ⟨hpush, hbalanced.neverCloses⟩, fun j _ hj => ?_⟩
    by_contra hij
    obtain ⟨part, op, hop, hsplit⟩ := exists_drop_eq hj.1 (Nat.lt_of_not_le hij)
    have hpart := (hbalanced.neverCloses.of_isPrefix (hsplit ▸ List.prefix_append _ _)).le
    have hafter := (unmatched_iff.mp hj).2.le
    have heq := hbalanced.pops_eq
    cases op with
    | push kind span =>
        rw [hsplit] at heq
        simp [isPush, isPop] at heq
        omega
    | pop => cases hop
    | spawn => cases hop

/-! ## The unmatched pushes of a longer history -/

/-- The unmatched pushes, the latest first. -/
def openPushes (ops : List ScopeOp) : List Nat :=
  ((List.range ops.length).filter fun i => Unmatched ops i).reverse

theorem mem_openPushes : i ∈ openPushes ops ↔ Unmatched ops i := by
  simp only [openPushes, List.mem_reverse, List.mem_filter, List.mem_range, decide_eq_true_eq]
  exact ⟨fun h => h.2, fun h => ⟨h.lt_length, h⟩⟩

theorem pairwise_openPushes (ops : List ScopeOp) : (openPushes ops).Pairwise (· > ·) := by
  rw [openPushes, List.pairwise_reverse]
  exact List.pairwise_lt_range.filter _

theorem latest_iff_head? : Latest ops i ↔ (openPushes ops).head? = some i := by
  have hpairwise := pairwise_openPushes ops
  have hmem := @mem_openPushes ops
  cases hopen : openPushes ops with
  | nil =>
      rw [hopen] at hmem
      simp only [List.head?_nil, reduceCtorEq, iff_false]
      intro h
      exact List.not_mem_nil (hmem.mpr h.unmatched)
  | cons first others =>
      rw [hopen, List.pairwise_cons] at hpairwise
      rw [hopen] at hmem
      have hfirst : Unmatched ops first := hmem.mp List.mem_cons_self
      rw [List.head?_cons, Option.some_inj]
      constructor
      · intro h
        have hle := h.latest first hfirst.lt_length hfirst
        rcases List.mem_cons.mp (hmem.mpr h.unmatched) with hi | hi
        · exact hi.symm
        · have := hpairwise.1 i hi
          omega
      · rintro rfl
        refine ⟨hfirst, fun j _ hj => ?_⟩
        rcases List.mem_cons.mp (hmem.mpr hj) with rfl | hj
        · exact Nat.le_refl _
        · exact Nat.le_of_lt (hpairwise.1 j hj)

/-- What one operation does to the unmatched pushes: a push is a new one, and a pop takes the latest
of them away. -/
theorem unmatched_concat : Unmatched (ops ++ [op]) i ↔
    op.isPush ∧ i = ops.length ∨ Unmatched ops i ∧ ¬(op.isPop ∧ Latest ops i) := by
  rcases Nat.lt_trichotomy i ops.length with hi | hi | hi
  · have hdrop : (ops ++ [op]).drop (i + 1) = ops.drop (i + 1) ++ [op] :=
      List.drop_append_of_le_length hi
    have hne : i ≠ ops.length := Nat.ne_of_lt hi
    rw [latest_iff_balanced, unmatched_iff, unmatched_iff, List.getElem?_append_left hi, hdrop,
      neverCloses_concat, balanced_iff]
    simp only [hne, and_false, false_or, and_assoc]
    refine and_congr_right fun hpush => and_congr_right fun hnever => ?_
    have hle := hnever.le
    rw [and_iff_right hpush, and_iff_right hnever]
    cases op <;> simp [isPush, isPop] <;> omega
  · subst hi
    have hnot : ¬Unmatched ops ops.length := fun h => Nat.lt_irrefl _ h.lt_length
    rw [unmatched_iff]
    simp [hnot, neverCloses_nil]
  · have hnot (ops' : List ScopeOp) (hle : ops'.length ≤ i) : ¬Unmatched ops' i :=
      fun h => Nat.not_lt_of_le hle h.lt_length
    simp [hnot ops (Nat.le_of_lt hi), hnot (ops ++ [op]) (by rw [List.length_append]; exact hi),
      Nat.ne_of_gt hi]

theorem openPushes_eq {is : List Nat} (hordered : is.Pairwise (· > ·))
    (hmem : ∀ i, i ∈ is ↔ Unmatched ops i) : openPushes ops = is :=
  (pairwise_openPushes ops).eq_of_mem_iff hordered fun i => mem_openPushes.trans (hmem i).symm

theorem openPushes_push (ops : List ScopeOp) (kind : ScopeKind) (span : Span) :
    openPushes (ops ++ [.push kind span]) = ops.length :: openPushes ops := by
  have hearlier : ∀ i ∈ openPushes ops, ops.length > i := fun i hi =>
    (mem_openPushes.mp hi).lt_length
  refine openPushes_eq (List.pairwise_cons.mpr ⟨hearlier, pairwise_openPushes ops⟩) fun i => ?_
  rw [List.mem_cons, mem_openPushes, unmatched_concat]
  simp [isPush, isPop]

theorem openPushes_spawn (ops : List ScopeOp) : openPushes (ops ++ [.spawn]) = openPushes ops := by
  refine openPushes_eq (pairwise_openPushes ops) fun i => ?_
  rw [mem_openPushes, unmatched_concat]
  simp [isPush, isPop]

theorem openPushes_pop (ops : List ScopeOp) :
    openPushes (ops ++ [.pop]) = (openPushes ops).tail := by
  have hpairwise := pairwise_openPushes ops
  refine openPushes_eq hpairwise.tail fun i => ?_
  rw [unmatched_concat, ← mem_openPushes, latest_iff_head?]
  cases hopen : openPushes ops with
  | nil => simp [isPush]
  | cons first others =>
      rw [hopen, List.pairwise_cons] at hpairwise
      simp only [isPush, isPop, Bool.false_eq_true, false_and, false_or, List.tail_cons,
        List.mem_cons, List.head?_cons, Option.some_inj, true_and]
      constructor
      · intro hi
        exact ⟨.inr hi, fun h => Nat.lt_irrefl _ (h ▸ hpairwise.1 i hi)⟩
      · rintro ⟨rfl | hi, hne⟩
        · exact absurd rfl hne
        · exact hi

/-! ## Scopes of unmatched pushes -/

theorem ownSpawns_concat (ops : List ScopeOp) (op : ScopeOp) (i : Nat) :
    ownSpawns (ops ++ [op]) i = ownSpawns ops i + if op = .spawn ∧ Latest ops i then 1 else 0 := by
  have hearlier : ∀ m ∈ List.range ops.length,
      decide ((ops ++ [op])[m]? = some .spawn ∧ Latest ((ops ++ [op]).take m) i) =
        decide (ops[m]? = some .spawn ∧ Latest (ops.take m) i) := by
    intro m hm
    have hlt := List.mem_range.mp hm
    rw [List.getElem?_append_left hlt, List.take_append_of_le_length (Nat.le_of_lt hlt)]
  rw [ownSpawns, List.length_append, List.length_singleton, List.range_succ, List.countP_append,
    List.countP_congr fun m hm => by rw [hearlier m hm], ownSpawns]
  simp [List.countP_cons]

theorem ownSpawns_eq_zero (h : ops.length ≤ i) : ownSpawns ops i = 0 := by
  rw [ownSpawns, List.countP_eq_zero]
  intro m hm hspawn
  have hlatest := (of_decide_eq_true hspawn).2.unmatched.lt_length
  rw [List.length_take] at hlatest
  omega

/-- The scope of the push at `i`, with what it has counted. -/
def scopeOf? (ops : List ScopeOp) (i : Nat) : Option Scope :=
  match ops[i]? with
  | some (.push kind span) => some ⟨kind, span, ownSpawns ops i⟩
  | _ => none

theorem scopeOf?_concat (hi : i < ops.length) (h : ¬(op = .spawn ∧ Latest ops i)) :
    scopeOf? (ops ++ [op]) i = scopeOf? ops i := by
  rw [scopeOf?, scopeOf?, List.getElem?_append_left hi, ownSpawns_concat, if_neg h, Nat.add_zero]

theorem scopeOf?_concat_spawn (h : Latest ops i) :
    scopeOf? (ops ++ [.spawn]) i =
      (scopeOf? ops i).map fun s => { s with spawns := s.spawns + 1 } := by
  rw [scopeOf?, scopeOf?, List.getElem?_append_left h.unmatched.lt_length, ownSpawns_concat,
    if_pos ⟨rfl, h⟩]
  split <;> rfl

theorem run_concat (ops : List ScopeOp) (op : ScopeOp) :
    run (ops ++ [op]) = perform (run ops) op := by
  rw [run, List.foldl_append]
  rfl

theorem map_scopeOf?_concat (h : op ≠ .spawn) :
    (openPushes ops).map (scopeOf? (ops ++ [op])) = (openPushes ops).map (scopeOf? ops) :=
  List.map_congr_left fun _ hi =>
    scopeOf?_concat (mem_openPushes.mp hi).lt_length fun hspawn => h hspawn.1

/-- A spawn counts for the latest of the unmatched pushes and for no other. -/
theorem map_scopeOf?_spawn {first : Nat} {others : List Nat}
    (hopen : openPushes ops = first :: others) :
    (first :: others).map (scopeOf? (ops ++ [.spawn])) =
      ((scopeOf? ops first).map fun s => { s with spawns := s.spawns + 1 }) ::
        others.map (scopeOf? ops) := by
  have hpairwise := pairwise_openPushes ops
  rw [hopen, List.pairwise_cons] at hpairwise
  have hfirst : Latest ops first := by rw [latest_iff_head?, hopen, List.head?_cons]
  rw [List.map_cons, scopeOf?_concat_spawn hfirst]
  refine congrArg _ (List.map_congr_left fun i hi => ?_)
  have hlt : first > i := hpairwise.1 i hi
  refine scopeOf?_concat (Nat.lt_trans hlt hfirst.unmatched.lt_length) fun hspawn => ?_
  exact Nat.not_le_of_lt hlt (hspawn.2.latest first hfirst.unmatched.lt_length hfirst.unmatched)

/-- The open scopes are those of the unmatched pushes. -/
theorem frames_run (ops : List ScopeOp) :
    (run ops).frames.map some = (openPushes ops).map (scopeOf? ops) := by
  induction ops using List.reverseRecOn with
  | nil => rfl
  | append_singleton ops op ih =>
      rw [run_concat]
      cases op with
      | push kind span =>
          have hnew : scopeOf? (ops ++ [.push kind span]) ops.length = some ⟨kind, span, 0⟩ := by
            simp [scopeOf?, ownSpawns_concat, ownSpawns_eq_zero]
          rw [openPushes_push, List.map_cons, hnew, map_scopeOf?_concat (by simp), ← ih]
          rfl
      | pop =>
          rw [openPushes_pop, List.map_tail, map_scopeOf?_concat (by simp), ← ih, ← List.map_tail]
          rfl
      | spawn =>
          rw [openPushes_spawn]
          generalize run ops = s at ih ⊢
          obtain ⟨frames⟩ := s
          cases hopen : openPushes ops with
          | nil =>
              rw [hopen] at ih
              cases List.map_eq_nil_iff.mp ih
              rfl
          | cons first others =>
              rw [hopen] at ih
              obtain ⟨frame, outer, rfl, hframe, houter⟩ := List.map_eq_cons_iff.mp ih
              rw [map_scopeOf?_spawn hopen, ← hframe, ← houter]
              rfl

/-! ## What the operations answer -/

theorem scopeOf?_eq_some_iff {scope : Scope} : scopeOf? ops i = some scope ↔
    ops[i]? = some (.push scope.kind scope.span) ∧ scope.spawns = ownSpawns ops i := by
  obtain ⟨kind, span, spawns⟩ := scope
  unfold scopeOf?
  split
  · rename_i kind' span' hpush
    rw [hpush]
    simp only [Option.some_inj, Scope.mk.injEq, push.injEq, and_assoc]
    exact and_congr_right fun _ => and_congr_right fun _ => eq_comm
  · rename_i hpush
    constructor
    · intro h
      cases h
    · rintro ⟨h, _⟩
      exact absurd h (hpush kind span)

/-- The innermost scope is that of the latest unmatched push. -/
theorem head?_frames_run_iff {scope : Scope} : (run ops).frames.head? = some scope ↔
    ∃ i, Latest ops i ∧ ops[i]? = some (.push scope.kind scope.span) ∧
      scope.spawns = ownSpawns ops i := by
  have hhead := congrArg List.head? (frames_run ops)
  rw [List.head?_map, List.head?_map] at hhead
  have hsome : (run ops).frames.head? = some scope ↔
      (run ops).frames.head?.map some = some (some scope) := by
    simp
  rw [hsome, hhead, Option.map_eq_some_iff]
  simp only [← latest_iff_head?, scopeOf?_eq_some_iff]

theorem frames_run_eq_nil_iff : (run ops).frames = [] ↔ ∀ i, ¬Unmatched ops i := by
  rw [← List.map_eq_nil_iff (f := some), frames_run, List.map_eq_nil_iff,
    List.eq_nil_iff_forall_not_mem]
  exact forall_congr' fun i => not_congr mem_openPushes

theorem forall_not_unmatched_iff :
    (∀ i, ¬Unmatched ops i) ↔ ∀ i, ops[i]?.any isPush → ∃ j, Matches ops i j := by
  refine forall_congr' fun i => ?_
  rw [Unmatched, not_and]
  refine imp_congr_right fun _ => ?_
  constructor
  · intro h
    by_contra hnone
    exact h fun j _ hj => hnone ⟨j, hj⟩
  · rintro ⟨j, hj⟩ h
    exact h j hj.lt_length hj

theorem recordSpawn_fst_eq_false_iff {s : ScopeStack} :
    s.recordSpawn.1 = false ↔ s.frames = [] := by
  obtain ⟨frames⟩ := s
  cases frames <;> simp [ScopeStack.recordSpawn]

/-- After any history of pushes, pops and spawns, with surplus pops as well: a pop finds nothing if
every push has its match, and otherwise the latest push without one, with the spawns recorded while
it was that. A spawn is refused, and then nothing changes, if no push is unmatched. The current kind
is that of the latest unmatched push, and the depth is the number of unmatched ones. -/
theorem run_unmatched (ops : List ScopeOp) :
    let s := run ops
    (s.pop.1 = none ↔ ∀ i, ops[i]?.any isPush → ∃ j, Matches ops i j) ∧
    (∀ closed, s.pop.1 = some closed ↔ ∃ i, Latest ops i ∧
      ops[i]? = some (.push closed.kind closed.span) ∧ closed.spawns = ownSpawns ops i) ∧
    (s.recordSpawn.1 = false ↔ ∀ i, ¬Unmatched ops i) ∧
    (s.recordSpawn = (false, s) ↔ ∀ i, ¬Unmatched ops i) ∧
    (∀ i kind span, Latest ops i → ops[i]? = some (.push kind span) → s.current = kind) ∧
    ((∀ i, ¬Unmatched ops i) → s.current = .topLevel) ∧
    s.depth = (List.range ops.length).countP fun i => Unmatched ops i := by
  intro s
  have hnil : s.frames = [] ↔ ∀ i, ¬Unmatched ops i := frames_run_eq_nil_iff
  refine ⟨?_, fun closed => head?_frames_run_iff, ?_, ?_, ?_, ?_, ?_⟩
  · rw [← forall_not_unmatched_iff, ← hnil]
    exact List.head?_eq_none_iff
  · rw [recordSpawn_fst_eq_false_iff, hnil]
  · rw [← hnil]
    constructor
    · intro h
      exact recordSpawn_fst_eq_false_iff.mp (congrArg Prod.fst h)
    · intro h
      simp [ScopeStack.recordSpawn, h]
  · intro i kind span hlatest hpush
    have hhead : s.frames.head? = some ⟨kind, span, ownSpawns ops i⟩ :=
      head?_frames_run_iff.mpr ⟨i, hlatest, hpush, rfl⟩
    obtain ⟨outer, houter⟩ := List.head?_eq_some_iff.mp hhead
    simp [ScopeStack.current, houter]
  · intro hnone
    simp [ScopeStack.current, hnil.mpr hnone]
  · have hlength := congrArg List.length (frames_run ops)
    rw [List.length_map, List.length_map, openPushes, List.length_reverse] at hlength
    rw [List.countP_eq_length_filter, ← hlength]
    rfl

-- A surplus pop first; then the inner scope counts one spawn and is closed, the outer counts two.
theorem run_unmatched_surplusPop :
    let outer : Span := ⟨1, 1, 0, 40⟩
    let inner : Span := ⟨2, 3, 10, 20⟩
    let ops : List ScopeOp := [.pop, .spawn, .push .function outer, .spawn,
      .push .initializer inner, .spawn, .pop, .spawn]
    Latest ops 2 ∧ Matches ops 4 6 ∧ ownSpawns ops 2 = 2 ∧
      (run ops).pop.1 = some ⟨.function, outer, 2⟩ ∧ (run ops).current = .function ∧
      (∀ i, ¬Unmatched (ops ++ [.pop]) i) ∧ (run (ops ++ [.pop])).pop.1 = none := by
  intro outer inner ops
  have hlatest : Latest ops 2 := by decide
  have hspawns : ownSpawns ops 2 = 2 := by decide
  have hmatched : ∀ i < ops.length + 1, ¬Unmatched (ops ++ [.pop]) i := by decide
  have hnone (i : Nat) : ¬Unmatched (ops ++ [.pop]) i := fun h => hmatched i h.lt_length h
  obtain ⟨-, hpop, -, -, hcurrent, -, -⟩ := run_unmatched ops
  exact ⟨hlatest, by decide, hspawns, (hpop _).mpr ⟨2, hlatest, rfl, hspawns.symm⟩,
    hcurrent 2 _ _ hlatest rfl, hnone,
    (run_unmatched (ops ++ [.pop])).1.mpr (forall_not_unmatched_iff.mp hnone)⟩

end ScopeOp

end ConcurrencyLint
