import ConcurrencyLint.Walk

/-!
# Counting on a stack of scopes

What entering a node does to the open scopes, in terms of one operation: `addSpawns` attributes any
number of task spawns to the innermost scope.
-/

namespace ConcurrencyLint

namespace ScopeStack

/-- Attributes `k` task spawns to the innermost scope, if one is open. -/
def addSpawns (s : ScopeStack) (k : Nat) : ScopeStack :=
  match s.frames with
  | [] => s
  | frame :: outer => ⟨{ frame with spawns := frame.spawns + k } :: outer⟩

@[simp] theorem addSpawns_empty (k : Nat) : empty.addSpawns k = empty := rfl

@[simp] theorem addSpawns_zero (s : ScopeStack) : s.addSpawns 0 = s := by
  obtain ⟨frames⟩ := s
  cases frames <;> rfl

@[simp] theorem addSpawns_addSpawns (s : ScopeStack) (j k : Nat) :
    (s.addSpawns j).addSpawns k = s.addSpawns (j + k) := by
  obtain ⟨frames⟩ := s
  cases frames with
  | nil => rfl
  | cons frame outer => simp [addSpawns, Nat.add_assoc]

theorem recordSpawn_snd (s : ScopeStack) : s.recordSpawn.2 = s.addSpawns 1 := by
  obtain ⟨frames⟩ := s
  cases frames <;> rfl

@[simp] theorem current_addSpawns (s : ScopeStack) (k : Nat) :
    (s.addSpawns k).current = s.current := by
  obtain ⟨frames⟩ := s
  cases frames <;> rfl

@[simp] theorem spawns_addSpawns (s : ScopeStack) (k : Nat) :
    (s.addSpawns k).spawns = s.spawns.map (· + k) := by
  obtain ⟨frames⟩ := s
  cases frames <;> rfl

@[simp] theorem current_push (s : ScopeStack) (kind : ScopeKind) (span : Span) :
    (s.push kind span).current = kind := rfl

@[simp] theorem spawns_push (s : ScopeStack) (kind : ScopeKind) (span : Span) :
    (s.push kind span).spawns = some 0 := rfl

/-- A scope closes with what was attributed to it, and the scopes around it are as before. -/
@[simp] theorem pop_addSpawns_push (s : ScopeStack) (kind : ScopeKind) (span : Span) (k : Nat) :
    ((s.push kind span).addSpawns k).pop = (some ⟨kind, span, k⟩, s) := by
  simp [push, addSpawns, pop]

theorem pop_addSpawns_of_pop {s outer : ScopeStack} {closed : Scope} (k : Nat)
    (h : s.pop = (some closed, outer)) :
    (s.addSpawns k).pop = (some { closed with spawns := closed.spawns + k }, outer) := by
  obtain ⟨frames⟩ := s
  cases frames with
  | nil => simp [pop] at h
  | cons frame rest =>
      simp only [pop, List.head?_cons, List.tail_cons, Prod.mk.injEq, Option.some.injEq] at h
      obtain ⟨rfl, rfl⟩ := h
      rfl

end ScopeStack

variable {w : Setting} {n : Node}

theorem Setting.scopesAt_eq_of_opens {kind : ScopeKind} (s : ScopeStack)
    (h : n.opens w.points = some kind) : w.scopesAt s n =
      if n.isTaskSpawn then (s.push kind n.span).recordSpawn.2 else s.push kind n.span := by
  rw [Setting.scopesAt, h]

theorem Setting.scopesAt_eq_of_not_opens (s : ScopeStack) (h : n.opens w.points = none) :
    w.scopesAt s n = if n.isTaskSpawn then s.recordSpawn.2 else s := by
  rw [Setting.scopesAt, h]

theorem Setting.scopesAt_of_opens {kind : ScopeKind} (s : ScopeStack)
    (h : n.opens w.points = some kind) :
    w.scopesAt s n = (s.push kind n.span).addSpawns n.isTaskSpawn.toNat := by
  rw [w.scopesAt_eq_of_opens s h, ScopeStack.recordSpawn_snd]
  cases n.isTaskSpawn <;> simp

theorem Setting.scopesAt_of_not_opens (s : ScopeStack) (h : n.opens w.points = none) :
    w.scopesAt s n = s.addSpawns n.isTaskSpawn.toNat := by
  rw [w.scopesAt_eq_of_not_opens s h, ScopeStack.recordSpawn_snd]
  cases n.isTaskSpawn <;> simp

end ConcurrencyLint
