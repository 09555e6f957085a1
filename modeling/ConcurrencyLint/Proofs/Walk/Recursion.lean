import ConcurrencyLint.Proofs.Walk.Scopes
import ConcurrencyLint.Rule.Builtin
import Mathlib.Logic.Relation

/-!
# The walk as a recursion

The machine that walks a tree finds what the recursion `Visitor.visit` finds. Its two stacks, the
pending work and the open scopes, are tied by `Matched`: every pending exit belongs to the node that
left it, and the frame of that node lies on what was open when the node was entered. What the
recursion finds with a list of rules is said once more by the relation `Visits`.
-/

namespace ConcurrencyLint

namespace Machine

variable {α : Type} {v : Visitor α} {w : Setting} {m m' : Machine α}

/-- The machine comes from one state to the other in any number of steps. -/
def Reaches (v : Visitor α) (w : Setting) : Machine α → Machine α → Prop :=
  Relation.ReflTransGen fun m m' => m.step v w = some m'

/-! ## Running to the end -/

theorem run_of_step (h : m.step v w = some m') : m.run v w = m'.run v w := by
  rw [run]
  split
  · simp_all
  · rename_i h'
    rw [h] at h'; cases h'; rfl

theorem run_of_done (h : m.step v w = none) : m.run v w = m := by
  rw [run]
  split
  · rfl
  · simp_all

theorem reaches_run (m : Machine α) : Reaches v w m (m.run v w) := by
  fun_induction run v w m with
  | case1 m h => exact .refl
  | case2 m m' h ih => exact .head h ih

theorem step_run (m : Machine α) : (m.run v w).step v w = none := by
  fun_induction run v w m with
  | case1 m h => exact h
  | case2 m m' h ih => exact ih

theorem work_of_step_eq_none (h : m.step v w = none) : m.work = [] := by
  obtain ⟨work, scopes, collected⟩ := m
  match work with
  | [] => rfl
  | .enter n :: work => simp [step] at h
  | .exit :: work => simp [step] at h

/-! ## The recursion -/

theorem Reaches.run_eq (h : Reaches v w m m') : m.run v w = m'.run v w := by
  induction h with
  | refl => rfl
  | tail _ hs ih => rw [ih, run_of_step hs]

mutual

/-- A pending node is finished first, as by the recursion, and the rest of the work comes after. -/
theorem reaches_enter : (n : Node) → (work : List Step) → (scopes : ScopeStack) →
    (collected : List α) → Reaches v w ⟨.enter n :: work, scopes, collected⟩
      ⟨work, (v.visit w scopes n).2, (v.visit w scopes n).1.reverse ++ collected⟩
  | ⟨kind, span, children⟩, work, scopes, collected => by
      refine .head rfl ((reaches_enterAll children _ _ _).trans ?_)
      rw [Visitor.visit]
      cases ho : Node.opens w.points ⟨kind, span, children⟩ with
      | none =>
          simp only [Option.isSome_none, Bool.false_eq_true, ↓reduceIte, List.reverse_append,
            List.append_assoc]
          exact .refl
      | some opened =>
          -- The children are done, and the exit that the node left is next.
          refine .single ?_
          simp only [Option.isSome_some, ↓reduceIte, step, leaveScope]
          split <;> simp_all

theorem reaches_enterAll : (ns : List Node) → (work : List Step) → (scopes : ScopeStack) →
    (collected : List α) → Reaches v w ⟨ns.map .enter ++ work, scopes, collected⟩
      ⟨work, (v.visitAll w scopes ns).2, (v.visitAll w scopes ns).1.reverse ++ collected⟩
  | [], work, scopes, collected => by
      rw [Visitor.visitAll]
      exact .refl
  | n :: ns, work, scopes, collected => by
      have hfirst := reaches_enter n (ns.map .enter ++ work) scopes collected
      have hrest := reaches_enterAll ns work (v.visit w scopes n).2
        ((v.visit w scopes n).1.reverse ++ collected)
      rw [Visitor.visitAll, List.reverse_append, List.append_assoc]
      exact hfirst.trans hrest

end

theorem run_start (root : Node) : run v w (start root) =
    ⟨[], (v.visit w .empty root).2, (v.visit w .empty root).1.reverse⟩ := by
  rw [start, (reaches_enter root _ _ _).run_eq, run_of_done rfl, List.append_nil]

/-! ## Pending exits and open scopes -/

theorem Reaches.weightAll_le (h : Reaches v w m m') :
    Step.weightAll m'.work ≤ Step.weightAll m.work := by
  induction h with
  | refl => exact Nat.le_refl _
  | tail _ hs ih => exact Nat.le_trans (Nat.le_of_lt (weightAll_step hs)) ih

/-- Of two states of one run, the one with more work left comes first. -/
theorem Reaches.of_weightAll_lt {first : Machine α} (h : Reaches v w first m)
    (h' : Reaches v w first m') (hlt : Step.weightAll m'.work < Step.weightAll m.work) :
    Reaches v w m m' := by
  have unique : Relator.RightUnique fun m m' : Machine α => m.step v w = some m' := by
    intro a b c hb hc
    rw [hb] at hc; exact Option.some.inj hc
  rcases Relation.ReflTransGen.total_of_right_unique unique h h' with hm | hm
  · exact hm
  · have := weightAll_le hm
    omega

theorem leaveScope_work (work : List Step) (scopes : ScopeStack) (collected : List α) :
    (leaveScope v w work scopes collected).work = work := by
  unfold leaveScope
  split <;> rfl

/-- Work at the bottom stays there until all that lies on it is done. -/
theorem Reaches.keeps {top base : List Step} (h : Reaches v w m m') (hm : m.work = top ++ base) :
    (∃ top', m'.work = top' ++ base) ∨ Step.weightAll m'.work < Step.weightAll base := by
  induction h with
  | refl => exact .inl ⟨top, hm⟩
  | @tail m₁ m₂ _ hs ih =>
      rcases ih with ⟨top₁, h₁⟩ | hlt
      · cases top₁ with
        | nil =>
            have := weightAll_step hs
            rw [h₁, List.nil_append] at this; exact .inr this
        | cons s top₁ =>
            left
            cases s with
            | enter n =>
                simp only [step, h₁, List.cons_append, Option.some.injEq] at hs
                subst hs
                simp only [enterNode]
                split
                · exact ⟨n.children.map .enter ++ .exit :: top₁, by simp⟩
                · exact ⟨n.children.map .enter ++ top₁, by simp⟩
            | exit =>
                simp only [step, h₁, List.cons_append, Option.some.injEq] at hs
                subst hs
                exact ⟨top₁, leaveScope_work _ _ _⟩
      · exact .inr (Nat.lt_trans (weightAll_step hs) hlt)

/-- In the run from `first`, each pending exit was left by a node that opened a scope, the frame of
this node is on top when its exit comes up, and below it are the scopes open at its entry. -/
inductive Matched (v : Visitor α) (w : Setting) (first : Machine α) : List Step → ScopeStack → Prop
  | done : Matched v w first [] .empty
  | enter {n work scopes} : Matched v w first work scopes →
      Matched v w first (.enter n :: work) scopes
  | exit {m : Machine α} {n work kind spawns scopes} : Reaches v w first m →
      m.work = .enter n :: work → n.opens w.points = some kind →
      Matched v w first work m.scopes → scopes.pop = (some ⟨kind, n.span, spawns⟩, m.scopes) →
      Matched v w first (.exit :: work) scopes

namespace Matched

variable {first : Machine α} {work : List Step} {scopes : ScopeStack}

theorem addSpawns (h : Matched v w first work scopes) (k : Nat) :
    Matched v w first work (scopes.addSpawns k) := by
  induction h with
  | done => exact .done
  | enter _ ih => exact .enter ih
  | exit hm hw ho hout hpop _ => exact .exit hm hw ho hout (ScopeStack.pop_addSpawns_of_pop k hpop)

theorem enterAll (ns : List Node) (h : Matched v w first work scopes) :
    Matched v w first (ns.map .enter ++ work) scopes := by
  induction ns with
  | nil => exact h
  | cons n ns ih => exact .enter ih

theorem step (hr : Reaches v w first m) (h : Matched v w first m.work m.scopes)
    (hs : m.step v w = some m') : Matched v w first m'.work m'.scopes := by
  obtain ⟨work, scopes, collected⟩ := m
  match work, h with
  | [], _ => simp [Machine.step] at hs
  | .enter n :: work, .enter h =>
      simp only [Machine.step, Option.some.injEq] at hs
      subst hs
      simp only [enterNode]
      cases ho : n.opens w.points with
      | none =>
          simp only [w.scopesAt_of_not_opens scopes ho, Option.isSome_none, Bool.false_eq_true,
            ↓reduceIte]
          exact (h.addSpawns _).enterAll _
      | some kind =>
          simp only [w.scopesAt_of_opens scopes ho, Option.isSome_some, ↓reduceIte]
          -- The state before this step is the one that matches the new exit.
          exact enterAll _ (.exit hr rfl ho h (ScopeStack.pop_addSpawns_push _ _ _ _))
  | .exit :: work, .exit hm hw ho hout hpop =>
      simp only [Machine.step, leaveScope, hpop, Option.some.injEq] at hs
      subst hs
      exact hout

theorem of_reaches (root : Node) (h : Reaches v w (start root) m) :
    Matched v w (start root) m.work m.scopes := by
  induction h with
  | refl => exact .enter .done
  | tail hr hs ih => exact ih.step hr hs

end Matched

/-- The exit on top of the work of `m` is the one that the entry to `n` at `m₀` left: it has been
pending ever since. -/
structure Closes (v : Visitor α) (w : Setting) (n : Node) (m₀ m : Machine α) : Prop where
  work : ∃ work, m₀.work = .enter n :: work ∧ m.work = .exit :: work
  later : Reaches v w m₀ m
  pending : ∀ m₁, Reaches v w m₀ m₁ → Reaches v w m₁ m → m₁ = m₀ ∨ m.work <:+ m₁.work

theorem Closes.of_work {first m₀ : Machine α} {n : Node} {work : List Step}
    (h₀ : Reaches v w first m₀) (h : Reaches v w first m) (hw₀ : m₀.work = .enter n :: work)
    (hw : m.work = .exit :: work) (ho : (n.opens w.points).isSome) : Closes v w n m₀ m where
  work := ⟨work, hw₀, hw⟩
  later := by
    refine h₀.of_weightAll_lt h ?_
    simp only [hw₀, hw, Step.weightAll, Step.weight, Node.size_eq]
    omega
  pending := by
    intro m₁ h₁ hm
    rcases Relation.ReflTransGen.cases_head h₁ with rfl | ⟨next, hs, hrest⟩
    · exact .inl rfl
    · right
      simp only [step, hw₀, Option.some.injEq] at hs
      have hnext : next.work = n.children.map .enter ++ m.work := by
        rw [← hs, hw]
        simp [enterNode, ho]
      -- A state that still comes to `m` has no less work, so nothing below the exit was touched.
      rcases Reaches.keeps hrest hnext with ⟨top, htop⟩ | hlt
      · exact ⟨top, htop.symm⟩
      · have := hm.weightAll_le
        omega

/-- No exit ever finds the stack of scopes empty: it closes the scope of its own node and leaves
those that were open at the node's entry. -/
theorem exit_closes (root : Node) (h : Reaches v w (start root) m) {work : List Step}
    (hw : m.work = .exit :: work) :
    ∃ m₀ n kind spawns, Reaches v w (start root) m₀ ∧ Closes v w n m₀ m ∧
      n.opens w.points = some kind ∧ m.scopes.pop = (some ⟨kind, n.span, spawns⟩, m₀.scopes) := by
  have hmatch := Matched.of_reaches root h
  rw [hw] at hmatch
  cases hmatch with
  | @exit m₀ n _ kind spawns _ hr hw₀ ho _ hpop =>
      exact ⟨m₀, n, kind, spawns, hr, .of_work hr h hw₀ hw (by simp [ho]), ho, hpop⟩

theorem scopes_run_start (root : Node) : ((start root).run v w).scopes = .empty := by
  have hrun : Reaches v w (start root) ((start root).run v w) := reaches_run _
  have hmatch := Matched.of_reaches root hrun
  rw [work_of_step_eq_none (step_run _)] at hmatch
  generalize ((start root).run v w).scopes = scopes at hmatch
  cases hmatch
  rfl

end Machine

theorem Visitor.walk_eq_visit {α : Type} (v : Visitor α) (w : Setting) (root : Node) :
    v.walk w root = (v.visit w .empty root).1 := by
  rw [Visitor.walk, Machine.run_start, List.reverse_reverse]

/-! ## Asking rules -/

mutual

/-- The violations found from a node on, with the scopes open before and after it. A node opens its
scope, counts itself if it is a task spawn, and is shown to all rules in turn. Its children follow,
and then its scope is closed and shown to all rules. -/
inductive Visits (rules : List Rule) (w : Setting) :
    ScopeStack → Node → List Violation → ScopeStack → Prop
  | plain {scopes inner rest : ScopeStack} {n : Node} {below : List Violation} :
      n.opens w.points = none →
      inner = (if n.isTaskSpawn then scopes.recordSpawn.2 else scopes) →
      VisitsAll rules w inner n.children below rest →
      Visits rules w scopes n
        ((rules.flatMap fun r => r.checkNode ⟨w.unit, inner.current, inner.spawns⟩ n) ++ below) rest
  | opening {scopes opened inner rest outer : ScopeStack} {n : Node} {kind : ScopeKind}
      {closed : Scope} {below : List Violation} :
      n.opens w.points = some kind → opened = scopes.push kind n.span →
      inner = (if n.isTaskSpawn then opened.recordSpawn.2 else opened) →
      VisitsAll rules w inner n.children below rest → rest.pop = (some closed, outer) →
      Visits rules w scopes n
        ((rules.flatMap fun r => r.checkNode ⟨w.unit, inner.current, inner.spawns⟩ n) ++ below ++
          rules.flatMap fun r => r.checkScopeExit ⟨w.unit, closed.kind, some closed.spawns⟩ closed)
        outer

/-- The same for several nodes, from left to right. -/
inductive VisitsAll (rules : List Rule) (w : Setting) :
    ScopeStack → List Node → List Violation → ScopeStack → Prop
  | nil {scopes : ScopeStack} : VisitsAll rules w scopes [] [] scopes
  | cons {scopes between rest : ScopeStack} {n : Node} {ns : List Node}
      {first others : List Violation} : Visits rules w scopes n first between →
      VisitsAll rules w between ns others rest → VisitsAll rules w scopes (n :: ns)
        (first ++ others) rest

end

variable {rules : List Rule} {w : Setting}

mutual

theorem visits_visit : (n : Node) → (scopes : ScopeStack) →
    Visits rules w scopes n ((Visitor.ofRules rules).visit w scopes n).1
      ((Visitor.ofRules rules).visit w scopes n).2
  | ⟨kind, span, children⟩, scopes => by
      have hbelow := visitsAll_visitAll children (w.scopesAt scopes ⟨kind, span, children⟩)
      rw [Visitor.visit]
      cases h : Node.opens w.points ⟨kind, span, children⟩ with
      | none => exact .plain h (w.scopesAt_eq_of_not_opens scopes h) hbelow
      | some opened =>
          -- The scope that closes is the node's own, so there is one to close.
          have hpop := Visitor.pop_visitAll_of_opens (v := Visitor.ofRules rules) scopes h
          simp only [Option.isSome_some, if_true]
          rw [hpop]
          exact .opening h rfl (w.scopesAt_eq_of_opens scopes h) hbelow hpop

theorem visitsAll_visitAll : (ns : List Node) → (scopes : ScopeStack) →
    VisitsAll rules w scopes ns ((Visitor.ofRules rules).visitAll w scopes ns).1
      ((Visitor.ofRules rules).visitAll w scopes ns).2
  | [], scopes => by
      rw [Visitor.visitAll]
      exact .nil
  | n :: ns, scopes => by
      rw [Visitor.visitAll]
      exact .cons (visits_visit n scopes) (visitsAll_visitAll ns _)

end

mutual

theorem Visits.visit_eq {scopes scopes' : ScopeStack} {n : Node} {found : List Violation}
    (h : Visits rules w scopes n found scopes') :
    (Visitor.ofRules rules).visit w scopes n = (found, scopes') := by
  obtain ⟨kind, span, children⟩ := n
  cases h with
  | plain ho hinner hbelow =>
      rw [Visitor.visit, w.scopesAt_eq_of_not_opens scopes ho, ← hinner,
        VisitsAll.visitAll_eq hbelow, ho]
      rfl
  | opening ho hopened hinner hbelow hpop =>
      rw [Visitor.visit, w.scopesAt_eq_of_opens scopes ho, ← hopened, ← hinner,
        VisitsAll.visitAll_eq hbelow, ho]
      simp only [Option.isSome_some, if_true, hpop]
      rfl

theorem VisitsAll.visitAll_eq {scopes scopes' : ScopeStack} {ns : List Node}
    {found : List Violation} (h : VisitsAll rules w scopes ns found scopes') :
    (Visitor.ofRules rules).visitAll w scopes ns = (found, scopes') := by
  cases h with
  | nil => rw [Visitor.visitAll]
  | cons hn hns =>
      rw [Visitor.visitAll, Visits.visit_eq hn]
      simp only [VisitsAll.visitAll_eq hns]

end

variable {scopes scopes' : ScopeStack} {found : List Violation}

theorem visits_iff {n : Node} : Visits rules w scopes n found scopes' ↔
    (Visitor.ofRules rules).visit w scopes n = (found, scopes') := by
  constructor
  · exact Visits.visit_eq
  · intro h
    have hvisits : Visits rules w scopes n _ _ := visits_visit n scopes
    rwa [h] at hvisits

theorem visits_empty_iff (root : Node) : Visits rules w .empty root found scopes ↔
    found = walkRules rules w root ∧ scopes = .empty := by
  rw [visits_iff, Prod.ext_iff, Visitor.visit_snd, ScopeStack.addSpawns_empty, walkRules,
    Visitor.walk_eq_visit, eq_comm, eq_comm (b := scopes)]

/-- The walk with rules is the recursion: the machine stops, with no scope open and the violations
of `visit` collected, which are those that `Visits` allows, and on the way every exit closes the
scope that its own node opened. -/
theorem walkRules_eq_visit (rules : List Rule) (w : Setting) (root : Node) :
    let v := Visitor.ofRules rules
    walkRules rules w root = (v.visit w .empty root).1 ∧
    (∀ found scopes, Visits rules w .empty root found scopes ↔
      found = walkRules rules w root ∧ scopes = .empty) ∧
    (∃ last, Machine.Reaches v w (.start root) last ∧ last.step v w = none ∧
      last.scopes = .empty ∧ last.collected.reverse = walkRules rules w root) ∧
    ∀ m work, Machine.Reaches v w (.start root) m → m.work = .exit :: work →
      ∃ m₀ n kind spawns, Machine.Reaches v w (.start root) m₀ ∧ Machine.Closes v w n m₀ m ∧
        n.opens w.points = some kind ∧
        m.scopes.pop = (some ⟨kind, n.span, spawns⟩, m₀.scopes) := by
  intro v
  refine ⟨v.walk_eq_visit w root, fun found scopes => visits_empty_iff root,
    ⟨(Machine.start root).run v w, ?_, ?_, ?_, rfl⟩, ?_⟩
  · exact Machine.reaches_run _
  · exact Machine.step_run _
  · exact Machine.scopes_run_start root
  · intro m work h hw
    exact Machine.exit_closes root h hw

/-- A function nested in another, with a spawn in each. -/
def nestedFunctions : Node :=
  ⟨.function "outer", ⟨1, 1, 0, 60⟩, [
    ⟨.function "body", ⟨2, 3, 20, 20⟩, [⟨.call (some taskType), ⟨3, 5, 30, 7⟩, []⟩]⟩,
    ⟨.call (some taskType), ⟨5, 3, 45, 7⟩, []⟩]⟩

theorem walkRules_eq_visit_nestedFunctions :
    let rules := catalog { maxTasks := 0 }
    let v := Visitor.ofRules rules
    let w : Setting := ⟨⟨stdinIdentifier, ""⟩, .builtin⟩
    (∃ found, Visits rules w .empty nestedFunctions found .empty ∧
      found.map (fun v => (v.code, v.location.line)) =
        [("CC-CONC-003", 3), ("CC-CONC-005", 2), ("CC-CONC-005", 1)]) ∧
    ∃ m work, Machine.Reaches v w (.start nestedFunctions) m ∧ m.work = .exit :: work ∧
      ∃ m₀ n kind spawns, Machine.Closes v w n m₀ m ∧
        m.scopes.pop = (some ⟨kind, n.span, spawns⟩, m₀.scopes) := by
  intro rules v w
  obtain ⟨hwalk, hvisits, _, hexits⟩ := walkRules_eq_visit rules w nestedFunctions
  have hr : ∃ m work, Machine.Reaches v w (.start nestedFunctions) m ∧ m.work = .exit :: work :=
    ⟨_, _, .tail (.tail (.tail .refl rfl) rfl) rfl, rfl⟩
  obtain ⟨m, work, hm, hw⟩ := hr
  obtain ⟨m₀, n, kind, spawns, _, hc, _, hpop⟩ := hexits m work hm hw
  refine ⟨⟨_, (hvisits _ _).mpr ⟨rfl, rfl⟩, ?_⟩, m, work, hm, hw, m₀, n, kind, spawns, hc, hpop⟩
  rw [hwalk]
  decide

end ConcurrencyLint
