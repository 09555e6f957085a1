import ConcurrencyLint.Proofs.Node.Descendants
import ConcurrencyLint.Proofs.Walk.Recursion
import ConcurrencyLint.Proofs.Walk.Scopes
import ConcurrencyLint.Rule.Builtin

/-!
# Segments of a walk

What a machine collects from the entry to a node until the node is done is a segment of its output.
Of the open scopes the rules see only the innermost one, so the segment of a node that opens a scope
is the walk of this node alone. Outside all scopes nothing is counted, so there the segment of a node
is what the rules say of the node itself, followed by the walks of its children.
-/

namespace ConcurrencyLint

/-! ## The innermost scope -/

/-- The innermost scopes of the stacks are equal, or neither stack has one. The scopes further out
may differ. -/
def ScopeStack.SameTop (s s' : ScopeStack) : Prop := s.frames.head? = s'.frames.head?

namespace ScopeStack.SameTop

variable {s s' : ScopeStack} {w : Setting}

theorem push (s s' : ScopeStack) (kind : ScopeKind) (span : Span) :
    (s.push kind span).SameTop (s'.push kind span) := rfl

theorem addSpawns (h : s.SameTop s') (k : Nat) : (s.addSpawns k).SameTop (s'.addSpawns k) := by
  obtain ⟨frames⟩ := s
  obtain ⟨frames'⟩ := s'
  match frames, frames', h with
  | [], [], _ => rfl
  | frame :: outer, frame' :: outer', h =>
      cases h
      rfl

theorem scopesAt (h : s.SameTop s') (n : Node) : (w.scopesAt s n).SameTop (w.scopesAt s' n) := by
  cases ho : n.opens w.points with
  | none =>
      rw [w.scopesAt_of_not_opens s ho, w.scopesAt_of_not_opens s' ho]
      exact h.addSpawns _
  | some kind =>
      rw [w.scopesAt_of_opens s ho, w.scopesAt_of_opens s' ho]
      exact (push s s' kind n.span).addSpawns _

theorem nodeContext (h : s.SameTop s') : w.nodeContext s = w.nodeContext s' := by
  obtain ⟨frames⟩ := s
  obtain ⟨frames'⟩ := s'
  match frames, frames', h with
  | [], [], _ => rfl
  | frame :: outer, frame' :: outer', h =>
      cases h
      rfl

end ScopeStack.SameTop

namespace Visitor

variable {α : Type} {v : Visitor α} {w : Setting} {s s' : ScopeStack} {n : Node}

mutual

theorem visit_of_sameTop : (n : Node) → {s s' : ScopeStack} → s.SameTop s' →
    (v.visit w s n).1 = (v.visit w s' n).1
  | ⟨kind, span, children⟩, s, s', h => by
      have hinner := h.scopesAt (w := w) ⟨kind, span, children⟩
      rw [visit_fst, visit_fst, hinner.nodeContext, visitAll_of_sameTop children hinner]

theorem visitAll_of_sameTop : (ns : List Node) → {s s' : ScopeStack} → s.SameTop s' →
    (v.visitAll w s ns).1 = (v.visitAll w s' ns).1
  | [], s, s', _ => by rw [visitAll, visitAll]
  | n :: ns, s, s', h => by
      rw [visitAll_cons, visitAll_cons, visit_of_sameTop n h,
        visitAll_of_sameTop ns (h.addSpawns _)]

end

/-- A node that opens a scope is walked as if it stood alone, and leaves the scopes around it as they
are. -/
theorem visit_of_opens (s : ScopeStack) (h : (n.opens w.points).isSome) :
    v.visit w s n = (v.walk w n, s) := by
  obtain ⟨kind, hkind⟩ := Option.isSome_iff_exists.mp h
  have htop : (w.scopesAt s n).SameTop (w.scopesAt .empty n) := by
    rw [w.scopesAt_of_opens s hkind, w.scopesAt_of_opens .empty hkind]
    exact (ScopeStack.SameTop.push s .empty kind n.span).addSpawns _
  refine Prod.ext ?_ ?_
  · rw [walk_eq_visit, visit_fst, visit_fst n .empty, htop.nodeContext, visitAll_of_sameTop _ htop]
  · rw [visit_snd, n.addresses_eq, Node.spawnsOf_none_of_opens _ hkind, ScopeStack.addSpawns_zero]

theorem visitAll_empty (ns : List Node) : (v.visitAll w .empty ns).1 = ns.flatMap (v.walk w) := by
  induction ns with
  | nil => rw [visitAll, List.flatMap_nil]
  | cons n ns ih =>
      rw [visitAll_cons, ScopeStack.addSpawns_empty, ih, List.flatMap_cons, walk_eq_visit]

/-- Outside all scopes, a node that opens none is looked at in the context of no scope, and its
children are walked one after the other. -/
theorem walk_of_not_opens (h : n.opens w.points = none) :
    v.walk w n = v.enter ⟨w.unit, .topLevel, none⟩ n ++ n.children.flatMap (v.walk w) := by
  rw [walk_eq_visit, visit_fst, w.scopesAt_of_not_opens _ h, ScopeStack.addSpawns_empty,
    visitAll_empty, Node.scopeAt?_nil, h]
  exact List.append_nil _

end Visitor

/-! ## Coming to a node -/

/-- The nodes that pending work has still to enter, in order. -/
def Step.nodes : List Step → List Node
  | [] => []
  | .enter n :: work => n.preorder ++ nodes work
  | .exit :: work => nodes work

theorem Step.nodes_enterAll (ns : List Node) (work : List Step) :
    nodes (ns.map .enter ++ work) = Node.preorderAll ns ++ nodes work := by
  induction ns with
  | nil => rfl
  | cons n ns ih =>
      rw [List.map_cons, List.cons_append, nodes, ih, Node.preorderAll, List.append_assoc]

namespace Machine

variable {α : Type} {v : Visitor α} {w : Setting} {m m' first last : Machine α} {n : Node}

/-- The machine is about to enter the `i`-th node of a listing: of the nodes in the listing it has
entered those before the `i`-th, and has still to enter the others. -/
structure Enters (listing : List Node) (i : Nat) (n : Node) (m : Machine α) : Prop where
  work : ∃ work, m.work = .enter n :: work
  pending : Step.nodes m.work = listing.drop i

theorem nodes_enterNode (n : Node) (work : List Step) (scopes : ScopeStack) (collected : List α) :
    Step.nodes (enterNode v w n work scopes collected).work =
      (Step.nodes (.enter n :: work)).drop 1 := by
  have hafter : Step.nodes (if (n.opens w.points).isSome then .exit :: work else work) =
      Step.nodes work := by
    split <;> rfl
  rw [enterNode, Step.nodes_enterAll, hafter, Step.nodes, n.preorder_eq]
  rfl

/-- From `m` the machine comes to a state that is about to enter the `i`-th of its pending nodes,
which is `n`. If the node is `outside` all scopes and none is open at `m`, none is open there. -/
def ComesTo (v : Visitor α) (w : Setting) (m : Machine α) (i : Nat) (n : Node) (outside : Prop) :
    Prop :=
  ∃ m', Reaches v w m m' ∧ m'.Enters (Step.nodes m.work) i n ∧
    (outside → m.scopes = .empty → m'.scopes = .empty)

theorem ComesTo.after {i j : Nat} {outside outside' : Prop} (h : ComesTo v w m' i n outside)
    (hr : Reaches v w m m') (hnodes : Step.nodes m'.work = (Step.nodes m.work).drop j)
    (hscopes : outside' → m.scopes = .empty → m'.scopes = .empty) (houtside : outside' → outside) :
    ComesTo v w m (j + i) n outside' := by
  obtain ⟨m'', hr', ⟨hwork, hpending⟩, hscopes'⟩ := h
  refine ⟨m'', hr.trans hr', ⟨hwork, ?_⟩, fun ho he => hscopes' (houtside ho) (hscopes ho he)⟩
  rw [hpending, hnodes, List.drop_drop]

mutual

theorem comesTo_enter : (n : Node) → (i : Nat) → {a : Address} → n.addresses[i]? = some a →
    (work : List Step) → (scopes : ScopeStack) → (collected : List α) →
    ∃ d, n.at? a = some d ∧
      ComesTo v w ⟨.enter n :: work, scopes, collected⟩ i d (n.owner? w.points a = none)
  | n, 0, a, hi, work, scopes, collected => by
      rw [n.addresses_eq] at hi
      cases hi
      exact ⟨n, n.at?_nil, _, .refl, ⟨⟨work, rfl⟩, rfl⟩, fun _ he => he⟩
  | ⟨kind, span, children⟩, i + 1, a, hi, work, scopes, collected => by
      rw [Node.addresses, List.getElem?_cons_succ, List.getElem?_map, Option.map_eq_some_iff] at hi
      obtain ⟨p, hp, rfl⟩ := hi
      let n : Node := ⟨kind, span, children⟩
      have hnone : n.owner? w.points p.below = none →
          Node.ownerAll? w.points children p = none ∧ n.opens w.points = none := by
        simp [n, Node.owner?_below, Node.owner?_nil]
      obtain ⟨d, hd, hcomes⟩ := comesTo_enterAll children i hp
        (if (n.opens w.points).isSome then .exit :: work else work) (w.scopesAt scopes n)
        ((v.enter (w.nodeContext (w.scopesAt scopes n)) n).reverse ++ collected)
      refine ⟨d, (n.at?_below p).trans hd, ?_⟩
      rw [Nat.add_comm i 1]
      refine hcomes.after (.single rfl) (nodes_enterNode n work scopes collected) ?_
        fun ho => (hnone ho).1
      rintro ho rfl
      exact (w.scopesAt_of_not_opens .empty (hnone ho).2).trans (ScopeStack.addSpawns_empty _)

theorem comesTo_enterAll : (ns : List Node) → (i : Nat) → {p : Place} →
    (Node.addressesAll ns)[i]? = some p →
    (work : List Step) → (scopes : ScopeStack) → (collected : List α) →
    ∃ d, Node.atAll? ns p = some d ∧
      ComesTo v w ⟨ns.map .enter ++ work, scopes, collected⟩ i d
        (Node.ownerAll? w.points ns p = none)
  | [], i, p, hi, work, scopes, collected => by simp [Node.addressesAll] at hi
  | n :: ns, i, p, hi, work, scopes, collected => by
      rw [Node.addressesAll] at hi
      by_cases hlt : i < n.addresses.length
      · rw [List.getElem?_append_left (by simpa using hlt), List.getElem?_map,
          Option.map_eq_some_iff] at hi
        obtain ⟨a, ha, rfl⟩ := hi
        have hfirst := comesTo_enter n i ha (ns.map .enter ++ work) scopes collected
        rw [Node.atAll?_first, Node.ownerAll?_first, Option.map_eq_none_iff]
        exact hfirst
      · rw [List.getElem?_append_right (by simpa using hlt), List.length_map, List.getElem?_map,
          Option.map_eq_some_iff] at hi
        obtain ⟨q, hq, rfl⟩ := hi
        -- The first tree is done before the place comes up.
        have hdone := reaches_enter (v := v) (w := w) n (ns.map .enter ++ work) scopes collected
        obtain ⟨d, hd, hcomes⟩ := comesTo_enterAll ns (i - n.addresses.length) hq
          work (v.visit w scopes n).2 ((v.visit w scopes n).1.reverse ++ collected)
        refine ⟨d, (Node.atAll?_later n ns q).trans hd, ?_⟩
        rw [← Nat.add_sub_of_le (Nat.le_of_not_lt hlt), Node.ownerAll?_later,
          Option.map_eq_none_iff]
        refine hcomes.after hdone ?_ ?_ id
        · rw [List.map_cons, List.cons_append, Step.nodes, n.length_addresses, List.drop_left]
        · rintro - rfl
          exact (Visitor.visit_snd n .empty).trans (ScopeStack.addSpawns_empty _)

end

/-! ## Doing a node -/

/-- From `first` to `last` the machine does the node `n`, with all that is below it and nothing else.
It collects `found` on the way, and the open scopes are afterwards what they were before. -/
structure Segment (v : Visitor α) (w : Setting) (n : Node) (found : List α)
    (first last : Machine α) : Prop where
  work : first.work = .enter n :: last.work
  later : Reaches v w first last
  collected : last.collected = found.reverse ++ first.collected
  scopes : last.scopes = first.scopes

/-- What has been collected stays. -/
theorem Reaches.collected_suffix (h : Reaches v w m m') : m.collected <:+ m'.collected := by
  induction h with
  | refl => exact List.suffix_rfl
  | @tail m₁ m₂ _ hs ih =>
      refine ih.trans ?_
      obtain ⟨work, scopes, collected⟩ := m₁
      match work with
      | [] => simp [step] at hs
      | .enter n :: work =>
          simp only [step, Option.some.injEq] at hs
          subst hs
          exact List.suffix_append _ _
      | .exit :: work =>
          simp only [step, leaveScope, Option.some.injEq] at hs
          subst hs
          split
          · exact List.suffix_append _ _
          · exact List.suffix_rfl

theorem Segment.walk_eq {found : List α} {root : Node} (h : Segment v w n found first last)
    (hr : Reaches v w (start root) first) :
    ∃ later, v.walk w root = first.collected.reverse ++ found ++ later := by
  have hrun : (start root).run v w = last.run v w := Reaches.run_eq (hr.trans h.later)
  obtain ⟨later, hlater⟩ := (reaches_run (v := v) (w := w) last).collected_suffix
  refine ⟨later.reverse, ?_⟩
  rw [Visitor.walk, hrun, ← hlater, h.collected]
  simp

theorem segment_visit {scopes : ScopeStack} (hscopes : (v.visit w scopes n).2 = scopes)
    (work : List Step) (collected : List α) :
    Segment v w n (v.visit w scopes n).1 ⟨.enter n :: work, scopes, collected⟩
      ⟨work, scopes, (v.visit w scopes n).1.reverse ++ collected⟩ where
  work := rfl
  later := by
    have hdone := reaches_enter (v := v) (w := w) n work scopes collected
    rwa [hscopes] at hdone
  collected := rfl
  scopes := rfl

/-- A node that opens a scope is done when this scope closes, and its segment is its own walk. -/
theorem exists_segment_of_opens (ho : (n.opens w.points).isSome) (work : List Step)
    (scopes : ScopeStack) (collected : List α) :
    let first : Machine α := ⟨.enter n :: work, scopes, collected⟩
    ∃ exit last, Reaches v w first exit ∧ exit.work = .exit :: work ∧ exit.step v w = some last ∧
      Segment v w n (v.walk w n) first last := by
  obtain ⟨kind, hkind⟩ := Option.isSome_iff_exists.mp ho
  let inner := w.scopesAt scopes n
  -- The children are done, and the exit of the node's scope is next.
  have hbelow : Reaches v w ⟨.enter n :: work, scopes, collected⟩
      ⟨.exit :: work, (v.visitAll w inner n.children).2,
        (v.visitAll w inner n.children).1.reverse ++
          ((v.enter (w.nodeContext inner) n).reverse ++ collected)⟩ := by
    refine .head ?_ (reaches_enterAll n.children (.exit :: work) inner _)
    simp only [step, enterNode, ho, ↓reduceIte]
    rfl
  have hvisit := Visitor.visit_of_opens (v := v) scopes ho
  have hscopes : (v.visit w scopes n).2 = scopes := by rw [hvisit]
  have hsegment := segment_visit hscopes work collected
  rw [hvisit] at hsegment
  refine ⟨_, _, hbelow, rfl, ?_, hsegment⟩
  have hwalk : v.walk w n = _ := (congrArg Prod.fst hvisit).symm.trans (Visitor.visit_fst n scopes)
  rw [Node.scopeAt?_nil, hkind] at hwalk
  simp only [step, leaveScope, inner, Visitor.pop_visitAll_of_opens scopes hkind, hwalk,
    Option.map_some, Option.toList_some, List.flatMap_singleton, List.reverse_append,
    List.append_assoc]

/-- Outside all scopes, the segment of a node that opens none is what is said of the node in the
context of no scope, and the walks of its children. -/
theorem exists_segment_outside (ho : n.opens w.points = none) (work : List Step)
    (collected : List α) :
    ∃ last, Segment v w n
      (v.enter ⟨w.unit, .topLevel, none⟩ n ++ n.children.flatMap (v.walk w))
      ⟨.enter n :: work, .empty, collected⟩ last := by
  have hempty : (v.visit w .empty n).2 = .empty := by
    rw [Visitor.visit_snd, ScopeStack.addSpawns_empty]
  have hsegment := segment_visit hempty work collected
  rw [← Visitor.walk_eq_visit, Visitor.walk_of_not_opens ho] at hsegment
  exact ⟨_, hsegment⟩

end Machine

theorem Node.opens_of_owner?_eq_none {points : EntryPoints} {root n : Node} {a : Address}
    (ha : root.at? a = some n) (h : root.owner? points a = none) : n.opens points = none := by
  have hmem : a ∈ a.inits := (List.mem_inits a a).mpr List.prefix_rfl
  have hself := List.find?_eq_none.mp h a (List.mem_reverse.mpr hmem)
  simpa [Node.opensAt?, ha] using hself

/-- Scopes are isolated. Every node of a tree is entered in its turn; what is found from the entry to
a node that opens a scope until this scope closes is a segment of what the walk finds, it is what the
walk of the node alone finds, and the open scopes are afterwards what they were before. The segment
of a node that no scope is around is what the rules say of the node outside all scopes, and the walks
of its children, so the declarations of a unit are walked independently of each other. -/
theorem walkRules_segments (rules : List Rule) (w : Setting) (root : Node) :
    let v := Visitor.ofRules rules
    let alone (n : Node) := walkRules rules w n
    let outside (n : Node) := rules.flatMap (fun r => r.checkNode ⟨w.unit, .topLevel, none⟩ n) ++
      n.children.flatMap alone
    (∀ i a n, root.addresses[i]? = some a → root.at? a = some n →
      ∃ first, Machine.Reaches v w (.start root) first ∧ first.Enters root.preorder i n ∧
        ((n.opens w.points).isSome → ∃ exit last, Machine.Closes v w n first exit ∧
          exit.step v w = some last ∧ Machine.Segment v w n (alone n) first last ∧
          ∃ later, alone root = first.collected.reverse ++ alone n ++ later) ∧
        (root.owner? w.points a = none → ∃ last, Machine.Segment v w n (outside n) first last ∧
          ∃ later, alone root = first.collected.reverse ++ outside n ++ later)) ∧
    (root.opens w.points = none → alone root = outside root) := by
  intro v alone outside
  refine ⟨?_, Visitor.walk_of_not_opens⟩
  intro i a n hi ha
  obtain ⟨d, hd, first, hr, henters, hscopes⟩ :=
    Machine.comesTo_enter (v := v) (w := w) root i hi [] .empty []
  cases ha.symm.trans hd
  rw [Step.nodes, Step.nodes, List.append_nil] at henters
  refine ⟨first, hr, henters, ?_, ?_⟩
  · intro ho
    obtain ⟨work, scopes, collected⟩ := first
    obtain ⟨work, rfl⟩ := henters.work
    obtain ⟨exit, last, hexit, hwork, hstep, hsegment⟩ :=
      Machine.exists_segment_of_opens (v := v) ho work scopes collected
    exact ⟨exit, last, .of_work hr (hr.trans hexit) rfl hwork ho, hstep, hsegment,
      hsegment.walk_eq hr⟩
  · intro ho
    obtain ⟨work, scopes, collected⟩ := first
    obtain ⟨work, rfl⟩ := henters.work
    cases hscopes ho rfl
    obtain ⟨last, hsegment⟩ := Machine.exists_segment_outside (v := v)
      (Node.opens_of_owner?_eq_none ha ho) work collected
    exact ⟨last, hsegment, hsegment.walk_eq hr⟩

-- The inner function renders. Its task is found in the walk of the file as it is found without the
-- functions around it, and the task after both functions is in no scope.
theorem walkRules_segments_nestedFunctions :
    let w : Setting := ⟨⟨stdinIdentifier, ""⟩, .builtin⟩
    let rules := catalog {}
    let v := Visitor.ofRules rules
    let inner : Node :=
      ⟨.function "body", ⟨2, 3, 20, 20⟩, [⟨.call (some taskType), ⟨3, 5, 30, 7⟩, []⟩]⟩
    let spawn : Node := ⟨.call (some taskType), ⟨6, 1, 61, 7⟩, []⟩
    let root : Node := ⟨.sourceFile none, ⟨1, 1, 0, 68⟩, [nestedFunctions, spawn]⟩
    root.addresses[2]? = some [0, 0] ∧ (inner.opens w.points).isSome ∧
    (walkRules rules w inner).map (·.code) = ["CC-CONC-003"] ∧
    (∃ first exit last, first.Enters root.preorder 2 inner ∧ Machine.Closes v w inner first exit ∧
      exit.step v w = some last ∧ last.scopes = first.scopes ∧
      last.collected = (walkRules rules w inner).reverse ++ first.collected) ∧
    root.addresses[5]? = some [1] ∧ root.owner? w.points [1] = none ∧
    (∃ first last, first.Enters root.preorder 5 spawn ∧
      Machine.Segment v w spawn
        (rules.flatMap (fun r => r.checkNode ⟨w.unit, .topLevel, none⟩ spawn) ++ []) first last) ∧
    walkRules rules w root =
      rules.flatMap (fun r => r.checkNode ⟨w.unit, .topLevel, none⟩ root) ++
        [nestedFunctions, spawn].flatMap (walkRules rules w) := by
  intro w rules v inner spawn root
  obtain ⟨hnodes, hroot⟩ := walkRules_segments rules w root
  obtain ⟨first, _, henters, hscope, _⟩ := hnodes 2 [0, 0] inner rfl rfl
  obtain ⟨exit, last, hcloses, hstep, hsegment, _⟩ := hscope rfl
  obtain ⟨first', _, henters', _, houtside⟩ := hnodes 5 [1] spawn rfl rfl
  obtain ⟨last', hsegment', _⟩ := houtside rfl
  refine ⟨rfl, rfl, ?_, ⟨first, exit, last, henters, hcloses, hstep, hsegment.scopes,
    hsegment.collected⟩, rfl, rfl, ⟨first', last', henters', hsegment'⟩, hroot rfl⟩
  rw [walkRules, Visitor.walk_eq_visit]
  rfl

end ConcurrencyLint
