import ConcurrencyLint.Proofs.Walk.Segments

/-!
# The order of a walk

Two loops go through a tree with a stack each: the one that lists the descendants of a node, and the
machine of a walk, whose stack also holds the exits of scopes. Both take the nodes in the structural
pre-order. For the machine, the nodes it has shown to the visitor and those that its work has still
to enter are together always the same listing.
-/

namespace ConcurrencyLint

namespace Machine

variable {α : Type} {v : Visitor α} {w : Setting} {m m' last : Machine α} {n : Node}
  {work : List Step} {ns : List Node}

/-- From one state the machine comes to another and shows the listed nodes to the visitor on the
way, one at each entry and none at an exit. -/
inductive Shows (v : Visitor α) (w : Setting) : Machine α → List Node → Machine α → Prop
  | refl (m : Machine α) : Shows v w m [] m
  | enter {m m' last : Machine α} {n : Node} {work : List Step} {ns : List Node} :
      m.work = .enter n :: work → m.step v w = some m' → Shows v w m' ns last →
      Shows v w m (n :: ns) last
  | exit {m m' last : Machine α} {work : List Step} {ns : List Node} :
      m.work = .exit :: work → m.step v w = some m' → Shows v w m' ns last → Shows v w m ns last

/-! ## One step -/

theorem step_enter (hw : m.work = .enter n :: work) :
    m.step v w = some (enterNode v w n work m.scopes m.collected) := by
  rw [step, hw]

theorem step_exit (hw : m.work = .exit :: work) :
    m.step v w = some (leaveScope v w work m.scopes m.collected) := by
  rw [step, hw]

theorem leaveScope_collected (work : List Step) (scopes : ScopeStack) (collected : List α) :
    (leaveScope v w work scopes collected).collected =
      (scopes.pop.1.toList.flatMap fun s => v.leave (w.exitContext s) s).reverse ++ collected := by
  obtain ⟨frames⟩ := scopes
  cases frames with
  | nil => rfl
  | cons frame outer =>
      rw [ScopeStack.pop, List.head?_cons, Option.toList_some, List.flatMap_singleton]
      rfl

/-- Entering a node leaves the nodes after it to enter. -/
theorem nodes_of_enter (hw : m.work = .enter n :: work) (hs : m.step v w = some m') :
    Step.nodes m.work = n :: Step.nodes m'.work := by
  rw [step_enter hw] at hs
  cases hs
  rw [nodes_enterNode, hw, Step.nodes, n.preorder_eq]
  rfl

/-- An exit leaves the same nodes to enter. -/
theorem nodes_of_exit (hw : m.work = .exit :: work) (hs : m.step v w = some m') :
    Step.nodes m.work = Step.nodes m'.work := by
  rw [step_exit hw] at hs
  cases hs
  rw [leaveScope_work, hw, Step.nodes]

/-! ## Whole runs -/

theorem Shows.nodes_eq (h : Shows v w m ns last) :
    Step.nodes m.work = ns ++ Step.nodes last.work := by
  induction h with
  | refl => rfl
  | enter hw hs _ ih => rw [nodes_of_enter hw hs, ih, List.cons_append]
  | exit hw hs _ ih => rw [nodes_of_exit hw hs, ih]

theorem exists_shows (h : Reaches v w m last) : ∃ ns, Shows v w m ns last := by
  induction h using Relation.ReflTransGen.head_induction_on with
  | refl => exact ⟨[], .refl last⟩
  | @head m m' hs _ ih =>
      obtain ⟨ns, hns⟩ := ih
      cases hw : m.work with
      | nil => rw [step, hw] at hs; cases hs
      | cons s work =>
          cases s with
          | enter n => exact ⟨n :: ns, .enter hw hs hns⟩
          | exit => exact ⟨ns, .exit hw hs hns⟩

theorem nodes_start (root : Node) : Step.nodes (start (α := α) root).work = root.descendants := by
  rw [start, Step.nodes, Step.nodes, List.append_nil, Node.descendants_eq_preorder]

theorem Shows.isPrefix {root : Node} (h : Shows v w (start root) ns m) :
    ns <+: root.descendants := by
  rw [← nodes_start, h.nodes_eq]
  exact List.prefix_append _ _

theorem Shows.eq_descendants {root : Node} (h : Shows v w (start root) ns m)
    (hdone : m.step v w = none) : ns = root.descendants := by
  rw [← nodes_start, h.nodes_eq, work_of_step_eq_none hdone, Step.nodes, List.append_nil]

theorem shows_run (v : Visitor α) (w : Setting) (root : Node) :
    Shows v w (start root) root.descendants ((start root).run v w) := by
  obtain ⟨ns, hns⟩ := exists_shows (reaches_run (v := v) (w := w) (start root))
  rwa [hns.eq_descendants (step_run _)] at hns

end Machine

/-- The iterator over the descendants of a node comes to its end and has then yielded the tree in
its structural pre-order, the node at each address once. A walk asks its rules about the same nodes
in the same order, whatever the rules and the entry points are: each entry asks them about one node,
and an exit asks them about the scope that it closes. -/
theorem walkRules_preorder (root : Node) :
    (∀ ns, Node.Yields [root] ns ↔ ns = root.descendants) ∧
    root.descendants = root.preorder ∧
    (∀ n : Node, n.preorder = n :: n.children.flatMap Node.preorder) ∧
    (root.addresses.Nodup ∧ (∀ a, a ∈ root.addresses ↔ (root.at? a).isSome) ∧
      root.addresses.map root.at? = root.descendants.map some) ∧
    ∀ (rules : List Rule) (w : Setting),
      let v := Visitor.ofRules rules
      (∃ last, Machine.Shows v w (.start root) root.descendants last ∧ last.step v w = none ∧
        last.collected.reverse = walkRules rules w root) ∧
      (∀ ns m, Machine.Shows v w (.start root) ns m →
        ns <+: root.descendants ∧ (m.step v w = none → ns = root.descendants)) ∧
      (∀ (m : Machine Violation) n work, m.work = .enter n :: work →
        let ctx := w.nodeContext (w.scopesAt m.scopes n)
        ∃ m', m.step v w = some m' ∧
          m'.collected = (rules.flatMap fun r => r.checkNode ctx n).reverse ++ m.collected) ∧
      ∀ (m : Machine Violation) work, m.work = .exit :: work →
        let said (s : Scope) := rules.flatMap fun r => r.checkScopeExit (w.exitContext s) s
        ∃ m', m.step v w = some m' ∧
          m'.collected = (m.scopes.pop.1.toList.flatMap said).reverse ++ m.collected := by
  refine ⟨fun ns => Node.yields_singleton_iff, root.descendants_eq_preorder, fun n => ?_, ?_, ?_⟩
  · rw [n.preorder_eq, Node.preorderAll_eq_flatMap]
  · rw [root.descendants_eq_preorder]
    exact ⟨root.nodup_addresses, root.mem_addresses, root.map_at?_addresses⟩
  · intro rules w v
    refine ⟨⟨_, Machine.shows_run v w root, Machine.step_run _, rfl⟩, ?_, ?_, ?_⟩
    · intro ns m h
      exact ⟨h.isPrefix, h.eq_descendants⟩
    · intro m n work hw ctx
      exact ⟨_, Machine.step_enter hw, rfl⟩
    · intro m work hw said
      exact ⟨_, Machine.step_exit hw, Machine.leaveScope_collected work m.scopes m.collected⟩

-- The exit of the inner function is pending between the third node and the last one.
theorem walkRules_preorder_nestedFunctions :
    let w : Setting := ⟨⟨stdinIdentifier, ""⟩, .builtin⟩
    let v := Visitor.ofRules (catalog {})
    let task : Node := ⟨.call (some taskType), ⟨3, 5, 30, 7⟩, []⟩
    let inner : Node := ⟨.function "body", ⟨2, 3, 20, 20⟩, [task]⟩
    let spawn : Node := ⟨.call (some taskType), ⟨5, 3, 45, 7⟩, []⟩
    (∃ m, Machine.Shows v w (.start nestedFunctions) [nestedFunctions, inner, task] m ∧
      m.work = [.exit, .enter spawn, .exit]) ∧
    [nestedFunctions, inner, task] <+: nestedFunctions.descendants ∧
    Node.Yields [nestedFunctions] [nestedFunctions, inner, task, spawn] ∧
    [nestedFunctions, inner, task, spawn] = nestedFunctions.descendants := by
  intro w v task inner spawn
  obtain ⟨hyields, -, -, -, hwalk⟩ := walkRules_preorder nestedFunctions
  obtain ⟨-, hshown, -, -⟩ := hwalk (catalog {}) w
  have hshows : ∃ m, Machine.Shows v w (.start nestedFunctions) [nestedFunctions, inner, task] m ∧
      m.work = [.exit, .enter spawn, .exit] :=
    ⟨_, .enter rfl rfl (.enter rfl rfl (.enter rfl rfl (.refl _))), rfl⟩
  have hnext : Node.Yields [nestedFunctions] [nestedFunctions, inner, task, spawn] :=
    .more rfl (.more rfl (.more rfl (.more rfl (.done rfl))))
  obtain ⟨m, hm, hwork⟩ := hshows
  exact ⟨⟨m, hm, hwork⟩, (hshown _ m hm).1, hnext, (hyields _).mp hnext⟩

end ConcurrencyLint
