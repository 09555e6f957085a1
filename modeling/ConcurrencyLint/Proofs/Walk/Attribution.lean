import ConcurrencyLint.Proofs.Walk.Trace
import ConcurrencyLint.Rule.Catalog

/-!
# Attribution of spawns

What the rules are shown on a walk, said of the tree alone: the scope in force at every node with its
count so far, and every scope at its exit with its final count.
-/

namespace ConcurrencyLint

/-! ## Scopes and their owners -/

theorem Node.opens_ne_topLevel (points : EntryPoints) (n : Node) :
    n.opens points ≠ some .topLevel := by
  unfold Node.opens
  split
  · simp
  · split <;> simp
  · split <;> simp
  · simp

theorem Node.opens_of_isTaskSpawn (points : EntryPoints) {n : Node} (h : n.isTaskSpawn) :
    n.opens points = none := by
  obtain ⟨kind, span, children⟩ := n
  cases kind <;> simp_all [Node.isTaskSpawn, Node.isCallTo, Node.callee, Node.opens]

/-- An owner opens a scope, and never one of kind `topLevel`. -/
theorem Node.opensAt?_of_owner? {points : EntryPoints} {n : Node} {a o : Address}
    (h : n.owner? points a = some o) :
    ∃ kind, n.opensAt? points o = some kind ∧ kind ≠ .topLevel := by
  have hsome := List.find?_some (p := fun b => (n.opensAt? points b).isSome) h
  obtain ⟨kind, hkind⟩ := Option.isSome_iff_exists.mp hsome
  refine ⟨kind, hkind, ?_⟩
  rintro rfl
  obtain ⟨d, _, hd⟩ := Option.bind_eq_some_iff.mp hkind
  exact d.opens_ne_topLevel points hd

/-! ## The context of every node -/

theorem entries_walk (w : Setting) (root : Node) :
    (TraceEvent.entries (tracer.walk w root)).map (Prod.map some id) =
      mapPast (fun past a => (root.at? a, root.contextAt w .empty past a)) root.addresses := by
  rw [Visitor.walk_eq_visit, TraceEvent.entries_visit]

theorem map_fst_entries_walk (w : Setting) (root : Node) :
    (TraceEvent.entries (tracer.walk w root)).map Prod.fst = root.preorder := by
  have hnodes : ((TraceEvent.entries (tracer.walk w root)).map (Prod.map some id)).map Prod.fst =
      root.preorder.map some := by
    rw [entries_walk, ← root.map_at?_addresses]
    refine map_mapPast ?_ _
    intro past a; rfl
  refine (List.map_inj_right fun _ _ => Option.some.inj).mp ?_
  rw [← hnodes, List.map_map, List.map_map]
  rfl

theorem getElem?_entries_walk (w : Setting) (root : Node) {i : Nat} {a : Address}
    (h : root.addresses[i]? = some a) :
    ∃ n, root.at? a = some n ∧ (TraceEvent.entries (tracer.walk w root))[i]? =
      some (n, root.contextAt w .empty (root.addresses.take (i + 1)) a) := by
  have hi : ((TraceEvent.entries (tracer.walk w root)).map (Prod.map some id))[i]? =
      some (root.at? a, root.contextAt w .empty (root.addresses.take (i + 1)) a) := by
    rw [entries_walk, getElem?_mapPast, h, Option.map_some]
  rw [List.getElem?_map, Option.map_eq_some_iff] at hi
  obtain ⟨⟨n, ctx⟩, he, heq⟩ := hi
  simp only [Prod.map_apply, id_eq, Prod.mk.injEq] at heq
  exact ⟨n, heq.1.symm, by rw [he, heq.2]⟩

/-- At each call on a walk, all rules are asked in turn, with the context of the call. -/
theorem walkRules_eq_flatMap (rules : List Rule) (w : Setting) (root : Node) :
    walkRules rules w root = (tracer.walk w root).flatMap fun
      | .enter n ctx => rules.flatMap fun r => r.checkNode ctx n
      | .exit closed ctx => rules.flatMap fun r => r.checkScopeExit ctx closed := by
  rw [walkRules, Visitor.walk_eq_respond]
  refine congrArg (List.flatMap · _) (funext fun event => ?_)
  cases event with
  | enter n ctx => rfl
  | exit closed ctx => rfl

/-- Every node is looked at once, in pre-order, by all rules in turn. The context it is looked at in
has the kind of its nearest scope, and the number of spawns of this scope up to and including the
node itself. -/
theorem walk_contexts (w : Setting) (root : Node) :
    let trace := tracer.walk w root
    let entered := TraceEvent.entries trace
    (∀ rules, walkRules rules w root = trace.flatMap (Visitor.ofRules rules).respond) ∧
    (∀ rules, walkRules rules w root = trace.flatMap fun
      | .enter n ctx => rules.flatMap fun r => r.checkNode ctx n
      | .exit closed ctx => rules.flatMap fun r => r.checkScopeExit ctx closed) ∧
    root.addresses.Nodup ∧ (∀ a, a ∈ root.addresses ↔ (root.at? a).isSome) ∧
    entered.map Prod.fst = root.preorder ∧
    ∀ i a, root.addresses[i]? = some a →
      ∃ n ctx, root.at? a = some n ∧ entered[i]? = some (n, ctx) ∧ ctx.unit = w.unit ∧
        (ctx.scope = .topLevel ↔ root.owner? w.points a = none) ∧
        (ctx.spawns = none ↔ root.owner? w.points a = none) ∧
        ∀ o, root.owner? w.points a = some o →
          root.opensAt? w.points o = some ctx.scope ∧
          ctx.spawns =
            some (root.spawnsOf w.points (some o) (root.addresses.take (i + 1))) := by
  refine ⟨fun rules => Visitor.walk_eq_respond _ w root,
    fun rules => walkRules_eq_flatMap rules w root,
    root.nodup_addresses, root.mem_addresses, map_fst_entries_walk w root, ?_⟩
  intro i a hi
  obtain ⟨n, hn, he⟩ := getElem?_entries_walk w root hi
  refine ⟨n, _, hn, he, ?_⟩
  cases ho : root.owner? w.points a with
  | none =>
      have hctx : root.contextAt w .empty (root.addresses.take (i + 1)) a =
          ⟨w.unit, .topLevel, none⟩ := by simp only [Node.contextAt, ho]; rfl
      rw [hctx]
      exact ⟨rfl, by simp, by simp, by simp⟩
  | some o =>
      obtain ⟨kind, hkind, hne⟩ := Node.opensAt?_of_owner? ho
      have hctx : root.contextAt w .empty (root.addresses.take (i + 1)) a =
          ⟨w.unit, kind, some (root.spawnsOf w.points (some o) (root.addresses.take (i + 1)))⟩ := by
        simp only [Node.contextAt, ho, hkind, Option.getD_some]
      rw [hctx]
      refine ⟨rfl, by simp [hne], by simp, ?_⟩
      rintro o' ⟨⟩
      exact ⟨hkind, rfl⟩

/-! ## The exit of every scope -/

def tooManySpawns (w : Setting) (severity : Severity) (c : Scope) : Violation where
  code := "CC-CONC-005"
  rule := "excessive-concurrent-spawns"
  severity := severity
  location := ⟨w.unit.identifier, c.span.line, c.span.column, c.span.offset, c.span.length⟩
  message := "Too many concurrent Tasks (" ++ toString c.spawns ++ ") in single function"
  suggestion := some "Use `withTaskGroup` to run the work as child tasks"

theorem closings_walk (w : Setting) (root : Node) :
    TraceEvent.closings (tracer.walk w root) =
      (root.addressesUp.filterMap (root.scopeAt? w.points)).map fun c => (c, w.exitContext c) := by
  rw [Visitor.walk_eq_visit, TraceEvent.closings_visit]

theorem checkScopeExit_excessiveSpawns (severity : Severity) (o : RuleOptions) (w : Setting)
    (c : Scope) :
    (BuiltinRule.excessiveSpawns.ruleWith severity o).checkScopeExit (w.exitContext c) c =
      (if o.maxTasks < c.spawns then some (tooManySpawns w severity c) else none).toList := by
  simp only [BuiltinRule.ruleWith, BuiltinRule.inspectScope]
  split <;> rfl

theorem walkRules_excessiveSpawns (severity : Severity) (o : RuleOptions) (w : Setting)
    (root : Node) :
    walkRules [BuiltinRule.excessiveSpawns.ruleWith severity o] w root =
      (root.addressesUp.filterMap (root.scopeAt? w.points)).filterMap fun c =>
        if o.maxTasks < c.spawns then some (tooManySpawns w severity c) else none := by
  rw [walkRules, Visitor.walk_eq_respond, TraceEvent.flatMap_eq_closings _ (fun _ _ => rfl),
    closings_walk, List.flatMap_map, List.filterMap_eq_flatMap_toList _ (List.filterMap _ _)]
  refine congrArg (List.flatMap · _) (funext fun c => ?_)
  rw [← checkScopeExit_excessiveSpawns]
  exact List.append_nil _

/-- The calls at scope exits: one for every node that opens a scope, in post-order, with the kind and
the place of the node and the spawns that it owns. A spawn opens no scope, so its owner is above it.
All spawns are owned by these scopes but those with no scope around them, and the rule on excessive
spawns reports the scopes whose spawns exceed its limit. -/
theorem walk_exits (w : Setting) (root : Node) :
    let trace := tracer.walk w root
    let scopes := root.addressesUp.filterMap (root.scopeAt? w.points)
    (∀ rules, walkRules rules w root = trace.flatMap (Visitor.ofRules rules).respond) ∧
    root.addressesUp.Nodup ∧ (∀ a, a ∈ root.addressesUp ↔ (root.at? a).isSome) ∧
    TraceEvent.closings trace = scopes.map (fun c => (c, w.exitContext c)) ∧
    (∀ n : Node, n.isTaskSpawn → n.opens w.points = none) ∧
    (scopes.map Scope.spawns).sum + root.spawnsOf w.points none root.addresses =
      root.preorder.countP Node.isTaskSpawn ∧
    ∀ severity o, walkRules [BuiltinRule.excessiveSpawns.ruleWith severity o] w root =
      scopes.filterMap fun c =>
        if o.maxTasks < c.spawns then some (tooManySpawns w severity c) else none := by
  refine ⟨fun rules => Visitor.walk_eq_respond _ w root, ?_, ?_, closings_walk w root,
    fun n => Node.opens_of_isTaskSpawn w.points, ?_,
    fun severity o => walkRules_excessiveSpawns severity o w root⟩
  · exact root.addressesUp_perm.nodup_iff.mpr root.nodup_addresses
  · intro a
    rw [root.addressesUp_perm.mem_iff, root.mem_addresses]
  · have hsum := TraceEvent.sum_spawns_closings (w := w) root .empty
    rw [TraceEvent.closings_visit, List.map_map] at hsum
    exact hsum

-- A spawn after a nested declaration goes back to the outer one.
example :
    let spawn (line : Nat) : Node := ⟨.call (some taskType), ⟨line, 1, 0, 0⟩, []⟩
    let inner : Node := ⟨.initializer, ⟨3, 1, 0, 0⟩, [spawn 4]⟩
    let outer : Node := ⟨.function "f", ⟨1, 1, 0, 0⟩, [spawn 2, inner, spawn 5]⟩
    outer.addressesUp.filterMap (outer.scopeAt? .builtin) =
      [⟨.initializer, ⟨3, 1, 0, 0⟩, 1⟩, ⟨.function, ⟨1, 1, 0, 0⟩, 2⟩] := by
  decide

end ConcurrencyLint
