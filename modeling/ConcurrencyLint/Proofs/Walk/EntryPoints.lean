import ConcurrencyLint.Proofs.Rule.Selection
import Mathlib.Data.List.Forall2

/-!
# More entry points

A further entry point turns the scopes of some functions into scopes of rendering and changes
nothing else. So two machines that walk a tree, one under more entry points than the other, go in
lock step: they have the same work, and their open scopes differ at most in kind.
-/

namespace ConcurrencyLint

/-! ## Sets of entry points -/

namespace EntryPoints

theorem contains_insert (points : EntryPoints) (extra name : String) :
    (points.insert extra).contains name ↔ points.contains name ∨ name = extra := by
  rw [insert]
  split
  case isTrue h =>
    constructor
    · exact Or.inl
    · rintro (hname | rfl)
      · exact hname
      · exact h
  case isFalse h => simp [contains]

theorem contains_foldl_insert (points : EntryPoints) (extra : List String) (name : String) :
    (extra.foldl insert points).contains name ↔ points.contains name ∨ name ∈ extra := by
  induction extra generalizing points with
  | nil => simp
  | cons first extra ih => rw [List.foldl_cons, ih, contains_insert, List.mem_cons, or_assoc]

theorem contains_withExtra (extra : List String) (name : String) :
    (withExtra extra).contains name ↔ name ∈ builtin.names ∨ name ∈ extra := by
  rw [withExtra, contains_foldl_insert, contains, List.contains_iff_mem]

end EntryPoints

/-! ## Scopes that differ in kind -/

/-- The second kind is the first, or rendering in place of a plain function. -/
inductive ScopeKind.Widens : ScopeKind → ScopeKind → Prop
  | same (kind : ScopeKind) : Widens kind kind
  | renders : Widens .function .renderingRoutine

structure Scope.Widens (s s' : Scope) : Prop where
  kind : s.kind.Widens s'.kind
  span : s.span = s'.span
  spawns : s.spawns = s'.spawns

def ScopeStack.Widens (s s' : ScopeStack) : Prop := List.Forall₂ Scope.Widens s.frames s'.frames

structure Context.Widens (ctx ctx' : Context) : Prop where
  unit : ctx.unit = ctx'.unit
  scope : ctx.scope.Widens ctx'.scope
  spawns : ctx.spawns = ctx'.spawns

inductive TraceEvent.Widens : TraceEvent → TraceEvent → Prop
  | enter {n ctx ctx'} : ctx.Widens ctx' → Widens (.enter n ctx) (.enter n ctx')
  | exit {closed closed' ctx ctx'} : closed.Widens closed' → ctx.Widens ctx' →
      Widens (.exit closed ctx) (.exit closed' ctx')

namespace ScopeStack.Widens

variable {s s' : ScopeStack}

theorem push {kind kind' : ScopeKind} (h : s.Widens s') (hkind : kind.Widens kind') (span : Span) :
    (s.push kind span).Widens (s'.push kind' span) :=
  .cons ⟨hkind, rfl, rfl⟩ h

theorem addSpawns (h : s.Widens s') (k : Nat) : (s.addSpawns k).Widens (s'.addSpawns k) := by
  obtain ⟨frames⟩ := s
  obtain ⟨frames'⟩ := s'
  cases h with
  | nil => exact .nil
  | cons hframe houter =>
      exact .cons ⟨hframe.kind, hframe.span, congrArg (· + k) hframe.spawns⟩ houter

theorem current (h : s.Widens s') : s.current.Widens s'.current := by
  obtain ⟨frames⟩ := s
  obtain ⟨frames'⟩ := s'
  cases h with
  | nil => exact .same _
  | cons hframe _ => exact hframe.kind

theorem spawns (h : s.Widens s') : s.spawns = s'.spawns := by
  obtain ⟨frames⟩ := s
  obtain ⟨frames'⟩ := s'
  cases h with
  | nil => rfl
  | cons hframe _ => exact congrArg some hframe.spawns

end ScopeStack.Widens

/-! ## Machines in lock step -/

/-- What steps of two machines keep, their runs keep. -/
theorem Machine.run_rel {α β : Type} {v : Visitor α} {v' : Visitor β} {w w' : Setting}
    {R : Machine α → Machine β → Prop}
    (hstep : ∀ {m m'}, R m m' → Option.Rel R (m.step v w) (m'.step v' w'))
    {m : Machine α} {m' : Machine β} (h : R m m') : R (m.run v w) (m'.run v' w') := by
  fun_induction Machine.run v w m generalizing m' with
  | case1 m hdone =>
      have hrel := hstep h
      rw [hdone] at hrel
      generalize hdone' : m'.step v' w' = next at hrel
      cases hrel
      rw [run_of_done hdone']
      exact h
  | case2 m next hnext ih =>
      have hrel := hstep h
      rw [hnext] at hrel
      generalize hnext' : m'.step v' w' = next at hrel
      cases hrel with
      | some hrel =>
          rw [run_of_step hnext']
          exact ih hrel

/-- The second setting differs from the first in further entry points only. -/
structure Setting.Widens (w w' : Setting) : Prop where
  unit : w.unit = w'.unit
  points : ∀ name, w.points.contains name → w'.points.contains name

structure Machine.Widens (m m' : Machine TraceEvent) : Prop where
  work : m.work = m'.work
  scopes : m.scopes.Widens m'.scopes
  collected : List.Forall₂ TraceEvent.Widens m.collected m'.collected

namespace Setting.Widens

variable {w w' : Setting} {s s' : ScopeStack} {m m' : Machine TraceEvent}

/-- The same nodes open a scope, and a function may turn into a routine of rendering. -/
theorem opens (h : w.Widens w') (n : Node) :
    Option.Rel ScopeKind.Widens (n.opens w.points) (n.opens w'.points) := by
  obtain ⟨kind, span, children⟩ := n
  match kind with
  | .initializer => exact .some (.same _)
  | .function name =>
      refine .some ?_
      by_cases hname : w.points.contains name
      · rw [if_pos hname, if_pos (h.points name hname)]
        exact .same _
      · rw [if_neg hname]
        split
        · exact .renders
        · exact .same _
  | .variables bindings =>
      rw [Node.opens, Node.opens]
      dsimp only
      split
      · exact .some (.same _)
      · exact .none
  | .sourceFile _ | .call _ | .argument _ | .memberAccess _ _ | .identifier _ | .closure | .error
  | .other _ => exact .none

theorem isSome_opens (h : w.Widens w') (n : Node) :
    (n.opens w.points).isSome = (n.opens w'.points).isSome := by
  have hopens := h.opens n
  generalize n.opens w.points = opened, n.opens w'.points = opened' at hopens ⊢
  cases hopens <;> rfl

theorem scopesAt (h : w.Widens w') (hs : s.Widens s') (n : Node) :
    (w.scopesAt s n).Widens (w'.scopesAt s' n) := by
  have hopens := h.opens n
  generalize ho : n.opens w.points = opened at hopens
  generalize ho' : n.opens w'.points = opened' at hopens
  cases hopens with
  | none =>
      rw [scopesAt_of_not_opens s ho, scopesAt_of_not_opens s' ho']
      exact hs.addSpawns _
  | some hkind =>
      rw [scopesAt_of_opens s ho, scopesAt_of_opens s' ho']
      exact (hs.push hkind n.span).addSpawns _

theorem nodeContext (h : w.Widens w') (hs : s.Widens s') :
    (w.nodeContext s).Widens (w'.nodeContext s') :=
  ⟨h.unit, hs.current, hs.spawns⟩

theorem exitContext (h : w.Widens w') {closed closed' : Scope} (hc : closed.Widens closed') :
    (w.exitContext closed).Widens (w'.exitContext closed') :=
  ⟨h.unit, hc.kind, congrArg some hc.spawns⟩

theorem step (h : w.Widens w') (hm : m.Widens m') :
    Option.Rel Machine.Widens (m.step tracer w) (m'.step tracer w') := by
  obtain ⟨work, scopes, collected⟩ := m
  obtain ⟨work', scopes', collected'⟩ := m'
  obtain ⟨rfl, hscopes, hcollected⟩ := hm
  match work with
  | [] => exact .none
  | .enter n :: work =>
      have hinner := h.scopesAt hscopes n
      refine .some ⟨?_, hinner, .cons (.enter (h.nodeContext hinner)) hcollected⟩
      simp only [Machine.enterNode, h.isSome_opens n]
  | .exit :: work =>
      obtain ⟨frames⟩ := scopes
      obtain ⟨frames'⟩ := scopes'
      cases hscopes with
      | nil => exact .some ⟨rfl, .nil, hcollected⟩
      | cons hframe houter =>
          exact .some ⟨rfl, houter, .cons (.exit hframe (h.exitContext hframe)) hcollected⟩

theorem trace (h : w.Widens w') (root : Node) :
    List.Forall₂ TraceEvent.Widens (tracer.walk w root) (tracer.walk w' root) := by
  have hstart : Machine.Widens (.start root) (.start root) := ⟨rfl, .nil, .nil⟩
  exact List.forall₂_reverse_iff.mpr (Machine.run_rel h.step hstart).collected

end Setting.Widens

/-! ## What rules make of it -/

/-- What the rule reports in a context stands in the relation to what it reports in a wider one. -/
structure Rule.Respects (r : Rule) (S : List Violation → List Violation → Prop) : Prop where
  node {ctx ctx' : Context} (n : Node) : ctx.Widens ctx' →
    S (r.checkNode ctx n) (r.checkNode ctx' n)
  exit {ctx ctx' : Context} {closed closed' : Scope} : ctx.Widens ctx' → closed.Widens closed' →
    S (r.checkScopeExit ctx closed) (r.checkScopeExit ctx' closed')

section

variable {S : List Violation → List Violation → Prop} (hnil : S [] [])
  (happend : ∀ {vs vs' us us'}, S vs vs' → S us us' → S (vs ++ us) (vs' ++ us'))

include hnil happend

theorem flatMap_rel {α : Type} {R : α → α → Prop} {f g : α → List Violation} {xs ys : List α}
    (h : List.Forall₂ R xs ys) (hfg : ∀ {x y}, R x y → S (f x) (g y)) :
    S (xs.flatMap f) (ys.flatMap g) := by
  induction h with
  | nil => exact hnil
  | cons hxy _ ih =>
      rw [List.flatMap_cons, List.flatMap_cons]
      exact happend (hfg hxy) ih

theorem walkRules_rel {rules : List Rule} {w w' : Setting} (h : ∀ r ∈ rules, r.Respects S)
    (hw : w.Widens w') (root : Node) : S (walkRules rules w root) (walkRules rules w' root) := by
  have hsame : List.Forall₂ (fun r r' => r = r' ∧ r.Respects S) rules rules :=
    List.forall₂_same.mpr fun r hr => ⟨rfl, h r hr⟩
  rw [walkRules, walkRules, Visitor.walk_eq_respond (.ofRules rules) w,
    Visitor.walk_eq_respond (.ofRules rules) w']
  refine flatMap_rel hnil happend (hw.trace root) fun he => ?_
  cases he with
  | @enter n ctx ctx' hctx =>
      refine flatMap_rel hnil happend hsame ?_
      rintro r _ ⟨rfl, hr⟩
      exact hr.node n hctx
  | exit hclosed hctx =>
      refine flatMap_rel hnil happend hsame ?_
      rintro r _ ⟨rfl, hr⟩
      exact hr.exit hctx hclosed

end

theorem RuleHeader.violation_of_widens (header : RuleHeader) {ctx ctx' : Context}
    (h : ctx.Widens ctx') : header.violation ctx = header.violation ctx' := by
  funext f
  simp only [RuleHeader.violation, Context.location, h.unit]

namespace BuiltinRule

variable {o : RuleOptions} {ctx ctx' : Context} {n : Node}

theorem inspectNode_of_widens (b : BuiltinRule) (hb : b ≠ .taskInRenderPath)
    (h : ctx.Widens ctx') : b.inspectNode o ctx n = b.inspectNode o ctx' n := by
  have hinit : ctx.scope = .initializer ↔ ctx'.scope = .initializer := by
    have hscope := h.scope
    generalize ctx.scope = kind, ctx'.scope = kind' at hscope ⊢
    cases hscope <;> simp
  cases b with
  | taskInRenderPath => exact absurd rfl hb
  | taskInInitializer => simp only [inspectNode, hinit]
  | _ => rfl

theorem inspectNode_taskInRenderPath_of_widens (h : ctx.Widens ctx') {f : Finding}
    (hf : taskInRenderPath.inspectNode o ctx n = some f) :
    taskInRenderPath.inspectNode o ctx' n = some f := by
  have hrender : ctx.scope = .renderingRoutine → ctx'.scope = .renderingRoutine := by
    have hscope := h.scope
    generalize ctx.scope = kind, ctx'.scope = kind' at hscope ⊢
    cases hscope <;> simp
  rw [inspectNode, Option.ite_none_right_eq_some] at hf ⊢
  exact ⟨⟨hrender hf.1.1, hf.1.2⟩, hf.2⟩

theorem inspectScope_of_widens (b : BuiltinRule) {closed closed' : Scope}
    (h : closed.Widens closed') : b.inspectScope o closed = b.inspectScope o closed' := by
  cases b with
  | excessiveSpawns => simp only [inspectScope, h.span, h.spawns]
  | _ => rfl

theorem checkScopeExit_of_widens (b : BuiltinRule) {closed closed' : Scope} (h : ctx.Widens ctx')
    (hclosed : closed.Widens closed') :
    (b.rule o).checkScopeExit ctx closed = (b.rule o).checkScopeExit ctx' closed' := by
  simp only [rule, ruleWith, b.inspectScope_of_widens hclosed, RuleHeader.violation_of_widens _ h]

theorem respects_eq (b : BuiltinRule) (hb : b ≠ .taskInRenderPath) :
    (b.rule o).Respects Eq where
  node n h := by
    simp only [rule, ruleWith, b.inspectNode_of_widens hb h, RuleHeader.violation_of_widens _ h]
  exit h hclosed := b.checkScopeExit_of_widens h hclosed

theorem respects_sublist : (taskInRenderPath.rule o).Respects List.Sublist where
  node {ctx ctx'} n h := by
    simp only [rule, ruleWith, RuleHeader.violation_of_widens _ h]
    refine List.Sublist.map _ ?_
    cases hf : taskInRenderPath.inspectNode o ctx n with
    | none => exact List.nil_sublist _
    | some f => rw [inspectNode_taskInRenderPath_of_widens h hf]
  exit h hclosed := by rw [checkScopeExit_of_widens _ h hclosed]

theorem code_eq_renderPath_iff (b : BuiltinRule) :
    b.header.code = "CC-CONC-003" ↔ b = .taskInRenderPath := by
  cases b <;> decide

end BuiltinRule

/-! ## Walks under more entry points -/

theorem filter_walkRules_catalog_of_widens (o : RuleOptions) {w w' : Setting} (hw : w.Widens w')
    (root : Node) : (walkRules (catalog o) w root).filter (·.code ≠ "CC-CONC-003") =
      (walkRules (catalog o) w' root).filter (·.code ≠ "CC-CONC-003") := by
  have hsigns : ∀ r ∈ catalog o, r.Signs := fun r => signs_of_mem_catalog
  rw [← walkRules_filter_of_signs hsigns fun _ code => code ≠ "CC-CONC-003",
    ← walkRules_filter_of_signs hsigns fun _ code => code ≠ "CC-CONC-003"]
  refine walkRules_rel rfl (fun h h' => congrArg₂ _ h h') ?_ hw root
  intro r hr
  obtain ⟨hmem, hcode⟩ := List.mem_filter.mp hr
  obtain ⟨b, _, rfl⟩ := List.mem_map.mp hmem
  refine b.respects_eq ?_
  rintro rfl
  exact of_decide_eq_true hcode rfl

theorem sublist_walkRules_catalog_of_widens (o : RuleOptions) {w w' : Setting} (hw : w.Widens w')
    (root : Node) : ((walkRules (catalog o) w root).filter (·.code = "CC-CONC-003")).Sublist
      ((walkRules (catalog o) w' root).filter (·.code = "CC-CONC-003")) := by
  have hsigns : ∀ r ∈ catalog o, r.Signs := fun r => signs_of_mem_catalog
  rw [← walkRules_filter_of_signs hsigns fun _ code => code = "CC-CONC-003",
    ← walkRules_filter_of_signs hsigns fun _ code => code = "CC-CONC-003"]
  refine walkRules_rel (.refl _) (fun h h' => h.append h') ?_ hw root
  intro r hr
  obtain ⟨hmem, hcode⟩ := List.mem_filter.mp hr
  obtain ⟨b, _, rfl⟩ := List.mem_map.mp hmem
  cases b.code_eq_renderPath_iff.mp (of_decide_eq_true hcode)
  exact BuiltinRule.respects_sublist

theorem Node.opens_congr {points points' : EntryPoints}
    (h : ∀ name, points.contains name = points'.contains name) :
    Node.opens points = Node.opens points' := by
  funext n
  simp only [Node.opens, h]

theorem Visitor.walk_congr {α : Type} (v : Visitor α) (u : SourceUnit)
    {points points' : EntryPoints} (h : ∀ name, points.contains name = points'.contains name)
    (root : Node) :
    v.walk ⟨u, points⟩ root = v.walk ⟨u, points'⟩ root := by
  have hscopes : Setting.scopesAt ⟨u, points⟩ = Setting.scopesAt ⟨u, points'⟩ := by
    funext s n
    simp only [Setting.scopesAt, Node.opens_congr h]
  have hstep {m m' : Machine α} (heq : m = m') :
      Option.Rel Eq (m.step v ⟨u, points⟩) (m'.step v ⟨u, points'⟩) := by
    subst heq
    obtain ⟨work, scopes, collected⟩ := m
    cases work with
    | nil => exact .none
    | cons item work =>
        cases item with
        | enter n =>
            simp only [Machine.step, Machine.enterNode, hscopes, Node.opens_congr h]
            exact .some rfl
        | exit => exact .some rfl
  rw [walk, walk, Machine.run_rel hstep (Eq.refl (Machine.start root))]

/-- Further entry points turn functions into routines of rendering. They bring more reports of tasks
in such routines and change no other report; and only the set of all entry points matters. -/
theorem walkRules_withExtra (c : Config) (u : SourceUnit) (root : Node)
    (extra extra' : List String) :
    let defaults := ["body", "layoutSubviews", "updateUIView"]
    let walk (extra : List String) := walkRules (catalogFor c) ⟨u, .withExtra extra⟩ root
    (∀ name, (EntryPoints.withExtra extra).contains name ↔ name ∈ defaults ∨ name ∈ extra) ∧
    (extra ⊆ extra' →
      (walk extra').filter (·.code ≠ "CC-CONC-003") = (walk extra).filter (·.code ≠ "CC-CONC-003") ∧
      ((walk extra).filter (·.code = "CC-CONC-003")).Sublist
        ((walk extra').filter (·.code = "CC-CONC-003"))) ∧
    ((∀ name ∉ defaults, name ∈ extra ↔ name ∈ extra') → ∀ rules,
      walkRules rules ⟨u, .withExtra extra⟩ root =
        walkRules rules ⟨u, .withExtra extra'⟩ root) := by
  intro defaults walk
  refine ⟨EntryPoints.contains_withExtra extra, ?_, ?_⟩
  · intro hsub
    have hw : Setting.Widens ⟨u, .withExtra extra⟩ ⟨u, .withExtra extra'⟩ := by
      refine ⟨rfl, fun name hname => ?_⟩
      rw [EntryPoints.contains_withExtra] at hname ⊢
      exact hname.imp_right (hsub ·)
    exact ⟨(filter_walkRules_catalog_of_widens _ hw root).symm,
      sublist_walkRules_catalog_of_widens _ hw root⟩
  · intro hsame rules
    refine Visitor.walk_congr _ u (fun name => Bool.eq_iff_iff.mpr ?_) root
    rw [EntryPoints.contains_withExtra, EntryPoints.contains_withExtra]
    by_cases hname : name ∈ defaults
    · exact ⟨fun _ => .inl hname, fun _ => .inl hname⟩
    · exact or_congr_right (hsame name hname)

theorem walkRules_withExtra_nestedFunctions :
    let walk (extra : List String) :=
      walkRules (catalogFor {}) ⟨⟨stdinIdentifier, ""⟩, .withExtra extra⟩ nestedFunctions
    (walk ["draw"]).map (·.code) = ["CC-CONC-003"] ∧
    (walk ["draw", "outer"]).map (·.code) = ["CC-CONC-003", "CC-CONC-003"] ∧
    ((walk ["draw"]).filter (·.code = "CC-CONC-003")).Sublist
      ((walk ["draw", "outer"]).filter (·.code = "CC-CONC-003")) ∧
    walk ["draw", "body"] = walk ["draw", "draw"] := by
  intro walk
  have hwalk (extra : List String) : walk extra = _ := Visitor.walk_eq_visit _ _ _
  obtain ⟨_, hmore, _⟩ := walkRules_withExtra {} ⟨stdinIdentifier, ""⟩ nestedFunctions
    ["draw"] ["draw", "outer"]
  obtain ⟨_, _, hsame⟩ := walkRules_withExtra {} ⟨stdinIdentifier, ""⟩ nestedFunctions
    ["draw", "body"] ["draw", "draw"]
  refine ⟨?_, ?_, (hmore (by simp)).2, hsame ?_ (catalogFor {})⟩
  · rw [hwalk]
    rfl
  · rw [hwalk]
    rfl
  · intro name hname
    have hbody : name ≠ "body" := by
      rintro rfl
      exact hname (.head _)
    simp [hbody]

end ConcurrencyLint
