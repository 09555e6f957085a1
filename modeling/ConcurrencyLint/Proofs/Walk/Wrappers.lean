import ConcurrencyLint.Proofs.Rule.Table
import Mathlib.Data.List.Forall2

/-!
# Closures and plain constructs around a node

A closure, or a construct with no kind of its own, opens no scope, spawns no task and is reported by
no rule. Putting one around a node changes no walk with the catalogue, as long as the node is not
part of a call: calls and arguments are the only nodes whose children a rule looks at.
-/

namespace ConcurrencyLint

/-! ## Lists that differ item by item -/

section

variable {α β : Type} {R : α → α → Prop} {xs ys : List α}

theorem forall₂_modify (hrefl : ∀ x, R x x) {f : α → α} {i : Nat}
    (h : ∀ x, xs[i]? = some x → R (f x) x) : List.Forall₂ R (xs.modify i f) xs := by
  induction xs generalizing i with
  | nil => simp
  | cons x xs ih =>
      cases i with
      | zero => exact .cons (h x rfl) (List.forall₂_same.mpr fun y _ => hrefl y)
      | succ i => exact .cons (hrefl x) (ih h)

theorem map_eq_of_forall₂ {f : α → β} (h : List.Forall₂ R xs ys)
    (hf : ∀ {x y}, R x y → f x = f y) : xs.map f = ys.map f := by
  rw [← List.forall₂_eq_eq_eq, List.forall₂_map_left_iff, List.forall₂_map_right_iff]
  exact h.imp fun _ _ => hf

theorem any_eq_of_forall₂ {p : α → Bool} (h : List.Forall₂ R xs ys)
    (hp : ∀ {x y}, R x y → p x = p y) : xs.any p = ys.any p := by
  rw [← Function.id_comp p, ← List.any_map, map_eq_of_forall₂ h hp, List.any_map]

end

/-! ## Putting a node around another -/

/-- A closure, or a construct that is not told apart from others. -/
def NodeKind.IsPlain (kind : NodeKind) : Prop := kind = .closure ∨ ∃ tag, kind = .other tag

namespace Node

/-- The tree with a node of the given kind and place put around the one at an address. -/
def wrapAt (kind : NodeKind) (span : Span) : Address → Node → Node
  | [], n => ⟨kind, span, [n]⟩
  | i :: a, n => { n with children := n.children.modify i (wrapAt kind span a) }

/-- The node above the one at an address. -/
def parent? (root : Node) (a : Address) : Option Node :=
  if a = [] then none else root.at? a.dropLast

/-- What stands at the address is a child neither of a call nor of an argument. -/
def Loose (root : Node) (a : Address) : Prop :=
  ∀ p, root.parent? a = some p → (∀ callee, p.kind ≠ .call callee) ∧
    ∀ label, p.kind ≠ .argument label

variable {kind : NodeKind} {span : Span} {n c : Node} {i j : Nat} {a : Address}

theorem wrapAt_cons (n : Node) (i : Nat) (a : Address) : n.wrapAt kind span (i :: a) =
    ⟨n.kind, n.span, n.children.modify i (wrapAt kind span a)⟩ := rfl

theorem at?_wrapAt {root : Node} (h : root.at? a = some n) :
    (root.wrapAt kind span a).at? a = some ⟨kind, span, [n]⟩ := by
  induction a generalizing root with
  | nil =>
      cases h
      rfl
  | cons i a ih =>
      rw [at?] at h
      obtain ⟨c, hc, hn⟩ := Option.bind_eq_some_iff.mp h
      rw [at?, wrapAt_cons, List.getElem?_modify_eq, hc]
      exact ih hn

/-! ## Parts of calls -/

theorem loose_nil (n : Node) : n.Loose [] := by
  intro p hp
  simp [parent?] at hp

theorem Loose.child (h : n.Loose (i :: a)) (hc : n.children[i]? = some c) : c.Loose a := by
  intro p hp
  cases a with
  | nil => exact c.loose_nil p hp
  | cons j a =>
      refine h p ?_
      simp only [parent?, reduceCtorEq, ↓reduceIte, List.dropLast_cons_cons] at hp ⊢
      rw [at?, hc]
      exact hp

theorem Loose.here (h : n.Loose [i]) :
    (∀ callee, n.kind ≠ .call callee) ∧ ∀ label, n.kind ≠ .argument label :=
  h n (by simp [parent?])

/-! ## What a call sees of its children -/

/-- The members that are accessed in a tree, in pre-order. -/
def accessed (n : Node) : List String := n.preorder.filterMap member

theorem any_member_descendants (n : Node) (name : String) :
    (n.descendants.any fun d => d.member == some name) = n.accessed.contains name := by
  rw [Bool.eq_iff_iff, descendants_eq_preorder, accessed]
  simp

theorem accessed_eq (n : Node) : n.accessed = n.member.toList ++ n.children.flatMap accessed := by
  have hchildren (ns : List Node) : (preorderAll ns).filterMap member = ns.flatMap accessed := by
    induction ns with
    | nil => rfl
    | cons n ns ih => rw [preorderAll, List.filterMap_append, ih]; rfl
  rw [accessed, preorder_eq, ← hchildren]
  cases h : n.member <;> simp [h]

theorem accessed_wrapAt (hplain : kind.IsPlain) (span : Span) (a : Address) (n : Node) :
    (n.wrapAt kind span a).accessed = n.accessed := by
  induction a generalizing n with
  | nil =>
      rw [wrapAt, accessed_eq]
      rcases hplain with rfl | ⟨tag, rfl⟩ <;> simp [member]
  | cons i a ih =>
      have hbelow : List.Forall₂ (fun c d : Node => c.accessed = d.accessed)
          (n.children.modify i (wrapAt kind span a)) n.children := by
        refine forall₂_modify ?_ ?_
        · intro c; rfl
        · intro c _; exact ih c
      rw [wrapAt_cons, accessed_eq, accessed_eq n, List.flatMap_def, List.flatMap_def,
        map_eq_of_forall₂ hbelow id]
      rfl

/-- The nodes show the same to a call that has them as children: their kinds, the members accessed
in them, and both of the value if they are arguments. -/
structure Resembles (c d : Node) : Prop where
  kind : c.kind = d.kind
  accessed : c.accessed = d.accessed
  value : (∃ label, d.kind = .argument label) →
    Option.Rel (fun v v' : Node => v.kind = v'.kind ∧ v.accessed = v'.accessed) c.children.head?
      d.children.head?

theorem Resembles.refl (c : Node) : c.Resembles c where
  kind := rfl
  accessed := rfl
  value _ := by
    cases c.children.head? with
    | none => exact .none
    | some v => exact .some ⟨rfl, rfl⟩

/-- What is put around a node below a child of a call is not seen by the call. -/
theorem Loose.resembles (hplain : kind.IsPlain) (h : c.Loose (j :: a)) :
    (c.wrapAt kind span (j :: a)).Resembles c where
  kind := rfl
  accessed := accessed_wrapAt hplain span (j :: a) c
  value := by
    rintro ⟨label, hlabel⟩
    rw [wrapAt_cons]
    cases c.children with
    | nil => simp
    | cons v vs =>
        cases j with
        | succ j => exact .some ⟨rfl, rfl⟩
        | zero =>
            cases a with
            | nil => exact absurd hlabel (h.here.2 label)
            | cons k a => exact .some ⟨rfl, accessed_wrapAt hplain span (k :: a) v⟩

section

variable {n' : Node}

theorem hasArgument_of_resembles (h : List.Forall₂ Resembles n.children n'.children)
    (label : String) : n.hasArgument label = n'.hasArgument label := by
  simp only [hasArgument, arguments, List.any_filterMap]
  refine any_eq_of_forall₂ h fun {c d} hcd => ?_
  simp only [asArgument, hcd.kind]
  cases d.kind <;> rfl

theorem member_argument_of_resembles (h : List.Forall₂ Resembles n.children n'.children)
    (label : String) : (n.argument label).bind member = (n'.argument label).bind member := by
  rw [argument_eq, argument_eq]
  generalize n.children = cs, n'.children = ds at h ⊢
  induction h with
  | nil => rfl
  | @cons c d cs ds hcd _ ih =>
      by_cases hlabel : d.kind = .argument (some label)
      · have hvalue := hcd.value ⟨_, hlabel⟩
        simp only [List.find?_cons, hcd.kind, hlabel, decide_true, Option.bind_some]
        generalize c.children.head? = value, d.children.head? = value' at hvalue ⊢
        cases hvalue with
        | none => rfl
        | some hkind => simp only [Option.bind_some, member, hkind.1]
      · simpa [hcd.kind, hlabel] using ih

theorem Resembles.passedClosure {d : Node} (h : c.Resembles d) :
    Option.Rel (fun v v' : Node => v.accessed = v'.accessed) c.passedClosure d.passedClosure := by
  simp only [Node.passedClosure, h.kind]
  cases hkind : d.kind with
  | closure => exact .some h.accessed
  | argument label =>
      have hvalue := h.value ⟨label, hkind⟩
      dsimp only
      generalize c.children.head? = value, d.children.head? = value' at hvalue ⊢
      cases hvalue with
      | none => exact .none
      | @some v v' hsame =>
          have hclosure : v.isClosure = v'.isClosure := by simp only [isClosure, hsame.1]
          simp only [Option.filter_some, hclosure]
          split
          · exact .some hsame.2
          · exact .none
  | _ => exact .none

theorem mentions_of_resembles (h : List.Forall₂ Resembles n.children n'.children) (name : String) :
    (n.closureArguments.any fun c => c.descendants.any fun d => d.member == some name) =
      n'.closureArguments.any fun c => c.descendants.any fun d => d.member == some name := by
  simp only [closureArguments, List.any_filterMap, any_member_descendants]
  refine any_eq_of_forall₂ h fun {c d} hcd => ?_
  have hpassed := hcd.passedClosure
  generalize c.passedClosure = passed, d.passedClosure = passed' at hpassed ⊢
  cases hpassed with
  | none => rfl
  | some hsame => exact congrArg (List.contains · name) hsame

end

end Node

/-! ## What the rules see -/

namespace BuiltinRule

variable {o : RuleOptions} {ctx : Context} {kind : NodeKind} {span : Span} {n : Node}

theorem inspectNode_of_isPlain (b : BuiltinRule) (hplain : n.kind.IsPlain) :
    b.inspectNode o ctx n = none := by
  obtain ⟨kind, span, children⟩ := n
  rcases hplain with rfl | ⟨tag, rfl⟩ <;> cases b <;>
    simp [inspectNode, Node.isTaskSpawn, Node.isCallTo, Node.callee,
      RuleOptions.isStreamConstruction]

/-- A rule finds the same at two nodes of one kind and place, if the nodes are no calls or show the
rule the same children. -/
theorem inspectNode_of_resembles (b : BuiltinRule) {n' : Node} (hkind : n.kind = n'.kind)
    (hspan : n.span = n'.span)
    (h : (∃ callee, n'.kind = .call callee) →
      List.Forall₂ Node.Resembles n.children n'.children) :
    b.inspectNode o ctx n = b.inspectNode o ctx n' := by
  have hcallee : n.callee = n'.callee := by simp only [Node.callee, hkind]
  have hspawn : n.isTaskSpawn = n'.isTaskSpawn := by
    simp only [Node.isTaskSpawn, Node.isCallTo, hcallee]
  have hstream : o.isStreamConstruction n = o.isStreamConstruction n' := by
    simp only [RuleOptions.isStreamConstruction, hcallee]
  have hcall {name : String} (hname : n'.callee = some name) :
      List.Forall₂ Node.Resembles n.children n'.children := by
    refine h ⟨some name, ?_⟩
    obtain ⟨kind, span, children⟩ := n'
    cases kind <;> simp_all [Node.callee]
  cases b with
  | streamTermination =>
      cases hname : n'.callee with
      | none => simp [inspectNode, RuleOptions.isStreamConstruction, hcallee, hname]
      | some name =>
          have hinstalls : o.installsHandler n = o.installsHandler n' := by
            simp only [RuleOptions.installsHandler, Node.hasArgument_of_resembles (hcall hname),
              Node.mentions_of_resembles (hcall hname)]
          simp only [inspectNode, hspan, hstream, hinstalls]
  | backgroundPriority =>
      cases hname : n'.callee with
      | none => simp [inspectNode, Node.isTaskSpawn, Node.isCallTo, hcallee, hname]
      | some name =>
          simp only [inspectNode, hspan, hspawn, Node.member_argument_of_resembles (hcall hname)]
  | _ => simp only [inspectNode, hkind, hspan, hspawn]

end BuiltinRule

namespace Visitor

variable {o : RuleOptions} {w : Setting} {kind : NodeKind} {span : Span}

theorem enter_catalog (o : RuleOptions) (ctx : Context) (n : Node) :
    (ofRules (catalog o)).enter ctx n = BuiltinRule.all.flatMap fun b =>
      (b.inspectNode o ctx n).toList.map (b.header.violation ctx) := rfl

theorem visitAll_congr {α : Type} {v : Visitor α} {cs ds : List Node}
    (h : List.Forall₂ (fun c d => ∀ s, v.visit w s c = v.visit w s d) cs ds) (s : ScopeStack) :
    v.visitAll w s cs = v.visitAll w s ds := by
  induction h generalizing s with
  | nil => rfl
  | cons hcd _ ih => simp only [visitAll, hcd, ih]

theorem visit_congr {α : Type} {v : Visitor α} {n n' : Node} (hkind : n.kind = n'.kind)
    (hspan : n.span = n'.span) (henter : ∀ ctx, v.enter ctx n = v.enter ctx n')
    (hbelow : ∀ s, v.visitAll w s n.children = v.visitAll w s n'.children) (s : ScopeStack) :
    v.visit w s n = v.visit w s n' := by
  obtain ⟨kind, span, children⟩ := n
  obtain ⟨_, _, children'⟩ := n'
  cases hkind
  cases hspan
  have hscopes : w.scopesAt s ⟨kind, span, children⟩ = w.scopesAt s ⟨kind, span, children'⟩ := rfl
  simp only [visit, hscopes, henter, hbelow]
  rfl

theorem visit_of_isPlain (hplain : kind.IsPlain) (n : Node) (s : ScopeStack) :
    (ofRules (catalog o)).visit w s ⟨kind, span, [n]⟩ = (ofRules (catalog o)).visit w s n := by
  have hopens : Node.opens w.points ⟨kind, span, [n]⟩ = none := by
    rcases hplain with rfl | ⟨tag, rfl⟩ <;> rfl
  have hspawn : Node.isTaskSpawn ⟨kind, span, [n]⟩ = false := by
    rcases hplain with rfl | ⟨tag, rfl⟩ <;> rfl
  have henter (ctx : Context) : (ofRules (catalog o)).enter ctx ⟨kind, span, [n]⟩ = [] := by
    rw [enter_catalog, List.flatMap_eq_nil_iff]
    intro b _
    rw [b.inspectNode_of_isPlain hplain]
    rfl
  rw [visit]
  simp only [henter, hopens, w.scopesAt_of_not_opens s hopens, hspawn, visitAll, Bool.toNat_false,
    ScopeStack.addSpawns_zero, Option.isSome_none, Bool.false_eq_true, ↓reduceIte, List.nil_append,
    List.append_nil]

theorem visit_wrapAt (hplain : kind.IsPlain) (span : Span) (a : Address) (n : Node)
    (h : n.Loose a) (s : ScopeStack) :
    (ofRules (catalog o)).visit w s (n.wrapAt kind span a) =
      (ofRules (catalog o)).visit w s n := by
  induction a generalizing n s with
  | nil => exact visit_of_isPlain hplain n s
  | cons i a ih =>
      have hbelow (s : ScopeStack) : (ofRules (catalog o)).visitAll w s
          (n.children.modify i (Node.wrapAt kind span a)) =
            (ofRules (catalog o)).visitAll w s n.children := by
        refine visitAll_congr (forall₂_modify ?_ ?_) s
        · intro c s; rfl
        · intro c hc s; exact ih c (h.child hc) s
      have henter (ctx : Context) : (ofRules (catalog o)).enter ctx (n.wrapAt kind span (i :: a)) =
          (ofRules (catalog o)).enter ctx n := by
        rw [enter_catalog, enter_catalog]
        refine List.flatMap_congr fun b _ => ?_
        refine congrArg (fun found => List.map _ (Option.toList found)) ?_
        refine b.inspectNode_of_resembles rfl rfl ?_
        rintro ⟨callee, hcallee⟩
        refine forall₂_modify Node.Resembles.refl fun c hc => ?_
        cases a with
        | nil => exact absurd hcallee (h.here.1 callee)
        | cons j a => exact (h.child hc).resembles hplain
      refine visit_congr ?_ ?_ henter hbelow s
      · rfl
      · rfl

end Visitor

/-! ## Walks with wrappers -/

/-- One tree comes from the other by putting a closure or a plain construct around one node that is
a child neither of a call nor of an argument. -/
def Node.Wraps (root root' : Node) : Prop :=
  ∃ a kind span, (root.at? a).isSome ∧ root.Loose a ∧ NodeKind.IsPlain kind ∧
    root' = root.wrapAt kind span a

/-- Closures and plain constructs are transparent: one around any node that is a child neither of a
call nor of an argument, the root included, changes no walk with the catalogue; nor do any number of
them, one put in after the other. -/
theorem walkRules_wrapAt (c : Config) (w : Setting) :
    (∀ (root n : Node) (a : Address) (kind : NodeKind) (span : Span), root.at? a = some n →
      root.Loose a → kind.IsPlain →
      (root.wrapAt kind span a).at? a = some ⟨kind, span, [n]⟩ ∧
      walkRules (catalogFor c) w (root.wrapAt kind span a) = walkRules (catalogFor c) w root) ∧
    ∀ root root', Relation.ReflTransGen Node.Wraps root root' →
      walkRules (catalogFor c) w root' = walkRules (catalogFor c) w root := by
  have hone (root : Node) (a : Address) (kind : NodeKind) (span : Span) (hloose : root.Loose a)
      (hplain : kind.IsPlain) : walkRules (catalogFor c) w (root.wrapAt kind span a) =
        walkRules (catalogFor c) w root := by
    rw [walkRules, walkRules, Visitor.walk_eq_visit, Visitor.walk_eq_visit, catalogFor,
      Visitor.visit_wrapAt hplain span a root hloose]
  refine ⟨?_, ?_⟩
  · intro root n a kind span hn hloose hplain
    exact ⟨Node.at?_wrapAt hn, hone root a kind span hloose hplain⟩
  · intro root root' h
    induction h with
    | refl => rfl
    | tail _ hwraps ih =>
        obtain ⟨a, kind, span, _, hloose, hplain, rfl⟩ := hwraps
        rw [hone _ a kind span hloose hplain, ih]

/-- A task beside a stream that names its handler inside the closure. -/
def handledStream : Node :=
  ⟨.function "body", ⟨1, 1, 0, 70⟩, [
    ⟨.call (some "AsyncStream"), ⟨2, 3, 16, 40⟩, [
      ⟨.closure, ⟨2, 15, 28, 28⟩, [
        ⟨.memberAccess (some "c") "onTermination", ⟨2, 22, 35, 15⟩, []⟩]⟩]⟩,
    ⟨.call (some taskType), ⟨3, 3, 59, 8⟩, []⟩]⟩

theorem walkRules_wrapAt_handledStream :
    let block : RuleConfig := { options := [("accept_continuation_handler", .boolean true)] }
    let c : Config := { rules := [("CC-CONC-004", block)] }
    let w : Setting := ⟨⟨stdinIdentifier, ""⟩, .builtin⟩
    let inside := handledStream.wrapAt (.other "statements") ⟨2, 22, 35, 15⟩ [0, 0, 0]
    let around := inside.wrapAt .closure ⟨1, 1, 0, 70⟩ []
    (walkRules (catalogFor c) w handledStream).map (·.code) = ["CC-CONC-003"] ∧
    walkRules (catalogFor c) w inside = walkRules (catalogFor c) w handledStream ∧
    walkRules (catalogFor c) w around = walkRules (catalogFor c) w handledStream := by
  intro block c w inside around
  obtain ⟨hone, hmany⟩ := walkRules_wrapAt c w
  have hloose : handledStream.Loose [0, 0, 0] := by
    intro p hp
    cases hp
    exact ⟨by simp, by simp⟩
  have hinside : Node.Wraps handledStream inside :=
    ⟨[0, 0, 0], _, _, rfl, hloose, .inr ⟨_, rfl⟩, rfl⟩
  have haround : Node.Wraps inside around := ⟨[], _, _, rfl, inside.loose_nil, .inl rfl, rfl⟩
  refine ⟨?_, (hone _ _ _ _ _ rfl hloose (.inr ⟨_, rfl⟩)).2,
    hmany _ _ (.tail (.single hinside) haround)⟩
  rw [walkRules, Visitor.walk_eq_visit]
  decide +kernel

end ConcurrencyLint
