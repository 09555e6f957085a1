import ConcurrencyLint.Proofs.Rule.Table
import Mathlib.Tactic.MkIffOfInductiveProp

/-!
# Walking in the order of the source

A tree whose ranges are nested, and in order among siblings, is listed in the order of its offsets.
So what rules say of the nodes themselves comes out in this order. What is said of a scope does not:
it comes when the scope closes, after all that stands inside it.
-/

namespace ConcurrencyLint

/-! ## Nested ranges -/

namespace Node

variable {n m : Node}

/-- The children lie in the range of the node, one after the other. -/
@[mk_iff]
structure Ranged (n : Node) : Prop where
  within : ∀ c ∈ n.children, n.span.offset ≤ c.span.offset ∧ c.span.stop ≤ n.span.stop
  ordered : n.children.Pairwise fun c d => c.span.stop ≤ d.span.offset

instance (n : Node) : Decidable n.Ranged := decidable_of_iff' _ (ranged_iff n)

theorem offset_le_stop (n : Node) : n.span.offset ≤ n.span.stop := Nat.le_add_right _ _

mutual

theorem range_of_mem_preorder : (n : Node) → (∀ d ∈ n.preorder, d.Ranged) → m ∈ n.preorder →
    n.span.offset ≤ m.span.offset ∧ m.span.stop ≤ n.span.stop
  | ⟨kind, span, children⟩, h, hm => by
      rw [preorder] at h hm
      rcases List.mem_cons.mp hm with rfl | hm
      · exact ⟨Nat.le_refl _, Nat.le_refl _⟩
      · obtain ⟨c, hc, hlow, hhigh⟩ := exists_range_of_mem_preorderAll children
          (fun d hd => h d (List.mem_cons_of_mem _ hd)) hm
        have ⟨hfirst, hlast⟩ := (h _ List.mem_cons_self).within c hc
        exact ⟨hfirst.trans hlow, hhigh.trans hlast⟩

theorem exists_range_of_mem_preorderAll : (ns : List Node) → (∀ d ∈ preorderAll ns, d.Ranged) →
    m ∈ preorderAll ns → ∃ c ∈ ns, c.span.offset ≤ m.span.offset ∧ m.span.stop ≤ c.span.stop
  | [], _, hm => by simp [preorderAll] at hm
  | n :: ns, h, hm => by
      rw [preorderAll] at h hm
      rcases List.mem_append.mp hm with hm | hm
      · have hrange := range_of_mem_preorder n (fun d hd => h d (List.mem_append_left _ hd)) hm
        exact ⟨n, List.mem_cons_self, hrange⟩
      · obtain ⟨c, hc, hrange⟩ := exists_range_of_mem_preorderAll ns
          (fun d hd => h d (List.mem_append_right _ hd)) hm
        exact ⟨c, List.mem_cons_of_mem _ hc, hrange⟩

end

mutual

theorem pairwise_preorder : (n : Node) → (∀ d ∈ n.preorder, d.Ranged) →
    n.preorder.Pairwise fun a b => a.span.offset ≤ b.span.offset
  | ⟨kind, span, children⟩, h => by
      have hfirst (m : Node) (hm : m ∈ preorder ⟨kind, span, children⟩) :
          span.offset ≤ m.span.offset := (range_of_mem_preorder _ h hm).1
      rw [preorder] at h hfirst ⊢
      have hordered := (h _ List.mem_cons_self).ordered
      exact List.pairwise_cons.mpr ⟨fun m hm => hfirst m (List.mem_cons_of_mem _ hm),
        pairwise_preorderAll children (fun d hd => h d (List.mem_cons_of_mem _ hd)) hordered⟩

theorem pairwise_preorderAll : (ns : List Node) → (∀ d ∈ preorderAll ns, d.Ranged) →
    (ns.Pairwise fun c d => c.span.stop ≤ d.span.offset) →
    (preorderAll ns).Pairwise fun a b => a.span.offset ≤ b.span.offset
  | [], _, _ => by rw [preorderAll]; exact .nil
  | n :: ns, h, hordered => by
      rw [preorderAll] at h ⊢
      have hn : ∀ d ∈ n.preorder, d.Ranged := fun d hd => h d (List.mem_append_left _ hd)
      have hns : ∀ d ∈ preorderAll ns, d.Ranged := fun d hd => h d (List.mem_append_right _ hd)
      obtain ⟨hbefore, hlater⟩ := List.pairwise_cons.mp hordered
      refine List.pairwise_append.mpr
        ⟨pairwise_preorder n hn, pairwise_preorderAll ns hns hlater, fun a ha b hb => ?_⟩
      obtain ⟨c, hc, hcb, _⟩ := exists_range_of_mem_preorderAll ns hns hb
      calc a.span.offset
          ≤ a.span.stop := a.offset_le_stop
        _ ≤ n.span.stop := (range_of_mem_preorder n hn ha).2
        _ ≤ c.span.offset := hbefore c hc
        _ ≤ b.span.offset := hcb

end

end Node

/-! ## Violations and where they come from -/

/-- On entry to a node the rule points at this node, if at anything. -/
def Rule.ReportsNode (r : Rule) : Prop :=
  ∀ ctx n, ∀ v ∈ r.checkNode ctx n, v.location = ctx.location n.span

theorem BuiltinRule.reportsNode (b : BuiltinRule) (severity : Severity) (o : RuleOptions)
    (h : b ≠ .unparsableSource) : (b.ruleWith severity o).ReportsNode := by
  intro ctx n v hv
  obtain ⟨f, hf, rfl⟩ := List.mem_map.mp hv
  have hreported := b.inspectNode_eq_some_iff.mp (Option.mem_toList.mp hf)
  cases hreported with
  | unparsableSource _ => exact absurd rfl h
  | _ => rfl

/-- A violation with the rule that found it, on entry to a node or at the exit of a scope. -/
structure Remark where
  rule : Rule
  onEntry : Bool
  violation : Violation

def Remark.offset (x : Remark) : Nat := x.violation.location.offset

/-- The remark was made on entry to a node, by a rule that reports the node itself. -/
def Remark.OfNode (x : Remark) : Prop := x.onEntry ∧ x.rule.ReportsNode

/-- Asks every rule in turn, and keeps with every violation where it came from. -/
def Visitor.remarks (rules : List Rule) : Visitor Remark where
  enter ctx n := rules.flatMap fun r => (r.checkNode ctx n).map fun v => ⟨r, true, v⟩
  leave ctx s := rules.flatMap fun r => (r.checkScopeExit ctx s).map fun v => ⟨r, false, v⟩

namespace Visitor

variable {rules : List Rule} {w : Setting} {root : Node}

theorem map_respond_remarks (rules : List Rule) (e : TraceEvent) :
    ((remarks rules).respond e).map Remark.violation = (ofRules rules).respond e := by
  cases e with
  | enter n ctx => simp [respond, remarks, ofRules, List.map_flatMap, Function.comp_def]
  | exit closed ctx => simp [respond, remarks, ofRules, List.map_flatMap, Function.comp_def]

theorem map_violation_walk_remarks (rules : List Rule) (w : Setting) (root : Node) :
    ((remarks rules).walk w root).map Remark.violation = walkRules rules w root := by
  rw [walkRules, (remarks rules).walk_eq_respond, (ofRules rules).walk_eq_respond, List.map_flatMap]
  exact List.flatMap_congr fun e _ => map_respond_remarks rules e

/-- A remark about a node is made on entry to a node at the same offset. -/
theorem exists_entry_of_ofNode {x : Remark} {e : TraceEvent} (hx : x ∈ (remarks rules).respond e)
    (hnode : x.OfNode) : ∃ n ctx, e.entry? = some (n, ctx) ∧ x.offset = n.span.offset := by
  cases e with
  | enter n ctx =>
      obtain ⟨r, _, hx⟩ := List.mem_flatMap.mp hx
      obtain ⟨v, hv, rfl⟩ := List.mem_map.mp hx
      exact ⟨n, ctx, rfl, congrArg Location.offset (hnode.2 ctx n v hv)⟩
  | exit closed ctx =>
      obtain ⟨r, _, hx⟩ := List.mem_flatMap.mp hx
      obtain ⟨v, _, rfl⟩ := List.mem_map.mp hx
      exact absurd hnode.1 Bool.false_ne_true

theorem pairwise_entry_walk (w : Setting) (h : ∀ d ∈ root.preorder, d.Ranged) :
    (tracer.walk w root).Pairwise fun e e' => ∀ n, e.entry? = some n → ∀ n', e'.entry? = some n' →
      n.1.span.offset ≤ n'.1.span.offset := by
  rw [← List.pairwise_filterMap]
  have hnodes := root.pairwise_preorder h
  rw [← map_fst_entries_walk w root, List.pairwise_map] at hnodes
  exact hnodes

/-- Of two remarks about nodes, the one made first stands no later in the source. -/
theorem pairwise_walk_remarks (rules : List Rule) (w : Setting)
    (h : ∀ d ∈ root.preorder, d.Ranged) :
    ((remarks rules).walk w root).Pairwise fun x y =>
      x.OfNode → y.OfNode → x.offset ≤ y.offset := by
  rw [walk_eq_respond, List.pairwise_flatMap]
  constructor
  · intro e _
    refine List.pairwise_of_forall_mem_list fun x hx y hy hxn hyn => ?_
    obtain ⟨n, ctx, he, hxo⟩ := exists_entry_of_ofNode hx hxn
    obtain ⟨n', ctx', he', hyo⟩ := exists_entry_of_ofNode hy hyn
    -- Both were made on the same entry.
    cases he.symm.trans he'
    rw [hxo, hyo]
  · refine (pairwise_entry_walk w h).imp fun hlater x hx y hy hxn hyn => ?_
    obtain ⟨n, ctx, he, hxo⟩ := exists_entry_of_ofNode hx hxn
    obtain ⟨n', ctx', he', hyo⟩ := exists_entry_of_ofNode hy hyn
    rw [hxo, hyo]
    exact hlater _ he _ he'

end Visitor

end ConcurrencyLint
