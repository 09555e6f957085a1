import ConcurrencyLint.Proofs.ParseTree.Places
import ConcurrencyLint.Proofs.Walk.Order

/-!
# Ranges of lowered trees

A parser gives every node a range, with the ranges of the children inside it and in order. Lowering
takes out wrappers and moves the operands of a generic construction up, but it never changes the
order of what it keeps. So the ranges of a lowered tree are nested and in order as well.
-/

namespace ConcurrencyLint.ParseTree

variable {source : ByteArray} {t c d : ParseTree} {p q : Address} {ps : List Address}
  {cs : List ParseTree}

/-- The node ends no earlier than it starts, and its children lie in its range, one after the
other. -/
@[mk_iff]
structure Ranged (t : ParseTree) : Prop where
  start_le_stop : t.start ≤ t.stop
  within : ∀ c ∈ t.children, t.start ≤ c.start ∧ c.stop ≤ t.stop
  ordered : t.children.Pairwise fun c d => c.stop ≤ d.start

instance (t : ParseTree) : Decidable t.Ranged := decidable_of_iff' _ (ranged_iff t)

/-! ## Ranges at addresses -/

theorem ranged_of_getElem? {i : Nat} (h : ∀ d ∈ t.preorder, d.Ranged)
    (hc : t.children[i]? = some c) : ∀ d ∈ c.preorder, d.Ranged :=
  fun d hd => h d (preorder_subset_of_mem_children (List.mem_of_getElem? hc) hd)

theorem range_of_at? (h : ∀ d ∈ t.preorder, d.Ranged) (hc : t.at? p = some c) :
    t.start ≤ c.start ∧ c.stop ≤ t.stop := by
  induction p generalizing t with
  | nil =>
      cases hc
      exact ⟨Nat.le_refl _, Nat.le_refl _⟩
  | cons i p ih =>
      obtain ⟨b, hb, hc⟩ := Option.bind_eq_some_iff.mp (t.at?_cons i p ▸ hc)
      have ⟨hlow, hhigh⟩ := (h t t.mem_preorder_self).within b (List.mem_of_getElem? hb)
      have ⟨hstart, hstop⟩ := ih (ranged_of_getElem? h hb) hc
      exact ⟨hlow.trans hstart, hstop.trans hhigh⟩

theorem stop_le_start_of_precedes (h : ∀ d ∈ t.preorder, d.Ranged) (hpq : Address.Precedes p q)
    (hc : t.at? p = some c) (hd : t.at? q = some d) : c.stop ≤ d.start := by
  induction hpq generalizing t with
  | @here i j p q hij =>
      obtain ⟨a, ha, hc⟩ := Option.bind_eq_some_iff.mp (t.at?_cons i p ▸ hc)
      obtain ⟨b, hb, hd⟩ := Option.bind_eq_some_iff.mp (t.at?_cons j q ▸ hd)
      have hab : a.stop ≤ b.start := by
        obtain ⟨hi, rfl⟩ := List.getElem?_eq_some_iff.mp ha
        obtain ⟨hj, rfl⟩ := List.getElem?_eq_some_iff.mp hb
        exact List.pairwise_iff_getElem.mp (h t t.mem_preorder_self).ordered i j hi hj hij
      calc c.stop
          ≤ a.stop := (range_of_at? (ranged_of_getElem? h ha) hc).2
        _ ≤ b.start := hab
        _ ≤ d.start := (range_of_at? (ranged_of_getElem? h hb) hd).1
  | @further p q i _ ih =>
      obtain ⟨b, hb, hc⟩ := Option.bind_eq_some_iff.mp (t.at?_cons i p ▸ hc)
      rw [at?_cons_of_getElem? hb] at hd
      exact ih (ranged_of_getElem? h hb) hc hd

theorem Places.within (hps : t.Places ps cs) (h : ∀ d ∈ t.preorder, d.Ranged) (hc : c ∈ cs) :
    t.start ≤ c.start ∧ c.stop ≤ t.stop := by
  have hmem : some c ∈ ps.map t.at? := hps.at_eq ▸ List.mem_map_of_mem hc
  obtain ⟨p, _, hat⟩ := List.mem_map.mp hmem
  exact range_of_at? h hat

theorem Places.pairwise (hps : t.Places ps cs) (h : ∀ d ∈ t.preorder, d.Ranged) :
    cs.Pairwise fun c d => c.stop ≤ d.start := by
  have hat : (ps.map t.at?).Pairwise fun x y => ∀ c, x = some c → ∀ d, y = some d →
      c.stop ≤ d.start := by
    rw [List.pairwise_map]
    exact hps.ordered.imp fun hpq c hc d hd => stop_le_start_of_precedes h hpq hc hd
  rw [hps.at_eq, List.pairwise_map] at hat
  exact hat.imp fun hcd => hcd _ rfl _ rfl

/-! ## Ranges of lowered nodes -/

theorem stop_span (h : t.Ranged) : t.span.stop = t.stop := Nat.add_sub_of_le h.start_le_stop

theorem mem_preorder_of_mem_structuralChildren
    (h : c ∈ t.structuralChildren (t.classify source)) : c ∈ t.preorder :=
  mem_preorder_of_mem_preorderAll (mem_preorderAll_of_mem_constituents (List.mem_filter.mp h).1)

theorem ranged_lower (source : ByteArray) (h : ∀ d ∈ t.preorder, d.Ranged) :
    (lower source t).Ranged := by
  obtain ⟨ps, hps, -, -⟩ := exists_places_constituents source t
  have hstop {c : ParseTree} (hc : c ∈ t.structuralChildren (t.classify source)) :
      (lower source c).span.stop = c.stop := by
    rw [lower_eq]
    exact stop_span (h c (mem_preorder_of_mem_structuralChildren hc))
  have hoffset (c : ParseTree) : (lower source c).span.offset = c.start := by rw [lower_eq]; rfl
  rw [lower_eq]
  constructor
  · intro n hn
    obtain ⟨c, hc, rfl⟩ := List.mem_map.mp hn
    rw [hstop hc, hoffset c, stop_span (h t t.mem_preorder_self)]
    exact hps.within h (List.mem_filter.mp hc).1
  · refine List.pairwise_map.mpr (((hps.pairwise h).filter _).imp_of_mem fun hc _ hcd => ?_)
    rw [hstop hc, hoffset]
    exact hcd

/-- Over a parse tree with nested and ordered ranges the lowered tree has such ranges too, and its
nodes are listed in the order of their offsets. So the violations that a walk finds on entry to
nodes, by rules that report the node itself, come out in the order of their offsets. All rules of
the catalogue are such rules but the one on sources that could not be parsed. -/
theorem toNode_ranges (source : ByteArray) (root : ParseTree)
    (hranged : ∀ d ∈ root.preorder, d.Ranged) :
    let tree := root.toNode source
    (∀ n ∈ tree.descendants, n.Ranged) ∧
    (tree.descendants.map (·.span.offset)).Pairwise (· ≤ ·) ∧
    (∀ rules w, ((Visitor.remarks rules).walk w tree).map Remark.violation =
        walkRules rules w tree ∧
      ((Visitor.remarks rules).walk w tree).Pairwise fun x y =>
        x.OfNode → y.OfNode → x.offset ≤ y.offset) ∧
    ∀ (b : BuiltinRule) severity o, b ≠ .unparsableSource →
      (b.ruleWith severity o).ReportsNode := by
  intro tree
  have htree : ∀ n ∈ tree.preorder, n.Ranged := by
    intro n hn
    rw [show tree = lower source root from toNode_eq source root] at hn
    obtain ⟨d, hd, rfl⟩ := exists_of_mem_preorder_lower hn
    exact ranged_lower source fun e he => hranged e (preorder_subset root hd he)
  rw [tree.descendants_eq_preorder, List.pairwise_map]
  refine ⟨htree, tree.pairwise_preorder htree, fun rules w => ?_, fun b => b.reportsNode⟩
  exact ⟨Visitor.map_violation_walk_remarks rules w tree,
    Visitor.pairwise_walk_remarks rules w htree⟩

/-- A rendering routine that constructs a stream, read as two comparisons, with a spawn in the
closure of the construction. -/
def streamInBody : ParseTree :=
  let token (kind : String) (start stop : Nat) : ParseTree :=
    ⟨kind, false, false, false, false, start, stop, 0, start, [], []⟩
  let node (kind : String) (start stop : Nat) (fields : List (String × Nat))
      (children : List ParseTree) : ParseTree :=
    ⟨kind, true, false, false, false, start, stop, 0, start, fields, children⟩
  let name (start stop : Nat) : ParseTree := node "simple_identifier" start stop [] []
  let spawn : ParseTree := node "call_expression" 33 41 [] [
    name 33 37,
    node "call_suffix" 38 41 [] [
      node "lambda_literal" 38 41 [] [token "\x7b" 38 39, token "\x7d" 40 41]]]
  let closure : ParseTree := node "lambda_literal" 31 43 [] [
    token "\x7b" 31 32, node "statements" 33 41 [] [spawn], token "\x7d" 42 43]
  let stream : ParseTree := node "comparison_expression" 14 43 [] [
    name 14 25, token "<" 25 26,
    node "comparison_expression" 26 43 [] [name 26 29, token ">" 29 30, closure]]
  node "source_file" 0 45 [] [
    node "function_declaration" 0 45 [("name", 1)] [
      token "func" 0 4, name 5 9, token "(" 9 10, token ")" 10 11,
      node "function_body" 12 45 [] [
        token "\x7b" 12 13, node "statements" 14 43 [] [stream], token "\x7d" 44 45]]]

theorem toNode_ranges_streamInBody :
    let text := "func body() \x7b AsyncStream<Int> \x7b Task \x7b \x7d \x7d \x7d"
    let tree := streamInBody.toNode text.toUTF8
    let w : Setting := ⟨⟨"A.swift", text⟩, .builtin⟩
    let found := (Visitor.remarks (catalog { maxTasks := 0 })).walk w tree
    (∀ d ∈ streamInBody.preorder, d.Ranged) ∧
    (∀ n ∈ tree.descendants, n.Ranged) ∧
    (tree.descendants.map (·.span.offset)).Pairwise (· ≤ ·) ∧
    found.map (fun x => (x.violation.code, x.onEntry, x.offset)) =
      [("CC-CONC-004", true, 14), ("CC-CONC-003", true, 33), ("CC-CONC-005", false, 0)] ∧
    found.Pairwise fun x y => x.OfNode → y.OfNode → x.offset ≤ y.offset := by
  intro text tree w found
  have hranged : ∀ d ∈ streamInBody.preorder, d.Ranged := by decide
  obtain ⟨htree, hoffsets, hfound, -⟩ := toNode_ranges text.toUTF8 streamInBody hranged
  exact ⟨hranged, htree, hoffsets, by decide +kernel, (hfound _ _).2⟩

end ConcurrencyLint.ParseTree
