import ConcurrencyLint.Proofs.Analyzer.Agreement
import ConcurrencyLint.Proofs.ParseTree.Positions
import ConcurrencyLint.Swift

/-!
# Locations of violations

A rule of the catalogue points at a place of the node that it looks at, or at the node that opened
the scope that it sees closed. So violations of a source stand at nodes of its parse tree.
-/

namespace ConcurrencyLint

variable {w : Setting} {root : Node} {v : Violation} {closed : Scope} {ctx : Context}

/-! ## What rules point at -/

/-- The location of a span in a unit. -/
def SourceUnit.locate (u : SourceUnit) (s : Span) : Location :=
  ⟨u.identifier, s.line, s.column, s.offset, s.length⟩

/-- The location is that of a node in the tree of a unit. Its range lies in the text, its line comes
after as many line feeds as stand before its offset, and its column after as many bytes as stand
between the last of these and its offset. -/
structure Location.InTree (u : SourceUnit) (tree : ParseTree) (l : Location) : Prop where
  file_eq : l.file = u.identifier
  stop_le_size : l.offset + l.length ≤ u.text.utf8ByteSize
  line_eq : l.line = Text.rowAt u.text.toUTF8 l.offset + 1
  column_eq : l.column = Text.columnAt u.text.toUTF8 l.offset + 1
  exists_node : ∃ d ∈ tree.preorder, d.start = l.offset ∧ d.stop = l.offset + l.length

theorem ParseTree.Placed.inTree {u : SourceUnit} {tree d : ParseTree}
    (h : d.Placed u.text.toUTF8) (hd : d ∈ tree.preorder) : (u.locate d.span).InTree u tree where
  file_eq := rfl
  stop_le_size := (Nat.add_sub_of_le h.start_le_stop).trans_le h.stop_le_size
  line_eq := congrArg (· + 1) h.row_eq
  column_eq := congrArg (· + 1) h.column_eq
  exists_node := ⟨d, hd, rfl, (Nat.add_sub_of_le h.start_le_stop).symm⟩

namespace BuiltinRule

variable {o : RuleOptions} {n : Node} {f : Finding}

theorem span_mem_places_of_inspectNode (b : BuiltinRule) (h : b.inspectNode o ctx n = some f) :
    f.span ∈ n.places := by
  rw [inspectNode_eq_some_iff] at h
  cases h with
  | unparsableSource hkind =>
      rw [Node.places, Node.fileError?, hkind]
      exact List.mem_cons_of_mem _ (Option.mem_toList.mpr rfl)
  | _ => exact List.mem_cons_self

theorem span_of_inspectScope (b : BuiltinRule) (h : b.inspectScope o closed = some f) :
    f.span = closed.span := by
  cases b.eq_excessiveSpawns_of_inspectScope h
  rw [inspectScope, Option.ite_none_right_eq_some] at h
  obtain ⟨_, ⟨⟩⟩ := h
  rfl

end BuiltinRule

/-! ## What is seen on a walk -/

theorem mem_entries_of_mem_trace {trace : List TraceEvent} {n : Node}
    (h : .enter n ctx ∈ trace) : (n, ctx) ∈ TraceEvent.entries trace :=
  List.mem_filterMap.mpr ⟨_, h, rfl⟩

theorem mem_closings_of_mem_trace {trace : List TraceEvent} (h : .exit closed ctx ∈ trace) :
    (closed, ctx) ∈ TraceEvent.closings trace :=
  List.mem_filterMap.mpr ⟨_, h, rfl⟩

theorem Node.mem_preorder_of_at? {n : Node} {a : Address} (h : root.at? a = some n) :
    n ∈ root.preorder := by
  have ha : a ∈ root.addresses := (root.mem_addresses a).mpr (Option.isSome_of_eq_some h)
  have hmem := List.mem_map_of_mem (f := root.at?) ha
  rw [root.map_at?_addresses, h] at hmem
  obtain ⟨_, hn, ⟨⟩⟩ := List.mem_map.mp hmem
  exact hn

theorem exists_span_of_mem_closings (h : (closed, ctx) ∈ TraceEvent.closings (tracer.walk w root)) :
    ctx.unit = w.unit ∧ ∃ n ∈ root.preorder, n.span = closed.span := by
  rw [closings_walk] at h
  obtain ⟨_, hscope, heq⟩ := List.mem_map.mp h
  cases heq
  obtain ⟨a, _, hat⟩ := List.mem_filterMap.mp hscope
  obtain ⟨n, hn, hopens⟩ := Option.bind_eq_some_iff.mp hat
  obtain ⟨kind, _, rfl⟩ := Option.map_eq_some_iff.mp hopens
  exact ⟨rfl, n, Node.mem_preorder_of_at? hn, rfl⟩

/-- Every violation that rules of the catalogue find is found at a place of a node. -/
theorem exists_place_of_mem_walkRules {rules : List Rule}
    (hrules : ∀ r ∈ rules, ∃ b o, r = BuiltinRule.rule b o) (hv : v ∈ walkRules rules w root) :
    ∃ n ∈ root.preorder, ∃ s ∈ n.places, v.location = w.unit.locate s := by
  rw [walkRules, Visitor.walk_eq_respond] at hv
  obtain ⟨event, hevent, hv⟩ := List.mem_flatMap.mp hv
  cases event with
  | enter n ctx =>
      have hentry := mem_entries_of_mem_trace hevent
      have hn : n ∈ root.preorder := by
        rw [← map_fst_entries_walk w root]
        exact List.mem_map_of_mem hentry
      obtain ⟨r, hr, hv⟩ := List.mem_flatMap.mp hv
      obtain ⟨b, o, rfl⟩ := hrules r hr
      obtain ⟨f, hf, rfl⟩ := List.mem_map.mp hv
      refine ⟨n, hn, f.span, b.span_mem_places_of_inspectNode (Option.mem_toList.mp hf), ?_⟩
      rw [← unit_of_mem_entries_walk hentry]
      rfl
  | exit closed ctx =>
      -- The scope has outlived its node, but keeps the place of the node that opened it.
      obtain ⟨hunit, n, hn, hspan⟩ := exists_span_of_mem_closings (mem_closings_of_mem_trace hevent)
      obtain ⟨r, hr, hv⟩ := List.mem_flatMap.mp hv
      obtain ⟨b, o, rfl⟩ := hrules r hr
      obtain ⟨f, hf, rfl⟩ := List.mem_map.mp hv
      have hf := b.span_of_inspectScope (Option.mem_toList.mp hf)
      refine ⟨n, hn, n.span, List.mem_cons_self, ?_⟩
      rw [hspan, ← hf, ← hunit]
      rfl

/-! ## Violations of a source -/

namespace Analyzer

variable {a : Analyzer} {c : Config} {parser : SourceParser} {tree : ParseTree}

theorem exists_assemble_of_standard (h : standard parser c = .ok a) :
    ∃ patterns, a = assemble parser c (catalogFor c) patterns := by
  rw [standard, build_eq] at h
  cases hpatterns : compilePatterns ([] ++ c.analyzer.exclude) with
  | error cause => rw [hpatterns] at h; cases h
  | ok patterns => rw [hpatterns] at h; cases h; exact ⟨patterns, rfl⟩

theorem builtin_of_mem_rules (h : standard parser c = .ok a) :
    ∀ r ∈ a.rules, ∃ b o, r = BuiltinRule.rule b o := by
  obtain ⟨patterns, rfl⟩ := exists_assemble_of_standard h
  intro r hr
  obtain ⟨b, _, rfl⟩ := List.mem_map.mp (List.mem_filter.mp hr).1
  exact ⟨b, _, rfl⟩

theorem exists_span_of_mem_analyzeTree (h : standard parser c = .ok a) {u : SourceUnit}
    {source : ByteArray} (hv : v ∈ a.analyzeTree u (tree.toNode source)) :
    ∃ d ∈ tree.preorder, v.location = u.locate d.span := by
  obtain ⟨v, hkept, rfl⟩ := List.mem_map.mp hv
  have hfound := (List.mem_filter.mp hkept).1
  rw [ParseTree.toNode_eq] at hfound
  obtain ⟨n, hn, s, hs, hlocation⟩ :=
    exists_place_of_mem_walkRules (builtin_of_mem_rules h) hfound
  obtain ⟨d, hd, rfl⟩ := ParseTree.exists_span_of_mem_places hn hs
  exact ⟨d, hd, hlocation⟩

theorem analyzeUnit_of_standard {grammar : String → Except ParseError ParseTree} {u : SourceUnit}
    (hbuild : standard (Swift.parser grammar) c = .ok a) (htree : grammar u.text = .ok tree) :
    a.analyzeUnit u = .ok (a.analyzeTree u (tree.toNode u.text.toUTF8)) := by
  have hparser : a.parser = Swift.parser grammar := by
    obtain ⟨patterns, rfl⟩ := exists_assemble_of_standard hbuild
    rfl
  have hparse : (Swift.parser grammar).parse u.text = .ok (tree.toNode u.text.toUTF8) :=
    congrArg (Except.map _) htree
  rw [analyzeUnit, hparser, hparse]

/-- Over a grammar whose nodes stand where they say, every violation of a text is at a node of its
parse tree: its range lies in the text, and its line and column are those of its offset. -/
theorem analyzeUnit_locations (grammar : String → Except ParseError ParseTree) (c : Config)
    (a : Analyzer) (u : SourceUnit) (tree : ParseTree)
    (hbuild : standard (Swift.parser grammar) c = .ok a) (htree : grammar u.text = .ok tree)
    (hplaced : ∀ d ∈ tree.preorder, d.Placed u.text.toUTF8) :
    ∃ violations, a.analyzeUnit u = .ok violations ∧
      ∀ v ∈ violations, v.location.InTree u tree := by
  refine ⟨_, analyzeUnit_of_standard hbuild htree, fun v hv => ?_⟩
  obtain ⟨d, hd, hlocation⟩ := exists_span_of_mem_analyzeTree hbuild hv
  rw [hlocation]
  exact (hplaced d hd).inTree hd

/-- The tree of a function with a task on its fourth line. -/
def indentedTask : ParseTree :=
  let token (kind : String) (start stop row column : Nat) : ParseTree :=
    ⟨kind, false, false, false, false, start, stop, row, column, [], []⟩
  let node (kind : String) (start stop row column : Nat) (fields : List (String × Nat))
      (children : List ParseTree) : ParseTree :=
    ⟨kind, true, false, false, false, start, stop, row, column, fields, children⟩
  node "source_file" 0 24 0 0 [] [
    node "function_declaration" 0 24 0 0 [("name", 1)] [
      token "func" 0 4 0 0, node "simple_identifier" 5 6 0 5 [] [],
      token "(" 6 7 0 6, token ")" 7 8 0 7,
      node "function_body" 9 24 0 9 [] [
        token "\x7b" 9 10 0 9,
        node "statements" 14 23 3 1 [] [
          node "call_expression" 14 22 3 1 [] [
            node "simple_identifier" 14 18 3 1 [] [],
            node "call_suffix" 19 22 3 6 [] [
              node "lambda_literal" 19 22 3 6 [] [
                token "\x7b" 19 20 3 6, token "\x7d" 21 22 3 8]]]],
        token "\x7d" 23 24 4 0]]]

def indentedText : String := "func f() \x7b\n\n\n\tTask\t\x7b \x7d\n\x7d"

theorem analyzeUnit_locations_indentedTask :
    let c : Config := {
      analyzer := { renderEntryPoints := ["f"] }
      rules := [("CC-CONC-005", { options := [("max_tasks", .integer 0)] })] }
    let u : SourceUnit := ⟨"A.swift", indentedText⟩
    (∀ d ∈ indentedTask.preorder, d.Placed u.text.toUTF8) ∧
    ∃ a violations, standard (Swift.parser fun _ => .ok indentedTask) c = .ok a ∧
      a.analyzeUnit u = .ok violations ∧
      violations.map (fun v => (v.code, v.location)) =
        [("CC-CONC-003", ⟨"A.swift", 4, 2, 14, 8⟩), ("CC-CONC-005", ⟨"A.swift", 1, 1, 0, 24⟩)] ∧
      ∀ v ∈ violations, v.location.InTree u indentedTask := by
  intro c u
  have hplaced : ∀ d ∈ indentedTask.preorder, d.Placed u.text.toUTF8 := by decide
  obtain ⟨violations, hunit, hlocations⟩ := analyzeUnit_locations
    (fun _ => .ok indentedTask) c _ u indentedTask rfl rfl hplaced
  refine ⟨hplaced, _, violations, rfl, hunit, ?_, hlocations⟩
  cases hunit
  decide +kernel

end Analyzer

end ConcurrencyLint
