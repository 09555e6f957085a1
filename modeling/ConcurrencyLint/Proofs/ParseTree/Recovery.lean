import ConcurrencyLint.Proofs.ParseTree.Nodes
import ConcurrencyLint.Proofs.Rule.Table

/-!
# Reporting recovered sources

A tree in which the grammar had to recover is reported once, through the root of the lowered tree.
This needs a root that is lowered to a source file: when the parser gives up on the whole text, its
root is an error node, and then nothing is reported.
-/

namespace ConcurrencyLint

/-! ## Rules that look at nodes alone -/

theorem unit_of_mem_entries_walk {w : Setting} {root : Node} {e : Node × Context}
    (h : e ∈ TraceEvent.entries (tracer.walk w root)) : e.2.unit = w.unit := by
  have hunits : ((TraceEvent.entries (tracer.walk w root)).map (Prod.map some id)).map
      (·.2.unit) = root.addresses.map fun _ => w.unit := by
    rw [entries_walk]
    refine map_mapPast ?_ _
    intro past a
    exact unit_contextAt w .empty root past a
  rw [List.map_map] at hunits
  have hmem := List.mem_map_of_mem (f := (·.2.unit) ∘ Prod.map some id) h
  rw [hunits] at hmem
  obtain ⟨_, _, hu⟩ := List.mem_map.mp hmem
  exact hu.symm

/-- A rule that says nothing at scope exits, and at a node what depends on the unit and the node
only, finds the same as one look at every node. -/
theorem walkRules_singleton {r : Rule} {w : Setting} {found : Node → List Violation}
    (hnode : ∀ ctx n, ctx.unit = w.unit → r.checkNode ctx n = found n)
    (hexit : ∀ ctx closed, r.checkScopeExit ctx closed = []) (root : Node) :
    walkRules [r] w root = root.preorder.flatMap found := by
  have henter (e : Node × Context) (he : e ∈ TraceEvent.entries (tracer.walk w root)) :
      (Visitor.ofRules [r]).respond (.enter e.1 e.2) = found e.1 := by
    simp [Visitor.respond, Visitor.ofRules, hnode _ _ (unit_of_mem_entries_walk he)]
  have hleave (closed : Scope) (ctx : Context) :
      (Visitor.ofRules [r]).respond (.exit closed ctx) = [] := by
    simp [Visitor.respond, Visitor.ofRules, hexit]
  calc walkRules [r] w root
      = (TraceEvent.entries (tracer.walk w root)).flatMap fun e =>
          (Visitor.ofRules [r]).respond (.enter e.1 e.2) := by
        rw [walkRules, Visitor.walk_eq_respond, TraceEvent.flatMap_eq_entries _ hleave]
    _ = (TraceEvent.entries (tracer.walk w root)).flatMap fun e => found e.1 :=
        List.flatMap_congr henter
    _ = root.preorder.flatMap found := by
        rw [← map_fst_entries_walk w root, List.flatMap_map]

/-- What is said about a recovered source. -/
def unparsableAt (w : Setting) (severity : Severity) (s : Span) : Violation where
  code := "CC-PARSE-001"
  rule := "unparsable-source"
  severity := severity
  location := ⟨w.unit.identifier, s.line, s.column, s.offset, s.length⟩
  message := "Source could not be fully parsed - results may be incomplete"
  suggestion := none

/-- The place of the first error, at a node that is a source file with one. -/
def Node.fileError? (n : Node) : Option Span :=
  match n.kind with
  | .sourceFile firstError => firstError
  | _ => none

theorem walkRules_unparsableSource (severity : Severity) (o : RuleOptions) (w : Setting)
    (root : Node) : walkRules [BuiltinRule.unparsableSource.ruleWith severity o] w root =
      root.preorder.flatMap fun n => (n.fileError?.map (unparsableAt w severity)).toList := by
  refine walkRules_singleton ?_ (fun _ _ => rfl) root
  rintro ctx ⟨kind, span, children⟩ hunit
  cases kind with
  | sourceFile firstError =>
      cases firstError with
      | none => rfl
      | some s =>
          simp [BuiltinRule.ruleWith, BuiltinRule.inspectNode, RuleHeader.violation,
            Context.location, BuiltinRule.header, Node.fileError?, unparsableAt, hunit]
  | _ => rfl

/-! ## The root of a lowered tree -/

namespace ParseTree

variable {source : ByteArray} {root d : ParseTree}

theorem classify_of_isFault (h : d.isFault) : d.classify source = .error := by
  rw [classify, if_pos h]

theorem classify_of_source_file (hkind : d.kind = "source_file") (h : ¬d.isFault) :
    d.classify source = .sourceFile d.firstError := by
  rw [classify, if_neg h, hkind]
  rfl

theorem kind_of_classify {firstError : Option Span}
    (h : d.classify source = .sourceFile firstError) : d.kind = "source_file" := by
  unfold classify at h
  split at h
  · cases h
  · split at h
    case h_1 hkind => exact hkind
    -- Comparisons and prefix expressions are looked into once more.
    all_goals try split at h
    all_goals cases h

theorem fileError?_lower_of_kind_ne (h : d.kind ≠ "source_file") :
    (lower source d).fileError? = none := by
  rw [lower_eq, Node.fileError?]
  split
  · rename_i hk
    exact absurd (kind_of_classify hk) h
  · rfl

theorem fileError?_lower_of_isFault (h : d.isFault) : (lower source d).fileError? = none := by
  rw [lower_eq, Node.fileError?, classify_of_isFault h]

theorem fileError?_lower_of_source_file (hkind : d.kind = "source_file") (h : ¬d.isFault) :
    (lower source d).fileError? = d.firstError := by
  rw [lower_eq, Node.fileError?, classify_of_source_file hkind h]

/-- With no further source file in the tree, the root alone decides what is reported. -/
theorem walkRules_unparsableSource_toNode (severity : Severity) (o : RuleOptions) (w : Setting)
    (source : ByteArray) (honly : ∀ d ∈ preorderAll root.children, d.kind ≠ "source_file") :
    walkRules [BuiltinRule.unparsableSource.ruleWith severity o] w (root.toNode source) =
      ((lower source root).fileError?.map (unparsableAt w severity)).toList := by
  have hbelow : (Node.preorderAll (lower source root).children).flatMap
      (fun n => (n.fileError?.map (unparsableAt w severity)).toList) = [] := by
    rw [List.flatMap_eq_nil_iff]
    intro n hn
    obtain ⟨d, hd, rfl⟩ := exists_of_mem_lower source root hn
    simp [fileError?_lower_of_kind_ne (honly d hd)]
  rw [toNode_eq, walkRules_unparsableSource, Node.preorder_eq, List.flatMap_cons, hbelow,
    List.append_nil]

/-- A tree without errors is never reported, and one with errors is reported exactly once, at its
first error, if its root is a sound source file. A root of another kind, or one that is itself an
error, is not reported whatever is wrong with the tree. -/
theorem unparsableSource_reports (severity : Severity) (o : RuleOptions) (w : Setting)
    (source : ByteArray) (root : ParseTree)
    (honly : ∀ d ∈ preorderAll root.children, d.kind ≠ "source_file") :
    let found := walkRules [BuiltinRule.unparsableSource.ruleWith severity o] w
      (root.toNode source)
    (¬root.hasError → found = []) ∧
    (root.hasError → root.kind = "source_file" → ¬root.isFault →
      ∃ s, root.firstError = some s ∧ found = [unparsableAt w severity s]) ∧
    (root.kind ≠ "source_file" ∨ root.isFault → found = []) := by
  intro found
  have hfound : found = ((lower source root).fileError?.map (unparsableAt w severity)).toList :=
    walkRules_unparsableSource_toNode severity o w source honly
  have hunsound (h : root.kind ≠ "source_file" ∨ root.isFault) : found = [] := by
    rcases h with h | h
    · simp [hfound, fileError?_lower_of_kind_ne h]
    · simp [hfound, fileError?_lower_of_isFault h]
  refine ⟨?_, ?_, hunsound⟩
  · intro herror
    by_cases h : root.kind = "source_file" ∧ ¬root.isFault
    · simp [hfound, fileError?_lower_of_source_file h.1 h.2, firstError, herror]
    · exact hunsound (by tauto)
  · intro herror hkind hfault
    refine ⟨(searchFault [root]).getD root.span, by rw [firstError, if_pos herror], ?_⟩
    simp [hfound, fileError?_lower_of_source_file hkind hfault, firstError, herror]

/-- The tree of `a b c d` and a line feed: a name, and the rest as an error. -/
def fourNames : ParseTree :=
  ⟨"source_file", true, false, false, true, 0, 8, 0, 0, [], [
    ⟨"simple_identifier", true, false, false, false, 0, 1, 0, 0, [], []⟩,
    ⟨"ERROR", true, true, false, true, 2, 7, 0, 2, [], [
      ⟨"ERROR", true, true, false, false, 2, 7, 0, 2, [], []⟩]⟩]⟩

theorem unparsableSource_reports_fourNames :
    let w : Setting := ⟨⟨"Sample.swift", "a b c d\n"⟩, .builtin⟩
    ∃ s, fourNames.firstError = some s ∧
      walkRules [BuiltinRule.unparsableSource.ruleWith .warning {}] w
        (fourNames.toNode "a b c d\n".toUTF8) = [unparsableAt w .warning s] := by
  intro w
  have honly : ∀ d ∈ preorderAll fourNames.children, d.kind ≠ "source_file" := by decide
  exact (unparsableSource_reports .warning {} w "a b c d\n".toUTF8 fourNames honly).2.1 rfl rfl
    (by decide)

/-- The tree of `func f() { Task(`, of which the parser makes nothing: an error from the root on. -/
def unclosedCall : ParseTree :=
  let token (kind : String) (start stop : Nat) : ParseTree :=
    ⟨kind, false, false, false, false, start, stop, 0, start, [], []⟩
  let name (start stop : Nat) : ParseTree :=
    ⟨"simple_identifier", true, false, false, false, start, stop, 0, start, [], []⟩
  ⟨"ERROR", true, true, false, true, 0, 16, 0, 0, [],
    [token "func" 0 4, name 5 6, token "(" 6 7, token ")" 7 8, token "\x7b" 9 10, name 11 15,
      token "(" 15 16]⟩

theorem unclosedCall_not_reported :
    unclosedCall.hasError ∧ (∀ d ∈ preorderAll unclosedCall.children, d.kind ≠ "source_file") ∧
    walkRules [BuiltinRule.unparsableSource.ruleWith .warning {}]
      ⟨⟨"Sample.swift", "func f() \x7b Task("⟩, .builtin⟩
      (unclosedCall.toNode "func f() \x7b Task(".toUTF8) = [] := by
  have honly : ∀ d ∈ preorderAll unclosedCall.children, d.kind ≠ "source_file" := by decide
  refine ⟨rfl, honly, ?_⟩
  rw [walkRules_unparsableSource_toNode _ _ _ _ honly, fileError?_lower_of_isFault rfl]
  rfl

end ParseTree

end ConcurrencyLint
