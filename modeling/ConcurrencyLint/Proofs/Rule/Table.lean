import ConcurrencyLint.Proofs.Node.Descendants
import ConcurrencyLint.Proofs.Rule.Settings
import ConcurrencyLint.Proofs.Walk.Attribution

/-!
# The rule table

When a built-in rule reports a node, said of the node and the scope around it. The walk of a tree
with the catalogue finds what the table says of each node, in pre-order of the nodes.
-/

namespace ConcurrencyLint

namespace Node

def Calls (n : Node) (name : String) : Prop := n.kind = .call (some name)

/-- An access to the given member, on any base. -/
def Accesses (n : Node) (member : String) : Prop := ∃ base, n.kind = .memberAccess base member

/-- The closure is a child of the call, or the first child of one of its arguments. -/
def Passes (call closure : Node) : Prop :=
  closure.kind = .closure ∧ (closure ∈ call.children ∨
    ∃ arg ∈ call.children, (∃ label, arg.kind = .argument label) ∧
      arg.children.head? = some closure)

theorem isCallTo_iff (n : Node) (name : String) : n.isCallTo name ↔ n.Calls name := by
  obtain ⟨kind, span, children⟩ := n
  cases kind <;> simp [isCallTo, callee, Calls]

theorem member_eq_some_iff (n : Node) (member : String) :
    n.member = some member ↔ n.Accesses member := by
  obtain ⟨kind, span, children⟩ := n
  cases kind <;> simp [Node.member, Accesses]

theorem hasArgument_iff (n : Node) (label : String) :
    n.hasArgument label ↔ ∃ arg ∈ n.children, arg.kind = .argument (some label) := by
  have hlabel (c : Node) :
      (∃ v, c.asArgument = some (some label, v)) ↔ c.kind = .argument (some label) := by
    obtain ⟨kind, span, children⟩ := c
    cases kind <;> simp [asArgument]
  simp only [hasArgument, arguments, List.any_eq_true, List.mem_filterMap, beq_iff_eq, ← hlabel]
  constructor
  · rintro ⟨⟨l, v⟩, ⟨c, hc, hv⟩, rfl⟩
    exact ⟨c, hc, v, hv⟩
  · rintro ⟨c, hc, v, hv⟩
    exact ⟨_, ⟨c, hc, hv⟩, rfl⟩

/-- Looking for a label among the arguments is looking for a child with this label. -/
theorem argument_eq (n : Node) (label : String) : n.argument label =
    (n.children.find? fun c => c.kind = .argument (some label)).bind (·.children.head?) := by
  rw [argument, arguments]
  induction n.children with
  | nil => rfl
  | cons c cs ih =>
      obtain ⟨kind, span, children⟩ := c
      cases kind with
      | argument l =>
          by_cases h : l = some label
          · simp [asArgument, h]
          · simpa [asArgument, h] using ih
      | _ => simpa [asArgument] using ih

theorem mem_closureArguments_iff (n c : Node) : c ∈ n.closureArguments ↔ n.Passes c := by
  have hpassed (child : Node) : child.passedClosure = some c ↔ c.kind = .closure ∧
      (c = child ∨ (∃ label, child.kind = .argument label) ∧ child.children.head? = some c) := by
    obtain ⟨kind, span, children⟩ := child
    cases kind <;> simp [passedClosure, isClosure, Option.filter_eq_some_iff]
    all_goals grind
  simp only [closureArguments, List.mem_filterMap, hpassed, Passes]
  constructor
  · rintro ⟨child, hmem, hc, rfl | ⟨hl, hv⟩⟩
    · exact ⟨hc, .inl hmem⟩
    · exact ⟨hc, .inr ⟨child, hmem, hl, hv⟩⟩
  · rintro ⟨hc, hmem | ⟨arg, hmem, hl, hv⟩⟩
    · exact ⟨c, hmem, hc, .inl rfl⟩
    · exact ⟨arg, hmem, hc, .inr ⟨hl, hv⟩⟩

/-- The node opens a scope of the given kind. -/
inductive Opens (points : EntryPoints) (n : Node) : ScopeKind → Prop
  | initializer : n.kind = .initializer → Opens points n .initializer
  | routine {name : String} : n.kind = .function name → name ∈ points.names →
      Opens points n .renderingRoutine
  | property {bindings : List Binding} : n.kind = .variables bindings →
      ⟨some "body", true⟩ ∈ bindings → Opens points n .renderingRoutine
  | function {name : String} : n.kind = .function name → name ∉ points.names →
      Opens points n .function

theorem any_isComputed_iff (bindings : List Binding) (name : String) :
    bindings.any (·.isComputed name) ↔ ⟨some name, true⟩ ∈ bindings := by
  rw [List.any_eq_true]
  constructor
  · rintro ⟨⟨bound, hasBlock⟩, hmem, hcomputed⟩
    simp only [Binding.isComputed, Bool.and_eq_true, beq_iff_eq] at hcomputed
    rwa [hcomputed.1, hcomputed.2] at hmem
  · intro hmem
    exact ⟨_, hmem, by simp [Binding.isComputed]⟩

theorem opens_eq_some_iff (points : EntryPoints) (n : Node) (scope : ScopeKind) :
    n.opens points = some scope ↔ n.Opens points scope := by
  constructor
  · intro h
    rw [opens] at h
    split at h
    · rename_i hkind
      cases h
      exact .initializer hkind
    · rename_i name hkind
      by_cases hname : name ∈ points.names
      · rw [EntryPoints.contains, if_pos (List.contains_iff_mem.mpr hname)] at h
        cases h
        exact .routine hkind hname
      · rw [EntryPoints.contains, if_neg fun hc => hname (List.contains_iff_mem.mp hc)] at h
        cases h
        exact .function hkind hname
    · rename_i bindings hkind
      rw [Option.ite_none_right_eq_some, any_isComputed_iff] at h
      obtain ⟨hmem, ⟨⟩⟩ := h
      exact .property hkind hmem
    · cases h
  · intro h
    cases h with
    | initializer hkind => simp [opens, hkind]
    | routine hkind hname => simp [opens, hkind, EntryPoints.contains, hname]
    | property hkind hmem =>
        simp only [opens, hkind, Option.ite_none_right_eq_some, any_isComputed_iff, and_true]
        exact hmem
    | function hkind hname => simp [opens, hkind, EntryPoints.contains, hname]

end Node

/-! ## The table -/

/-- The rule reports the finding at a node that stands in a scope of the given kind. -/
inductive Reported (o : RuleOptions) (scope : ScopeKind) (n : Node) : BuiltinRule → Finding → Prop
  | detachedTask : n.kind = .memberAccess (some "Task") "detached" →
      Reported o scope n .detachedTask ⟨n.span,
        "Task.detached usage - prefer structured concurrency",
        some "Use a child task (`async let`, a task group) or `Task \x7b\x7d` tied to its owner"⟩
  | taskInInitializer : n.Calls "Task" → scope = .initializer →
      Reported o scope n .taskInInitializer ⟨n.span,
        "Task \x7b\x7d in initializer - causes side effects during init",
        some "Start the work from an explicit `start()` method or a `.task \x7b\x7d` modifier"⟩
  | taskInRenderPath : n.Calls "Task" → scope = .renderingRoutine →
      Reported o scope n .taskInRenderPath ⟨n.span,
        "Task \x7b\x7d in render/layout path - may block UI",
        some "Use the `.task \x7b\x7d` view modifier or move the work to a view model"⟩
  | streamTermination {name : String} : name ∈ o.constructors → n.Calls name →
      (∀ arg ∈ n.children, arg.kind ≠ .argument (some "onTermination")) →
      (o.acceptContinuationHandler → ∀ closure, n.Passes closure →
        ∀ d ∈ closure.preorder, ¬d.Accesses "onTermination") →
      Reported o scope n .streamTermination ⟨n.span,
        "AsyncStream without onTermination handler - may leak resources",
        some "Pass an `onTermination:` handler that cancels the producer"⟩
  | backgroundPriority {arg value : Node} : n.Calls "Task" →
      (n.children.find? fun c => c.kind = .argument (some "priority")) = some arg →
      arg.children.head? = some value → value.Accesses "background" →
      Reported o scope n .backgroundPriority ⟨n.span,
        ".background priority may cause priority inversion",
        some "Use `.utility` or inherit the caller's priority"⟩
  /-- The only rule that points elsewhere: at what could not be parsed. -/
  | unparsableSource {s : Span} : n.kind = .sourceFile (some s) →
      Reported o scope n .unparsableSource ⟨s,
        "Source could not be fully parsed - results may be incomplete", none⟩

theorem RuleOptions.isStreamConstruction_iff (o : RuleOptions) (n : Node) :
    o.isStreamConstruction n ↔ ∃ name ∈ o.constructors, n.Calls name := by
  obtain ⟨kind, span, children⟩ := n
  cases kind <;> simp [isStreamConstruction, Node.callee, Node.Calls, Option.any_eq_true]
  all_goals grind

theorem RuleOptions.installsHandler_iff (o : RuleOptions) (n : Node) :
    o.installsHandler n ↔ (∃ arg ∈ n.children, arg.kind = .argument (some "onTermination")) ∨
      (o.acceptContinuationHandler ∧ ∃ closure, n.Passes closure ∧
        ∃ d ∈ closure.preorder, d.Accesses "onTermination") := by
  simp only [installsHandler, Bool.or_eq_true, Bool.and_eq_true, Node.hasArgument_iff,
    List.any_eq_true, Node.mem_closureArguments_iff, Node.descendants_eq_preorder, beq_iff_eq,
    Node.member_eq_some_iff, terminationHandler]

namespace BuiltinRule

variable {o : RuleOptions} {ctx : Context} {n : Node} {f : Finding}

/-- The rules report what the table says. -/
theorem inspectNode_eq_some_iff (b : BuiltinRule) :
    b.inspectNode o ctx n = some f ↔ Reported o ctx.scope n b f := by
  cases b with
  | detachedTask =>
      rw [inspectNode, Option.ite_none_right_eq_some]
      constructor
      · rintro ⟨h, ⟨⟩⟩; exact .detachedTask h
      · intro h
        cases h with
        | detachedTask h => exact ⟨h, rfl⟩
  | taskInInitializer =>
      rw [inspectNode, Option.ite_none_right_eq_some, Node.isTaskSpawn, Node.isCallTo_iff]
      constructor
      · rintro ⟨⟨hs, hc⟩, ⟨⟩⟩; exact .taskInInitializer hc hs
      · intro h
        cases h with
        | taskInInitializer hc hs => exact ⟨⟨hs, hc⟩, rfl⟩
  | taskInRenderPath =>
      rw [inspectNode, Option.ite_none_right_eq_some, Node.isTaskSpawn, Node.isCallTo_iff]
      constructor
      · rintro ⟨⟨hs, hc⟩, ⟨⟩⟩; exact .taskInRenderPath hc hs
      · intro h
        cases h with
        | taskInRenderPath hc hs => exact ⟨⟨hs, hc⟩, rfl⟩
  | streamTermination =>
      rw [inspectNode, Option.ite_none_right_eq_some, RuleOptions.isStreamConstruction_iff,
        Bool.not_eq_true', ← Bool.not_eq_true, RuleOptions.installsHandler_iff]
      constructor
      · rintro ⟨⟨⟨name, hname, hc⟩, hno⟩, ⟨⟩⟩
        refine .streamTermination hname hc ?_ ?_
        · intro arg harg hkind
          exact hno (.inl ⟨arg, harg, hkind⟩)
        · intro haccept closure hpass d hd haccess
          exact hno (.inr ⟨haccept, closure, hpass, d, hd, haccess⟩)
      · intro h
        cases h with
        | streamTermination hname hc hargs hclosures =>
            refine ⟨⟨⟨_, hname, hc⟩, ?_⟩, rfl⟩
            rintro (⟨arg, harg, hkind⟩ | ⟨haccept, closure, hpass, d, hd, haccess⟩)
            · exact hargs arg harg hkind
            · exact hclosures haccept closure hpass d hd haccess
  | excessiveSpawns =>
      rw [inspectNode]
      constructor
      · intro h; cases h
      · intro h; cases h
  | backgroundPriority =>
      rw [inspectNode, Option.ite_none_right_eq_some, Node.isTaskSpawn, Node.isCallTo_iff,
        Node.argument_eq, Option.bind_assoc, Option.bind_eq_some_iff]
      constructor
      · rintro ⟨⟨hc, arg, harg, hvalue⟩, ⟨⟩⟩
        obtain ⟨value, hhead, hmember⟩ := Option.bind_eq_some_iff.mp hvalue
        exact .backgroundPriority hc harg hhead ((value.member_eq_some_iff _).mp hmember)
      · intro h
        cases h with
        | @backgroundPriority arg value hc harg hhead haccess =>
            refine ⟨⟨hc, arg, harg, ?_⟩, rfl⟩
            rw [hhead, Option.bind_some, value.member_eq_some_iff]; exact haccess
  | unparsableSource =>
      rw [inspectNode]
      constructor
      · intro h
        split at h
        · rename_i s hkind
          cases h; exact .unparsableSource hkind
        · cases h
      · intro h
        cases h with
        | unparsableSource hkind => simp [hkind]

theorem inspectNode_congr (b : BuiltinRule) {ctx' : Context} (h : ctx.scope = ctx'.scope) :
    b.inspectNode o ctx n = b.inspectNode o ctx' n := by
  cases b <;> simp only [inspectNode, h]

theorem code_ne_of_inspectNode (b : BuiltinRule) (h : b.inspectNode o ctx n = some f) :
    b.header.code ≠ "CC-CONC-005" := by
  cases b with
  | excessiveSpawns => simp [inspectNode] at h
  | _ => simp [header]

theorem eq_excessiveSpawns_of_inspectScope (b : BuiltinRule) {closed : Scope}
    (h : b.inspectScope o closed = some f) : b = .excessiveSpawns := by
  cases b with
  | excessiveSpawns => rfl
  | _ => simp [inspectScope] at h

end BuiltinRule

/-! ## Walking with the catalogue -/

/-- What the catalogue finds on entry to a node is left by dropping the rule on excessive spawns. -/
theorem filter_respond_enter (o : RuleOptions) (n : Node) (ctx : Context) :
    ((Visitor.ofRules (catalog o)).respond (.enter n ctx)).filter (·.code ≠ "CC-CONC-005") =
      BuiltinRule.all.filterMap fun b =>
        (b.inspectNode o ctx n).map (b.header.violation ctx) := by
  have hall : (Visitor.ofRules (catalog o)).respond (.enter n ctx) =
      BuiltinRule.all.filterMap fun b =>
        (b.inspectNode o ctx n).map (b.header.violation ctx) := by
    simp only [List.filterMap_eq_flatMap_toList, Option.toList_map]
    rfl
  rw [hall, List.filter_eq_self]
  intro v hv
  obtain ⟨b, _, hb⟩ := List.mem_filterMap.mp hv
  obtain ⟨f, hf, rfl⟩ := Option.map_eq_some_iff.mp hb
  exact decide_eq_true (b.code_ne_of_inspectNode hf)

theorem filter_respond_exit (o : RuleOptions) (closed : Scope) (ctx : Context) :
    ((Visitor.ofRules (catalog o)).respond (.exit closed ctx)).filter (·.code ≠ "CC-CONC-005") =
      [] := by
  rw [List.filter_eq_nil_iff]
  intro v hv
  obtain ⟨r, hr, hv⟩ := List.mem_flatMap.mp hv
  obtain ⟨b, _, rfl⟩ := List.mem_map.mp hr
  obtain ⟨f, hf, rfl⟩ := List.mem_map.mp hv
  cases b.eq_excessiveSpawns_of_inspectScope (Option.mem_toList.mp hf)
  simp [RuleHeader.violation, BuiltinRule.header]

/-- The kind of the nearest scope at or above an address. -/
def Node.scopeKindAt (points : EntryPoints) (n : Node) (a : Address) : ScopeKind :=
  ((n.owner? points a).bind (n.opensAt? points)).getD .topLevel

theorem scope_contextAt_empty (w : Setting) (root : Node) (past : List Address) (a : Address) :
    (root.contextAt w .empty past a).scope = root.scopeKindAt w.points a := by
  rw [Node.contextAt, Node.scopeKindAt]
  cases root.owner? w.points a <;> rfl

theorem unit_contextAt (w : Setting) (outer : ScopeStack) (root : Node) (past : List Address)
    (a : Address) : (root.contextAt w outer past a).unit = w.unit := by
  rw [Node.contextAt]
  cases root.owner? w.points a <;> rfl

/-- The violation that reports a finding of a rule, with the rule's own severity. -/
def BuiltinRule.violationOf (b : BuiltinRule) (u : SourceUnit) (f : Finding) : Violation where
  code := b.header.code
  rule := b.header.name
  severity := b.header.severity
  location := ⟨u.identifier, f.span.line, f.span.column, f.span.offset, f.span.length⟩
  message := f.message
  suggestion := f.suggestion

/-- What a rule finds at an address, given the kind of scope there. -/
def BuiltinRule.findingAt? (b : BuiltinRule) (o : RuleOptions) (w : Setting) (root : Node)
    (a : Address) : Option Finding :=
  (root.at? a).bind (b.inspectNode o ⟨w.unit, root.scopeKindAt w.points a, none⟩)

theorem BuiltinRule.findingAt?_eq_some_iff (b : BuiltinRule) (o : RuleOptions) (w : Setting)
    (root : Node) (a : Address) (f : Finding) : b.findingAt? o w root a = some f ↔
      ∃ n, root.at? a = some n ∧ Reported o (root.scopeKindAt w.points a) n b f := by
  rw [findingAt?, Option.bind_eq_some_iff]
  exact exists_congr fun n => and_congr_right fun _ => b.inspectNode_eq_some_iff

theorem filter_walkRules_catalog (o : RuleOptions) (w : Setting) (root : Node) :
    (walkRules (catalog o) w root).filter (·.code ≠ "CC-CONC-005") =
      root.addresses.flatMap fun a => BuiltinRule.all.filterMap fun b =>
        (b.findingAt? o w root a).map (b.violationOf w.unit) := by
  -- What is found at an entry, with the node as `entries` gives it.
  let found (e : Option Node × Context) : List Violation := BuiltinRule.all.filterMap fun b =>
    (e.1.bind (b.inspectNode o e.2)).map (b.violationOf e.2.unit)
  have hfound (past : List Address) (a : Address) :
      found (root.at? a, root.contextAt w .empty past a) = BuiltinRule.all.filterMap fun b =>
        (b.findingAt? o w root a).map (b.violationOf w.unit) := by
    have hctx (b : BuiltinRule) : b.inspectNode o (root.contextAt w .empty past a) =
        b.inspectNode o ⟨w.unit, root.scopeKindAt w.points a, none⟩ :=
      funext fun n => b.inspectNode_congr (scope_contextAt_empty w root past a)
    simp only [found, BuiltinRule.findingAt?, hctx, unit_contextAt]
  calc (walkRules (catalog o) w root).filter (·.code ≠ "CC-CONC-005")
      = (tracer.walk w root).flatMap fun e =>
          ((Visitor.ofRules (catalog o)).respond e).filter (·.code ≠ "CC-CONC-005") := by
        rw [walkRules, Visitor.walk_eq_respond, List.filter_flatMap]
    _ = (TraceEvent.entries (tracer.walk w root)).flatMap fun e =>
          ((Visitor.ofRules (catalog o)).respond (.enter e.1 e.2)).filter
            (·.code ≠ "CC-CONC-005") :=
        TraceEvent.flatMap_eq_entries _ (filter_respond_exit o)
    _ = ((TraceEvent.entries (tracer.walk w root)).map (Prod.map some id)).flatMap found := by
        simp only [filter_respond_enter, List.flatMap_map]
        rfl
    _ = _ := by rw [entries_walk, List.flatMap_def, map_mapPast hfound, List.flatMap_def]

/-- With the catalogue under any configuration, and the rule on excessive spawns aside, the walk
reports what the table says of each node in its nearest scope: in pre-order of the nodes, and at one
node in the order of the catalogue. The stream types that the table speaks of, and whether it looks
for handlers in closures, are what the blocks of the configuration say; the scopes are those of
`Node.Opens`. -/
theorem walkRules_catalogFor_eq_table (c : Config) (w : Setting) (root : Node) :
    ∃ found : Address → BuiltinRule → Option Finding,
      BuiltinRule.all.map (·.header.code) = ["CC-CONC-001", "CC-CONC-002", "CC-CONC-003",
        "CC-CONC-004", "CC-CONC-005", "CC-CONC-008", "CC-PARSE-001"] ∧
      (∀ name, name ∈ (RuleOptions.ofConfig c).constructors ↔ c.ChecksStream name) ∧
      ((RuleOptions.ofConfig c).acceptContinuationHandler ↔ c.AcceptsHandlers) ∧
      (∀ (n : Node) scope, n.opens w.points = some scope ↔ n.Opens w.points scope) ∧
      (∀ a b f, found a b = some f ↔ ∃ n, root.at? a = some n ∧
        Reported (.ofConfig c) (root.scopeKindAt w.points a) n b f) ∧
      (walkRules (catalogFor c) w root).filter (·.code ≠ "CC-CONC-005") =
        root.addresses.flatMap fun a => BuiltinRule.all.filterMap fun b =>
          (found a b).map (b.violationOf w.unit) := by
  refine ⟨fun a b => b.findingAt? (.ofConfig c) w root a, rfl,
    RuleOptions.mem_constructors_ofConfig c, RuleOptions.acceptContinuationHandler_ofConfig_iff c,
    Node.opens_eq_some_iff w.points, ?_, ?_⟩
  · intro a b f
    exact b.findingAt?_eq_some_iff _ w root a f
  · exact filter_walkRules_catalog _ w root

/-- The settings of the rule on streams, in a block under its code. What is no text in the list of
stream types is passed over. -/
def channelConfig : Config where
  rules := [("CC-CONC-004", {
    options := [
      ("constructors", .array [.integer 1, .string "Channel"]),
      ("accept_continuation_handler", .boolean true)] })]

/-- A channel, a stream of a type that `channelConfig` does not list, and a channel whose closure
names a handler. -/
def channels : Node :=
  ⟨.sourceFile none, ⟨1, 1, 0, 70⟩, [
    ⟨.call (some "Channel"), ⟨1, 1, 0, 10⟩, [⟨.closure, ⟨1, 9, 8, 2⟩, []⟩]⟩,
    ⟨.call (some "AsyncStream"), ⟨2, 1, 11, 14⟩, [⟨.closure, ⟨2, 13, 23, 2⟩, []⟩]⟩,
    ⟨.call (some "Channel"), ⟨3, 1, 26, 40⟩, [⟨.closure, ⟨3, 9, 34, 32⟩, [
      ⟨.memberAccess (some "c") "onTermination", ⟨3, 11, 36, 15⟩, []⟩]⟩]⟩]⟩

theorem walkRules_catalogFor_eq_table_channels :
    let w : Setting := ⟨⟨stdinIdentifier, ""⟩, .builtin⟩
    channelConfig.ChecksStream "Channel" ∧ ¬channelConfig.ChecksStream "AsyncStream" ∧
    channelConfig.AcceptsHandlers ∧
    (walkRules (catalogFor channelConfig) w channels).map (fun v => (v.code, v.location.line)) =
      [("CC-CONC-004", 1)] := by
  intro w
  obtain ⟨_, _, hchecks, haccepts, _⟩ := walkRules_catalogFor_eq_table channelConfig w channels
  refine ⟨(hchecks _).mp (by decide), ?_, haccepts.mp rfl, ?_⟩
  · intro h
    exact absurd ((hchecks _).mpr h) (by decide)
  · rw [walkRules, Visitor.walk_eq_visit]
    decide +kernel

end ConcurrencyLint
