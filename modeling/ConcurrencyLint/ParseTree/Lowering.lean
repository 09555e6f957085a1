import ConcurrencyLint.ParseTree.Basic

/-!
# From parse trees to syntax trees

A parse tree is lowered by classifying each node and keeping the children that stand for
constructs. The wrappers around call arguments are taken out, so that the children of a call are its
callee, then its arguments and trailing closures.

`ParseTree.lower` is the plain recursion. `ParseTree.toNode` builds the same tree with an explicit
stack of half-built nodes, so that the depth of a tree is bounded by memory only.
-/

namespace ConcurrencyLint.ParseTree

/-! ## Names -/

/-- The name of a plain reference. Type arguments are dropped. -/
def calleeName (source : ByteArray) (t : ParseTree) : Option String :=
  match t.kind with
  | "simple_identifier" | "type_identifier" => some (t.text source)
  | "user_type" =>
    (t.namedChildren.find? fun c => c.kind == "type_identifier").map fun c => c.text source
  | _ => none

/-- The operands of a comparison with the given operator. -/
def comparison (t : ParseTree) (operator : String) : Option (ParseTree × ParseTree) :=
  if t.kind == "comparison_expression" then
    match t.children.find? fun c => !c.isNamed,
      t.children.filter fun c => c.isNamed && !c.isComment with
    | some found, [lhs, rhs] => if found.kind == operator then some (lhs, rhs) else none
    | _, _ => none
  else none

/-- The type and the closure of a generic construction with a trailing closure. The grammar reads
`Type<Arg> { ... }` as two nested comparisons. -/
def genericConstruction (t : ParseTree) : Option (ParseTree × ParseTree) :=
  match t.comparison "<" with
  | none => none
  | some (type, rest) =>
    match rest.comparison ">" with
    | none => none
    | some (_, closure) =>
      if type.kind = "simple_identifier" ∧ closure.kind = "lambda_literal" then some (type, closure)
      else none

/-- The member of `base.member`. -/
def navigationMember (source : ByteArray) (t : ParseTree) : Option String :=
  (t.field "suffix").map fun suffix =>
    let member := (suffix.field "suffix").getD suffix
    String.ofList ((member.text source).toList.dropWhile (· == '.'))

/-- The member of an implicit member expression such as `.background`. -/
def implicitMember (source : ByteArray) (t : ParseTree) : Option String :=
  match t.field "operation", t.field "target" with
  | some operation, some target =>
    if operation.text source = "." ∧ target.kind = "simple_identifier" then
      some (target.text source)
    else none
  | _, _ => none

/-! ## Bindings -/

/-- The name bound by a pattern that is a plain identifier. -/
def patternName (source : ByteArray) (t : ParseTree) : Option String :=
  match t.field "bound_identifier" with
  | some bound => some (bound.text source)
  | none =>
    match t.namedChildren with
    | [only] => if only.kind == "simple_identifier" then some (only.text source) else none
    | _ => none

/-- Takes one child of a declaration into account, given the bindings before it in reverse: a
pattern starts a binding, and an accessor block belongs to the latest binding. -/
def addBinding (source : ByteArray) (found : List Binding) (t : ParseTree) : List Binding :=
  match t.kind, found with
  | "pattern", _ => ⟨t.patternName source, false⟩ :: found
  | "computed_property", latest :: before => { latest with hasAccessorBlock := true } :: before
  | _, _ => found

/-- The bindings of a property declaration, in source order. -/
def bindings (source : ByteArray) (t : ParseTree) : List Binding :=
  (t.namedChildren.foldl (addBinding source) []).reverse

/-! ## Classification -/

/-- The kind of construct that a node stands for. -/
def classify (source : ByteArray) (t : ParseTree) : NodeKind :=
  if t.isFault then .error
  else match t.kind with
    | "source_file" => .sourceFile t.firstError
    | "function_declaration" | "protocol_function_declaration" =>
      .function (((t.field "name").map (text source)).getD "")
    | "init_declaration" => .initializer
    | "property_declaration" => .variables (t.bindings source)
    | "call_expression" => .call (t.namedChildren.head?.bind (calleeName source))
    | "constructor_expression" => .call ((t.field "constructed_type").bind (calleeName source))
    | "value_argument" => .argument ((t.field "name").map (text source))
    | "comparison_expression" =>
      match t.genericConstruction with
      | some (type, _) => .call (type.calleeName source)
      | none => .other "comparison_expression"
    | "lambda_literal" => .closure
    | "navigation_expression" =>
      .memberAccess
        (((t.field "target").filter fun c => c.kind == "simple_identifier").map (text source))
        ((t.navigationMember source).getD "")
    | "prefix_expression" =>
      match t.implicitMember source with
      | some member => .memberAccess none member
      | none => .other "prefix_expression"
    | "simple_identifier" => .identifier (t.text source)
    | tag => .other tag

/-! ## Children -/

/-- Wrappers that give way to their children. -/
def isTransparent (t : ParseTree) : Bool :=
  ["call_suffix", "value_arguments", "constructor_suffix"].contains t.kind

mutual

/-- What a child contributes to its parent: itself, or in place of a wrapper the wrapper's own
contributions. -/
def splice : ParseTree → List ParseTree
  | ⟨kind, named, error, missing, hasError, start, stop, row, column, fields, children⟩ =>
    let t : ParseTree :=
      ⟨kind, named, error, missing, hasError, start, stop, row, column, fields, children⟩
    if t.isTransparent then spliceAll children else [t]

/-- The contributions of several children, in order. -/
def spliceAll : List ParseTree → List ParseTree
  | [] => []
  | t :: ts => t.splice ++ spliceAll ts

end

/-- The nodes that are lowered below a node of the given kind, before bare tokens and comments are
left out. What a kind already carries as a name is not lowered again. -/
def constituents (t : ParseTree) (kind : NodeKind) : List ParseTree :=
  match kind with
  | .argument _ => (t.field "value").toList
  | .memberAccess _ _ => (t.field "target").toList
  | .identifier _ => []
  | .call _ =>
    if t.kind == "comparison_expression" then
      match t.genericConstruction with
      | some (type, closure) => [type, closure]
      | none => []
    else spliceAll t.children
  | _ => spliceAll t.children

/-- The nodes that become the children of a lowered node. -/
def structuralChildren (t : ParseTree) (kind : NodeKind) : List ParseTree :=
  (t.constituents kind).filter isStructural

/-! ## Lowering takes fewer nodes at every level -/

mutual

theorem sizeAll_splice : ∀ t : ParseTree, sizeAll t.splice ≤ t.size
  | ⟨_, _, _, _, _, _, _, _, _, _, children⟩ => by
    have := sizeAll_spliceAll children
    rw [splice]
    split <;> simp only [sizeAll, size] <;> omega

theorem sizeAll_spliceAll : ∀ ts : List ParseTree, sizeAll (spliceAll ts) ≤ sizeAll ts
  | [] => Nat.le_refl _
  | t :: ts => by
    have h₁ := sizeAll_splice t
    have h₂ := sizeAll_spliceAll ts
    simp only [spliceAll, sizeAll_append, sizeAll]
    omega

end

theorem size_le_of_comparison {t lhs rhs : ParseTree} {operator : String}
    (h : t.comparison operator = some (lhs, rhs)) : lhs.size + rhs.size ≤ sizeAll t.children := by
  have hs : (t.children.filter fun c => c.isNamed && !c.isComment).Sublist t.children :=
    List.filter_sublist
  have hle := sizeAll_le_of_sublist hs
  unfold comparison at h
  split at h
  · split at h
    · rename_i heq
      split at h
      · simp only [Option.some.injEq, Prod.mk.injEq] at h
        obtain ⟨rfl, rfl⟩ := h
        rw [heq] at hle
        simpa [sizeAll] using hle
      · cases h
    · cases h
  · cases h

theorem size_le_of_genericConstruction {t type closure : ParseTree}
    (h : t.genericConstruction = some (type, closure)) :
    type.size + closure.size ≤ sizeAll t.children := by
  unfold genericConstruction at h
  split at h
  · cases h
  · rename_i rest hc
    split at h
    · cases h
    · rename_i hr
      split at h
      · cases h
        have h₁ := size_le_of_comparison hc
        have h₂ := size_le_of_comparison hr
        have h₃ := size_eq rest
        omega
      · cases h

theorem sizeAll_toList_field (t : ParseTree) (name : String) :
    sizeAll (t.field name).toList ≤ sizeAll t.children := by
  cases h : t.field name with
  | none => exact Nat.zero_le _
  | some c => simpa [sizeAll] using size_le_of_field h

theorem sizeAll_constituents (t : ParseTree) (kind : NodeKind) :
    sizeAll (t.constituents kind) ≤ sizeAll t.children := by
  unfold constituents
  split
  · exact sizeAll_toList_field t "value"
  · exact sizeAll_toList_field t "target"
  · exact Nat.zero_le _
  · split
    · split
      · rename_i h
        simpa [sizeAll] using size_le_of_genericConstruction h
      · exact Nat.zero_le _
    · exact sizeAll_spliceAll t.children
  · exact sizeAll_spliceAll t.children

theorem sizeAll_structuralChildren (t : ParseTree) (kind : NodeKind) :
    sizeAll (t.structuralChildren kind) ≤ sizeAll t.children :=
  Nat.le_trans (sizeAll_le_of_sublist List.filter_sublist) (sizeAll_constituents t kind)

/-! ## The two lowerings -/

/-- Lowers a tree by recursion. -/
def lower (source : ByteArray) (t : ParseTree) : Node :=
  ⟨t.classify source, t.span,
    (t.structuralChildren (t.classify source)).attach.map fun ⟨c, _⟩ => lower source c⟩
termination_by t.size
decreasing_by
  rename_i h
  have h₁ := size_le_of_mem h
  have h₂ := sizeAll_structuralChildren t (t.classify source)
  have h₃ := size_eq t
  omega

/-- A half-built node: what it will be, what is still to be looked at, and the children built so
far, the latest first. -/
structure Frame where
  kind : NodeKind
  span : Span
  pending : List ParseTree
  built : List Node

namespace Frame

/-- The node to build for a tree, with nothing built yet. -/
def ofTree (source : ByteArray) (t : ParseTree) : Frame :=
  let kind := t.classify source
  ⟨kind, t.span, t.constituents kind, []⟩

/-- The finished node. -/
def node (f : Frame) : Node := ⟨f.kind, f.span, f.built.reverse⟩

/-- Takes in a finished child. -/
def add (f : Frame) (child : Node) : Frame := { f with built := child :: f.built }

def weight (f : Frame) : Nat := 2 * sizeAll f.pending + 1

def weightAll : List Frame → Nat
  | [] => 0
  | f :: fs => f.weight + weightAll fs

theorem weight_ofTree (source : ByteArray) (t : ParseTree) :
    (ofTree source t).weight + 1 ≤ 2 * t.size := by
  have h₁ := sizeAll_constituents t (t.classify source)
  have h₂ := size_eq t
  simp only [ofTree, weight]
  omega

end Frame

/-- What a step leaves: half-built nodes, the innermost first, or the tree. -/
inductive Progress where
  | working (frames : List Frame)
  | finished (tree : Node)

/-- One step on a stack of half-built nodes. The next constituent of the innermost one is opened, or
passed over if it is a bare token or a comment. A node with none left goes to the node around it; the
outermost one is the tree. If there were no node at all, an empty file would take its place. -/
def step (source : ByteArray) (root : ParseTree) : List Frame → Progress
  | [] => .finished ⟨.sourceFile none, root.span, []⟩
  | ⟨kind, span, t :: pending, built⟩ :: below =>
    if t.isStructural then .working (.ofTree source t :: ⟨kind, span, pending, built⟩ :: below)
    else .working (⟨kind, span, pending, built⟩ :: below)
  | [⟨kind, span, [], built⟩] => .finished (Frame.node ⟨kind, span, [], built⟩)
  | ⟨kind, span, [], built⟩ :: parent :: below =>
    .working (parent.add (Frame.node ⟨kind, span, [], built⟩) :: below)

/-- Every step leaves less to do. -/
theorem weightAll_step {source : ByteArray} {root : ParseTree} {frames frames' : List Frame}
    (h : step source root frames = .working frames') :
    Frame.weightAll frames' < Frame.weightAll frames := by
  unfold step at h
  split at h
  · cases h
  · rename_i t pending built below
    have := Frame.weight_ofTree source t
    split at h
    all_goals
      cases h
      simp only [Frame.weight, Frame.weightAll, sizeAll, size_eq] at *
      omega
  · cases h
  · cases h
    simp only [Frame.weight, Frame.weightAll, Frame.add, sizeAll]
    omega

/-- Takes steps until the tree is built. -/
def build (source : ByteArray) (root : ParseTree) (frames : List Frame) : Node :=
  match _h : step source root frames with
  | .finished tree => tree
  | .working frames' => build source root frames'
termination_by Frame.weightAll frames
decreasing_by exact weightAll_step ‹_›

/-- Lowers a tree with a stack of half-built nodes. -/
def toNode (source : ByteArray) (root : ParseTree) : Node :=
  build source root [Frame.ofTree source root]

end ConcurrencyLint.ParseTree
