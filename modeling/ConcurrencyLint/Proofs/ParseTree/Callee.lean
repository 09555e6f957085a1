import ConcurrencyLint.Proofs.ParseTree.Positions

/-!
# The callee of a call

A call is written in three shapes, and each has a place for the callee. The lowered call has a name
if the node in this place is a plain reference. A qualified type is none, and yet the call is named
after its first component.
-/

namespace ConcurrencyLint.ParseTree

variable {source : ByteArray} {root t c : ParseTree} {place : Option ParseTree}
  {callee : Option String} {n : String}

/-! ## Shapes of calls -/

/-- A comparison of two operands. Its operator is the first bare token, and comments do not count. -/
structure Compares (t : ParseTree) (operator : String) (lhs rhs : ParseTree) : Prop where
  kind : t.kind = "comparison_expression"
  token : ∃ token, t.children.find? (fun c => !c.isNamed) = some token ∧ token.kind = operator
  operands : t.children.filter (fun c => c.isNamed && !c.isComment) = [lhs, rhs]

/-- The tree is a call, and the node in the place of its callee is the given one, if there is any.
The construction of a generic type with a trailing closure reads as two comparisons. -/
inductive IsCall : ParseTree → Option ParseTree → Prop
  | call {t : ParseTree} : t.kind = "call_expression" → IsCall t t.namedChildren.head?
  | construction {t : ParseTree} : t.kind = "constructor_expression" →
      IsCall t (t.field "constructed_type")
  | generic {t type rest argument closure : ParseTree} : Compares t "<" type rest →
      Compares rest ">" argument closure → type.kind = "simple_identifier" →
      closure.kind = "lambda_literal" → IsCall t (some type)

theorem comparison_eq_some_iff {operator : String} {lhs rhs : ParseTree} :
    t.comparison operator = some (lhs, rhs) ↔ Compares t operator lhs rhs := by
  constructor
  · intro h
    unfold comparison at h
    split at h
    · rename_i hkind
      split at h
      · rename_i token lhs' rhs' htoken hoperands
        split at h
        · rename_i hoperator
          cases h
          exact ⟨beq_iff_eq.mp hkind, ⟨token, htoken, beq_iff_eq.mp hoperator⟩, hoperands⟩
        · cases h
      · cases h
    · cases h
  · rintro ⟨hkind, ⟨token, htoken, hoperator⟩, hoperands⟩
    simp [comparison, hkind, htoken, hoperands, hoperator]

theorem genericConstruction_eq_some_iff {type closure : ParseTree} :
    t.genericConstruction = some (type, closure) ↔ ∃ rest argument, Compares t "<" type rest ∧
      Compares rest ">" argument closure ∧ type.kind = "simple_identifier" ∧
      closure.kind = "lambda_literal" := by
  simp only [← comparison_eq_some_iff]
  constructor
  · intro h
    unfold genericConstruction at h
    split at h
    · cases h
    · rename_i rest hless
      split at h
      · cases h
      · rename_i argument closure' hgreater
        split at h
        · rename_i hkinds
          cases h
          exact ⟨rest, argument, hless, hgreater, hkinds⟩
        · cases h
  · rintro ⟨rest, argument, hless, hgreater, hkinds⟩
    simp [genericConstruction, hless, hgreater, hkinds]

theorem IsCall.mem_children (h : IsCall t (some c)) : c ∈ t.children := by
  generalize hplace : some c = place at h
  cases h with
  | call => exact (List.mem_filter.mp (List.mem_of_head? hplace.symm)).1
  | construction => exact mem_children_of_field hplace.symm
  | generic hless _ _ _ =>
      cases hplace
      exact (mem_children_of_comparison (comparison_eq_some_iff.mpr hless)).1

theorem classify_of_isCall (h : IsCall t place) (hsound : ¬t.isFault) :
    t.classify source = .call (place.bind (calleeName source)) := by
  rw [classify, if_neg hsound]
  cases h with
  | call hkind => rw [hkind]; rfl
  | construction hkind => rw [hkind]; rfl
  | generic hless hgreater htype hclosure =>
      have hgeneric := genericConstruction_eq_some_iff.mpr ⟨_, _, hless, hgreater, htype, hclosure⟩
      rw [hless.kind]
      simp only [hgeneric, Option.bind_some]

theorem isCall_of_classify (h : t.classify source = .call callee) :
    ¬t.isFault ∧ ∃ place, IsCall t place ∧ callee = place.bind (calleeName source) := by
  unfold classify at h
  split at h
  · cases h
  · rename_i hsound
    refine ⟨hsound, ?_⟩
    split at h
    case h_6 hkind =>
      cases h
      exact ⟨_, .call hkind, rfl⟩
    case h_7 hkind =>
      cases h
      exact ⟨_, .construction hkind, rfl⟩
    case h_9 hkind =>
      split at h
      · rename_i type closure hgeneric
        obtain ⟨rest, argument, hless, hgreater, htype, hclosure⟩ :=
          genericConstruction_eq_some_iff.mp hgeneric
        cases h
        exact ⟨some type, .generic hless hgreater htype hclosure, rfl⟩
      · cases h
    -- No other kind is a call, whatever a prefix expression turns out to be.
    all_goals try split at h
    all_goals cases h

/-! ## References -/

/-- The names that a type is made of. Type arguments have their names further below. -/
def typeNames (t : ParseTree) : List ParseTree :=
  t.namedChildren.filter fun c => c.kind == "type_identifier"

/-- The node is a plain reference: an identifier, or a type made of one name. -/
inductive RefersTo (source : ByteArray) : ParseTree → String → Prop
  | identifier {c : ParseTree} : c.kind = "simple_identifier" ∨ c.kind = "type_identifier" →
      RefersTo source c (c.text source)
  | type {c name : ParseTree} : c.kind = "user_type" → c.typeNames = [name] →
      RefersTo source c (name.text source)

/-- The node is a type made of several names, and the first of them is the given one. -/
inductive StartsWith (source : ByteArray) : ParseTree → String → Prop
  | intro {c name next : ParseTree} {more : List ParseTree} : c.kind = "user_type" →
      c.typeNames = name :: next :: more → StartsWith source c (name.text source)

/-- The node is a type made of several names. -/
def IsQualified (c : ParseTree) : Prop := c.kind = "user_type" ∧ 1 < c.typeNames.length

instance (c : ParseTree) : Decidable c.IsQualified := inferInstanceAs (Decidable (_ ∧ _))

theorem StartsWith.isQualified (h : StartsWith source c n) : c.IsQualified := by
  cases h with
  | intro hkind hnames => exact ⟨hkind, by simp [hnames]⟩

theorem calleeName_eq_some_iff :
    c.calleeName source = some n ↔ RefersTo source c n ∨ StartsWith source c n := by
  constructor
  · intro h
    unfold calleeName at h
    split at h
    · rename_i hkind
      cases h
      exact .inl (.identifier (.inl hkind))
    · rename_i hkind
      cases h
      exact .inl (.identifier (.inr hkind))
    · rename_i hkind
      rw [← List.head?_filter, Option.map_eq_some_iff] at h
      obtain ⟨name, hname, rfl⟩ := h
      obtain ⟨more, hnames⟩ := List.head?_eq_some_iff.mp hname
      cases more with
      | nil => exact .inl (.type hkind hnames)
      | cons next more => exact .inr (.intro hkind hnames)
    · cases h
  · have hfirst {name : ParseTree} {more : List ParseTree} (hkind : c.kind = "user_type")
        (hnames : c.typeNames = name :: more) : c.calleeName source = some (name.text source) := by
      rw [calleeName, hkind]
      rw [typeNames] at hnames
      simp only [← List.head?_filter, hnames, List.head?_cons, Option.map_some]
    rintro (h | h)
    · cases h with
      | identifier hkind => rcases hkind with hkind | hkind <;> simp [calleeName, hkind]
      | type hkind hnames => exact hfirst hkind hnames
    · cases h with
      | intro hkind hnames => exact hfirst hkind hnames

theorem calleeName_of_not_isQualified (h : ¬c.IsQualified) :
    c.calleeName source = some n ↔ RefersTo source c n := by
  rw [calleeName_eq_some_iff]
  constructor
  · rintro (href | hstart)
    · exact href
    · exact absurd hstart.isQualified h
  · exact .inl

/-! ## Lowered calls -/

theorem kind_toNode (source : ByteArray) (t : ParseTree) :
    (t.toNode source).kind = t.classify source := by
  rw [toNode_eq, lower_eq]

theorem isTaskSpawn_toNode_iff : (t.toNode source).isTaskSpawn ↔ ¬t.isFault ∧
    ∃ c, IsCall t (some c) ∧ c.calleeName source = some taskType := by
  rw [Node.isTaskSpawn, Node.isCallTo, beq_iff_eq, Node.callee, kind_toNode]
  constructor
  · intro h
    split at h
    · rename_i callee hcall
      obtain ⟨hsound, place, hplace, rfl⟩ := isCall_of_classify hcall
      obtain ⟨c, rfl, hc⟩ := Option.bind_eq_some_iff.mp h
      exact ⟨hsound, c, hplace, hc⟩
    · cases h
  · rintro ⟨hsound, c, hcall, hc⟩
    rw [classify_of_isCall hcall hsound]
    exact hc

/-- Every call is lowered to a call. Its name is the one that a plain reference in the place of the
callee refers to, and after a member access there it has none; but a qualified type in that place
counts as its first component. Where no type is qualified, exactly the calls of a plain `Task` spawn
tasks. -/
theorem toNode_callee_iff (source : ByteArray) (root : ParseTree) :
    (∀ t place, IsCall t place → ¬t.isFault →
      ∃ callee, (t.toNode source).kind = .call callee ∧
        (∀ n, callee = some n ↔ ∃ c ∈ place, RefersTo source c n ∨ StartsWith source c n) ∧
        ((∀ c ∈ place, ¬c.IsQualified) → ∀ n, callee = some n ↔ ∃ c ∈ place, RefersTo source c n) ∧
        ∀ c ∈ place, c.kind = "navigation_expression" → callee = none) ∧
    ((∀ t ∈ root.preorder, ∀ c, IsCall t (some c) → ¬c.IsQualified) →
      ∀ m ∈ (root.toNode source).preorder, m.isTaskSpawn ↔
        ∃ t ∈ root.preorder, t.toNode source = m ∧ ¬t.isFault ∧
          ∃ c, IsCall t (some c) ∧ RefersTo source c taskType) := by
  constructor
  · intro t place hcall hsound
    refine ⟨place.bind (calleeName source), ?_, ?_, ?_, ?_⟩
    · rw [kind_toNode, classify_of_isCall hcall hsound]
    · intro n
      simp only [Option.bind_eq_some_iff, calleeName_eq_some_iff, Option.mem_def]
    · intro hplain n
      rw [Option.bind_eq_some_iff]
      constructor
      · rintro ⟨c, hc, hname⟩
        exact ⟨c, hc, (calleeName_of_not_isQualified (hplain c hc)).mp hname⟩
      · rintro ⟨c, hc, href⟩
        exact ⟨c, hc, (calleeName_of_not_isQualified (hplain c hc)).mpr href⟩
    · rintro c ⟨⟩ hkind
      simp [calleeName, hkind]
  · intro hplain m hm
    constructor
    · intro hspawn
      rw [toNode_eq] at hm
      obtain ⟨t, ht, rfl⟩ := exists_of_mem_preorder_lower hm
      rw [← toNode_eq, isTaskSpawn_toNode_iff] at hspawn
      obtain ⟨hsound, c, hcall, hname⟩ := hspawn
      exact ⟨t, ht, toNode_eq source t, hsound, c, hcall,
        (calleeName_of_not_isQualified (hplain t ht c hcall)).mp hname⟩
    · rintro ⟨t, ht, rfl, hsound, c, hcall, href⟩
      exact isTaskSpawn_toNode_iff.mpr ⟨hsound, c, hcall, calleeName_eq_some_iff.mpr (.inl href)⟩

/-- A type that stands after `let z =` and has the given names. -/
def userType (stop : Nat) (children : List ParseTree) : ParseTree :=
  ⟨"user_type", true, false, false, false, 8, stop, 0, 8, [], children⟩

def typeName (start stop : Nat) : ParseTree :=
  ⟨"type_identifier", true, false, false, false, start, stop, 0, start, [], []⟩

/-- The arguments `<D>`. -/
def typeArguments (start : Nat) : ParseTree :=
  let token (kind : String) (start : Nat) : ParseTree :=
    ⟨kind, false, false, false, false, start, start + 1, 0, start, [], []⟩
  let argument : ParseTree :=
    ⟨"user_type", true, false, false, false, start + 1, start + 2, 0, start + 1, [],
      [typeName (start + 1) (start + 2)]⟩
  ⟨"type_arguments", true, false, false, false, start, start + 3, 0, start, [],
    [token "<" start, argument, token ">" (start + 2)]⟩

/-- The construction `T()` of a value of a type `T`. -/
def construction (type : ParseTree) : ParseTree :=
  let start := type.stop
  let arguments : ParseTree :=
    ⟨"value_arguments", true, false, false, false, start, start + 2, 0, start, [], [
      ⟨"(", false, false, false, false, start, start + 1, 0, start, [], []⟩,
      ⟨")", false, false, false, false, start + 1, start + 2, 0, start + 1, [], []⟩]⟩
  ⟨"constructor_expression", true, false, false, false, 8, start + 2, 0, 8,
    [("constructed_type", 0)], [type,
      ⟨"constructor_suffix", true, false, false, false, start, start + 2, 0, start, [],
        [arguments]⟩]⟩

theorem toNode_callee_iff_genericTask :
    let source := "let z = Task<D>()\n".toUTF8
    let type := userType 15 [typeName 8 12, typeArguments 12]
    (∀ t ∈ (construction type).preorder, ∀ c, IsCall t (some c) → ¬c.IsQualified) ∧
      IsCall (construction type) (some type) ∧ RefersTo source type "Task" ∧
      ((construction type).toNode source).kind = .call (some "Task") ∧
      ((construction type).toNode source).isTaskSpawn := by
  intro source type
  have hplain : ∀ t ∈ (construction type).preorder, ∀ c ∈ t.children, ¬c.IsQualified := by decide
  have hcall : IsCall (construction type) (some type) := .construction rfl
  have hsound : ¬(construction type).isFault := by decide
  have href : RefersTo source type "Task" := by
    have hname : (typeName 8 12).text "let z = Task<D>()\n".toUTF8 = "Task" := by decide
    rw [← hname]
    exact .type rfl rfl
  obtain ⟨hnamed, hspawns⟩ := toNode_callee_iff source (construction type)
  obtain ⟨callee, hkind, -, hcallee, -⟩ := hnamed _ _ hcall hsound
  have hcallees : ∀ t ∈ (construction type).preorder, ∀ c, IsCall t (some c) → ¬c.IsQualified :=
    fun t ht c h => hplain t ht c h.mem_children
  have hself := mem_preorder_self (construction type)
  rw [(hcallee (by rintro _ ⟨⟩; exact hcallees _ hself _ hcall) _).mpr ⟨type, rfl, href⟩] at hkind
  have hroot : (construction type).toNode source ∈ ((construction type).toNode source).preorder := by
    rw [Node.preorder_eq]
    exact List.mem_cons_self
  exact ⟨hcallees, hcall, href, hkind,
    (hspawns hcallees _ hroot).mpr ⟨_, hself, rfl, hsound, type, hcall, href⟩⟩

/-- `Task.X<D>()` refers to no plain name, and yet it is a spawn. -/
theorem qualifiedTask_isTaskSpawn :
    let source := "let z = Task.X<D>()\n".toUTF8
    let dot : ParseTree := ⟨".", false, false, false, false, 12, 13, 0, 12, [], []⟩
    let type := userType 17 [typeName 8 12, dot, typeName 13 14, typeArguments 14]
    IsCall (construction type) (some type) ∧ ¬(construction type).isFault ∧
      (∀ n, ¬RefersTo source type n) ∧
      ((construction type).toNode source).kind = .call (some "Task") ∧
      ((construction type).toNode source).isTaskSpawn := by
  intro source dot type
  have hcall : IsCall (construction type) (some type) := .construction rfl
  have hsound : ¬(construction type).isFault := by decide
  have hname : type.calleeName source = some "Task" := by decide
  refine ⟨hcall, hsound, ?_, ?_, isTaskSpawn_toNode_iff.mpr ⟨hsound, type, hcall, hname⟩⟩
  · intro n href
    cases href with
    | identifier hkind => exact absurd hkind (by decide)
    | type _ hnames => cases hnames
  · rw [kind_toNode, classify_of_isCall hcall hsound, Option.bind_some, hname]

end ConcurrencyLint.ParseTree
