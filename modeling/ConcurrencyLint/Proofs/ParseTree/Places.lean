import ConcurrencyLint.Proofs.Node.Address
import ConcurrencyLint.Proofs.ParseTree.Callee
import Mathlib.Data.List.Lex
import Mathlib.Data.List.Sort

/-!
# Places in a parse tree

An address tells where in a tree a node stands. The pre-order of the nodes is the lexicographic
order of their addresses. What is lowered below a node stands at places in the order of the source,
none within another, and all other places below the node are wrappers or are left out for a reason
that the node gives.
-/

namespace ConcurrencyLint

/-! ## Addresses in order -/

/-- The addresses part at some node, and the first goes on to an earlier child. -/
inductive Address.Precedes : Address → Address → Prop
  | here {i j : Nat} {p q : Address} : i < j → Precedes (i :: p) (j :: q)
  | further {p q : Address} (i : Nat) : Precedes p q → Precedes (i :: p) (i :: q)

namespace Address.Precedes

variable {p q : Address}

theorem append (h : Precedes p q) (a b : Address) : Precedes (p ++ a) (q ++ b) := by
  induction h with
  | here hij => exact .here hij
  | further i _ ih => exact .further i ih

theorem lt (h : Precedes p q) : p < q := by
  induction h with
  | here hij => exact List.cons_lt_cons_iff.mpr (.inl hij)
  | further i _ ih => exact List.cons_lt_cons_iff.mpr (.inr ⟨rfl, ih⟩)

end Address.Precedes

namespace ParseTree

variable {source : ByteArray} {t c d : ParseTree} {p q a : Address}

def at? : ParseTree → Address → Option ParseTree
  | t, [] => some t
  | t, i :: a => t.children[i]?.bind (·.at? a)

mutual

/-- The addresses of a tree, each before those below it and these from left to right. -/
def addresses : ParseTree → List Address
  | ⟨_, _, _, _, _, _, _, _, _, _, children⟩ => [] :: addressesFrom 0 children

/-- The addresses of siblings, the first of which is child `i` of a node. -/
def addressesFrom (i : Nat) : List ParseTree → List Address
  | [] => []
  | c :: cs => c.addresses.map (i :: ·) ++ addressesFrom (i + 1) cs

end

@[simp] theorem at?_nil (t : ParseTree) : t.at? [] = some t := by rw [at?]

theorem at?_cons (t : ParseTree) (i : Nat) (a : Address) :
    t.at? (i :: a) = t.children[i]?.bind (·.at? a) := by rw [at?]

theorem at?_cons_of_getElem? {i : Nat} (h : t.children[i]? = some c) (a : Address) :
    t.at? (i :: a) = c.at? a := by
  rw [at?_cons, h, Option.bind_some]

theorem at?_append (t : ParseTree) (p a : Address) :
    t.at? (p ++ a) = (t.at? p).bind (·.at? a) := by
  induction p generalizing t with
  | nil => rfl
  | cons i p ih =>
      rw [List.cons_append, at?_cons, at?_cons, Option.bind_assoc]
      exact congrArg _ (funext fun c => ih c)

theorem addresses_eq (t : ParseTree) : t.addresses = [] :: addressesFrom 0 t.children := by
  cases t
  rw [addresses]

theorem mem_addressesFrom {cs : List ParseTree} {k : Nat} (h : cs[k]? = some c)
    (ha : a ∈ c.addresses) (i : Nat) : (i + k) :: a ∈ addressesFrom i cs := by
  induction cs generalizing i k with
  | nil => cases h
  | cons b cs ih =>
      rw [addressesFrom, List.mem_append]
      cases k with
      | zero =>
          cases h
          exact .inl (List.mem_map_of_mem ha)
      | succ k =>
          rw [← Nat.succ_add_eq_add_succ]
          exact .inr (ih h (i + 1))

theorem mem_addresses_of_at? (h : t.at? a = some d) : a ∈ t.addresses := by
  induction a generalizing t with
  | nil => rw [addresses_eq]; exact List.mem_cons_self
  | cons i a ih =>
      rw [at?_cons, Option.bind_eq_some_iff] at h
      obtain ⟨c, hc, hd⟩ := h
      rw [addresses_eq, ← Nat.zero_add i]
      exact List.mem_cons_of_mem _ (mem_addressesFrom hc (ih hd) 0)

mutual

theorem map_at?_addresses : (t : ParseTree) → t.addresses.map t.at? = t.preorder.map some
  | ⟨kind, named, error, missing, hasError, start, stop, row, column, fields, children⟩ => by
      rw [addresses, preorder, List.map_cons, List.map_cons, at?_nil]
      exact congrArg _ (map_at?_addressesFrom children _ [] rfl)

theorem map_at?_addressesFrom : (cs : List ParseTree) → (t : ParseTree) →
    (before : List ParseTree) → t.children = before ++ cs →
    (addressesFrom before.length cs).map t.at? = (preorderAll cs).map some
  | [], t, before, h => by rw [addressesFrom, preorderAll]; rfl
  | c :: cs, t, before, h => by
      have hfirst : t.at? ∘ (before.length :: ·) = c.at? :=
        funext fun a => at?_cons_of_getElem? (by simp [h]) a
      have hlater := map_at?_addressesFrom cs t (before ++ [c]) (by simp [h])
      rw [List.length_append, List.length_singleton] at hlater
      rw [addressesFrom, List.map_append, List.map_map, hfirst, map_at?_addresses c, hlater,
        preorderAll, List.map_append]

end

theorem exists_of_mem_addressesFrom {cs : List ParseTree} {i : Nat}
    (h : a ∈ addressesFrom i cs) : ∃ j b, a = j :: b ∧ i ≤ j := by
  induction cs generalizing i with
  | nil => simp [addressesFrom] at h
  | cons c cs ih =>
      rw [addressesFrom, List.mem_append] at h
      rcases h with h | h
      · obtain ⟨b, _, rfl⟩ := List.mem_map.mp h
        exact ⟨i, b, rfl, Nat.le_refl i⟩
      · obtain ⟨j, b, rfl, hj⟩ := ih h
        exact ⟨j, b, rfl, by omega⟩

mutual

theorem pairwise_addresses : (t : ParseTree) → t.addresses.Pairwise (· < ·)
  | ⟨kind, named, error, missing, hasError, start, stop, row, column, fields, children⟩ => by
      rw [addresses, List.pairwise_cons]
      refine ⟨?_, pairwise_addressesFrom children 0⟩
      intro a ha
      obtain ⟨j, b, rfl, _⟩ := exists_of_mem_addressesFrom ha
      exact List.nil_lt_cons j b

theorem pairwise_addressesFrom : (cs : List ParseTree) → (i : Nat) →
    (addressesFrom i cs).Pairwise (· < ·)
  | [], i => by rw [addressesFrom]; exact .nil
  | c :: cs, i => by
      rw [addressesFrom, List.pairwise_append]
      refine ⟨?_, pairwise_addressesFrom cs (i + 1), ?_⟩
      · rw [List.pairwise_map]
        exact (pairwise_addresses c).imp fun h => List.cons_lt_cons_iff.mpr (.inr ⟨rfl, h⟩)
      · intro a ha b hb
        obtain ⟨a, _, rfl⟩ := List.mem_map.mp ha
        obtain ⟨j, b, rfl, hj⟩ := exists_of_mem_addressesFrom hb
        exact List.cons_lt_cons_iff.mpr (.inl hj)

end

theorem sublist_addresses {as : List Address} (hordered : as.Pairwise (· < ·))
    (hat : ∀ a ∈ as, (t.at? a).isSome) : as.Sublist t.addresses := by
  have hmem : as ⊆ t.addresses := by
    intro a ha
    obtain ⟨d, hd⟩ := Option.isSome_iff_exists.mp (hat a ha)
    exact mem_addresses_of_at? hd
  have hnodup : as.Nodup := hordered.imp fun h => ne_of_lt h
  exact List.sublist_of_subperm_of_pairwise (List.subperm_of_subset hnodup hmem) hordered
    t.pairwise_addresses

/-! ## Constituents of a node -/

/-- What is looked at below a node: the children with wrappers taken out, but of an argument only
its value, of a member access only its target, of an identifier nothing, and of a generic
construction only its type and its closure. -/
inductive Constitutes (source : ByteArray) (t : ParseTree) : List ParseTree → Prop
  | children : Constitutes source t (spliceAll t.children)
  | value : ¬t.isFault → t.kind = "value_argument" → Constitutes source t (t.field "value").toList
  | target : ¬t.isFault → t.kind = "navigation_expression" ∨
      t.kind = "prefix_expression" ∧ (t.implicitMember source).isSome →
      Constitutes source t (t.field "target").toList
  | identifier : ¬t.isFault → t.kind = "simple_identifier" → Constitutes source t []
  | generic {type rest argument closure : ParseTree} : ¬t.isFault → Compares t "<" type rest →
      Compares rest ">" argument closure → type.kind = "simple_identifier" →
      closure.kind = "lambda_literal" → Constitutes source t [type, closure]

theorem constitutes_constituents (source : ByteArray) (t : ParseTree) :
    Constitutes source t (t.constituents (t.classify source)) := by
  unfold classify
  split
  · exact .children
  · rename_i hsound
    split
    case h_6 hkind => simpa [constituents, hkind] using Constitutes.children
    case h_7 hkind => simpa [constituents, hkind] using Constitutes.children
    case h_8 hkind => exact .value hsound hkind
    case h_9 hkind =>
      split
      · rename_i type closure hgeneric
        obtain ⟨rest, argument, hless, hgreater, htype, hclosure⟩ :=
          genericConstruction_eq_some_iff.mp hgeneric
        simpa [constituents, hkind, hgeneric] using
          Constitutes.generic hsound hless hgreater htype hclosure
      · exact .children
    case h_11 hkind => exact .target hsound (.inl hkind)
    case h_12 hkind =>
      split
      · rename_i member hmember
        exact .target hsound (.inr ⟨hkind, Option.isSome_of_eq_some hmember⟩)
      · exact .children
    case h_13 hkind => exact .identifier hsound hkind
    all_goals exact .children

/-! ## Places of the constituents -/

/-- The indices of the operands of a comparison among its children. -/
def operandIndices (t : ParseTree) : List Nat :=
  t.children.findIdxs fun c => c.isNamed && !c.isComment

theorem map_getElem?_findIdxs {α : Type} (p : α → Bool) (xs : List α) :
    (xs.findIdxs p).map (xs[·]?) = (xs.filter p).map some := by
  apply List.ext_getElem
  · simp [List.countP_eq_length_filter]
  · intro i _ _
    grind

theorem Compares.exists_operandIndices {operator : String} {lhs rhs : ParseTree}
    (h : Compares t operator lhs rhs) :
    ∃ i j, t.operandIndices = [i, j] ∧ i < j ∧ t.children[i]? = some lhs ∧
      t.children[j]? = some rhs := by
  have hmap := map_getElem?_findIdxs (fun c => c.isNamed && !c.isComment) t.children
  rw [h.operands] at hmap
  obtain ⟨i, is, hi, hlhs, hmap⟩ := List.map_eq_cons_iff.mp hmap
  obtain ⟨j, js, rfl, hrhs, hmap⟩ := List.map_eq_cons_iff.mp hmap
  cases List.map_eq_nil_iff.mp hmap
  have hordered : [i, j].Pairwise (· < ·) := hi ▸ List.pairwise_findIdxs
  exact ⟨i, j, hi, List.pairwise_pair.mp hordered, hlhs, hrhs⟩

/-- The way from a node goes where the node is not looked into: to a child of an argument that is
not its value, to one of a member access that is not its target, to any child of an identifier, or
in a generic construction neither to its type nor to its closure. -/
inductive Omits (source : ByteArray) (t : ParseTree) : Address → Prop
  | argument {i : Nat} {a : Address} : t.kind = "value_argument" →
      t.fields.lookup "value" ≠ some i → Omits source t (i :: a)
  | access {i : Nat} {a : Address} : t.kind = "navigation_expression" ∨
      t.kind = "prefix_expression" ∧ (t.implicitMember source).isSome →
      t.fields.lookup "target" ≠ some i → Omits source t (i :: a)
  | identifier {i : Nat} {a : Address} : t.kind = "simple_identifier" → Omits source t (i :: a)
  | generic {type rest argument closure : ParseTree} {i j k l : Nat} {a : Address} :
      Compares t "<" type rest → Compares rest ">" argument closure →
      type.kind = "simple_identifier" → closure.kind = "lambda_literal" →
      t.operandIndices = [i, j] → rest.operandIndices = [k, l] →
      a ≠ [] → ¬[i] <+: a → ¬[j, l] <+: a → Omits source t a

/-- The places hold the given trees. They stand in the order of the source, and none within
another. -/
structure Places (t : ParseTree) (ps : List Address) (cs : List ParseTree) : Prop where
  at_eq : ps.map t.at? = cs.map some
  ordered : ps.Pairwise Address.Precedes

theorem Places.nil (t : ParseTree) : t.Places [] [] := ⟨rfl, .nil⟩

theorem Places.singleton (h : t.at? p = some c) : t.Places [p] [c] where
  at_eq := by rw [List.map_singleton, h, List.map_singleton]
  ordered := List.pairwise_singleton _ p

theorem exists_places_field (t : ParseTree) (name : String) :
    ∃ ps, t.Places ps (t.field name).toList ∧ [] ∉ ps ∧ ∀ i a d, t.at? (i :: a) = some d →
      (∃ p ∈ ps, p <+: i :: a) ∨ t.fields.lookup name ≠ some i := by
  cases hfield : t.field name with
  | none =>
      refine ⟨[], .nil t, List.not_mem_nil, fun i a d h => .inr fun hi => ?_⟩
      obtain ⟨c, hc, _⟩ := Option.bind_eq_some_iff.mp (t.at?_cons i a ▸ h)
      rw [field, hi, Option.bind_some, hc] at hfield
      cases hfield
  | some c =>
      obtain ⟨k, hk, hc⟩ := Option.bind_eq_some_iff.mp hfield
      refine ⟨[[k]], .singleton (at?_cons_of_getElem? hc []), by simp, fun i a d _ => ?_⟩
      by_cases hik : i = k
      · exact .inl ⟨[k], List.mem_singleton_self _, by simp [hik]⟩
      · right
        rw [hk]
        exact fun h => hik (Option.some.inj h).symm

mutual

theorem exists_places_splice : (t : ParseTree) → ∃ ps, t.Places ps t.splice ∧
    ∀ a d, t.at? a = some d → (∃ p ∈ ps, p <+: a) ∨ d.isTransparent
  | ⟨kind, named, error, missing, hasError, start, stop, row, column, fields, children⟩ => by
      rw [splice_eq]
      split
      · rename_i htransparent
        obtain ⟨ps, hps, _, hcover⟩ := exists_places_spliceAll children
          ⟨kind, named, error, missing, hasError, start, stop, row, column, fields, children⟩ [] rfl
        refine ⟨ps, hps, fun a d h => ?_⟩
        cases a with
        | nil => cases h; exact .inr htransparent
        | cons i a => exact hcover i a d (Nat.zero_le i) h
      · exact ⟨[[]], .singleton rfl, fun a d _ => .inl ⟨[], by simp, List.nil_prefix⟩⟩

/-- The children of a node from one of them on. -/
theorem exists_places_spliceAll : (cs : List ParseTree) → (t : ParseTree) →
    (before : List ParseTree) → t.children = before ++ cs →
    ∃ ps, t.Places ps (spliceAll cs) ∧ (∀ p ∈ ps, ∃ i a, p = i :: a ∧ before.length ≤ i) ∧
      ∀ i a d, before.length ≤ i → t.at? (i :: a) = some d →
        (∃ p ∈ ps, p <+: i :: a) ∨ d.isTransparent
  | [], t, before, h => by
      refine ⟨[], .nil t, by simp, fun i a d hi hd => ?_⟩
      rw [at?_cons, h, List.append_nil, List.getElem?_eq_none hi] at hd
      cases hd
  | c :: cs, t, before, h => by
      have hc : t.children[before.length]? = some c := by simp [h]
      obtain ⟨ps, hps, hcover⟩ := exists_places_splice c
      obtain ⟨qs, hqs, hlater, hrest⟩ := exists_places_spliceAll cs t (before ++ [c]) (by simp [h])
      rw [List.length_append, List.length_singleton] at hlater hrest
      refine ⟨ps.map (before.length :: ·) ++ qs, ⟨?_, ?_⟩, ?_, ?_⟩
      · have hat : t.at? ∘ (before.length :: ·) = c.at? :=
          funext fun a => at?_cons_of_getElem? hc a
        rw [List.map_append, List.map_map, hat, hps.at_eq, hqs.at_eq, spliceAll, List.map_append]
      · -- Inside the first child the order is the child's; all other places go to a later child.
        rw [List.pairwise_append, List.pairwise_map]
        refine ⟨hps.ordered.imp fun h => .further _ h, hqs.ordered, fun p hp q hq => ?_⟩
        obtain ⟨a, _, rfl⟩ := List.mem_map.mp hp
        obtain ⟨i, b, rfl, hi⟩ := hlater q hq
        exact .here hi
      · intro p hp
        rcases List.mem_append.mp hp with hp | hp
        · obtain ⟨a, _, rfl⟩ := List.mem_map.mp hp
          exact ⟨_, a, rfl, Nat.le_refl _⟩
        · obtain ⟨i, a, rfl, hi⟩ := hlater p hp
          exact ⟨i, a, rfl, by omega⟩
      · intro i a d hi hd
        by_cases hfirst : i = before.length
        · subst hfirst
          rw [at?_cons_of_getElem? hc] at hd
          refine (hcover a d hd).imp_left ?_
          rintro ⟨p, hp, hpa⟩
          exact ⟨_ :: p, List.mem_append_left _ (List.mem_map_of_mem hp),
            List.cons_prefix_cons.mpr ⟨rfl, hpa⟩⟩
        · refine (hrest i a d (by omega) hd).imp_left ?_
          rintro ⟨p, hp, hpa⟩
          exact ⟨p, List.mem_append_right _ hp, hpa⟩

end

theorem exists_places_generic (source : ByteArray) {type rest argument closure : ParseTree}
    (hless : Compares t "<" type rest) (hgreater : Compares rest ">" argument closure)
    (htype : type.kind = "simple_identifier") (hclosure : closure.kind = "lambda_literal") :
    ∃ ps, t.Places ps [type, closure] ∧ [] ∉ ps ∧
      ∀ a, a ≠ [] → (∃ p ∈ ps, p <+: a) ∨ Omits source t a := by
  -- The type is an operand here, the closure one of the inner comparison.
  obtain ⟨i, j, hij, hlt, hi, hj⟩ := hless.exists_operandIndices
  obtain ⟨k, l, hkl, _, _, hl⟩ := hgreater.exists_operandIndices
  refine ⟨[[i], [j, l]], ⟨?_, ?_⟩, by simp, fun a ha => ?_⟩
  · simp [at?_cons_of_getElem? hi, at?_cons_of_getElem? hj, at?_cons_of_getElem? hl]
  · exact List.pairwise_pair.mpr (.here hlt)
  · by_cases hone : [i] <+: a
    · exact .inl ⟨[i], by simp, hone⟩
    · by_cases htwo : [j, l] <+: a
      · exact .inl ⟨[j, l], by simp, htwo⟩
      · exact .inr (.generic hless hgreater htype hclosure hij hkl ha hone htwo)

/-- The constituents of a node have their places below it. All else below the node is inside one of
them, or is a wrapper, or is left out. -/
theorem exists_places_constituents (source : ByteArray) (t : ParseTree) :
    ∃ ps, t.Places ps (t.constituents (t.classify source)) ∧ [] ∉ ps ∧
      ∀ a d, a ≠ [] → t.at? a = some d →
        (∃ p ∈ ps, p <+: a) ∨ d.isTransparent ∨ (¬t.isFault ∧ t.Omits source a) := by
  have hconst := constitutes_constituents source t
  generalize t.constituents (t.classify source) = cs at hconst
  cases hconst with
  | children =>
      obtain ⟨ps, hps, hbelow, hcover⟩ := exists_places_spliceAll t.children t [] rfl
      refine ⟨ps, hps, fun hnil => ?_, fun a d ha hd => ?_⟩
      · obtain ⟨i, a, hia, _⟩ := hbelow [] hnil
        cases hia
      · obtain ⟨i, a, rfl⟩ := List.exists_cons_of_ne_nil ha
        exact (hcover i a d (Nat.zero_le i) hd).imp_right .inl
  | value hsound hkind =>
      obtain ⟨ps, hps, hbelow, hcover⟩ := exists_places_field t "value"
      refine ⟨ps, hps, hbelow, fun a d ha hd => ?_⟩
      obtain ⟨i, a, rfl⟩ := List.exists_cons_of_ne_nil ha
      exact (hcover i a d hd).imp_right fun h => .inr ⟨hsound, .argument hkind h⟩
  | target hsound hkind =>
      obtain ⟨ps, hps, hbelow, hcover⟩ := exists_places_field t "target"
      refine ⟨ps, hps, hbelow, fun a d ha hd => ?_⟩
      obtain ⟨i, a, rfl⟩ := List.exists_cons_of_ne_nil ha
      exact (hcover i a d hd).imp_right fun h => .inr ⟨hsound, .access hkind h⟩
  | identifier hsound hkind =>
      refine ⟨[], .nil t, List.not_mem_nil, fun a d ha hd => ?_⟩
      obtain ⟨i, a, rfl⟩ := List.exists_cons_of_ne_nil ha
      exact .inr (.inr ⟨hsound, .identifier hkind⟩)
  | generic hsound hless hgreater htype hclosure =>
      obtain ⟨ps, hps, hbelow, hcover⟩ :=
        exists_places_generic source hless hgreater htype hclosure
      exact ⟨ps, hps, hbelow, fun a d ha _ => (hcover a ha).imp_right fun h => .inr ⟨hsound, h⟩⟩

end ParseTree

end ConcurrencyLint
