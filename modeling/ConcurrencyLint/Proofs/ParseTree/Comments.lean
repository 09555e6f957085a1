import ConcurrencyLint.Proofs.Node.Address
import ConcurrencyLint.Proofs.ParseTree.Callee
import Mathlib.Data.List.Forall2

/-!
# Comments

Comments can be taken out of a parse tree at any set of addresses. Where they stand as the grammar
places them, no step of the lowering sees the difference, so the lowered tree is the same.
-/

namespace ConcurrencyLint.ParseTree

variable {source : ByteArray} {t c : ParseTree} {cs cs' : List ParseTree} {chosen : Address → Bool}

/-! ## Taking comments out -/

/-- The index of a child among its siblings, the first of which is child `i` of a node, once the
chosen comments are out. -/
def indexWithout (chosen : Address → Bool) : Nat → List ParseTree → Nat → Nat
  | _, [], k => k
  | _, _ :: _, 0 => 0
  | i, c :: cs, k + 1 =>
    if c.isComment && chosen [i] then indexWithout chosen (i + 1) cs k
    else indexWithout chosen (i + 1) cs k + 1

mutual

/-- The tree without the comments at the chosen addresses. The fields name the same children as
before. -/
def without (chosen : Address → Bool) : ParseTree → ParseTree
  | ⟨kind, named, error, missing, hasError, start, stop, row, column, fields, children⟩ =>
    ⟨kind, named, error, missing, hasError, start, stop, row, column,
      fields.map fun f => (f.1, indexWithout chosen 0 children f.2),
      withoutAll chosen 0 children⟩

/-- Siblings, the first of which is child `i` of a node, without the chosen comments. -/
def withoutAll (chosen : Address → Bool) (i : Nat) : List ParseTree → List ParseTree
  | [] => []
  | c :: cs =>
    if c.isComment && chosen [i] then withoutAll chosen (i + 1) cs
    else c.without (fun a => chosen (i :: a)) :: withoutAll chosen (i + 1) cs

end

theorem without_eq (chosen : Address → Bool) (t : ParseTree) : t.without chosen =
    { t with
      fields := t.fields.map fun f => (f.1, indexWithout chosen 0 t.children f.2)
      children := withoutAll chosen 0 t.children } := by
  cases t
  rw [without]

section

variable (chosen : Address → Bool) (t : ParseTree)

@[simp] theorem kind_without : (t.without chosen).kind = t.kind := by rw [without_eq]

@[simp] theorem isNamed_without : (t.without chosen).isNamed = t.isNamed := by rw [without_eq]

@[simp] theorem hasError_without : (t.without chosen).hasError = t.hasError := by rw [without_eq]

@[simp] theorem isFault_without : (t.without chosen).isFault = t.isFault := by
  rw [without_eq]; rfl

@[simp] theorem isComment_without : (t.without chosen).isComment = t.isComment := by
  rw [isComment, kind_without, isComment]

@[simp] theorem isTransparent_without : (t.without chosen).isTransparent = t.isTransparent := by
  rw [isTransparent, kind_without, isTransparent]

@[simp] theorem isStructural_without : (t.without chosen).isStructural = t.isStructural := by
  rw [without_eq]; rfl

@[simp] theorem span_without : (t.without chosen).span = t.span := by rw [without_eq]; rfl

@[simp] theorem text_without : (t.without chosen).text source = t.text source := by
  rw [without_eq]; rfl

@[simp] theorem children_without :
    (t.without chosen).children = withoutAll chosen 0 t.children := by rw [without_eq]

end

/-! ## Where comments stand -/

/-- The comments at a node and among its children stand as the grammar places them: a comment is a
sound leaf with a name of its own, no field points at one, and none is the callee of a call or a
part of a pattern. -/
structure PlacesComments (d : ParseTree) : Prop where
  leaf : d.isComment → d.isNamed ∧ ¬d.isFault ∧ d.children = []
  field : ∀ name, ∀ c ∈ d.field name, ¬c.isComment
  call : d.kind = "call_expression" → ∀ c ∈ d.namedChildren.head?, ¬c.isComment
  pattern : d.kind = "pattern" → ∀ c ∈ d.children, ¬c.isComment

/-- All comments of a tree stand as the grammar places them. -/
def CommentsInPlace (t : ParseTree) : Prop := ∀ d ∈ t.preorder, d.PlacesComments

theorem CommentsInPlace.here (h : t.CommentsInPlace) : t.PlacesComments :=
  h t t.mem_preorder_self

theorem CommentsInPlace.of_mem (h : t.CommentsInPlace) (hc : c ∈ preorderAll t.children) :
    c.CommentsInPlace :=
  fun d hd => h d (preorder_subset t (mem_preorder_of_mem_preorderAll hc) hd)

theorem CommentsInPlace.child (h : t.CommentsInPlace) (hc : c ∈ t.children) :
    c.CommentsInPlace :=
  h.of_mem (mem_preorderAll_of_mem hc)

/-! ## Lists of trees without some comments -/

/-- The tree is another one without some of its comments. -/
def Thinned (t t' : ParseTree) : Prop := ∃ chosen, t' = t.without chosen

/-- A list of trees without some of its comments, and those left without some of theirs. -/
inductive Thins : List ParseTree → List ParseTree → Prop
  | nil : Thins [] []
  | drop {c : ParseTree} {cs cs' : List ParseTree} : c.isComment → Thins cs cs' →
      Thins (c :: cs) cs'
  | keep {c : ParseTree} {cs cs' : List ParseTree} (chosen : Address → Bool) : Thins cs cs' →
      Thins (c :: cs) (c.without chosen :: cs')

theorem thins_withoutAll (chosen : Address → Bool) (i : Nat) (cs : List ParseTree) :
    Thins cs (withoutAll chosen i cs) := by
  induction cs generalizing i with
  | nil => exact .nil
  | cons c cs ih =>
      rw [withoutAll]
      split
      · rename_i hdrop
        exact .drop (Bool.and_eq_true_iff.mp hdrop).1 (ih (i + 1))
      · exact .keep _ (ih (i + 1))

theorem thins_children (chosen : Address → Bool) (t : ParseTree) :
    Thins t.children (t.without chosen).children := by
  rw [children_without]
  exact thins_withoutAll chosen 0 t.children

namespace Thins

theorem append {ds ds' : List ParseTree} (h : Thins cs cs') (hd : Thins ds ds') :
    Thins (cs ++ ds) (cs' ++ ds') := by
  induction h with
  | nil => exact hd
  | drop hc _ ih => exact .drop hc ih
  | keep chosen _ ih => exact .keep chosen ih

variable {p : ParseTree → Bool}

theorem filter (hp : ∀ c chosen, p (c.without chosen) = p c) (h : Thins cs cs') :
    Thins (cs.filter p) (cs'.filter p) := by
  induction h with
  | nil => exact .nil
  | @drop c cs cs' hc _ ih =>
      by_cases hpc : p c
      · rw [List.filter_cons_of_pos hpc]; exact .drop hc ih
      · rw [List.filter_cons_of_neg hpc]; exact ih
  | @keep c cs cs' chosen _ ih =>
      have hpc' := hp c chosen
      by_cases hpc : p c
      · rw [List.filter_cons_of_pos hpc, List.filter_cons_of_pos (hpc'.trans hpc)]
        exact .keep chosen ih
      · rw [List.filter_cons_of_neg hpc, List.filter_cons_of_neg (hpc' ▸ hpc)]
        exact ih

theorem forall₂ (hno : ∀ c ∈ cs, ¬c.isComment) (h : Thins cs cs') :
    List.Forall₂ Thinned cs cs' := by
  induction h with
  | nil => exact .nil
  | drop hc _ _ => exact absurd hc (hno _ List.mem_cons_self)
  | keep chosen _ ih =>
      exact .cons ⟨chosen, rfl⟩ (ih fun d hd => hno d (List.mem_cons_of_mem _ hd))

/-- A search that does not stop at a comment finds the same child. -/
theorem find? (hp : ∀ c chosen, p (c.without chosen) = p c)
    (hno : ∀ c ∈ cs.find? p, ¬c.isComment) (h : Thins cs cs') :
    ∃ chosen, cs'.find? p = (cs.find? p).map (without chosen) := by
  induction h with
  | nil => exact ⟨fun _ => false, rfl⟩
  | @drop c cs cs' hc _ ih =>
      have hpc : ¬p c := by
        intro hpc
        exact hno c (List.find?_cons_of_pos hpc) hc
      rw [List.find?_cons_of_neg hpc] at hno ⊢
      exact ih hno
  | @keep c cs cs' chosen _ ih =>
      have hpc' := hp c chosen
      by_cases hpc : p c
      · refine ⟨chosen, ?_⟩
        rw [List.find?_cons_of_pos hpc, List.find?_cons_of_pos (hpc'.trans hpc), Option.map_some]
      · rw [List.find?_cons_of_neg hpc] at hno ⊢
        rw [List.find?_cons_of_neg (hpc' ▸ hpc)]
        exact ih hno

end Thins

/-! ## Fields -/

theorem getElem?_withoutAll (chosen : Address → Bool) (i : Nat) (cs : List ParseTree) (k : Nat)
    (hno : ∀ c ∈ cs[k]?, ¬c.isComment) :
    ∃ chosen', (withoutAll chosen i cs)[indexWithout chosen i cs k]? =
      cs[k]?.map (without chosen') := by
  induction cs generalizing i k with
  | nil => exact ⟨chosen, by rw [withoutAll]; rfl⟩
  | cons c cs ih =>
      cases k with
      | zero =>
          have hc : ¬(c.isComment && chosen [i]) := by simp [Bool.eq_false_iff.mpr (hno c rfl)]
          rw [indexWithout, withoutAll, if_neg hc]
          exact ⟨_, rfl⟩
      | succ k =>
          rw [indexWithout, withoutAll]
          split
          · exact ih (i + 1) k hno
          · exact ih (i + 1) k hno

theorem lookup_map_snd (fields : List (String × Nat)) (f : Nat → Nat) (name : String) :
    (fields.map fun e => (e.1, f e.2)).lookup name = (fields.lookup name).map f := by
  induction fields with
  | nil => rfl
  | cons e fields ih =>
      rw [List.map_cons, List.lookup_cons, List.lookup_cons, ih]
      split <;> rfl

theorem field_without (chosen : Address → Bool) {name : String}
    (hno : ∀ c ∈ t.field name, ¬c.isComment) :
    ∃ chosen', (t.without chosen).field name = (t.field name).map (without chosen') := by
  have hfield : (t.without chosen).field name = (t.fields.lookup name).bind fun i =>
      (withoutAll chosen 0 t.children)[indexWithout chosen 0 t.children i]? := by
    rw [without_eq, field, lookup_map_snd, Option.bind_map]
    rfl
  rw [hfield]
  rw [field] at hno ⊢
  cases hi : t.fields.lookup name with
  | none => exact ⟨chosen, rfl⟩
  | some i =>
      rw [hi, Option.bind_some] at hno
      exact getElem?_withoutAll chosen 0 t.children i hno

theorem map_field_without {α : Type} {f : ParseTree → α} {name : String}
    (hf : ∀ c chosen, f (c.without chosen) = f c) (hno : ∀ c ∈ t.field name, ¬c.isComment) :
    ((t.without chosen).field name).map f = (t.field name).map f := by
  obtain ⟨chosen', hfield⟩ := field_without chosen hno
  rw [hfield, Option.map_map]
  exact congrArg (Option.map · _) (funext fun c => hf c chosen')

/-! ## Names -/

theorem calleeName_without (chosen : Address → Bool) (t : ParseTree) :
    (t.without chosen).calleeName source = t.calleeName source := by
  unfold calleeName
  rw [kind_without]
  split
  · rw [text_without]
  · rw [text_without]
  · have hnamed := (thins_children chosen t).filter fun c chosen => isNamed_without chosen c
    obtain ⟨chosen', hfind⟩ := hnamed.find? (p := fun c => c.kind == "type_identifier")
      (fun c chosen => by rw [kind_without]) (by
        intro c hc
        have hkind : c.kind = "type_identifier" := by simpa using List.find?_some hc
        simp [isComment, hkind])
    rw [namedChildren, namedChildren, hfind, Option.map_map]
    exact congrArg (Option.map · _) (funext fun c => text_without chosen' c)
  · rfl

theorem comparison_without (chosen : Address → Bool) (operator : String)
    (hnamed : ∀ c ∈ t.children, c.isComment → c.isNamed) :
    ∃ left right, (t.without chosen).comparison operator =
      (t.comparison operator).map (Prod.map (without left) (without right)) := by
  have hoperands := ((thins_children chosen t).filter
    (p := fun c => c.isNamed && !c.isComment) (by simp)).forall₂ (by simp)
  obtain ⟨token, htoken⟩ := (thins_children chosen t).find? (p := fun c => !c.isNamed) (by simp) (by
    intro c hc hcomment
    have hbare : ¬c.isNamed := by simpa using List.find?_some hc
    exact hbare (hnamed c (List.mem_of_find?_eq_some hc) hcomment))
  unfold comparison
  rw [kind_without, htoken]
  split
  · generalize t.children.filter _ = operands at hoperands
    generalize (t.without chosen).children.filter _ = operands' at hoperands
    cases t.children.find? fun c => !c.isNamed with
    | none => exact ⟨chosen, chosen, rfl⟩
    | some found =>
        -- Only two operands are a comparison.
        cases hoperands with
        | nil => exact ⟨chosen, chosen, rfl⟩
        | cons hleft hoperands =>
            cases hoperands with
            | nil => exact ⟨chosen, chosen, rfl⟩
            | cons hright hoperands =>
                cases hoperands with
                | nil =>
                    obtain ⟨left, rfl⟩ := hleft
                    obtain ⟨right, rfl⟩ := hright
                    refine ⟨left, right, ?_⟩
                    simp only [Option.map_some, kind_without]
                    split <;> rfl
                | cons _ _ => exact ⟨chosen, chosen, rfl⟩
  · exact ⟨chosen, chosen, rfl⟩

theorem CommentsInPlace.isNamed (h : t.CommentsInPlace) (hc : c ∈ t.children)
    (hcomment : c.isComment) : c.isNamed :=
  ((h.child hc).here.leaf hcomment).1

theorem genericConstruction_without (chosen : Address → Bool) (h : t.CommentsInPlace) :
    ∃ left right, (t.without chosen).genericConstruction =
      t.genericConstruction.map (Prod.map (without left) (without right)) := by
  obtain ⟨left, inner, hless⟩ := comparison_without chosen "<" fun c hc => h.isNamed hc
  unfold genericConstruction
  rw [hless]
  cases hpair : t.comparison "<" with
  | none => exact ⟨chosen, chosen, rfl⟩
  | some pair =>
      obtain ⟨type, rest⟩ := pair
      have hrest := h.child (mem_children_of_comparison hpair).2
      obtain ⟨argument, right, hgreater⟩ :=
        comparison_without inner ">" fun c hc => hrest.isNamed hc
      simp only [Option.map_some, Prod.map_apply, hgreater]
      cases rest.comparison ">" with
      | none => exact ⟨chosen, chosen, rfl⟩
      | some pair =>
          refine ⟨left, right, ?_⟩
          simp only [Option.map_some, Prod.map_snd, kind_without]
          split <;> rfl

theorem navigationMember_without (chosen : Address → Bool) (h : t.CommentsInPlace) :
    (t.without chosen).navigationMember source = t.navigationMember source := by
  obtain ⟨chosen', hfield⟩ := field_without chosen (h.here.field "suffix")
  unfold navigationMember
  rw [hfield]
  cases hc : t.field "suffix" with
  | none => rfl
  | some suffix =>
      have hsuffix := (h.child (mem_children_of_field hc)).here.field "suffix"
      obtain ⟨chosen'', hmember⟩ := field_without chosen' hsuffix
      have htext : (((suffix.without chosen').field "suffix").getD
          (suffix.without chosen')).text source =
          ((suffix.field "suffix").getD suffix).text source := by
        rw [hmember]
        cases suffix.field "suffix" <;> simp
      simp only [Option.map_some, htext]

theorem implicitMember_without (chosen : Address → Bool) (h : t.PlacesComments) :
    (t.without chosen).implicitMember source = t.implicitMember source := by
  obtain ⟨operation, hoperation⟩ := field_without chosen (h.field "operation")
  obtain ⟨target, htarget⟩ := field_without chosen (h.field "target")
  unfold implicitMember
  rw [hoperation, htarget]
  cases t.field "operation" with
  | none => rfl
  | some operation => cases t.field "target" <;> simp

/-! ## Bindings -/

theorem patternName_without (chosen : Address → Bool) (h : t.PlacesComments)
    (hkind : t.kind = "pattern") :
    (t.without chosen).patternName source = t.patternName source := by
  obtain ⟨bound, hbound⟩ := field_without chosen (h.field "bound_identifier")
  have hnamed : List.Forall₂ Thinned t.namedChildren (t.without chosen).namedChildren :=
    ((thins_children chosen t).filter fun c chosen => isNamed_without chosen c).forall₂
      fun c hc => h.pattern hkind c (List.mem_filter.mp hc).1
  unfold patternName
  rw [hbound]
  cases t.field "bound_identifier" with
  | some bound => simp
  | none =>
      simp only [Option.map_none]
      generalize t.namedChildren = named at hnamed
      generalize (t.without chosen).namedChildren = named' at hnamed
      cases hnamed with
      | nil => rfl
      | cons hfirst hrest =>
          cases hrest with
          | nil =>
              obtain ⟨first, rfl⟩ := hfirst
              simp
          | cons _ _ => rfl

theorem addBinding_without (chosen : Address → Bool) (h : t.PlacesComments)
    (found : List Binding) :
    addBinding source found (t.without chosen) = addBinding source found t := by
  unfold addBinding
  rw [kind_without]
  split
  · rename_i hkind
    rw [patternName_without chosen h hkind]
  · rfl
  · rfl

theorem addBinding_of_isComment (h : t.isComment) (found : List Binding) :
    addBinding source found t = found := by
  unfold addBinding
  split
  · rename_i hkind
    simp [isComment, hkind] at h
  · rename_i hkind
    simp [isComment, hkind] at h
  · rfl

theorem Thins.foldl_addBinding (h : Thins cs cs') (hplaces : ∀ c ∈ cs, c.PlacesComments)
    (found : List Binding) :
    cs'.foldl (addBinding source) found = cs.foldl (addBinding source) found := by
  induction h generalizing found with
  | nil => rfl
  | drop hc _ ih =>
      rw [List.foldl_cons, addBinding_of_isComment hc]
      exact ih (fun d hd => hplaces d (List.mem_cons_of_mem _ hd)) found
  | keep chosen _ ih =>
      rw [List.foldl_cons, List.foldl_cons,
        addBinding_without chosen (hplaces _ List.mem_cons_self)]
      exact ih (fun d hd => hplaces d (List.mem_cons_of_mem _ hd)) _

theorem bindings_without (chosen : Address → Bool) (h : t.CommentsInPlace) :
    (t.without chosen).bindings source = t.bindings source := by
  have hnamed := (thins_children chosen t).filter fun c chosen => isNamed_without chosen c
  rw [bindings, bindings, namedChildren, hnamed.foldl_addBinding]
  · rfl
  · intro c hc
    exact (h.child (List.mem_filter.mp hc).1).here

/-! ## First errors -/

theorem searchFault_of_thins {pending pending' : List ParseTree} (h : Thins pending pending')
    (hplaces : ∀ d ∈ pending, d.CommentsInPlace) : searchFault pending' = searchFault pending := by
  fun_induction searchFault pending generalizing pending' with
  | case1 =>
      cases h
      rw [searchFault]
  | case2 t pending hfault =>
      cases h with
      | drop hc _ => exact absurd hfault ((hplaces t List.mem_cons_self).here.leaf hc).2.1
      | keep chosen _ =>
          rw [searchFault, isFault_without, if_pos hfault, span_without]
  | case3 t pending hfault ih =>
      have hhere := hplaces t List.mem_cons_self
      have hnext : ∀ d ∈ t.faultyChildren ++ pending, d.CommentsInPlace := by
        intro d hd
        rcases List.mem_append.mp hd with hd | hd
        · exact hhere.child (List.mem_filter.mp hd).1
        · exact hplaces d (List.mem_cons_of_mem _ hd)
      cases h with
      | drop hc hrest =>
          have hleaf : t.faultyChildren = [] := by
            rw [faultyChildren, (hhere.here.leaf hc).2.2, List.filter_nil]
          rw [hleaf, List.nil_append] at ih hnext ⊢
          exact ih hrest hnext
      | keep chosen hrest =>
          rw [searchFault, isFault_without, if_neg hfault]
          have hchildren : Thins t.faultyChildren (t.without chosen).faultyChildren :=
            (thins_children chosen t).filter fun c chosen => hasError_without chosen c
          exact ih (hchildren.append hrest) hnext

theorem firstError_without (chosen : Address → Bool) (h : t.CommentsInPlace) :
    (t.without chosen).firstError = t.firstError := by
  have hsearch : searchFault [t.without chosen] = searchFault [t] :=
    searchFault_of_thins (.keep chosen .nil) fun d hd => List.mem_singleton.mp hd ▸ h
  rw [firstError, firstError, hasError_without, span_without, hsearch]

/-! ## The lowered tree -/

theorem classify_without (chosen : Address → Bool) (h : t.CommentsInPlace) :
    (t.without chosen).classify source = t.classify source := by
  have htext (name : String) : ((t.without chosen).field name).map (text source) =
      (t.field name).map (text source) :=
    map_field_without (fun c chosen => text_without chosen c) (h.here.field name)
  unfold classify
  rw [isFault_without, kind_without]
  split
  · rfl
  · split
    · rw [firstError_without chosen h]
    · rw [htext]
    · rw [htext]
    · rfl
    · rw [bindings_without chosen h]
    · rename_i hkind
      have hhead := h.here.call hkind
      rw [namedChildren, List.head?_filter] at hhead
      obtain ⟨first, hfirst⟩ := (thins_children chosen t).find?
        (fun c chosen => isNamed_without chosen c) hhead
      rw [namedChildren, namedChildren, List.head?_filter, List.head?_filter, hfirst,
        Option.bind_map]
      exact congrArg _ (congrArg (Option.bind _) (funext fun c => calleeName_without first c))
    · obtain ⟨type, htype⟩ := field_without chosen (h.here.field "constructed_type")
      rw [htype, Option.bind_map]
      exact congrArg _ (congrArg (Option.bind _) (funext fun c => calleeName_without type c))
    · rw [htext]
    · obtain ⟨left, right, hgeneric⟩ := genericConstruction_without chosen h
      rw [hgeneric]
      cases t.genericConstruction with
      | none => rfl
      | some pair => simp [calleeName_without]
    · rfl
    · obtain ⟨target, htarget⟩ := field_without chosen (h.here.field "target")
      rw [htarget, navigationMember_without chosen h]
      cases t.field "target" with
      | none => rfl
      | some c => by_cases hkind : c.kind = "simple_identifier" <;> simp [Option.filter, hkind]
    · rw [implicitMember_without chosen h.here]
    · rw [text_without]
    · rfl

theorem not_isTransparent_of_isComment (h : t.isComment) : ¬t.isTransparent := by
  simp only [isComment, List.contains_cons, List.contains_nil, Bool.or_false, Bool.or_eq_true,
    beq_iff_eq] at h
  rcases h with h | h <;> simp [isTransparent, h]

theorem not_isStructural_of_isComment (h : t.isComment) : ¬t.isStructural := by
  simp [isStructural, h]

mutual

theorem forall₂_splice : (t : ParseTree) → (chosen : Address → Bool) →
    List.Forall₂ Thinned (t.splice.filter isStructural)
      ((t.without chosen).splice.filter isStructural)
  | ⟨kind, named, error, missing, hasError, start, stop, row, column, fields, children⟩,
      chosen => by
      rw [splice_eq, splice_eq, isTransparent_without, children_without]
      split
      · exact forall₂_spliceAll children chosen 0
      · exact List.rel_filter (fun c c' ⟨chosen, h⟩ => by simp [h]) (.cons ⟨chosen, rfl⟩ .nil)

theorem forall₂_spliceAll : (cs : List ParseTree) → (chosen : Address → Bool) → (i : Nat) →
    List.Forall₂ Thinned ((spliceAll cs).filter isStructural)
      ((spliceAll (withoutAll chosen i cs)).filter isStructural)
  | [], chosen, i => by
      rw [withoutAll, spliceAll]
      exact .nil
  | c :: cs, chosen, i => by
      have hrest := forall₂_spliceAll cs chosen (i + 1)
      rw [withoutAll, spliceAll, List.filter_append]
      split
      · rename_i hdrop
        have hcomment := (Bool.and_eq_true_iff.mp hdrop).1
        rw [splice_eq, if_neg (not_isTransparent_of_isComment hcomment),
          List.filter_cons_of_neg (not_isStructural_of_isComment hcomment)]
        exact hrest
      · rw [spliceAll, List.filter_append]
        exact List.rel_append (forall₂_splice c _) hrest

end

theorem forall₂_structuralChildren (chosen : Address → Bool) (h : t.CommentsInPlace)
    (kind : NodeKind) :
    List.Forall₂ Thinned (t.structuralChildren kind)
      ((t.without chosen).structuralChildren kind) := by
  have hfilter {cs cs' : List ParseTree} (h : List.Forall₂ Thinned cs cs') :
      List.Forall₂ Thinned (cs.filter isStructural) (cs'.filter isStructural) :=
    List.rel_filter (fun c c' ⟨chosen, h⟩ => by simp [h]) h
  have hfield (name : String) :
      List.Forall₂ Thinned (t.field name).toList ((t.without chosen).field name).toList := by
    obtain ⟨chosen', hc⟩ := field_without chosen (h.here.field name)
    rw [hc]
    cases t.field name with
    | none => exact .nil
    | some c => exact .cons ⟨chosen', rfl⟩ .nil
  have hsplice := forall₂_spliceAll t.children chosen 0
  rw [← children_without] at hsplice
  unfold structuralChildren constituents
  split
  · exact hfilter (hfield "value")
  · exact hfilter (hfield "target")
  · exact .nil
  · rw [kind_without]
    split
    · obtain ⟨left, right, hgeneric⟩ := genericConstruction_without chosen h
      rw [hgeneric]
      cases t.genericConstruction with
      | none => exact .nil
      | some pair => exact hfilter (.cons ⟨left, rfl⟩ (.cons ⟨right, rfl⟩ .nil))
    · exact hsplice
  · exact hsplice

theorem map_lower_of_forall₂ (h : List.Forall₂ Thinned cs cs')
    (hsame : ∀ c ∈ cs, ∀ chosen, lower source (c.without chosen) = lower source c) :
    cs'.map (lower source) = cs.map (lower source) := by
  induction h with
  | nil => rfl
  | cons hc _ ih =>
      obtain ⟨chosen, rfl⟩ := hc
      rw [List.map_cons, List.map_cons, hsame _ List.mem_cons_self,
        ih fun d hd => hsame d (List.mem_cons_of_mem _ hd)]

theorem lower_without (h : t.CommentsInPlace) (chosen : Address → Bool) :
    lower source (t.without chosen) = lower source t := by
  induction t using lower.induct source generalizing chosen with
  | case1 t ih =>
      have hchildren := forall₂_structuralChildren chosen h (t.classify source)
      rw [lower_eq, lower_eq, classify_without chosen h, span_without,
        map_lower_of_forall₂ hchildren]
      intro c hc
      have hmem := mem_preorderAll_of_mem_constituents (List.mem_filter.mp hc).1
      exact ih c hc (h.of_mem hmem)

/-- Comments are not seen: whatever set of them is taken out of a tree, it is lowered to the same
tree. -/
theorem toNode_without (source : ByteArray) (t : ParseTree) (h : t.CommentsInPlace)
    (chosen : Address → Bool) : (t.without chosen).toNode source = t.toNode source := by
  rw [toNode_eq, toNode_eq, lower_without h]

/-! ## Checking where comments stand -/

theorem field_ne_comment_iff : (∀ name, ∀ c ∈ t.field name, ¬c.isComment) ↔
    ∀ f ∈ t.fields, ∀ c ∈ t.field f.1, ¬c.isComment := by
  constructor
  · intro h f _
    exact h f.1
  · intro h name c hc
    obtain ⟨i, hi, _⟩ := Option.bind_eq_some_iff.mp hc
    obtain ⟨before, after, hfields, _⟩ := List.lookup_eq_some_iff.mp hi
    exact h (name, i) (by simp [hfields]) c hc

instance (d : ParseTree) : Decidable d.PlacesComments :=
  decidable_of_iff ((d.isComment → d.isNamed ∧ ¬d.isFault ∧ d.children = []) ∧
    (∀ f ∈ d.fields, ∀ c ∈ d.field f.1, ¬c.isComment) ∧
    (d.kind = "call_expression" → ∀ c ∈ d.namedChildren.head?, ¬c.isComment) ∧
    (d.kind = "pattern" → ∀ c ∈ d.children, ¬c.isComment))
    ⟨fun ⟨hleaf, hfield, hcall, hpattern⟩ =>
      ⟨hleaf, field_ne_comment_iff.mpr hfield, hcall, hpattern⟩,
    fun h => ⟨h.leaf, field_ne_comment_iff.mp h.field, h.call, h.pattern⟩⟩

instance (t : ParseTree) : Decidable t.CommentsInPlace :=
  inferInstanceAs (Decidable (∀ d ∈ t.preorder, _))

/-- The tree of a call with a comment after the label of its argument, and one behind it. -/
def commentedCall : ParseTree :=
  let node (kind : String) (start stop : Nat) (fields : List (String × Nat))
      (children : List ParseTree) : ParseTree :=
    ⟨kind, true, false, false, false, start, stop, 0, start, fields, children⟩
  let token (kind : String) (start : Nat) : ParseTree :=
    ⟨kind, false, false, false, false, start, start + 1, 0, start, [], []⟩
  let argument := node "value_argument" 2 12 [("name", 0), ("value", 3)] [
    node "value_argument_label" 2 3 [] [node "simple_identifier" 2 3 [] []],
    token ":" 3, node "multiline_comment" 5 10 [] [], node "simple_identifier" 11 12 [] []]
  node "source_file" 0 17 [] [
    node "call_expression" 0 13 [] [
      node "simple_identifier" 0 1 [] [],
      node "call_suffix" 1 13 [] [
        node "value_arguments" 1 13 [] [token "(" 1, argument, token ")" 12]]],
    node "comment" 14 17 [] []]

-- The value of the argument is now one place further left.
theorem toNode_without_commentedCall :
    let source := "f(a: /*b*/ c) //d".toUTF8
    let rest := commentedCall.without fun _ => true
    commentedCall.CommentsInPlace ∧ commentedCall.preorder.countP isComment = 2 ∧
      rest.preorder.countP isComment = 0 ∧
      rest.preorder.flatMap (·.fields) = [("name", 0), ("value", 2)] ∧
      rest.toNode source = commentedCall.toNode source := by
  intro source rest
  have hplaces : commentedCall.CommentsInPlace := by decide
  refine ⟨hplaces, by decide, by decide, by decide, ?_⟩
  exact toNode_without source commentedCall hplaces fun _ => true

end ConcurrencyLint.ParseTree
