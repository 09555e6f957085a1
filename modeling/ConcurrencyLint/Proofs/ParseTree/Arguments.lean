import ConcurrencyLint.Proofs.ParseTree.Places

/-!
# The arguments of a call

A grammar wraps the arguments and trailing closures of a call, to any depth. What belongs to the
call is said of the tree by addresses: the constructs that only wrappers stand around. They become
the children of the lowered call, so nothing that is read off them depends on the wrappers.
-/

namespace ConcurrencyLint

theorem Address.Precedes.not_isPrefix {p q : Address} (h : Precedes p q) : ¬p <+: q ∧ ¬q <+: p := by
  induction h with
  | here hij =>
      rw [List.cons_prefix_cons, List.cons_prefix_cons]
      exact ⟨fun hp => hij.ne hp.1, fun hq => hij.ne' hq.1⟩
  | further i _ ih =>
      rw [List.cons_prefix_cons, List.cons_prefix_cons]
      exact ⟨fun hp => ih.1 hp.2, fun hq => ih.2 hq.2⟩

namespace ParseTree

variable {source : ByteArray} {t u c : ParseTree} {p q : Address} {ps qs : List Address}
  {cs ds : List ParseTree}

def IsWrapper (t : ParseTree) : Prop :=
  t.kind = "call_suffix" ∨ t.kind = "value_arguments" ∨ t.kind = "constructor_suffix"

/-- The node at an address belongs to the root as a child does: it is a construct and no wrapper,
and all that stands between it and the root are wrappers. -/
structure BelongsAt (t : ParseTree) (p : Address) (c : ParseTree) : Prop where
  at_eq : t.at? p = some c
  below : p ≠ []
  present : c.isNamed ∨ c.isMissing
  no_comment : c.kind ≠ "comment" ∧ c.kind ≠ "multiline_comment"
  plain : ¬c.IsWrapper
  wrapped : ∀ q b, q <+: p → q ≠ [] → q ≠ p → t.at? q = some b → b.IsWrapper

/-- The nodes that belong to the root are the given ones, in the order of the source. -/
def Flattens (t : ParseTree) (cs : List ParseTree) : Prop :=
  ∃ ps, t.Places ps cs ∧ ∀ p, p ∈ ps ↔ ∃ c, t.BelongsAt p c

/-! ## Places -/

namespace Places

theorem exists_at? (h : t.Places ps cs) (hp : p ∈ ps) : ∃ c ∈ cs, t.at? p = some c := by
  have hmem : t.at? p ∈ cs.map some := h.at_eq ▸ List.mem_map_of_mem hp
  obtain ⟨c, hc, hat⟩ := List.mem_map.mp hmem
  exact ⟨c, hc, hat.symm⟩

theorem eq_of_isPrefix (h : t.Places ps cs) (hp : p ∈ ps) (hq : q ∈ ps) (hpq : p <+: q) :
    p = q := by
  have hafter : ps.Pairwise fun a b => a <+: b → a = b :=
    h.ordered.imp fun hab hprefix => absurd hprefix hab.not_isPrefix.1
  have hbefore : ps.Pairwise (flip fun a b => a <+: b → a = b) :=
    h.ordered.imp fun hab hprefix => absurd hprefix hab.not_isPrefix.2
  exact List.Pairwise.forall_of_forall_of_flip (fun _ _ _ => rfl) hafter hbefore hp hq hpq

theorem filter (h : t.Places ps cs) (f : ParseTree → Bool) :
    t.Places (ps.filter fun p => (t.at? p).any f) (cs.filter f) where
  at_eq := by
    have hfilter := congrArg (List.filter (Option.any f)) h.at_eq
    rw [List.filter_map, List.filter_map] at hfilter
    exact hfilter
  ordered := h.ordered.filter _

/-- Trees at the same places are the same trees. -/
theorem unique (h : t.Places ps cs) (h' : t.Places qs ds) (hmem : ∀ p, p ∈ ps ↔ p ∈ qs) :
    cs = ds := by
  have hps : ps = qs := (h.ordered.imp Address.Precedes.lt).eq_of_mem_iff
    (h'.ordered.imp Address.Precedes.lt) hmem
  have hat := h.at_eq.symm.trans (hps ▸ h'.at_eq)
  exact (List.map_inj_right fun _ _ => Option.some.inj).mp hat

end Places

theorem Flattens.unique (h : t.Flattens cs) (h' : t.Flattens ds) : cs = ds := by
  obtain ⟨ps, hps, hmem⟩ := h
  obtain ⟨qs, hqs, hmem'⟩ := h'
  exact hps.unique hqs fun p => (hmem p).trans (hmem' p).symm

/-! ## Wrappers taken out -/

theorem isTransparent_iff : t.isTransparent ↔ t.IsWrapper := by simp [isTransparent, IsWrapper]

theorem isStructural_iff : t.isStructural ↔
    (t.isNamed ∨ t.isMissing) ∧ t.kind ≠ "comment" ∧ t.kind ≠ "multiline_comment" := by
  simp [isStructural, isComment]

mutual

theorem not_isWrapper_of_mem_splice : (t : ParseTree) → c ∈ t.splice → ¬c.IsWrapper
  | ⟨kind, named, error, missing, hasError, start, stop, row, column, fields, children⟩, h => by
      rw [splice] at h
      split at h
      · exact not_isWrapper_of_mem_spliceAll children h
      · rename_i hplain
        rw [List.mem_singleton.mp h, ← isTransparent_iff]
        exact hplain

theorem not_isWrapper_of_mem_spliceAll : (ts : List ParseTree) → c ∈ spliceAll ts → ¬c.IsWrapper
  | [], h => by simp [spliceAll] at h
  | t :: ts, h => by
      rw [spliceAll, List.mem_append] at h
      rcases h with h | h
      · exact not_isWrapper_of_mem_splice t h
      · exact not_isWrapper_of_mem_spliceAll ts h

end

/-- With the wrappers taken out, the constructs among the children are what belongs to the root. -/
theorem flattens_spliceAll (t : ParseTree) :
    t.Flattens ((spliceAll t.children).filter isStructural) := by
  obtain ⟨ps, hps, hbelow, hcover⟩ := exists_places_spliceAll t.children t [] rfl
  have hplain {p : Address} {c : ParseTree} (hp : p ∈ ps) (hc : t.at? p = some c) :
      ¬c.IsWrapper := by
    obtain ⟨d, hd, hat⟩ := hps.exists_at? hp
    cases hc.symm.trans hat
    exact not_isWrapper_of_mem_spliceAll t.children hd
  have hreach {p : Address} {c : ParseTree} (hp : p ≠ []) (hc : t.at? p = some c)
      (ht : ¬c.IsWrapper) : ∃ q ∈ ps, q <+: p := by
    obtain ⟨i, a, rfl⟩ := List.exists_cons_of_ne_nil hp
    exact (hcover i a c (Nat.zero_le i) hc).resolve_right (mt isTransparent_iff.mp ht)
  have hne {p : Address} (hp : p ∈ ps) : p ≠ [] := by
    obtain ⟨i, a, rfl, _⟩ := hbelow p hp
    exact List.cons_ne_nil i a
  refine ⟨_, hps.filter isStructural, fun p => ?_⟩
  rw [List.mem_filter]
  constructor
  · rintro ⟨hp, hs⟩
    obtain ⟨c, _, hc⟩ := hps.exists_at? hp
    rw [hc, Option.any_some, isStructural_iff] at hs
    refine ⟨c, hc, hne hp, hs.1, hs.2, hplain hp hc, fun q b hqp hq hqne hb => ?_⟩
    -- A node on the way that is no wrapper would have a place of its own around this one.
    by_contra ht
    obtain ⟨q', hq', hqq'⟩ := hreach hq hb ht
    have hq'p := hps.eq_of_isPrefix hq' hp (hqq'.trans hqp)
    exact hqne (hqp.eq_of_length_le (hq'p ▸ hqq'.length_le))
  · rintro ⟨c, hc⟩
    obtain ⟨q, hq, hqp⟩ := hreach hc.below hc.at_eq hc.plain
    obtain ⟨d, _, hd⟩ := hps.exists_at? hq
    have hqp' : q = p := by
      by_contra hqne
      exact hplain hq hd (hc.wrapped q d hqp (hne hq) hqne hd)
    rw [hqp'] at hq
    rw [hc.at_eq, Option.any_some, isStructural_iff]
    exact ⟨hq, hc.present, hc.no_comment⟩

/-! ## Lowered calls -/

/-- The node is a call or a construction, and the parser could read it. -/
def IsPlainCall (t : ParseTree) : Prop :=
  (t.kind = "call_expression" ∨ t.kind = "constructor_expression") ∧ ¬t.isFault

theorem IsPlainCall.exists_classify (h : t.IsPlainCall) (source : ByteArray) :
    ∃ callee, t.classify source = .call callee := by
  obtain ⟨hkind | hkind, hsound⟩ := h
  · exact ⟨_, classify_of_isCall (.call hkind) hsound⟩
  · exact ⟨_, classify_of_isCall (.construction hkind) hsound⟩

theorem IsPlainCall.structuralChildren_eq (h : t.IsPlainCall) (source : ByteArray) :
    t.structuralChildren (t.classify source) = (spliceAll t.children).filter isStructural := by
  obtain ⟨callee, hcallee⟩ := h.exists_classify source
  have hkind : (t.kind == "comparison_expression") = false := by
    rcases h.1 with hkind | hkind <;> simp [hkind]
  rw [structuralChildren, hcallee, constituents, hkind]
  rfl

theorem IsPlainCall.children_toNode (h : t.IsPlainCall) (source : ByteArray)
    (hcs : t.Flattens cs) : (t.toNode source).children = cs.map (toNode source) := by
  have hlower : toNode source = lower source := funext fun t => toNode_eq source t
  rw [hcs.unique t.flattens_spliceAll, hlower, lower_eq, h.structuralChildren_eq source]

/-- The children of a lowered call are the lowered nodes that belong to the call, in the order of
the source, whatever wrappers stand around them. So calls to which the same nodes belong have the
same children, the same arguments and the same closures, however these are wrapped. -/
theorem toNode_call_flattens (source : ByteArray) (t : ParseTree) (ht : t.IsPlainCall) :
    (∃ callee, (t.toNode source).kind = .call callee) ∧
    (∃ cs, t.Flattens cs) ∧
    (∀ cs, t.Flattens cs → (t.toNode source).children = cs.map (toNode source)) ∧
    ∀ u : ParseTree, u.IsPlainCall → ∀ cs, t.Flattens cs → u.Flattens cs →
      let n := t.toNode source
      let m := u.toNode source
      n.children = m.children ∧ n.arguments = m.arguments ∧
        (∀ label, n.hasArgument label = m.hasArgument label ∧
          n.argument label = m.argument label) ∧
        n.closureArguments = m.closureArguments := by
  refine ⟨?_, ⟨_, t.flattens_spliceAll⟩, fun cs => ht.children_toNode source, ?_⟩
  · rw [kind_toNode]
    exact ht.exists_classify source
  · intro u hu cs hcs hcs' n m
    have hchildren : n.children = m.children :=
      (ht.children_toNode source hcs).trans (hu.children_toNode source hcs').symm
    have harguments : n.arguments = m.arguments := by
      rw [Node.arguments, hchildren, Node.arguments]
    refine ⟨hchildren, harguments, fun label => ⟨?_, ?_⟩, ?_⟩
    · rw [Node.hasArgument, harguments, Node.hasArgument]
    · rw [Node.argument, harguments, Node.argument]
    · rw [Node.closureArguments, hchildren, Node.closureArguments]

/-- The tree of `f(a: b) { }`; what stands after the callee is made of the argument with its
brackets and of the closure. -/
def callOfTwo (suffixes : List ParseTree → ParseTree → List ParseTree) : ParseTree :=
  let node (kind : String) (named : Bool) (start stop : Nat) (fields : List (String × Nat))
      (children : List ParseTree) : ParseTree :=
    ⟨kind, named, false, false, false, start, stop, 0, start, fields, children⟩
  let token (kind : String) (start : Nat) : ParseTree := node kind false start (start + 1) [] []
  let name (start : Nat) : ParseTree := node "simple_identifier" true start (start + 1) [] []
  let argument : ParseTree :=
    node "value_argument" true 2 6 [("name", 0), ("value", 2)] [name 2, token ":" 3, name 5]
  let closure : ParseTree :=
    node "lambda_literal" true 8 11 [] [token "\x7b" 8, token "\x7d" 10]
  let bracketed : List ParseTree := [token "(" 1, argument, token ")" 6]
  node "call_expression" true 0 11 [] (name 0 :: suffixes bracketed closure)

def wrapper (kind : String) (start stop : Nat) (children : List ParseTree) : ParseTree :=
  ⟨kind, true, false, false, false, start, stop, 0, start, [], children⟩

-- One suffix around both, and two suffixes with a further one inside the first.
theorem toNode_call_flattens_twoSuffixes :
    let source := "f(a: b) \x7b \x7d".toUTF8
    let t := callOfTwo fun arguments closure =>
      [wrapper "call_suffix" 1 11 [wrapper "value_arguments" 1 7 arguments, closure]]
    let u := callOfTwo fun arguments closure =>
      [wrapper "call_suffix" 1 7 [wrapper "constructor_suffix" 1 7
        [wrapper "value_arguments" 1 7 arguments]], wrapper "call_suffix" 8 11 [closure]]
    t.IsPlainCall ∧ u.IsPlainCall ∧ (∃ cs, t.Flattens cs ∧ u.Flattens cs ∧
      cs.map kind = ["simple_identifier", "value_argument", "lambda_literal"] ∧
      (t.toNode source).children = cs.map (toNode source)) ∧
    (t.toNode source).hasArgument "a" ∧
    (u.toNode source).children = (t.toNode source).children ∧
    (u.toNode source).hasArgument "a" ∧
    (u.toNode source).closureArguments = (t.toNode source).closureArguments := by
  intro source t u
  have ht : t.IsPlainCall := ⟨.inl rfl, by decide⟩
  have hu : u.IsPlainCall := ⟨.inl rfl, by decide⟩
  have hcs : t.Flattens ((spliceAll t.children).filter isStructural) := t.flattens_spliceAll
  have hcs' : u.Flattens ((spliceAll t.children).filter isStructural) := u.flattens_spliceAll
  have hargument : (t.toNode source).hasArgument "a" := by decide +kernel
  obtain ⟨-, -, hchildren, hsame⟩ := toNode_call_flattens source t ht
  obtain ⟨hsameChildren, -, hlabels, hclosures⟩ := hsame u hu _ hcs hcs'
  exact ⟨ht, hu, ⟨_, hcs, hcs', rfl, hchildren _ hcs⟩, hargument, hsameChildren.symm,
    (hlabels "a").1 ▸ hargument, hclosures.symm⟩

end ParseTree

end ConcurrencyLint
