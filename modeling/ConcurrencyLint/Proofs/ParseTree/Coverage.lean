import ConcurrencyLint.Proofs.ParseTree.Places

/-!
# What lowering leaves out

Every node of a lowered tree comes from a place of its own in the parse tree, in the order of the
places. A construct that has no node is a wrapper, or the way to it leads out of what is lowered.
-/

namespace ConcurrencyLint.ParseTree

variable {source : ByteArray} {root t c d : ParseTree} {p a : Address} {ps : List Address}
  {cs : List ParseTree}

/-- The way to an address leads out of what is lowered: below the root it meets a comment or a bare
token, or somewhere it goes on to where a sound node is not looked into. -/
inductive Hidden (source : ByteArray) (root : ParseTree) : Address → Prop
  | comment {p q : Address} {c : ParseTree} : root.at? p = some c → p ≠ [] → c.isComment →
      Hidden source root (p ++ q)
  | token {p q : Address} {c : ParseTree} : root.at? p = some c → p ≠ [] → ¬c.isNamed →
      ¬c.isMissing → Hidden source root (p ++ q)
  | omitted {p q : Address} {t : ParseTree} : root.at? p = some t → ¬t.isFault →
      t.Omits source q → Hidden source root (p ++ q)

theorem at?_append_of_at? (h : t.at? p = some c) (a : Address) : t.at? (p ++ a) = c.at? a := by
  rw [at?_append, h, Option.bind_some]

theorem Hidden.below (h : Hidden source c a) (hc : t.at? p = some c) :
    Hidden source t (p ++ a) := by
  cases h with
  | comment hat hne hcomment =>
      rw [← List.append_assoc]
      exact .comment (at?_append_of_at? hc _ ▸ hat) (List.append_ne_nil_of_right_ne_nil p hne)
        hcomment
  | token hat hne hnamed hmissing =>
      rw [← List.append_assoc]
      exact .token (at?_append_of_at? hc _ ▸ hat) (List.append_ne_nil_of_right_ne_nil p hne) hnamed
        hmissing
  | omitted hat hsound homits =>
      rw [← List.append_assoc]
      exact .omitted (at?_append_of_at? hc _ ▸ hat) hsound homits

theorem hidden_of_not_isStructural (hat : t.at? p = some c) (hp : p ≠ []) (h : ¬c.isStructural)
    (a : Address) : Hidden source t (p ++ a) := by
  by_cases hcomment : c.isComment
  · exact .comment hat hp hcomment
  · have hbare : ¬c.isNamed ∧ ¬c.isMissing := by simpa [isStructural, hcomment] using h
    exact .token hat hp hbare.1 hbare.2

/-- The lowered nodes of a tree come from the given addresses, in order, and a construct at any
other address is hidden. -/
structure Origins (source : ByteArray) (t : ParseTree) (as : List Address) : Prop where
  ordered : as.Pairwise (· < ·)
  nodes : (lower source t).preorder.map some = as.map fun a => (t.at? a).map (lower source)
  complete : ∀ a d, t.at? a = some d → d.isStructural → ¬d.isTransparent →
    a ∈ as ∨ Hidden source t a

/-- The same for the trees at the given places. -/
structure OriginsBelow (source : ByteArray) (t : ParseTree) (ps : List Address)
    (cs : List ParseTree) (as : List Address) : Prop where
  ordered : as.Pairwise (· < ·)
  below : ∀ a ∈ as, ∃ p ∈ ps, p <+: a
  nodes : (Node.preorderAll ((cs.filter isStructural).map (lower source))).map some =
    as.map fun a => (t.at? a).map (lower source)
  complete : ∀ p ∈ ps, ∀ a d, t.at? (p ++ a) = some d → d.isStructural → ¬d.isTransparent →
    p ++ a ∈ as ∨ Hidden source t (p ++ a)

namespace OriginsBelow

theorem nil (source : ByteArray) (t : ParseTree) : OriginsBelow source t [] [] [] where
  ordered := .nil
  below := by simp
  nodes := rfl
  complete := by simp

theorem skip {as : List Address} (h : OriginsBelow source t ps cs as) (hat : t.at? p = some c)
    (hp : p ≠ []) (hc : ¬c.isStructural) : OriginsBelow source t (p :: ps) (c :: cs) as where
  ordered := h.ordered
  below a ha := by
    obtain ⟨q, hq, hqa⟩ := h.below a ha
    exact ⟨q, List.mem_cons_of_mem _ hq, hqa⟩
  nodes := by rw [List.filter_cons_of_neg hc]; exact h.nodes
  complete q hq a d hd hs ht := by
    rcases List.mem_cons.mp hq with rfl | hq
    · exact .inr (hidden_of_not_isStructural hat hp hc a)
    · exact h.complete q hq a d hd hs ht

theorem cons {as bs : List Address} (h : OriginsBelow source t ps cs as)
    (hbs : Origins source c bs) (hat : t.at? p = some c)
    (hbefore : ∀ q ∈ ps, Address.Precedes p q) (hc : c.isStructural) :
    OriginsBelow source t (p :: ps) (c :: cs) (bs.map (p ++ ·) ++ as) where
  ordered := by
    rw [List.pairwise_append, List.pairwise_map]
    refine ⟨hbs.ordered.imp fun h => List.append_left_lt h, h.ordered, ?_⟩
    intro a ha b hb
    obtain ⟨a, _, rfl⟩ := List.mem_map.mp ha
    obtain ⟨q, hq, e, rfl⟩ := h.below b hb
    exact ((hbefore q hq).append a e).lt
  below a ha := by
    rcases List.mem_append.mp ha with ha | ha
    · obtain ⟨b, _, rfl⟩ := List.mem_map.mp ha
      exact ⟨p, List.mem_cons_self, List.prefix_append p b⟩
    · obtain ⟨q, hq, hqa⟩ := h.below a ha
      exact ⟨q, List.mem_cons_of_mem _ hq, hqa⟩
  nodes := by
    have hnodes : (bs.map (p ++ ·)).map (fun a => (t.at? a).map (lower source)) =
        bs.map fun b => (c.at? b).map (lower source) := by
      rw [List.map_map]
      exact List.map_congr_left fun b _ => congrArg _ (at?_append_of_at? hat b)
    rw [List.filter_cons_of_pos hc, List.map_cons, Node.preorderAll, List.map_append,
      List.map_append, hnodes, hbs.nodes, h.nodes]
  complete q hq a d hd hs ht := by
    rcases List.mem_cons.mp hq with rfl | hq
    · rw [at?_append_of_at? hat] at hd
      rcases hbs.complete a d hd hs ht with ha | ha
      · exact .inl (List.mem_append_left _ (List.mem_map_of_mem ha))
      · exact .inr (ha.below hat)
    · exact (h.complete q hq a d hd hs ht).imp_left (List.mem_append_right _)

end OriginsBelow

theorem exists_originsBelow (hps : t.Places ps cs) (hbelow : [] ∉ ps)
    (ih : ∀ c ∈ cs, c.isStructural → ∃ as, Origins source c as) :
    ∃ as, OriginsBelow source t ps cs as := by
  induction ps generalizing cs with
  | nil =>
      cases List.map_eq_nil_iff.mp hps.at_eq.symm
      exact ⟨[], .nil source t⟩
  | cons p ps hrec =>
      obtain ⟨c, cs, rfl, hc, hcs⟩ := List.map_eq_cons_iff.mp hps.at_eq.symm
      obtain ⟨hbefore, hordered⟩ := List.pairwise_cons.mp hps.ordered
      rw [List.mem_cons, not_or] at hbelow
      obtain ⟨as, has⟩ := hrec ⟨hcs.symm, hordered⟩ hbelow.2
        fun d hd => ih d (List.mem_cons_of_mem _ hd)
      by_cases hs : c.isStructural
      · obtain ⟨bs, hbs⟩ := ih c List.mem_cons_self hs
        exact ⟨_, has.cons hbs hc.symm hbefore hs⟩
      · exact ⟨as, has.skip hc.symm (Ne.symm hbelow.1) hs⟩

theorem exists_origins (source : ByteArray) (t : ParseTree) : ∃ as, Origins source t as := by
  induction t using lower.induct source with
  | case1 t ih =>
      obtain ⟨ps, hps, hbelow, hcover⟩ := exists_places_constituents source t
      obtain ⟨as, has⟩ := exists_originsBelow hps hbelow
        fun c hc hs => ih c (List.mem_filter.mpr ⟨hc, hs⟩)
      refine ⟨[] :: as, ?_, ?_, ?_⟩
      · refine List.pairwise_cons.mpr ⟨fun a ha => ?_, has.ordered⟩
        obtain ⟨p, hp, b, rfl⟩ := has.below a ha
        cases p with
        | nil => exact absurd hp hbelow
        | cons i p => exact List.nil_lt_cons i (p ++ b)
      · rw [lower_eq, Node.preorder_eq, List.map_cons, structuralChildren, has.nodes,
          List.map_cons, at?_nil, Option.map_some, lower_eq, structuralChildren]
      · intro a d hd hs ht
        by_cases ha : a = []
        · exact .inl (ha ▸ List.mem_cons_self)
        · rcases hcover a d ha hd with ⟨p, hp, b, rfl⟩ | htransparent | ⟨hsound, homits⟩
          · exact (has.complete p hp b d hd hs ht).imp_left (List.mem_cons_of_mem _)
          · exact absurd htransparent ht
          · exact .inr (.omitted (t.at?_nil) hsound homits)

/-- The addresses of a parse tree list its nodes in pre-order. The nodes of the lowered tree, in
pre-order, are the lowered nodes at certain of these addresses: each at most once, and in the same
order. A named or missing node that is no comment and no wrapper is not among them only if the way
to it is hidden. -/
theorem toNode_origins (source : ByteArray) (root : ParseTree) :
    root.addresses.map root.at? = root.preorder.map some ∧
    ∃ lowered : List Address, lowered.Sublist root.addresses ∧ lowered.Nodup ∧
      (root.toNode source).preorder.map some =
        lowered.map (fun a => (root.at? a).map (toNode source)) ∧
      ∀ a d, root.at? a = some d → d.isStructural → ¬d.isTransparent → a ∉ lowered →
        Hidden source root a := by
  obtain ⟨as, has⟩ := exists_origins source root
  have hat : ∀ a ∈ as, (root.at? a).isSome := by
    intro a ha
    have hmem := List.mem_map_of_mem (f := fun a => (root.at? a).map (lower source)) ha
    rw [← has.nodes] at hmem
    obtain ⟨n, _, hn⟩ := List.mem_map.mp hmem
    exact Option.isSome_map.symm.trans (Option.isSome_of_eq_some hn.symm)
  refine ⟨root.map_at?_addresses, as, sublist_addresses has.ordered hat,
    has.ordered.imp fun h => ne_of_lt h, ?_, ?_⟩
  · have hlower : toNode source = lower source := funext fun t => toNode_eq source t
    rw [hlower, has.nodes]
  · intro a d hd hs ht hnot
    exact (has.complete a d hd hs ht).resolve_left hnot

/-- The tree of the argument `a: b`. -/
def labelledArgument : ParseTree :=
  let name (start : Nat) : ParseTree :=
    ⟨"simple_identifier", true, false, false, false, start, start + 1, 0, start, [], []⟩
  ⟨"value_argument", true, false, false, false, 0, 4, 0, 0, [("name", 0), ("value", 2)],
    [name 0, ⟨":", false, false, false, false, 1, 2, 0, 1, [], []⟩, name 3]⟩

-- The label is named, but only the value is looked into.
theorem toNode_origins_labelledArgument :
    let source := "a: b".toUTF8
    (labelledArgument.toNode source).preorder.map Node.kind =
      [.argument (some "a"), .identifier "b"] ∧
    labelledArgument.addresses = [[], [0], [1], [2]] ∧
    ∃ label, labelledArgument.at? [0] = some label ∧ label.isStructural ∧ ¬label.isTransparent ∧
      Hidden source labelledArgument [0] := by
  intro source
  have hkinds : (labelledArgument.toNode source).preorder.map Node.kind =
      [.argument (some "a"), .identifier "b"] := by decide +kernel
  obtain ⟨-, lowered, -, -, hnodes, hhidden⟩ := toNode_origins source labelledArgument
  refine ⟨hkinds, by decide, _, rfl, by decide, by decide, hhidden [0] _ rfl (by decide)
    (by decide) fun hmem => ?_⟩
  have hlabel := List.mem_map_of_mem (f := fun a =>
    (labelledArgument.at? a).map (toNode source)) hmem
  rw [← hnodes] at hlabel
  obtain ⟨n, hn, hat⟩ := List.mem_map.mp hlabel
  have hkind := List.mem_map_of_mem (f := Node.kind) hn
  rw [hkinds, Option.some.inj hat] at hkind
  revert hkind
  decide +kernel

end ConcurrencyLint.ParseTree
