import ConcurrencyLint.ParseTree.Lowering
import Mathlib.Logic.Relation

/-!
# The lowering as a recursion

The stack of half-built nodes lowers a tree as the recursion `ParseTree.lower` does. At every moment
the stack is a path that leads from the root down to the node being built, and every frame on it
holds the lowered nodes of all that comes before the path.
-/

namespace ConcurrencyLint.ParseTree

variable {source : ByteArray} {root t c : ParseTree} {f : Frame} {seen : List ParseTree}
  {frames frames' : List Frame}

theorem lower_eq (source : ByteArray) (t : ParseTree) : lower source t =
    ⟨t.classify source, t.span,
      (t.structuralChildren (t.classify source)).map (lower source)⟩ := by
  rw [lower]
  simp

/-- The stack comes from one state to the other in any number of steps. -/
def Reaches (source : ByteArray) (root : ParseTree) : List Frame → List Frame → Prop :=
  Relation.ReflTransGen fun frames frames' => step source root frames = .working frames'

theorem exists_reaches_finished (source : ByteArray) (root : ParseTree) (frames : List Frame) :
    ∃ last, Reaches source root frames last ∧
      step source root last = .finished (build source root frames) := by
  fun_induction build source root frames with
  | case1 frames tree h => exact ⟨frames, .refl, h⟩
  | case2 frames next h ih =>
      obtain ⟨last, hr, hl⟩ := ih
      exact ⟨last, .head h hr, hl⟩

/-! ## The path to the node being built -/

/-- The frame is at work on the tree `t`, whose constituents are `seen` and then `rest`: it holds
the lowered nodes of `seen`. -/
structure Frame.Builds (source : ByteArray) (f : Frame) (t : ParseTree)
    (seen rest : List ParseTree) : Prop where
  kind : f.kind = t.classify source
  span : f.span = t.span
  constituents : t.constituents (t.classify source) = seen ++ rest
  built : f.built.reverse = (seen.filter isStructural).map (lower source)

namespace Frame.Builds

theorem ofTree (source : ByteArray) (t : ParseTree) :
    (Frame.ofTree source t).Builds source t [] (Frame.ofTree source t).pending :=
  ⟨rfl, rfl, rfl, rfl⟩

theorem skip {rest : List ParseTree} (h : f.Builds source t seen (c :: rest))
    (hc : ¬c.isStructural) : f.Builds source t (seen ++ [c]) rest where
  kind := h.kind
  span := h.span
  constituents := by rw [h.constituents, List.append_cons]
  built := by
    rw [h.built, List.filter_append, List.filter_cons_of_neg hc]
    simp

theorem add {rest : List ParseTree} (h : f.Builds source t seen (c :: rest))
    (hc : c.isStructural) : (f.add (lower source c)).Builds source t (seen ++ [c]) rest where
  kind := h.kind
  span := h.span
  constituents := by rw [h.constituents, List.append_cons]
  built := by
    rw [Frame.add, List.reverse_cons, h.built, List.filter_append, List.filter_cons_of_pos hc]
    simp

/-- With no constituent left, the node is the lowered tree. -/
theorem node_eq (h : f.Builds source t seen []) : f.node = lower source t := by
  have hall := h.constituents
  rw [List.append_nil] at hall
  rw [lower_eq, structuralChildren, hall, Frame.node, h.kind, h.span, h.built]

end Frame.Builds

/-- The frames around the node of a tree lead down to it from the root: each is at work on a tree of
which the next on the path is a constituent that gets a node, and has built all before it. -/
inductive Path (source : ByteArray) (root : ParseTree) : ParseTree → List Frame → Prop
  | root : Path source root root []
  | child {t c : ParseTree} {f : Frame} {below : List Frame} {seen : List ParseTree} :
      Path source root t below → f.Builds source t seen (c :: f.pending) → c.isStructural →
      Path source root c (f :: below)

/-- The innermost frame is at work on a tree, and those around it are the path to this tree. -/
structure OnPath (source : ByteArray) (root : ParseTree) (frames : List Frame) : Prop where
  path : ∃ t top below seen, frames = top :: below ∧ Path source root t below ∧
    top.Builds source t seen top.pending

namespace OnPath

theorem start (source : ByteArray) (root : ParseTree) :
    OnPath source root [.ofTree source root] :=
  ⟨root, _, [], [], rfl, .root, .ofTree source root⟩

theorem ne_nil (h : OnPath source root frames) : frames ≠ [] := by
  obtain ⟨t, top, below, seen, rfl, _⟩ := h.path
  exact List.cons_ne_nil top below

theorem step (h : OnPath source root frames)
    (hs : ParseTree.step source root frames = .working frames') : OnPath source root frames' := by
  obtain ⟨t, ⟨kind, span, pending, built⟩, below, seen, rfl, hpath, hf⟩ := h.path
  cases pending with
  | cons c pending =>
      simp only [ParseTree.step] at hs
      split at hs
      · rename_i hc
        cases hs
        -- The frame stays, with the child taken off; the path goes on through this child.
        have hf' : Frame.Builds source ⟨kind, span, pending, built⟩ t seen (c :: pending) :=
          ⟨hf.kind, hf.span, hf.constituents, hf.built⟩
        exact ⟨c, _, _, [], rfl, .child hpath hf' hc, .ofTree source c⟩
      · rename_i hc
        cases hs
        have hf' := hf.skip hc
        exact ⟨t, _, below, seen ++ [c], rfl, hpath,
          ⟨hf'.kind, hf'.span, hf'.constituents, hf'.built⟩⟩
  | nil =>
      cases hpath with
      | root => simp [ParseTree.step] at hs
      | @child t' _ parent below seen' hpath hparent hc =>
          simp only [ParseTree.step, hf.node_eq, Progress.working.injEq] at hs
          subst hs
          exact ⟨t', _, below, seen' ++ [t], rfl, hpath, hparent.add hc⟩

theorem of_reaches (h : Reaches source root [.ofTree source root] frames) :
    OnPath source root frames := by
  induction h with
  | refl => exact start source root
  | tail _ hs ih => exact ih.step hs

/-- Only the root's own frame ends the work, and it does so with the lowered root. -/
theorem finished {tree : Node} (h : OnPath source root frames)
    (hs : ParseTree.step source root frames = .finished tree) : tree = lower source root := by
  obtain ⟨t, ⟨kind, span, pending, built⟩, below, seen, rfl, hpath, hf⟩ := h.path
  cases pending with
  | cons c pending =>
      simp only [ParseTree.step] at hs
      split at hs <;> cases hs
  | nil =>
      cases hpath with
      | root =>
          simp only [ParseTree.step, hf.node_eq, Progress.finished.injEq] at hs
          exact hs.symm
      | child hpath hparent hc => simp [ParseTree.step] at hs

end OnPath

/-! ## The lowered tree -/

theorem toNode_eq (source : ByteArray) (root : ParseTree) :
    toNode source root = lower source root := by
  obtain ⟨last, hr, hl⟩ := exists_reaches_finished source root [.ofTree source root]
  exact (OnPath.of_reaches hr).finished hl

/-- Lowering with the stack comes to an end and gives the tree of the recursion. On the way the
stack is never empty, so nothing ever takes the place of the tree, and every half-built node stands
on the path to the one being built, with the lowered nodes of what comes before that path. -/
theorem toNode_eq_lower (source : ByteArray) (root : ParseTree) :
    (∀ t, lower source t = ⟨t.classify source, t.span,
      ((t.constituents (t.classify source)).filter isStructural).map (lower source)⟩) ∧
    toNode source root = lower source root ∧
    (∃ last, Reaches source root [.ofTree source root] last ∧
      step source root last = .finished (lower source root)) ∧
    ∀ frames, Reaches source root [.ofTree source root] frames →
      frames ≠ [] ∧ OnPath source root frames := by
  refine ⟨lower_eq source, toNode_eq source root, ?_, ?_⟩
  · obtain ⟨last, hr, hl⟩ := exists_reaches_finished source root [.ofTree source root]
    exact ⟨last, hr, (OnPath.of_reaches hr).finished hl ▸ hl⟩
  · intro frames hr
    have hon := OnPath.of_reaches hr
    exact ⟨hon.ne_nil, hon⟩

/-- The tree of `f(x)`, with its argument inside two wrappers. -/
def plainCall : ParseTree :=
  let name (start : Nat) : ParseTree :=
    ⟨"simple_identifier", true, false, false, false, start, start + 1, 0, start, [], []⟩
  let token (kind : String) (start : Nat) : ParseTree :=
    ⟨kind, false, false, false, false, start, start + 1, 0, start, [], []⟩
  let argument : ParseTree :=
    ⟨"value_argument", true, false, false, false, 2, 3, 0, 2, [("value", 0)], [name 2]⟩
  let arguments : ParseTree :=
    ⟨"value_arguments", true, false, false, false, 1, 4, 0, 1, [], [token "(" 1, argument,
      token ")" 3]⟩
  ⟨"call_expression", true, false, false, false, 0, 4, 0, 0, [], [name 0,
    ⟨"call_suffix", true, false, false, false, 1, 4, 0, 1, [], [arguments]⟩]⟩

theorem toNode_eq_lower_plainCall :
    let source := "f(x)".toUTF8
    ∃ frames, Reaches source plainCall [.ofTree source plainCall] frames ∧ frames.length = 3 ∧
      frames ≠ [] ∧ OnPath source plainCall frames := by
  intro source
  -- Name, back to the call, token, argument, and the name inside the argument.
  have hr : ∃ frames, Reaches source plainCall [.ofTree source plainCall] frames ∧
      frames.length = 3 :=
    ⟨_, .tail (.tail (.tail (.tail (.tail .refl rfl) rfl) rfl) rfl) rfl, rfl⟩
  obtain ⟨frames, hframes, hlength⟩ := hr
  have hon := (toNode_eq_lower source plainCall).2.2.2 frames hframes
  exact ⟨frames, hframes, hlength, hon⟩

end ConcurrencyLint.ParseTree
