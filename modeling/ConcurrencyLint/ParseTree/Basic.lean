import ConcurrencyLint.Node.Basic

/-!
# Concrete parse trees

The tree a Swift grammar produces for a source text: every token is a node, with the byte range it
covers and the flags of the parser's error recovery.
-/

namespace ConcurrencyLint

/-- A node of a concrete parse tree. Rows and columns count from zero, columns and positions in
bytes. -/
structure ParseTree where
  kind : String
  isNamed : Bool
  isError : Bool
  isMissing : Bool
  /-- The node or something below it was recovered from. -/
  hasError : Bool
  start : Nat
  stop : Nat
  row : Nat
  column : Nat
  /-- The index of the child that each field names. -/
  fields : List (String × Nat)
  children : List ParseTree
  deriving Inhabited

namespace ParseTree

mutual

/-- The number of nodes of a tree. -/
def size : ParseTree → Nat
  | ⟨_, _, _, _, _, _, _, _, _, _, children⟩ => sizeAll children + 1

/-- The number of nodes of a forest. -/
def sizeAll : List ParseTree → Nat
  | [] => 0
  | t :: ts => t.size + sizeAll ts

end

theorem size_eq (t : ParseTree) : t.size = sizeAll t.children + 1 := by
  cases t
  rw [size]

theorem sizeAll_append (ts us : List ParseTree) :
    sizeAll (ts ++ us) = sizeAll ts + sizeAll us := by
  induction ts with
  | nil => simp [sizeAll]
  | cons t ts ih => simp [sizeAll, ih, Nat.add_assoc]

theorem sizeAll_le_of_sublist {ts us : List ParseTree} (h : ts.Sublist us) :
    sizeAll ts ≤ sizeAll us := by
  induction h with
  | slnil => exact Nat.le_refl _
  | cons t _ ih => simp only [sizeAll]; omega
  | cons_cons t _ ih => simp only [sizeAll]; omega

theorem size_le_of_mem {t : ParseTree} {ts : List ParseTree} (h : t ∈ ts) :
    t.size ≤ sizeAll ts := by
  have := sizeAll_le_of_sublist (List.singleton_sublist.2 h)
  simpa [sizeAll] using this

/-- The place of a node, counting from one. -/
def span (t : ParseTree) : Span where
  line := t.row + 1
  column := t.column + 1
  offset := t.start
  length := t.stop - t.start

/-- The text a node covers; empty if that is not text. -/
def text (source : ByteArray) (t : ParseTree) : String :=
  (String.fromUTF8? (source.extract t.start t.stop)).getD ""

/-- The child that a field names. -/
def field (t : ParseTree) (name : String) : Option ParseTree :=
  (t.fields.lookup name).bind fun i => t.children[i]?

def namedChildren (t : ParseTree) : List ParseTree := t.children.filter isNamed

/-- The parser could not read the node, or had to invent it. -/
def isFault (t : ParseTree) : Bool := t.isError || t.isMissing

def isComment (t : ParseTree) : Bool := ["comment", "multiline_comment"].contains t.kind

/-- The node stands for a construct: it is neither a bare token nor a comment. -/
def isStructural (t : ParseTree) : Bool := (t.isNamed || t.isMissing) && !t.isComment

theorem size_le_of_field {t c : ParseTree} {name : String} (h : t.field name = some c) :
    c.size ≤ sizeAll t.children := by
  rw [field, Option.bind_eq_some_iff] at h
  obtain ⟨i, _, hi⟩ := h
  exact size_le_of_mem (List.mem_of_getElem? hi)

/-- The children with an error at or below them. -/
def faultyChildren (t : ParseTree) : List ParseTree := t.children.filter hasError

/-- The first node of a stack of pending ones, or below them, that is a fault. Branches without an
error are passed over. -/
def searchFault : List ParseTree → Option Span
  | [] => none
  | t :: pending =>
    if t.isFault then some t.span else searchFault (t.faultyChildren ++ pending)
termination_by pending => sizeAll pending
decreasing_by
  have : sizeAll t.faultyChildren ≤ sizeAll t.children :=
    sizeAll_le_of_sublist List.filter_sublist
  simp only [sizeAll_append, sizeAll, size_eq]
  omega

/-- The place of the first fault of a tree that has an error. -/
def firstError (root : ParseTree) : Option Span :=
  if root.hasError then some ((searchFault [root]).getD root.span) else none

end ParseTree

end ConcurrencyLint
