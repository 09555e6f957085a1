import ConcurrencyLint.Json.Decoding
import ConcurrencyLint.ParseTree.Basic

/-!
# Listings of parse trees

A listing names the nodes of a tree in pre-order, each with the number of its children. As JSON an
entry is an array: kind, flags, first byte, end, row, column, number of children, and after these
the fields of the node if it has any.
-/

namespace ConcurrencyLint

/-- A node without its children, and their number. -/
structure ListingEntry where
  node : ParseTree
  childCount : Nat

/-- The flags of a node, added up. -/
structure NodeFlags where
  isNamed : Bool
  isError : Bool
  isMissing : Bool
  hasError : Bool

def NodeFlags.ofNat (bits : Nat) : NodeFlags where
  isNamed := bits.testBit 0
  isError := bits.testBit 1
  isMissing := bits.testBit 2
  hasError := bits.testBit 3

namespace ListingEntry

/-- Puts a node on top of the trees that follow it, of which it takes its children. -/
def graft (e : ListingEntry) (trees : List ParseTree) : List ParseTree :=
  { e.node with children := trees.take e.childCount } :: trees.drop e.childCount

/-- An entry from its parts. -/
def ofParts (kind : String) (flags start stop row column childCount : Nat)
    (fields : List (String × Nat)) : ListingEntry :=
  let f := NodeFlags.ofNat flags
  { node := {
      kind := kind
      isNamed := f.isNamed, isError := f.isError, isMissing := f.isMissing, hasError := f.hasError
      start := start
      stop := stop
      row := row
      column := column
      fields := fields
      children := [] }
    childCount := childCount }

/-- The fields of a node: an object from names to the indices of children. -/
def fieldsOfJson? : JsonValue → Option (List (String × Nat))
  | .object members => members.mapM fun (name, index) => do return (← name, ← index.asCount?)
  | _ => none

def ofJson? : JsonValue → Option ListingEntry
  | .array (kind :: numbers) => do
    let kind ← kind.asString?
    match numbers with
    | [flags, start, stop, row, column, count] =>
      return ofParts kind (← flags.asCount?) (← start.asCount?) (← stop.asCount?)
        (← row.asCount?) (← column.asCount?) (← count.asCount?) []
    | [flags, start, stop, row, column, count, fields] =>
      return ofParts kind (← flags.asCount?) (← start.asCount?) (← stop.asCount?)
        (← row.asCount?) (← column.asCount?) (← count.asCount?) (← fieldsOfJson? fields)
    | _ => none
  | _ => none

end ListingEntry

namespace ParseTree

/-- The tree of a listing, built from its end. -/
def ofListing? (entries : List ListingEntry) : Option ParseTree :=
  match entries.foldr ListingEntry.graft [] with
  | [t] => some t
  | _ => none

def ofJson? (v : JsonValue) : Option ParseTree :=
  (v.asArray? ListingEntry.ofJson?).bind ofListing?

/-- Trees by the text that they are the trees of: an array of objects with `text` and `tree`. -/
def tableOfJson? (v : JsonValue) : Option (List (String × ParseTree)) :=
  v.asArray? fun entry => do
    match ← entry.fields ["text", "tree"] with
    | [some text, some tree] => return (← text.asString?, ← ofJson? tree)
    | _ => none

end ParseTree

end ConcurrencyLint
