import ConcurrencyLint.Rule.Basic
import ConcurrencyLint.Text.Blank
import ConcurrencyLint.Text.Split

/-!
# Choosing rules by a list

A list names rules by name or code, separated by commas. Blanks around an item do not count, and
neither do empty items.
-/

namespace ConcurrencyLint

/-- The items of a list. -/
def selectionItems (list : String) : List String :=
  (((Text.splitAt ',' list.toList).map Text.trim).filter (!·.isEmpty)).map String.ofList

/-- The rules that some item names, in their own order. -/
def selectRules (list : String) (rules : List Rule) : List Rule :=
  rules.filter fun r => (selectionItems list).any r.isKnownAs

/-- The items that name none of the rules. -/
def unknownItems (list : String) (rules : List Rule) : List String :=
  (selectionItems list).filter fun item => !rules.any (·.isKnownAs item)

end ConcurrencyLint
