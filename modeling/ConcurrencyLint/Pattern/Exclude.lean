import ConcurrencyLint.Pattern.Glob

/-!
# Excluding files from directory walks

A file is excluded if a pattern matches its path below the walk's root. A pattern that is a plain
name once its outer wildcards are taken off also excludes everything in directories of that name.
-/

namespace ConcurrencyLint.Glob

/-- Takes out every `**/`. -/
def dropLeadingWildcards : List Char → List Char
  | '*' :: '*' :: '/' :: cs => dropLeadingWildcards cs
  | c :: cs => c :: dropLeadingWildcards cs
  | [] => []

/-- Takes out every `/**`. -/
def dropTrailingWildcards : List Char → List Char
  | '/' :: '*' :: '*' :: cs => dropTrailingWildcards cs
  | c :: cs => c :: dropTrailingWildcards cs
  | [] => []

/-- The directory name that a pattern comes down to, if it comes down to one. -/
def Pattern.directoryName? (p : Pattern) : Option String :=
  let name := dropTrailingWildcards (dropLeadingWildcards p.source.toList)
  if name.isEmpty || name.contains '*' then none else some (String.ofList name)

/-- The pattern excludes the file with the given path components below the root. -/
def Pattern.excludes (p : Pattern) (components : List String) : Bool :=
  p.isMatch (Text.joinWith "/" components)
    || p.directoryName?.any fun name => components.dropLast.contains name

/-- Some pattern excludes the file. -/
def isExcluded (patterns : List Pattern) (components : List String) : Bool :=
  patterns.any (·.excludes components)

end ConcurrencyLint.Glob
