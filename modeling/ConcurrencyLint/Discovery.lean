import ConcurrencyLint.File.Walk
import ConcurrencyLint.Pattern.Exclude

/-!
# Finding source files

Of what a directory walk lists, the source files are the files with one of the parser's extensions
that no pattern excludes. They come out ordered by their path components.
-/

namespace ConcurrencyLint

/-- The order of paths by their components, each by its characters. -/
def componentsLE : List String → List String → Bool
  | [], _ => true
  | _ :: _, [] => false
  | a :: as, b :: bs => a < b || (a == b && componentsLE as bs)

/-- The entry is a file with one of the extensions. -/
def WalkEntry.hasExtension (extensions : List String) (e : WalkEntry) : Bool :=
  (e.components.getLast?.bind Path.extension?).any extensions.contains

/-- The entry is a source file to analyse. -/
def WalkEntry.isSource (extensions : List String) (excludes : List Glob.Pattern)
    (e : WalkEntry) : Bool :=
  e.isFile && e.hasExtension extensions && !Glob.isExcluded excludes e.components

/-- The source files among the entries of a walk, by their components, in order. -/
def selectSources (extensions : List String) (excludes : List Glob.Pattern)
    (entries : List WalkEntry) : List (List String) :=
  ((entries.filter (·.isSource extensions excludes)).map WalkEntry.components).mergeSort
    componentsLE

/-- The path of a file below a directory. -/
def pathBelow (directory : String) (components : List String) : String :=
  components.foldl Path.join directory

end ConcurrencyLint
