import ConcurrencyLint.File.UserIgnore
import ConcurrencyLint.Pattern.Ignore

/-!
# Walking directories

A walk lists everything below a directory except what ignore files leave out. The ignore files of
the directories above the walk's root count as well, up to the root of the file system; those of a
deeper directory come before those of a higher one. The user's own ignore file comes last.

Patterns are matched against the text of paths. The text of a path starts with the path of the
walk's root as it was given, and only one `./` at its front is passed over.
-/

namespace ConcurrencyLint

/-- Something a walk comes by: its path components below the root of the walk. -/
structure WalkEntry where
  components : List String
  isFile : Bool
  deriving DecidableEq, Repr

/-! ## Lists of excluded files -/

/-- The first line of a file, if it is text. -/
def firstLine? (content : ByteArray) : Option String :=
  (Ignore.textLines content).head?.map String.ofList

/-- The directory that a file in place of the directory `.git` names. -/
def linkedGitDirectory? (content : ByteArray) : Option String := do
  let line ← firstLine? content
  let path ← "gitdir: ".toList.isPrefixOf? line.toList
  return String.ofList path

/-- The directory that linked working trees share, from the directory of one of them and the file
there that names it. -/
def sharedGitDirectory? (directory : String) (content : ByteArray) : Option String := do
  let line ← firstLine? content
  return if line.toList.head? = some '.' then Path.join directory line else line

/-- The path of the list of excluded files of a linked working tree. -/
def FileSystem.linkedExcludePath? (fs : FileSystem) (content : ByteArray) : Option String := do
  let directory ← linkedGitDirectory? content
  let shared ← sharedGitDirectory? directory (← fs.file? (Path.join directory "commondir"))
  return Path.join shared "info/exclude"

/-- The list of excluded files that a repository keeps for itself, from its top directory. -/
def FileSystem.gitExclude? (fs : FileSystem) (top : FileTree) : Option ByteArray :=
  match top.file? ".git" with
  | some content => (fs.linkedExcludePath? content).bind fs.file?
  | none => (top.descend [".git", "info"]).bind fun d => d.file? "exclude"

/-! ## Layers of ignore files -/

/-- The ignore files that belong to one directory. -/
structure IgnoreLayer where
  /-- The text of the directory's path. -/
  directory : String
  ignoreFile : List Ignore.Line := []
  gitignore : List Ignore.Line := []
  gitExclude : List Ignore.Line := []

namespace IgnoreLayer

def linesOf (content : Option ByteArray) : List Ignore.Line := (content.map Ignore.parse).getD []

/-- The ignore files of a directory; `.gitignore` only where it is respected. -/
def ofDirectory (fs : FileSystem) (respectGitignore : Bool) (path : String) (t : FileTree) :
    IgnoreLayer where
  directory := Path.dropDot path
  ignoreFile := linesOf (t.file? ".ignore")
  gitignore := if respectGitignore then linesOf (t.file? ".gitignore") else []
  gitExclude := linesOf (fs.gitExclude? t)

/-- The text of a path that the patterns of a layer are matched against: the text below the layer's
directory. Names without a separator, and all paths if the directory is `.`, stay as they are. -/
def textOf (layer : IgnoreLayer) (path : String) : String :=
  let path := Path.dropDot path
  if Path.staysHere layer.directory || !path.toList.contains '/' then path
  else Path.textBelow layer.directory path

/-- What one kind of ignore file says about a path: the first of the layers, the deepest one first,
that says anything. -/
def firstVerdict (layers : List IgnoreLayer) (lines : IgnoreLayer → List Ignore.Line)
    (path : String) (isDirectory : Bool) : Ignore.Verdict :=
  layers.foldl (fun found layer =>
    found.orElse
      (Ignore.verdict (lines layer) (layer.textOf path).toUTF8.toList isDirectory)) .silent

end IgnoreLayer

/-! ## Walks -/

/-- What stays the same during a walk. -/
structure DirectoryWalk where
  files : FileSystem
  respectGitignore : Bool
  /-- The path of the root of the walk, as it was given. -/
  root : String
  /-- The absolute path of the root of the walk. -/
  absoluteRoot : String
  /-- The ignore files above the root of the walk, the deepest first. -/
  above : List IgnoreLayer
  /-- The user's own ignore file, as the list of excluded files of the working directory. -/
  user : IgnoreLayer

namespace DirectoryWalk

/-- The ignore files above a place, the deepest first. -/
def layersAbove (files : FileSystem) (respectGitignore : Bool) (place : List String) :
    List IgnoreLayer :=
  (List.range place.length).reverse.map fun depth =>
    let names := place.take depth
    IgnoreLayer.ofDirectory files respectGitignore (Path.ofNames names)
      ((files.root.descend names).getD (.directory []))

/-- A walk from the given path, which leads to the given place. -/
def start (files : FileSystem) (respectGitignore : Bool) (path : String) (place : List String) :
    DirectoryWalk where
  files := files
  respectGitignore := respectGitignore
  root := path
  absoluteRoot := Path.ofNames place
  above := layersAbove files respectGitignore place
  user := {
    directory := Path.ofNames files.workingDirectory
    gitExclude := IgnoreLayer.linesOf (files.userIgnorePath?.bind files.file?) }

/-- The text of a path that the ignore files above the root of the walk are asked about. -/
def absoluteText (w : DirectoryWalk) (path : String) : String :=
  Path.join w.absoluteRoot
    (if Path.staysHere w.root then path else Path.textBelow (Path.dropDot w.root) path)

/-- The path is left out, by the ignore files of the directories that it lies in, the deepest first,
or by those above the walk. `.ignore` files come before `.gitignore` files, these before the lists
that repositories keep for themselves, and these before the user's ignore file. -/
def leavesOut (w : DirectoryWalk) (inside : List IgnoreLayer) (path : String)
    (isDirectory : Bool) : Bool :=
  let path := Path.dropDot path
  let verdict (lines : IgnoreLayer → List Ignore.Line) : Ignore.Verdict :=
    (IgnoreLayer.firstVerdict inside lines path isDirectory).orElse
      (IgnoreLayer.firstVerdict w.above lines (w.absoluteText path) isDirectory)
  let found := (verdict (·.ignoreFile)).orElse
    ((verdict (·.gitignore)).orElse (verdict (·.gitExclude)))
  found.orElse (IgnoreLayer.firstVerdict [w.user] (·.gitExclude) path isDirectory) == .ignored

end DirectoryWalk

mutual

/-- Everything below a directory with the given path; `components` lead to it from the root of the
walk, and `inside` are the ignore files on the way. -/
def FileTree.walk (w : DirectoryWalk) (inside : List IgnoreLayer) (path : String)
    (components : List String) : FileTree → List WalkEntry
  | .file _ => []
  | .directory entries =>
    let own := IgnoreLayer.ofDirectory w.files w.respectGitignore path (.directory entries)
    FileTree.walkEntries w (own :: inside) path components entries

/-- The entries of a directory with what is below them. -/
def FileTree.walkEntries (w : DirectoryWalk) (inside : List IgnoreLayer) (path : String)
    (components : List String) : List (String × FileTree) → List WalkEntry
  | [] => []
  | (name, t) :: rest =>
    let here := Path.join path name
    let found :=
      if w.leavesOut inside here !t.isFile then []
      else
        ⟨components ++ [name], t.isFile⟩ :: FileTree.walk w inside here (components ++ [name]) t
    found ++ FileTree.walkEntries w inside path components rest

end

/-- Everything below the directory that a path names. A single hyphen stands for standard input,
which holds no files. -/
def FileSystem.walk (fs : FileSystem) (respectGitignore : Bool) (path : String) :
    Except FileError (List WalkEntry) := do
  if Path.isName "-" path then return []
  let place ← fs.locate path
  match fs.root.descend place with
  | some t => return t.walk (.start fs respectGitignore path place) [] path []
  | none => throw .notFound

end ConcurrencyLint
