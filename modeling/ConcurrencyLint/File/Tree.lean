import ConcurrencyLint.Text.Split

/-!
# Files and directories

A file system as a tree, with the rules by which a path names a file in it.
-/

namespace ConcurrencyLint

/-- Why a file cannot be reached or read. -/
inductive FileError where
  | notFound
  | notADirectory
  | isADirectory
  | nameTooLong
  /-- The path holds a null character. -/
  | nullInPath
  /-- The content is not text, where text is asked for. -/
  | notText
  deriving DecidableEq, Repr

def FileError.message : FileError → String
  | .notFound => "No such file or directory (os error 2)"
  | .notADirectory => "Not a directory (os error 20)"
  | .isADirectory => "Is a directory (os error 21)"
  | .nameTooLong => "File name too long (os error 36)"
  | .nullInPath => "file name contained an unexpected NUL byte"
  | .notText => "stream did not contain valid UTF-8"

/-- A file with its bytes, or a directory with its entries. -/
inductive FileTree where
  | file (content : ByteArray)
  | directory (entries : List (String × FileTree))
  deriving Inhabited

namespace FileTree

def isFile : FileTree → Bool
  | .file _ => true
  | .directory _ => false

def entries : FileTree → List (String × FileTree)
  | .file _ => []
  | .directory entries => entries

/-- The file with the given name in a directory. -/
def file? (t : FileTree) (name : String) : Option ByteArray :=
  match t.entries.lookup name with
  | some (.file content) => some content
  | _ => none

/-- The tree at a list of names below this one. -/
def descend : List String → FileTree → Option FileTree
  | [], t => some t
  | name :: names, t => (t.entries.lookup name).bind (descend names)

/-- Puts a tree at a list of names, making directories on the way. A file on the way gives way. -/
def insert (t : FileTree) (names : List String) (new : FileTree) : FileTree :=
  match names with
  | [] => new
  | name :: names =>
    let below := insert ((t.entries.lookup name).getD (.directory [])) names new
    if t.entries.any (·.1 == name) then
      .directory (t.entries.map fun e => if e.1 == name then (name, below) else e)
    else .directory (t.entries ++ [(name, below)])

end FileTree

/-- All files, and the places that paths and settings depend on. -/
structure FileSystem where
  root : FileTree
  /-- The directory that relative paths start from. -/
  workingDirectory : List String
  /-- The path of the user's home directory. -/
  home : Option String := none
  /-- The path of the directory for the settings of the user's programs, where it is not `.config`
  in the home directory. -/
  settings : Option String := none

/-- A path as the system reads it: where it starts, its pieces, whether it must be a directory. -/
structure Path where
  isAbsolute : Bool
  pieces : List String
  namesDirectory : Bool

namespace Path

/-- Splits a path at its separators; repeated ones count once. -/
def parse (path : String) : Path :=
  let cs := path.toList
  { isAbsolute := cs.head? == some '/'
    pieces := ((Text.splitAt '/' cs).filter (!·.isEmpty)).map String.ofList
    namesDirectory := cs.getLast? == some '/' }

/-- A path followed from another one. An absolute path stays as it is. -/
def join (path name : String) : String :=
  if path.isEmpty || name.toList.head? == some '/' then name
  else if path.toList.getLast? == some '/' then path ++ name
  else path ++ "/" ++ name

/-- Drops separators and pieces `.` from the end of a path that is given in reverse. What the path
starts with stays. -/
def trimReversed : List Char → List Char
  | ['/'] => ['/']
  | '/' :: cs => trimReversed cs
  | '.' :: '/' :: cs => trimReversed ('/' :: cs)
  | cs => cs
termination_by cs => cs.length

/-- The path without its last piece; empty when there is only one. -/
def parent (path : String) : String :=
  let trimmed := trimReversed path.toList.reverse
  String.ofList (trimReversed (trimmed.dropWhile (· != '/'))).reverse

/-- The extension of a file name: what follows its last dot, unless that dot comes first. -/
def extension? (name : String) : Option String :=
  let reversed := name.toList.reverse
  match Text.cutAt '.' reversed with
  | some (last, _ :: _) => some (String.ofList last.reverse)
  | _ => none

/-- The absolute path of a place, given by its names from the root. -/
def ofNames (names : List String) : String := "/" ++ Text.joinWith "/" names

/-- The path comes down to a name: further pieces are `.`. -/
def isName (name path : String) : Bool :=
  let p := parse path
  !p.isAbsolute && p.pieces.head? == some name && p.pieces.tail.all (· == ".")

/-- The path leads nowhere else than where it starts. -/
def staysHere (path : String) : Bool := isName "." path

/-- Takes a text off the front of a path, if the path starts with it. -/
def dropFront (front path : String) : String :=
  match front.toList.isPrefixOf? path.toList with
  | some rest => String.ofList rest
  | none => path

/-- The path without one `./` at its front. -/
def dropDot (path : String) : String := dropFront "./" path

/-- What the text of a path says below a directory with the given text. A path that does not start
with the text of the directory stays as it is. -/
def textBelow (directory path : String) : String :=
  if directory.toList.isPrefixOf path.toList then dropFront "/" (dropFront directory path) else path

/-- The longest name of one directory entry, in bytes. -/
def maxNameLength : Nat := 255

/-- The longest path, in bytes. -/
def maxLength : Nat := 4095

end Path

namespace FileSystem

/-- Follows one piece of a path from a directory: the names of where it leads. -/
def follow (fs : FileSystem) (here : List String) (piece : String) :
    Except FileError (List String) :=
  match fs.root.descend here with
  | none => .error .notFound
  | some (.file _) => .error .notADirectory
  | some (.directory entries) =>
    if piece = "." then .ok here
    else if piece = ".." then .ok here.dropLast
    else if Path.maxNameLength < piece.utf8ByteSize then .error .nameTooLong
    else if entries.any (·.1 == piece) then .ok (here ++ [piece])
    else .error .notFound

/-- The names, from the root, of what a path leads to. -/
def locate (fs : FileSystem) (path : String) : Except FileError (List String) := do
  if path.toList.contains '\x00' then throw .nullInPath
  if path.isEmpty then throw .notFound
  if Path.maxLength < path.utf8ByteSize then throw .nameTooLong
  let p := Path.parse path
  let start := if p.isAbsolute then [] else fs.workingDirectory
  let place ← p.pieces.foldlM (follow fs) start
  if p.namesDirectory then follow fs place "." else return place

/-- What a path leads to. -/
def lookup (fs : FileSystem) (path : String) : Except FileError FileTree := do
  match fs.root.descend (← fs.locate path) with
  | some t => return t
  | none => throw .notFound

def isDirectory (fs : FileSystem) (path : String) : Bool :=
  match fs.lookup path with
  | .ok t => !t.isFile
  | .error _ => false

def isFile (fs : FileSystem) (path : String) : Bool :=
  match fs.lookup path with
  | .ok t => t.isFile
  | .error _ => false

def exists? (fs : FileSystem) (path : String) : Bool := (fs.lookup path).isOk

/-- The bytes of a file. -/
def read (fs : FileSystem) (path : String) : Except FileError ByteArray := do
  match ← fs.lookup path with
  | .file content => return content
  | .directory _ => throw .isADirectory

/-- The bytes of a file, if there is one. -/
def file? (fs : FileSystem) (path : String) : Option ByteArray := (fs.read path).toOption

/-- The text of a file. -/
def readText (fs : FileSystem) (path : String) : Except FileError String := do
  match String.fromUTF8? (← fs.read path) with
  | some text => return text
  | none => throw .notText

/-- Writes a file in the working directory. -/
def writeHere (fs : FileSystem) (name text : String) : FileSystem :=
  { fs with root := fs.root.insert (fs.workingDirectory ++ [name]) (.file text.toUTF8) }

end FileSystem

end ConcurrencyLint
