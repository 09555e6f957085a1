import ConcurrencyLint.Cli.Run
import ConcurrencyLint.ParseTree.Listing

/-!
# The program

Collects what a run looks at, runs it, and does what its outcome says. Trees come from a table of
listings, the file that `CONCURRENCY_GUARD_TREES` names.
-/

namespace ConcurrencyLint.Cli

/-- The file under a name in a directory, if it is one. -/
def fileIn (directory name : String) : IO (Option FileTree) := do
  let entry : IO.FS.DirEntry := { root := directory, fileName := name }
  try
    match (← entry.path.symlinkMetadata).type with
    | .file => return some (.file (← IO.FS.readBinFile entry.path))
    | _ => return none
  catch _ => return none

/-- What stands under a name in a directory. Links are passed over. -/
partial def treeIn (directory name : String) : IO (Option FileTree) := do
  let entry : IO.FS.DirEntry := { root := directory, fileName := name }
  try
    match (← entry.path.symlinkMetadata).type with
    | .dir =>
      let mut entries := []
      for below in ← entry.path.readDir do
        if let some tree ← treeIn entry.path.toString below.fileName then
          entries := (below.fileName, tree) :: entries
      return some (.directory entries.reverse)
    | _ => fileIn directory name
  catch _ => return none

/-- Adds what stands at a place to the files, as far as it can be found. -/
def collectBy (find : String → String → IO (Option FileTree)) (files : FileSystem)
    (names : List String) : IO FileSystem := do
  match names.getLast? with
  | none => return files
  | some name =>
    match ← find (Path.ofNames names.dropLast) name with
    | none => return files
    | some tree => return { files with root := files.root.insert names tree }

/-- Adds everything at a place. -/
def collect : FileSystem → List String → IO FileSystem := collectBy treeIn

/-- Adds the file at a place, if it is one. -/
def collectFile : FileSystem → List String → IO FileSystem := collectBy fileIn

/-- The names from the root that a path leads to. -/
def placeOf (files : FileSystem) (path : String) : List String :=
  let p := Path.parse path
  p.pieces.foldl (fun here piece =>
    if piece = "." then here else if piece = ".." then here.dropLast else here ++ [piece])
    (if p.isAbsolute then [] else files.workingDirectory)

/-- Adds the file that a path leads to. -/
def collectPath (files : FileSystem) (path : String) : IO FileSystem :=
  collectFile files (placeOf files path)

/-- Adds what a file in place of the directory `.git` leads to. -/
def collectLinked (files : FileSystem) (content : ByteArray) : IO FileSystem := do
  let mut files := files
  if let some directory := linkedGitDirectory? content then
    files ← collectPath files (Path.join directory "commondir")
  if let some path := files.linkedExcludePath? content then
    files ← collectPath files path
  return files

/-- Adds what the files in place of directories `.git` lead to, wherever they stand. -/
partial def collectAllLinked (files : FileSystem) (tree : FileTree) : IO FileSystem := do
  let mut files := files
  if let some content := tree.file? ".git" then
    files ← collectLinked files content
  for (_, below) in tree.entries do
    files ← collectAllLinked files below
  return files

/-- Adds the user's own ignore file, with the settings that name it. -/
def collectUserIgnore (files : FileSystem) : IO FileSystem := do
  let mut files := files
  for path in files.gitSettings do
    files ← collectPath files path
  match files.userIgnorePath? with
  | some path => collectPath files path
  | none => return files

/-- The files that matter in every directory above an input. -/
def companions : List (List String) :=
  [[".gitignore"], [".ignore"], [".git"], [".git", "info", "exclude"]]

/-- Adds the companions in a directory and in those above it. -/
def collectCompanions (files : FileSystem) (place : List String) : IO FileSystem := do
  let mut files := files
  for above in (List.range (place.length + 1)).map place.take do
    for names in companions do
      files ← collectFile files (above ++ names)
  return files

/-- The options of a command line that checks sources. -/
def checkOptions? (arguments : List String) : Option CheckOptions :=
  match Command.parse arguments with
  | .ok (.check options) => some options
  | _ => none

/-- The trees that the grammar answers with. -/
def readTable : IO (List (String × ParseTree)) := do
  match ← IO.getEnv "CONCURRENCY_GUARD_TREES" with
  | none => return []
  | some path =>
    let text ← IO.FS.readFile path
    return ((JsonValue.parse text).bind ParseTree.tableOfJson?).getD []

/-- Collects what a run with the given arguments looks at. -/
def readEnvironment (arguments : List String) : IO Environment := do
  let here := (Path.parse (← IO.currentDir).toString).pieces
  let table ← readTable
  let mut env : Environment := {
    files := {
      root := FileTree.insert (.directory []) here (.directory [])
      workingDirectory := here
      home := ← IO.getEnv "HOME"
      settings := (← IO.getEnv "XDG_CONFIG_HOME").filter (!·.isEmpty) }
    grammar := fun text => match table.lookup text with
      | some tree => .ok tree
      | none => .error .noTree
    configDirectory := ← IO.getEnv "CONCURRENCY_GUARD_CONFIG_DIR" }
  let mut files ← collect env.files (here ++ [configName])
  if let some options := checkOptions? arguments then
    for input in options.inputs do
      let place := placeOf files input
      files ← collect files place
      files ← collectCompanions files place
    for path in options.config.toList do
      files ← collect files (placeOf files path)
    files ← collectAllLinked files files.root
    files ← collectUserIgnore files
    for path in (options.configPlaces { env with files := files }).candidates do
      files ← collect files (placeOf files path)
    if options.readsStdin then
      env := { env with stdin := ← (← IO.getStdin).readBinToEnd }
  return { env with files := files }

end ConcurrencyLint.Cli

/-- Runs the program. -/
def main (arguments : List String) : IO UInt32 := do
  let outcome := ConcurrencyLint.Cli.run (← ConcurrencyLint.Cli.readEnvironment arguments) arguments
  (← IO.getStdout).putStr outcome.stdout
  for line in outcome.details ++ outcome.stderr do
    (← IO.getStderr).putStrLn line
  if let some (name, text) := outcome.written then
    IO.FS.writeFile name text
  return outcome.status.toUInt32
