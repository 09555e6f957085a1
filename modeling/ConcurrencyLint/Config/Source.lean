import ConcurrencyLint.Config
import ConcurrencyLint.File.Tree

/-!
# Where a configuration comes from

The first of these that there is: the file that was asked for, a file of the project, the file of
the user, the built-in defaults. Only the first is used without a look whether it exists.
-/

namespace ConcurrencyLint

/-- The places that are searched for a configuration. -/
structure ConfigPlaces where
  /-- The file that was asked for. -/
  requested : Option String
  project : String
  /-- The directory of the user's own configuration. -/
  user : Option String

namespace ConfigPlaces

/-- The names of a project's configuration file, the preferred one first. -/
def projectNames : List String := ["concurrency-guard.toml", ".concurrency-guard.toml"]

def userName : String := "config.toml"

/-- The directory that is searched for the inputs of a run: the first input if it is a directory,
else the directory that holds it. -/
def projectOf (files : FileSystem) : List String → String
  | [] => "."
  | path :: _ =>
    if files.isDirectory path then path
    else
      let parent := Path.parent path
      if parent.isEmpty then "." else parent

/-- The files that are used if they exist, in order. -/
def candidates (places : ConfigPlaces) : List String :=
  projectNames.map (Path.join places.project)
    ++ (places.user.map fun directory => Path.join directory userName).toList

/-- The file to read, unless the defaults are used. -/
def find? (places : ConfigPlaces) (files : FileSystem) : Option String :=
  places.requested.or (places.candidates.find? files.isFile)

end ConfigPlaces

/-- Why a configuration cannot be loaded. -/
inductive ConfigError where
  | unreadable (path : String) (cause : FileError)
  | invalid (path : String)
  deriving DecidableEq, Repr

/-- Names the file, then the failure, then its cause. The failure to read names its cause too. -/
def ConfigError.message : ConfigError → String
  | .unreadable path cause =>
    "Failed to load config: " ++ path ++ ": Failed to read config file " ++ path ++ ": "
      ++ cause.message ++ ": " ++ cause.message
  | .invalid path => "Failed to load config: " ++ path ++ ": Failed to parse config:"

/-- Loads a configuration file, or the defaults. -/
def Config.load (files : FileSystem) : Option String → Except ConfigError Config
  | none => .ok {}
  | some path =>
    match files.readText path with
    | .error cause => .error (.unreadable path cause)
    | .ok text =>
      match Config.parse text with
      | none => .error (.invalid path)
      | some config => .ok config

end ConcurrencyLint
