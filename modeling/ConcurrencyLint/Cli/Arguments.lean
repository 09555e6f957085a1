import ConcurrencyLint.Report.Format
import ConcurrencyLint.Text.Split

/-!
# The command line

Reads arguments into a command. An argument is a switch, the value of the switch before it, or a
path. A subcommand is recognised as the first argument only; anywhere else its name is a path.
Reading goes from left to right and stops at the first argument that is wrong or that asks for help
or for the version.
-/

namespace ConcurrencyLint.Cli

inductive Switch where
  | verbose
  | config
  | stdin
  | format
  | rules
  | exclude
  | force
  | help
  | version
  deriving DecidableEq, Repr

namespace Switch

def long : Switch → String
  | .verbose => "verbose"
  | .config => "config"
  | .stdin => "stdin"
  | .format => "format"
  | .rules => "rules"
  | .exclude => "exclude"
  | .force => "force"
  | .help => "help"
  | .version => "version"

def short? : Switch → Option Char
  | .verbose => some 'v'
  | .config => some 'c'
  | .format => some 'f'
  | .exclude => some 'e'
  | .help => some 'h'
  | .version => some 'V'
  | _ => none

def takesValue : Switch → Bool
  | .config | .format | .rules | .exclude => true
  | _ => false

/-- The switch may be given more than once. -/
def mayRepeat (s : Switch) : Bool := s == .exclude

/-- The value fits the switch: a path is not empty, and a format is one of the known ones. -/
def accepts (s : Switch) (value : String) : Bool :=
  match s with
  | .config => !value.isEmpty
  | .format => (OutputFormat.ofLabel? value).isSome
  | _ => true

end Switch

/-- What a line of arguments is about. -/
inductive Subject where
  | check
  | listRules
  | init
  deriving DecidableEq, Repr

namespace Subject

/-- The switches that a subject knows. -/
def switches : Subject → List Switch
  | .check => [.verbose, .config, .stdin, .format, .rules, .exclude, .help, .version]
  | .listRules => [.verbose, .config, .help]
  | .init => [.force, .verbose, .config, .help]

def takesPaths : Subject → Bool
  | .check => true
  | _ => false

def byLong? (subject : Subject) (name : String) : Option Switch :=
  subject.switches.find? fun s => s.long == name

def byShort? (subject : Subject) (c : Char) : Option Switch :=
  subject.switches.find? fun s => s.short? == some c

end Subject

/-- What help is asked for. -/
inductive HelpTopic where
  /-- The whole program, at length or in brief. -/
  | program (long : Bool)
  | listRules
  | init
  | help
  deriving DecidableEq, Repr

/-- The topic that a help switch asks for among the arguments of a subject. -/
def Subject.topic (long : Bool) : Subject → HelpTopic
  | .check => .program long
  | .listRules => .listRules
  | .init => .init

/-- Why arguments are refused. -/
inductive UsageError where
  | unknownArgument (argument : String)
  | unexpectedValue (s : Switch)
  | missingValue (s : Switch)
  | invalidValue (s : Switch) (value : String)
  | emptyPath
  | repeated (s : Switch)
  /-- Paths are given although the source comes from standard input. -/
  | pathsWithStdin
  | unknownTopic
  deriving DecidableEq, Repr

def UsageError.message : UsageError → String
  | .unknownArgument argument => "unexpected argument '" ++ argument ++ "' found"
  | .unexpectedValue s => "'--" ++ s.long ++ "' takes no value"
  | .missingValue s => "a value is required for '--" ++ s.long ++ "' but none was supplied"
  | .invalidValue s value => "invalid value '" ++ value ++ "' for '--" ++ s.long ++ "'"
  | .emptyPath => "a path must not be empty"
  | .repeated s => "the argument '--" ++ s.long ++ "' cannot be used multiple times"
  | .pathsWithStdin => "the argument '--stdin' cannot be used with paths"
  | .unknownTopic => "unrecognized subcommand"

/-- Why reading stops before there is a command. -/
inductive Stop where
  | usage (cause : UsageError)
  | help (topic : HelpTopic)
  | version
  deriving DecidableEq, Repr

/-- What has been given so far, in order. -/
structure Given where
  flags : List Switch := []
  values : List (Switch × String) := []
  paths : List String := []
  deriving DecidableEq, Repr

namespace Given

def has (g : Given) (s : Switch) : Bool := g.flags.contains s || g.values.any (·.1 == s)

/-- The value of a switch. -/
def value? (g : Given) (s : Switch) : Option String := g.values.lookup s

/-- All values of a switch that may be repeated. -/
def valuesOf (g : Given) (s : Switch) : List String :=
  (g.values.filter (·.1 == s)).map Prod.snd

/-- Takes note of a switch without value; `long` tells which of its two spellings was used. -/
def mark (g : Given) (subject : Subject) (long : Bool) (s : Switch) : Except Stop Given :=
  match s with
  | .help => .error (.help (subject.topic long))
  | .version => .error .version
  | s =>
    if g.has s then .error (.usage (.repeated s)) else .ok { g with flags := g.flags ++ [s] }

/-- Takes note of a switch with its value. -/
def give (g : Given) (s : Switch) (value : String) : Except Stop Given :=
  if g.has s ∧ ¬ s.mayRepeat then .error (.usage (.repeated s))
  else if s.accepts value then .ok { g with values := g.values ++ [(s, value)] }
  else .error (.usage (.invalidValue s value))

/-- Takes note of a path. -/
def addPath (subject : Subject) (g : Given) (path : String) : Except Stop Given :=
  if ¬ subject.takesPaths then .error (.usage (.unknownArgument path))
  else if path.isEmpty then .error (.usage .emptyPath)
  else .ok { g with paths := g.paths ++ [path] }

end Given

/-- What is left to do after one argument. -/
inductive Progress where
  | next (g : Given)
  /-- The next argument is the value of a switch. -/
  | awaitsValue (g : Given) (s : Switch)
  /-- All further arguments are paths. -/
  | onlyPaths (g : Given)

/-- Reads what follows two hyphens: a name, and a value after the first equals sign if there is
one. -/
def readLong (subject : Subject) (g : Given) (body : List Char) : Except Stop Progress :=
  let (name, value) := match Text.cutAt '=' body with
    | some (name, value) => (String.ofList name, some (String.ofList value))
    | none => (String.ofList body, none)
  match subject.byLong? name with
  | none => .error (.usage (.unknownArgument ("--" ++ name)))
  | some s =>
    match s.takesValue, value with
    | true, some value => (g.give s value).map .next
    | true, none => .ok (.awaitsValue g s)
    | false, some _ => .error (.usage (.unexpectedValue s))
    | false, none => (g.mark subject true s).map .next

/-- Reads what follows one hyphen: letters, of which one that takes a value takes the rest, less an
equals sign in front. -/
def readLetters (subject : Subject) (g : Given) : List Char → Except Stop Progress
  | [] => .ok (.next g)
  | c :: cs =>
    match subject.byShort? c with
    | none => .error (.usage (.unknownArgument ("-" ++ c.toString)))
    | some s =>
      if s.takesValue then
        match cs with
        | [] => .ok (.awaitsValue g s)
        | '=' :: cs => (g.give s (String.ofList cs)).map .next
        | cs => (g.give s (String.ofList cs)).map .next
      else
        match g.mark subject false s with
        | .error stop => .error stop
        | .ok g => readLetters subject g cs

/-- Reads one argument that is no value. A single hyphen is a path. -/
def readArgument (subject : Subject) (g : Given) (argument : String) : Except Stop Progress :=
  match argument.toList with
  | ['-', '-'] => .ok (.onlyPaths g)
  | '-' :: '-' :: body => readLong subject g body
  | '-' :: c :: cs => readLetters subject g (c :: cs)
  | _ => (g.addPath subject argument).map .next

/-- The argument cannot be the value of a switch. -/
def looksLikeSwitch (argument : String) : Bool :=
  match argument.toList with
  | '-' :: _ :: _ => true
  | _ => false

/-- Reads all arguments of a subject. -/
def readArguments (subject : Subject) (g : Given) : List String → Except Stop Given
  | [] => .ok g
  | argument :: rest =>
    match readArgument subject g argument with
    | .error stop => .error stop
    | .ok (.next g) => readArguments subject g rest
    | .ok (.onlyPaths g) => rest.foldlM (Given.addPath subject) g
    | .ok (.awaitsValue g s) =>
      match rest with
      | [] => .error (.usage (.missingValue s))
      | value :: rest =>
        if looksLikeSwitch value then .error (.usage (.missingValue s))
        else
          match g.give s value with
          | .error stop => .error stop
          | .ok g => readArguments subject g rest

/-- How to check sources. -/
structure CheckOptions where
  /-- Files and directories, unless the source comes from standard input. -/
  paths : List String := []
  readsStdin : Bool := false
  format : OutputFormat := .text
  /-- The list of rules to run, if not all. -/
  rules : Option String := none
  excludes : List String := []
  /-- The configuration file to use. -/
  config : Option String := none
  verbose : Bool := false
  deriving DecidableEq, Repr

def CheckOptions.ofGiven (g : Given) : CheckOptions where
  paths := g.paths
  readsStdin := g.has .stdin
  format := ((g.value? .format).bind OutputFormat.ofLabel?).getD .text
  rules := g.value? .rules
  excludes := g.valuesOf .exclude
  config := g.value? .config
  verbose := g.has .verbose

inductive Command where
  | check (options : CheckOptions)
  | listRules
  /-- Writes a configuration file to start from. -/
  | init (force : Bool)
  deriving DecidableEq, Repr

/-- The topic that the help subcommand is asked for. -/
def helpStop : List String → Stop
  | [] => .help (.program true)
  | ["list-rules"] => .help .listRules
  | ["init"] => .help .init
  | ["help"] => .help .help
  | _ => .usage .unknownTopic

/-- Reads a command line, without the name of the program. -/
def Command.parse : List String → Except Stop Command
  | "list-rules" :: arguments => (readArguments .listRules {} arguments).map fun _ => .listRules
  | "init" :: arguments => (readArguments .init {} arguments).map fun g => .init (g.has .force)
  | "help" :: topics => .error (helpStop topics)
  | arguments =>
    match readArguments .check {} arguments with
    | .error stop => .error stop
    | .ok g =>
      if g.has .stdin ∧ g.paths ≠ [] then .error (.usage .pathsWithStdin)
      else .ok (.check (.ofGiven g))

end ConcurrencyLint.Cli
