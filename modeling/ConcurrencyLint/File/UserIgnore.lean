import ConcurrencyLint.File.Tree
import ConcurrencyLint.Text.Parser

/-!
# The user's own ignore file

Git lets a user name a file of patterns that count in every repository. The file is named by a
setting `excludesfile` in one of two settings files; if neither has one, there is a usual place.
-/

namespace ConcurrencyLint

namespace ExcludesSetting

open Text (Parser)

/-- A blank character in a settings file. -/
def isSpace (c : Char) : Bool := c == ' ' || ('\t' ≤ c && c ≤ '\r')

/-- What follows a value on its line: blanks, or a closing quote among blanks. -/
def closes (cs : List Char) : Bool :=
  let skip (cs : List Char) : List Char := cs.dropWhile fun c => isSpace c && c != '\n'
  let atLineEnd (cs : List Char) : Bool := cs.isEmpty || cs.head? == some '\n'
  let rest := skip cs
  atLineEnd rest || (rest.head? == some '"' && atLineEnd (skip rest.tail))

/-- The rest of a value after its first character, as short as possible. -/
def valueRest : List Char → Option (List Char)
  | [] => some []
  | c :: cs =>
    if closes (c :: cs) then some []
    else if isSpace c then none
    else (valueRest cs).map (c :: ·)

/-- The value at the front of a text, without blanks in it. -/
def value? : List Char → Option (List Char)
  | [] => none
  | c :: cs => if isSpace c then none else (valueRest cs).map (c :: ·)

/-- The value after the sign of equality. An opening quote belongs to it only if nothing else gives
a value. -/
def quotedValue? (cs : List Char) : Option (List Char) :=
  match cs with
  | '"' :: inner => (value? (inner.dropWhile isSpace)).or (value? cs)
  | _ => value? cs

/-- The value of the setting, if the text starts with the setting. Its name may be written in either
case. -/
def at? (cs : List Char) : Option (List Char) := do
  let setting : Parser Unit := do
    let _ ← Parser.takeWhile isSpace
    "excludesfile".toList.forM fun letter => do
      let _ ← Parser.satisfy fun c => c.toLower == letter
    let _ ← Parser.takeWhile isSpace
    Parser.char '='
    let _ ← Parser.takeWhile isSpace
  let (_, rest) ← setting cs
  quotedValue? rest

/-- The value of the first line that is the setting. -/
def ofLines : List Char → Option (List Char)
  | [] => none
  | '\n' :: cs => (at? cs).or (ofLines cs)
  | _ :: cs => ofLines cs

/-- The value of the setting in a settings file. The file is read byte by byte; the value must be
text. -/
def find? (content : ByteArray) : Option String := do
  let cs := '\n' :: content.toList.map fun b => Char.ofNat b.toNat
  let value ← ofLines cs
  String.fromUTF8? ⟨(value.map fun c => c.toNat.toUInt8).toArray⟩

/-- A path with the home directory in place of every tilde. -/
def expandHome (home : Option String) (path : String) : String :=
  match home with
  | none => path
  | some home =>
    path.toList.foldl (fun done c => done ++ if c = '~' then home else c.toString) ""

end ExcludesSetting

namespace FileSystem

/-- The directory for the settings of the user's programs. -/
def settingsDirectory? (fs : FileSystem) : Option String :=
  fs.settings.or (fs.home.map (Path.join · ".config"))

/-- The settings files of git, the preferred one first. -/
def gitSettings (fs : FileSystem) : List String :=
  (fs.home.map (Path.join · ".gitconfig")).toList
    ++ (fs.settingsDirectory?.map (Path.join · "git/config")).toList

/-- The path of the user's own ignore file, which need not exist. -/
def userIgnorePath? (fs : FileSystem) : Option String :=
  let named := fs.gitSettings.findSome? fun path => (fs.file? path).bind ExcludesSetting.find?
  (named.map (ExcludesSetting.expandHome fs.home)).or
    (fs.settingsDirectory?.map (Path.join · "git/ignore"))

end FileSystem

end ConcurrencyLint
