import ConcurrencyLint.Analyzer
import ConcurrencyLint.ParseTree.Lowering

/-!
# The Swift parser

A source parser for Swift over a grammar that is given from outside.
-/

namespace ConcurrencyLint.Swift

def language : String := "swift"

def extensions : List String := ["swift"]

/-- The parser that lowers what a grammar produces. -/
def parser (grammar : String → Except ParseError ParseTree) : SourceParser where
  language := language
  extensions := extensions
  parse text := (grammar text).map fun tree => tree.toNode text.toUTF8

end ConcurrencyLint.Swift
