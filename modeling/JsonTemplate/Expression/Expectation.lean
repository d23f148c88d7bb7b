/-!
What the rules insist on once they have taken a branch, in the words of the messages.
-/

namespace JsonTemplate

inductive Expectation
  | comparisonSign
  | comparisonRight
  | guardComparison
  | ternaryCondition
  | ternaryMark
  | ternaryThen
  | ternaryColon
  | ternaryElse
  | interpolated
  | stringParts
  | stringEnd
  | arrayEntries
  | arrayEnd
  | entryKey
  | entryKeyString
  | entryKeyEnd
  | entryValue
  | entryValueEnd
  | entryEnd
  | objectEntries
  | objectEnd
  | document
  | singleName
  | shorterPath
  | path (text : String)
  | number (text : String)
deriving DecidableEq

def Expectation.message : Expectation → String
  | comparisonSign => "Binary expressions must contain an operator"
  | comparisonRight => "Binary expressions must contain a right hand side"
  | guardComparison => "Conditional statements must contain a binary expression"
  | ternaryCondition =>
      "Ternary expressions must contain a binary expression as the first part of the expression"
  | ternaryMark => "Ternary expressions must contain a ? as the second part of the expression"
  | ternaryThen =>
      "Ternary expressions must contain a comparable value as the third part of the expression"
  | ternaryColon => "Ternary expressions must contain a : as the fourth part of the expression"
  | ternaryElse =>
      "Ternary expressions must contain a comparable value as the fifth part of the expression"
  | interpolated => "Unable to read parse value"
  | stringParts => "match interpolated values or strings which don't match \x7b\x7b"
  | stringEnd => "Strings must end with an end token"
  | arrayEntries => "Arrays may only contain array entries"
  | arrayEnd => "Arrays must end with an array end token"
  | entryKey => "Object entry must contain a key"
  | entryKeyString => "Object entry key must contain a string literal"
  | entryKeyEnd => "Object entry key must end with a key end token"
  | entryValue => "Object entry must contain a value"
  | entryValueEnd => "Object entry must end with a value end token"
  | entryEnd => "Object entry must end with an entry end token"
  | objectEntries => "Objects may only contain object entries"
  | objectEnd => "Objects must end with an object end token"
  | document => "Expected one of a template string, number, boolean, null, array or object"
  | singleName => "Expected a single variable name"
  | shorterPath => "Unable to parse variable path: too many layers deep"
  | path text => "Unable to parse variable path: " ++ text
  | number text => "Invalid number: " ++ text

end JsonTemplate
