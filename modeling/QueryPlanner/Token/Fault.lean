import QueryPlanner.Text

namespace QueryPlanner

/--
`found` is the code point met, absent at the end of the text; `slice` is the escape sequence as far as it was read.
-/
inductive LexemeFault where
  | singleQuote
  | unexpectedCharacter (found : Nat)
  | invalidCharacter (found : Nat)
  | digitAfterZero (found : Nat)
  | digitExpected (found : Option Nat)
  | invalidInString (found : Nat)
  | unterminatedString
  | invalidUnicodeEscape (slice : Text)
  | invalidEscape (slice : Text)
  deriving DecidableEq, Repr

def describeCodePoint : Option Nat → Text
  | none => "<EOF>"
  | some point =>
    if point = 0x22 then "\x27\"\x27"
    else if 0x20 ≤ point ∧ point ≤ 0x7e then "\"" ++ Text.ofCodePoint point ++ "\""
    else "U+" ++ Text.hex true 4 point

namespace LexemeFault

def describe : LexemeFault → Text
  | singleQuote =>
    "Unexpected single quote character (\x27), did you mean to use a double quote (\")?"
  | unexpectedCharacter found => "Unexpected character: " ++ describeCodePoint (some found) ++ "."
  | invalidCharacter found => "Invalid character: " ++ describeCodePoint (some found) ++ "."
  | digitAfterZero found =>
    "Invalid number, unexpected digit after 0: " ++ describeCodePoint (some found) ++ "."
  | digitExpected found => "Invalid number, expected digit but got: " ++ describeCodePoint found ++ "."
  | invalidInString found => "Invalid character within String: " ++ describeCodePoint (some found) ++ "."
  | unterminatedString => "Unterminated string."
  | invalidUnicodeEscape slice => "Invalid Unicode escape sequence: \"" ++ slice ++ "\"."
  | invalidEscape slice => "Invalid character escape sequence: \"" ++ slice ++ "\"."

end LexemeFault

structure LexicalFault where
  position : Nat
  fault : LexemeFault
  deriving DecidableEq, Repr

end QueryPlanner
