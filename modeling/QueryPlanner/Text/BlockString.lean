import QueryPlanner.Text.Lines

namespace QueryPlanner.BlockString

def isBlankLine (line : Text) : Bool := line.all CodeUnit.isBlank

def commonIndent (lines : List Text) : Nat :=
  ((lines.filter (!isBlankLine ·)).map fun line => (line.takeWhile CodeUnit.isBlank).length).min?.getD 0

def dropBlankEnds (lines : List Text) : List Text :=
  ((lines.dropWhile isBlankLine).reverse.dropWhile isBlankLine).reverse

/-- The first line, which follows the opening quotes, neither loses indentation nor counts for it. -/
def dedent : List Text → List Text
  | [] => []
  | first :: others => dropBlankEnds (first :: others.map (·.drop (commonIndent others)))

def ofLines (lines : List Text) : Text := Text.join "\n" (dedent lines)

def tripleQuote : Text := "\"\"\""

def escapedTripleQuote : Text := "\\\"\"\""

def escape : Text → Text
  | 0x22 :: 0x22 :: 0x22 :: rest => escapedTripleQuote ++ escape rest
  | u :: rest => u :: escape rest
  | [] => []

def beginsBlank (line : Text) : Bool := line.head?.any CodeUnit.isBlank

def maxLineLength : Nat := 70

def render (text : Text) : Text :=
  let escaped := escape text
  let lines := escaped.lines
  let isSingleLine := lines.length == 1
  let forceLeading := !isSingleLine && (lines.drop 1).all fun line => line == [] || beginsBlank line
  let tripleEnd := escapedTripleQuote.isSuffixOf escaped
  let forceTrailing :=
    (text.getLast? == some CodeUnit.quote && !tripleEnd) || text.getLast? == some CodeUnit.backslash
  let isMultiLine :=
    !isSingleLine || text.length > maxLineLength || forceTrailing || forceLeading || tripleEnd
  let skipLeading := isSingleLine && beginsBlank text
  let leading : Text := if (isMultiLine && !skipLeading) || forceLeading then "\n" else []
  let trailing : Text := if isMultiLine || forceTrailing then "\n" else []
  tripleQuote ++ leading ++ escaped ++ trailing ++ tripleQuote

end QueryPlanner.BlockString
