import QueryPlanner.Token.Number
import QueryPlanner.Token.StringLiteral
import QueryPlanner.Token.BlockLiteral

namespace QueryPlanner
open CodeUnit

structure Cursor where
  offset : Nat
  line : Nat
  lineStart : Nat
  deriving DecidableEq, Repr

namespace Cursor

def start : Cursor := ⟨0, 1, 0⟩

def advance (c : Cursor) (size : Nat) : Cursor := { c with offset := c.offset + size }

def newLine (c : Cursor) (size : Nat) : Cursor := ⟨c.offset + size, c.line + 1, c.offset + size⟩

def token (c : Cursor) (kind : TokenKind) (size : Nat) (value : Text) : Token :=
  { kind, start := c.offset, stop := c.offset + size, line := c.line, column := 1 + c.offset - c.lineStart, value }

end Cursor

namespace Scan

structure Step where
  token : Token
  rest : Text
  cursor : Cursor

def isByteOrderMark (u : CodeUnit) : Bool := u == 0xfeff

def isIgnored (u : CodeUnit) : Bool := isBlank u || u == 0x2c || isByteOrderMark u

def skipIgnored : Text → Cursor → Text × Cursor
  | 0x0a :: rest, c => skipIgnored rest (c.newLine 1)
  | 0x0d :: 0x0a :: rest, c => skipIgnored rest (c.newLine 2)
  | 0x0d :: rest, c => skipIgnored rest (c.newLine 1)
  | u :: rest, c => if isIgnored u then skipIgnored rest (c.advance 1) else (u :: rest, c)
  | [], c => ([], c)

/-- The characters of a comment and what follows it: it ends with its line, or before half of a surrogate pair. -/
def comment : Text → Text × Text
  | [] => ([], [])
  | [u] => if !u.isLineEnd && u.isScalar then ([u], []) else ([], [u])
  | u :: v :: rest =>
    if u.isLineEnd then ([], u :: v :: rest)
    else if u.isScalar then
      let (inside, after) := comment (v :: rest)
      (u :: inside, after)
    else if Text.isPair u v then
      let (inside, after) := comment rest
      (u :: v :: inside, after)
    else ([], u :: v :: rest)

def unexpected (u : CodeUnit) (rest : Text) : LexemeFault :=
  let found := (Text.codePoint? (u :: rest)).getD u.toNat
  if u = 0x27 then .singleQuote
  else if u.isScalar || rest.head?.any (Text.isPair u) then .unexpectedCharacter found
  else .invalidCharacter found

def lexeme : Text → Cursor → Except LexicalFault Step
  | [], c => .ok ⟨c.token .endOfFile 0 [], [], c⟩
  | 0x2e :: 0x2e :: 0x2e :: rest, c => .ok ⟨c.token .spread 3 [], rest, c.advance 3⟩
  | 0x22 :: 0x22 :: 0x22 :: rest, c => do
    let literal ← BlockLiteral.scan c.offset c.lineStart rest
    return ⟨c.token .blockString (literal.stop - c.offset) literal.value, literal.rest,
      ⟨literal.stop, c.line + literal.lineEnds, literal.lineStart⟩⟩
  | u :: rest, c =>
    if u = 0x23 then
      let (inside, after) := comment rest
      .ok ⟨c.token .comment (inside.length + 1) inside, after, c.advance (inside.length + 1)⟩
    else if u = CodeUnit.quote then do
      let literal ← StringLiteral.scan c.offset rest
      return ⟨c.token .string (literal.stop - c.offset) literal.value, literal.rest,
        c.advance (literal.stop - c.offset)⟩
    else if isDigit u || u == 0x2d then do
      let (kind, number) ← Number.scan c.offset (u :: rest)
      return ⟨c.token kind number.written.length number.written, number.rest, c.advance number.written.length⟩
    else if isNameStart u then
      let name := u :: rest.takeWhile isNameContinue
      .ok ⟨c.token .name name.length name, rest.dropWhile isNameContinue, c.advance name.length⟩
    else match TokenKind.ofUnit? u with
      | some kind => .ok ⟨c.token kind 1 [], rest, c.advance 1⟩
      | none => .error ⟨c.offset, unexpected u rest⟩

def next (text : Text) (c : Cursor) : Except LexicalFault Step :=
  let (rest, c) := skipIgnored text c
  lexeme rest c

end Scan

end QueryPlanner
