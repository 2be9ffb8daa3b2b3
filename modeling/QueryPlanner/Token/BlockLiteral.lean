import QueryPlanner.Text.BlockString
import QueryPlanner.Token.Fault

namespace QueryPlanner.BlockLiteral

structure Reading where
  offset : Nat
  lineStart : Nat
  current : Text := []
  before : List Text := []

namespace Reading

def push (r : Reading) (units : Text) (size : Nat) : Reading :=
  { r with offset := r.offset + size, current := units.reverse ++ r.current }

def endLine (r : Reading) (size : Nat) : Reading :=
  { offset := r.offset + size, lineStart := r.offset + size, before := r.current.reverse :: r.before }

def lines (r : Reading) : List Text := (r.current.reverse :: r.before).reverse

end Reading

structure Scanned where
  value : Text
  stop : Nat
  lineEnds : Nat
  lineStart : Nat
  rest : Text

def characters (start : Nat) : Text → Reading → Except LexicalFault Scanned
  | [], _ => .error ⟨start, .unterminatedString⟩
  | 0x22 :: 0x22 :: 0x22 :: rest, r =>
    .ok ⟨BlockString.ofLines r.lines, r.offset + 3, r.before.length, r.lineStart, rest⟩
  | 0x5c :: 0x22 :: 0x22 :: 0x22 :: rest, r =>
    characters start rest (r.push BlockString.tripleQuote 4)
  | 0x0a :: rest, r => characters start rest (r.endLine 1)
  | 0x0d :: 0x0a :: rest, r => characters start rest (r.endLine 2)
  | 0x0d :: rest, r => characters start rest (r.endLine 1)
  | [u], r =>
    .error (if u.isScalar then ⟨start, .unterminatedString⟩ else ⟨r.offset, .invalidInString u.toNat⟩)
  | u :: v :: rest, r =>
    if u.isScalar then characters start (v :: rest) (r.push [u] 1)
    else if Text.isPair u v then characters start rest (r.push [u, v] 2)
    else .error ⟨r.offset, .invalidInString u.toNat⟩

def scan (start lineStart : Nat) (text : Text) : Except LexicalFault Scanned :=
  characters start text { offset := start + 3, lineStart }

end QueryPlanner.BlockLiteral
