import QueryPlanner.Text

namespace QueryPlanner

structure LineColumn where
  line : Nat
  column : Int
  deriving DecidableEq, Repr

namespace Text

def lineEnds : Text → Nat → List (Nat × Nat)
  | [], _ => []
  | 0x0a :: rest, offset => (offset, 1) :: lineEnds rest (offset + 1)
  | 0x0d :: 0x0a :: rest, offset => (offset, 2) :: lineEnds rest (offset + 2)
  | 0x0d :: rest, offset => (offset, 1) :: lineEnds rest (offset + 1)
  | _ :: rest, offset => lineEnds rest (offset + 1)

/-- The line and column of a position: of the line ends that begin before it, the last one starts its line. -/
def lineColumn (text : Text) (position : Int) : LineColumn :=
  let before := (text.lineEnds 0).takeWhile fun lineEnd => (lineEnd.1 : Int) < position
  let lineStart := (before.getLast?.map fun lineEnd => lineEnd.1 + lineEnd.2).getD 0
  ⟨before.length + 1, position + 1 - lineStart⟩

def linesFrom (current : Text) : Text → List Text
  | [] => [current.reverse]
  | 0x0a :: rest => current.reverse :: linesFrom [] rest
  | 0x0d :: 0x0a :: rest => current.reverse :: linesFrom [] rest
  | 0x0d :: rest => current.reverse :: linesFrom [] rest
  | u :: rest => linesFrom (u :: current) rest

def lines (text : Text) : List Text := linesFrom [] text

end Text

end QueryPlanner
