import QueryPlanner.Text

namespace QueryPlanner

inductive Double where
  | whole (n : Int)
  | infinite (negative : Bool)
  deriving DecidableEq

namespace Double

def unit (m : Nat) : Nat := 1 <<< (m.log2 - 52)

/-- The nearest number that is held; of two, the one whose last bit is zero. -/
def round (m : Nat) : Nat :=
  let below := m / unit m
  let rest := m % unit m
  if 2 * rest < unit m ∨ (2 * rest = unit m ∧ below % 2 = 0) then below * unit m else (below + 1) * unit m

def ofInt (n : Int) : Double :=
  let magnitude := round n.natAbs
  if 1 <<< 1024 ≤ magnitude then infinite (n < 0)
  else whole (if n < 0 then -(magnitude : Int) else magnitude)

def ofText (text : Text) : Double := ofInt (Text.toInt text)

end Double

end QueryPlanner
