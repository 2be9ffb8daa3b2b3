import QueryPlanner.Text.Lines

namespace QueryPlanner

structure Source where
  body : Text
  name : Text := "GraphQL request"
  deriving DecidableEq

structure Location where
  source : Source
  start : Nat
  stop : Nat
  line : Nat
  column : Nat
  deriving DecidableEq

def Location.slice (l : Location) : Text := (l.source.body.drop l.start).take (l.stop - l.start)

end QueryPlanner
