import QueryPlanner.Diagnostic

namespace QueryPlanner

inductive BrokenInvariant where
  | spreadLeft (fragment : Text)
  | popAtRoot
  | modifierMissing
  deriving DecidableEq

def BrokenInvariant.message : BrokenInvariant → Text
  | spreadLeft fragment => "Fragment \"" ++ fragment ++ "\" was not inlined into the operation."
  | popAtRoot => "Cannot pop the root of a plan."
  | modifierMissing => "Unexpected invariant triggered."

inductive PlanFailure where
  | reported (d : Diagnostic)
  | broken (invariant : BrokenInvariant)
  deriving DecidableEq

end QueryPlanner
