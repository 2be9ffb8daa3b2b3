import QueryPlanner.Double
import QueryPlanner.Plan.Basic

namespace QueryPlanner

/-- The greatest count that a plan holds, one below the 53rd power of two. -/
def maxInitialCount : Int := 9007199254740991

namespace InitialCount

def clamp : Double → Nat
  | .whole n => (min (max n 0) maxInitialCount).toNat
  | .infinite negative => if negative then 0 else maxInitialCount.toNat

def ofValue : Option Value → InitialCount
  | some (.var v) => var v.name.text
  | some (.int text _) => items (clamp (.ofText text))
  | _ => items 0

end InitialCount

structure StreamOptions where
  label : Option Text
  initialCount : InitialCount
  condition : Option Text

namespace PlanField

/-- The options of the first stream directive, if it applies; if there is one that does not, why not. -/
def streaming (f : PlanField) : Except (Option Event) StreamOptions :=
  match Directive.find? f.directives "stream" with
  | none => .error none
  | some d =>
    let condition := d.argument? "if"
    if condition.bind Value.boolean? = some false then .error (some (.streamDisabled f.path))
    else if !f.metadata.isStreamable || !f.resultType.isList then
      .error (some (.streamIgnored f.path (MetadataProvider.key f.parentType f.fieldName)))
    else .ok {
      label := (d.argument? "label").bind Value.string?
      initialCount := .ofValue (d.argument? "initialCount")
      condition := condition.bind Value.varName? }

end PlanField

end QueryPlanner
