import QueryPlanner.Source
import QueryPlanner.Token
import QueryPlanner.Token.Fault

namespace QueryPlanner

inductive PathSegment where
  | key (name : Text)
  | index (n : Int)
  deriving DecidableEq

/-- Causes that arise for several reasons carry the words of the reason. -/
inductive Cause where
  | lexical (description : Text)
  | grammar (description : Text) (token : Token) (expected : Option Text)
  | depthLimit (maxDepth : Int)
  | fragmentNotFound (name : Text)
  | cyclicFragment (cycle : List Text)
  | duplicateFragment (name : Text)
  | operationNotFound (message : Text) (name : Option Text)
  | subscriptionSelection (message : Text)
  | unknownType (name : Text) (message : Text)
  | unknownField (parentType : Text) (field : Text)
  | nullabilityModifier (message : Text)
  | other (code : Text) (message : Text)
  deriving DecidableEq

namespace Cause

def code : Cause → Text
  | lexical .. => "LEXICAL_ERROR"
  | grammar .. => "SYNTAX_ERROR"
  | depthLimit .. => "DEPTH_LIMIT_EXCEEDED"
  | fragmentNotFound .. => "FRAGMENT_NOT_FOUND"
  | cyclicFragment .. => "CYCLIC_FRAGMENT"
  | duplicateFragment .. => "DUPLICATE_FRAGMENT"
  | operationNotFound .. => "OPERATION_NOT_FOUND"
  | subscriptionSelection .. => "INVALID_SUBSCRIPTION_SELECTION"
  | unknownType .. => "UNKNOWN_TYPE"
  | unknownField .. => "UNKNOWN_FIELD"
  | nullabilityModifier .. => "INVALID_NULLABILITY_MODIFIER"
  | other code _ => code

def quoted (text : Text) : Text := "\"" ++ text ++ "\""

/-- A cycle is told by its first fragment and those between its first and last. -/
def describeCycle (cycle : List Text) : Text :=
  let via := (cycle.drop 1).dropLast.map quoted
  "Cannot spread fragment " ++ quoted (cycle.headD "undefined") ++ " within itself" ++
    Text.wrap " via " (Text.join ", " via) [] ++ "."

def message : Cause → Text
  | lexical description => "Syntax Error: " ++ description
  | grammar description .. => "Syntax Error: " ++ description
  | depthLimit maxDepth =>
    "Syntax Error: Document nesting exceeds the maximum depth of " ++ Text.ofInt maxDepth ++ "."
  | fragmentNotFound name => "Unknown fragment " ++ quoted name ++ "."
  | cyclicFragment cycle => describeCycle cycle
  | duplicateFragment name => "There can be only one fragment named " ++ quoted name ++ "."
  | operationNotFound message _ => message
  | subscriptionSelection message => message
  | unknownType _ message => message
  | unknownField parentType field =>
    "Cannot query field " ++ quoted field ++ " on type " ++ quoted parentType ++ "."
  | nullabilityModifier message => message
  | other _ message => message

end Cause

/-- Where a cause was met. Offsets say nothing without a source. -/
structure Whereabouts where
  source : Option Source := none
  positions : Option (List Int) := none
  path : Option (List PathSegment) := none
  deriving DecidableEq

namespace Whereabouts

def position (source : Source) (offset : Int) : Whereabouts :=
  { source := some source, positions := some [offset] }

def ofLocation? : Option Location → Whereabouts
  | some l => position l.source l.start
  | none => {}

def withPath (w : Whereabouts) (path : List Text) : Whereabouts := { w with path := some (path.map .key) }

end Whereabouts

structure Diagnostic where
  cause : Cause
  whereabouts : Whereabouts := {}
  deriving DecidableEq

namespace Diagnostic

def code (d : Diagnostic) : Text := d.cause.code

def message (d : Diagnostic) : Text := d.cause.message

def locations? (d : Diagnostic) : Option (List LineColumn) := do
  let source ← d.whereabouts.source
  let positions ← d.whereabouts.positions
  return positions.map source.body.lineColumn

def lexical (source : Source) (fault : LexicalFault) : Diagnostic :=
  ⟨.lexical fault.fault.describe, .position source fault.position⟩

def grammar (source : Source) (token : Token) (description : Text) (expected : Option Text := none) : Diagnostic :=
  ⟨.grammar description token expected, .position source token.start⟩

end Diagnostic

end QueryPlanner
