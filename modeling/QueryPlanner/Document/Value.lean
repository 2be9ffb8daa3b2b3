import QueryPlanner.Source

namespace QueryPlanner

structure Name where
  text : Text
  loc : Option Location := none

structure Variable where
  name : Name
  loc : Option Location := none

mutual

/-- Numbers keep the text they were written with. -/
inductive Value where
  | var (v : Variable)
  | int (text : Text) (loc : Option Location)
  | float (text : Text) (loc : Option Location)
  | string (text : Text) (block : Bool) (loc : Option Location)
  | boolean (b : Bool) (loc : Option Location)
  | null (loc : Option Location)
  | enum (text : Text) (loc : Option Location)
  | list (values : List Value) (loc : Option Location)
  | object (fields : List ObjectField) (loc : Option Location)

structure ObjectField where
  name : Name
  value : Value
  loc : Option Location := none

end

structure Argument where
  name : Name
  value : Value
  loc : Option Location := none

structure Directive where
  name : Name
  arguments : List Argument
  loc : Option Location := none

namespace Value

def loc : Value → Option Location
  | var v => v.loc
  | int _ loc | float _ loc | string _ _ loc | boolean _ loc | null loc | enum _ loc | list _ loc
  | object _ loc => loc

def boolean? : Value → Option Bool
  | boolean b _ => some b
  | _ => none

def string? : Value → Option Text
  | string text .. => some text
  | _ => none

def varName? : Value → Option Text
  | var v => some v.name.text
  | _ => none

end Value

namespace Directive

def argument? (d : Directive) (name : Text) : Option Value :=
  (d.arguments.find? (·.name.text = name)).map (·.value)

def find? (directives : List Directive) (name : Text) : Option Directive :=
  directives.find? (·.name.text = name)

end Directive

end QueryPlanner
