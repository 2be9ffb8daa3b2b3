import QueryPlanner.Document.Definition
import QueryPlanner.Tree

namespace QueryPlanner

abbrev ResponsePath := List Text

inductive LogLevel where
  | trace | debug | info | silent
  deriving DecidableEq, Repr

namespace LogLevel

def rank : LogLevel → Nat
  | trace => 10
  | debug => 20
  | info => 30
  | silent => 100

def all : List (Text × LogLevel) := [("trace", trace), ("debug", debug), ("info", info), ("silent", silent)]

def ofText? (text : Text) : Option LogLevel := all.lookup text

end LogLevel

inductive Event where
  | operationPrepared (name : Option Text) (fragments : List Text)
  | deferDisabled (path : ResponsePath)
  | deferNotAllowed (path : ResponsePath) (parentType : Text)
  | fragmentDeferred (path : ResponsePath) (parentType : Text)
  | streamDisabled (path : ResponsePath)
  | streamIgnored (path : ResponsePath) (field : Text)
  | fieldStreamed (path : ResponsePath) (id : Nat)
  | planBuilt (name : Option Text) (type : OperationType) (deferred streams : Nat)
  deriving DecidableEq

namespace Event

def level : Event → LogLevel
  | operationPrepared .. | streamIgnored .. | planBuilt .. => .debug
  | _ => .trace

def message : Event → Text
  | operationPrepared .. => "operation prepared"
  | deferDisabled .. => "@defer disabled, fragment inlined"
  | deferNotAllowed .. => "@defer below a non-deferrable field, fragment inlined"
  | fragmentDeferred .. => "fragment deferred"
  | streamDisabled .. => "@stream disabled"
  | streamIgnored .. => "@stream ignored on a field that is not a streamable list"
  | fieldStreamed .. => "field streamed"
  | planBuilt .. => "query plan built"

def details : Event → List (Text × Option Tree)
  | operationPrepared name fragments =>
    [("operationName", name.map .text), ("fragments", some (.ofTexts fragments))]
  | deferDisabled path | streamDisabled path => [("path", some (.ofTexts path))]
  | deferNotAllowed path parentType | fragmentDeferred path parentType =>
    [("path", some (.ofTexts path)), ("parentType", some (.text parentType))]
  | streamIgnored path field => [("path", some (.ofTexts path)), ("field", some (.text field))]
  | fieldStreamed path id => [("path", some (.ofTexts path)), ("id", some (.ofNat id))]
  | planBuilt name type deferred streams =>
    [("operationName", name.map .text), ("operationType", some (.text type.text)),
      ("deferred", some (.ofNat deferred)), ("streams", some (.ofNat streams))]

def record (e : Event) : Tree :=
  .ofEntries (("level", some (.ofNat e.level.rank)) :: ("msg", some (.text e.message)) :: e.details)

end Event

def LogLevel.keep (level : LogLevel) (events : List Event) : List Event :=
  events.filter fun e => level.rank ≤ e.level.rank

end QueryPlanner
