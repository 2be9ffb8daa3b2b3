import QueryPlanner.Token.Stream
import QueryPlanner.Proofs.Syntax.Tree

namespace QueryPlanner

/-- A token without the place where it was read; only names, numbers and strings have a value. -/
structure Lexeme where
  kind : TokenKind
  value : Text := []
  deriving DecidableEq, Repr

namespace Lexeme

def mark (kind : TokenKind) : Lexeme := { kind }

def word (text : Text) : Lexeme := { kind := .name, value := text }

end Lexeme

def Token.lexeme (t : Token) : Lexeme where
  kind := t.kind
  value := if t.kind.isPunctuator then [] else t.value

def Source.lexemes (source : Source) : Except Diagnostic (List Lexeme) :=
  source.tokens.map fun tokens => (tokens.filter (·.kind ≠ .endOfFile)).map Token.lexeme

namespace Grammar
open Lexeme (mark word)

inductive Sequence (item : List Lexeme → α → Prop) : List Lexeme → List α → Prop
  | nil : Sequence item [] []
  | cons {ls rest : List Lexeme} {part : α} {parts : List α} :
      item ls part → Sequence item rest parts → Sequence item (ls ++ rest) (part :: parts)

inductive Maybe (item : List Lexeme → α → Prop) : List Lexeme → Option α → Prop
  | absent : Maybe item [] none
  | present {ls : List Lexeme} {part : α} : item ls part → Maybe item ls (some part)

inductive Parenthesized (item : List Lexeme → α → Prop) : List Lexeme → List α → Prop
  | absent : Parenthesized item [] []
  | present {ls : List Lexeme} {parts : List α} : Sequence item ls parts → parts ≠ [] →
      Parenthesized item (mark .parenOpen :: (ls ++ [mark .parenClose])) parts

inductive IsName : List Lexeme → Name → Prop
  | intro (text : Text) : IsName [word text] { text }

inductive IsVariable : List Lexeme → Variable → Prop
  | intro (text : Text) : IsVariable [mark .dollar, word text] { name := { text } }

def reservedValues : List Text := ["true", "false", "null"]

mutual

inductive IsValue (isConst : Bool) : List Lexeme → Value → Prop
  | var {ls : List Lexeme} {v : Variable} : isConst = false → IsVariable ls v → IsValue isConst ls (.var v)
  | int (text : Text) : IsValue isConst [⟨.int, text⟩] (.int text none)
  | float (text : Text) : IsValue isConst [⟨.float, text⟩] (.float text none)
  | string (text : Text) : IsValue isConst [⟨.string, text⟩] (.string text false none)
  | blockString (text : Text) : IsValue isConst [⟨.blockString, text⟩] (.string text true none)
  | boolean (b : Bool) : IsValue isConst [word (if b then "true" else "false")] (.boolean b none)
  | null : IsValue isConst [word "null"] (.null none)
  | enum {text : Text} : text ∉ reservedValues → IsValue isConst [word text] (.enum text none)
  | list {ls : List Lexeme} {values : List Value} : Sequence (IsValue isConst) ls values →
      IsValue isConst (mark .bracketOpen :: (ls ++ [mark .bracketClose])) (.list values none)
  | object {ls : List Lexeme} {fields : List ObjectField} : Sequence (IsObjectField isConst) ls fields →
      IsValue isConst (mark .braceOpen :: (ls ++ [mark .braceClose])) (.object fields none)

inductive IsObjectField (isConst : Bool) : List Lexeme → ObjectField → Prop
  | intro {ls : List Lexeme} {value : Value} (text : Text) : IsValue isConst ls value →
      IsObjectField isConst (word text :: mark .colon :: ls) { name := { text }, value }

end

inductive IsArgument (isConst : Bool) : List Lexeme → Argument → Prop
  | intro {ls : List Lexeme} {value : Value} (text : Text) : IsValue isConst ls value →
      IsArgument isConst (word text :: mark .colon :: ls) { name := { text }, value }

inductive IsDirective (isConst : Bool) : List Lexeme → Directive → Prop
  | intro {ls : List Lexeme} {arguments : List Argument} (text : Text) : Parenthesized (IsArgument isConst) ls arguments →
      IsDirective isConst (mark .atSign :: word text :: ls) { name := { text }, arguments }

abbrev AreDirectives (isConst : Bool) : List Lexeme → List Directive → Prop := Sequence (IsDirective isConst)

inductive IsNamedType : List Lexeme → NamedType → Prop
  | intro (text : Text) : IsNamedType [word text] { name := { text } }

inductive IsTypeRef : List Lexeme → TypeRef → Prop
  | named {ls : List Lexeme} {type : NamedType} : IsNamedType ls type → IsTypeRef ls (.named type)
  | list {ls : List Lexeme} {item : TypeRef} : IsTypeRef ls item →
      IsTypeRef (mark .bracketOpen :: (ls ++ [mark .bracketClose])) (.list item none)
  | nonNull {ls : List Lexeme} {type : TypeRef} : IsTypeRef ls type → type.isNonNull = false →
      IsTypeRef (ls ++ [mark .bang]) (.nonNull type none)

mutual

inductive IsModifier : List Lexeme → Option Modifier → Prop
  | unmarked {ls : List Lexeme} {element : Option Modifier} : IsBrackets ls element → IsModifier ls element
  | required {ls : List Lexeme} {element : Option Modifier} : IsBrackets ls element →
      IsModifier (ls ++ [mark .bang]) (some (.required element none))
  | optional {ls : List Lexeme} {element : Option Modifier} : IsBrackets ls element →
      IsModifier (ls ++ [mark .questionMark]) (some (.optional element none))

inductive IsBrackets : List Lexeme → Option Modifier → Prop
  | absent : IsBrackets [] none
  | list {ls : List Lexeme} {element : Option Modifier} : IsModifier ls element →
      IsBrackets (mark .bracketOpen :: (ls ++ [mark .bracketClose])) (some (.list element none))

end

inductive IsFieldName : List Lexeme → Option Name × Name → Prop
  | plain (text : Text) : IsFieldName [word text] (none, { text })
  | renamed (text text' : Text) : IsFieldName [word text, mark .colon, word text'] (some { text }, { text := text' })

inductive IsFragmentSpread : List Lexeme → FragmentSpread → Prop
  | intro {ls : List Lexeme} {directives : List Directive} {text : Text} : text ≠ "on" → AreDirectives false ls directives →
      IsFragmentSpread (mark .spread :: word text :: ls) { name := { text }, directives }

inductive IsTypeCondition : List Lexeme → NamedType → Prop
  | intro (text : Text) : IsTypeCondition [word "on", word text] { name := { text } }

mutual

inductive IsField : List Lexeme → Field → Prop
  | intro {names as ms ds ls : List Lexeme} {responseName : Option Name} {name : Name} {arguments : List Argument}
      {modifier : Option Modifier} {directives : List Directive} {set : Option SelectionSet} :
      IsFieldName names (responseName, name) → Parenthesized (IsArgument false) as arguments → IsModifier ms modifier →
      AreDirectives false ds directives → Maybe IsSelectionSet ls set →
      IsField (names ++ (as ++ (ms ++ (ds ++ ls)))) ⟨responseName, name, arguments, modifier, directives, set, none⟩

inductive IsInlineFragment : List Lexeme → InlineFragment → Prop
  | intro {ts ds ls : List Lexeme} {type : Option NamedType} {directives : List Directive} {set : SelectionSet} :
      Maybe IsTypeCondition ts type → AreDirectives false ds directives → IsSelectionSet ls set →
      IsInlineFragment (mark .spread :: (ts ++ (ds ++ ls))) ⟨type, directives, set, none⟩

inductive IsSelection : List Lexeme → Selection → Prop
  | field {ls : List Lexeme} {f : Field} : IsField ls f → IsSelection ls (.field f)
  | spread {ls : List Lexeme} {s : FragmentSpread} : IsFragmentSpread ls s → IsSelection ls (.spread s)
  | inline {ls : List Lexeme} {f : InlineFragment} : IsInlineFragment ls f → IsSelection ls (.inline f)

inductive IsSelectionSet : List Lexeme → SelectionSet → Prop
  | intro {ls : List Lexeme} {selections : List Selection} : Sequence IsSelection ls selections → selections ≠ [] →
      IsSelectionSet (mark .braceOpen :: (ls ++ [mark .braceClose])) ⟨selections, none⟩

end

inductive IsDefault : List Lexeme → Value → Prop
  | intro {ls : List Lexeme} {value : Value} : IsValue true ls value → IsDefault (mark .equals :: ls) value

inductive IsVariableDefinition : List Lexeme → VariableDefinition → Prop
  | intro {vs ts ls ds : List Lexeme} {var : Variable} {type : TypeRef} {value : Option Value}
      {directives : List Directive} : IsVariable vs var → IsTypeRef ts type → Maybe IsDefault ls value →
      AreDirectives true ds directives →
      IsVariableDefinition (vs ++ (mark .colon :: (ts ++ (ls ++ ds)))) ⟨var, type, value, directives, none⟩

abbrev AreVariableDefinitions : List Lexeme → List VariableDefinition → Prop := Parenthesized IsVariableDefinition

inductive IsOperation : List Lexeme → Operation → Prop
  | shorthand {ls : List Lexeme} {set : SelectionSet} : IsSelectionSet ls set →
      IsOperation ls ⟨.query, none, [], [], set, none⟩
  | intro {ns vs ds ls : List Lexeme} {name : Option Name} {definitions : List VariableDefinition}
      {directives : List Directive} {set : SelectionSet} (type : OperationType) : Maybe IsName ns name →
      AreVariableDefinitions vs definitions → AreDirectives false ds directives → IsSelectionSet ls set →
      IsOperation (word type.text :: (ns ++ (vs ++ (ds ++ ls)))) ⟨type, name, definitions, directives, set, none⟩

inductive AreFragmentVariables : Bool → List Lexeme → Option (List VariableDefinition) → Prop
  | excluded : AreFragmentVariables false [] none
  | allowed {ls : List Lexeme} {definitions : List VariableDefinition} : AreVariableDefinitions ls definitions →
      AreFragmentVariables true ls (some definitions)

inductive IsFragment (allowVariables : Bool) : List Lexeme → Fragment → Prop
  | intro {vs ts ds ls : List Lexeme} {text : Text} {definitions : Option (List VariableDefinition)} {type : NamedType}
      {directives : List Directive} {set : SelectionSet} : text ≠ "on" →
      AreFragmentVariables allowVariables vs definitions → IsTypeCondition ts type → AreDirectives false ds directives →
      IsSelectionSet ls set →
      IsFragment allowVariables (word "fragment" :: word text :: (vs ++ (ts ++ (ds ++ ls))))
        ⟨{ text }, definitions, type, directives, set, none⟩

inductive IsDefinition (allowVariables : Bool) : List Lexeme → Definition → Prop
  | operation {ls : List Lexeme} {o : Operation} : IsOperation ls o → IsDefinition allowVariables ls (.operation o)
  | fragment {ls : List Lexeme} {f : Fragment} : IsFragment allowVariables ls f →
      IsDefinition allowVariables ls (.fragment f)

inductive IsDocument (allowVariables : Bool) : List Lexeme → Document → Prop
  | intro {ls : List Lexeme} {definitions : List Definition} : Sequence (IsDefinition allowVariables) ls definitions →
      definitions ≠ [] → IsDocument allowVariables ls { definitions }

def nextKind : List Lexeme → TokenKind
  | [] => .endOfFile
  | l :: _ => l.kind

@[simp] theorem nextKind_nil : nextKind [] = .endOfFile := rfl

@[simp] theorem nextKind_cons (l : Lexeme) (ls : List Lexeme) : nextKind (l :: ls) = l.kind := rfl

end Grammar

end QueryPlanner
