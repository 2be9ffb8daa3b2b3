import QueryPlanner.Diagnostic
import QueryPlanner.Token.Scan

namespace QueryPlanner

inductive TokenStream where
  | endOfFile (token : Token)
  | fault (fault : LexicalFault)
  | cons (token : Token) (rest : TokenStream)

namespace TokenStream

def length : TokenStream → Nat
  | endOfFile _ => 1
  | fault _ => 0
  | cons _ rest => rest.length + 1

def toList : TokenStream → Except LexicalFault (List Token)
  | endOfFile token => .ok [token]
  | fault f => .error f
  | cons token rest => return token :: (← rest.toList)

def scan : Nat → Text → Cursor → TokenStream
  | 0, _, c => endOfFile (c.token .endOfFile 0 [])
  | fuel + 1, text, c =>
    match Scan.next text c with
    | .error f => fault f
    | .ok step =>
      match step.token.kind with
      | .endOfFile => endOfFile step.token
      | .comment => scan fuel step.rest step.cursor
      | _ => cons step.token (scan fuel step.rest step.cursor)

/-- Every token but the last takes a unit of the text, so one more token than units is enough. -/
def ofText (text : Text) : TokenStream := scan (text.length + 1) text Cursor.start

end TokenStream

def Source.tokens (source : Source) : Except Diagnostic (List Token) :=
  (TokenStream.ofText source.body).toList.mapError (.lexical source)

end QueryPlanner
