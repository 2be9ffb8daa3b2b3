import QueryPlanner.Text

namespace QueryPlanner

inductive TokenKind where
  | startOfFile | endOfFile
  | bang | questionMark | dollar | ampersand | parenOpen | parenClose | spread | colon | equals | atSign
  | bracketOpen | bracketClose | braceOpen | pipe | braceClose
  | name | int | float | string | blockString | comment
  deriving DecidableEq, Repr

namespace TokenKind

def all : List TokenKind :=
  [startOfFile, endOfFile, bang, questionMark, dollar, ampersand, parenOpen, parenClose, spread, colon, equals,
    atSign, bracketOpen, bracketClose, braceOpen, pipe, braceClose, name, int, float, string, blockString, comment]

def text : TokenKind → Text
  | startOfFile => "<SOF>"
  | endOfFile => "<EOF>"
  | bang => "!"
  | questionMark => "?"
  | dollar => "$"
  | ampersand => "&"
  | parenOpen => "("
  | parenClose => ")"
  | spread => "..."
  | colon => ":"
  | equals => "="
  | atSign => "@"
  | bracketOpen => "["
  | bracketClose => "]"
  | braceOpen => "\x7b"
  | pipe => "|"
  | braceClose => "\x7d"
  | name => "Name"
  | int => "Int"
  | float => "Float"
  | string => "String"
  | blockString => "BlockString"
  | comment => "Comment"

def ofText? (text : Text) : Option TokenKind := all.find? (·.text = text)

@[simp] theorem ofText?_text (kind : TokenKind) : ofText? kind.text = some kind := by
  cases kind <;> decide

def isPunctuator : TokenKind → Bool
  | startOfFile | endOfFile | name | int | float | string | blockString | comment => false
  | _ => true

def describe (kind : TokenKind) : Text :=
  if kind.isPunctuator then "\"" ++ kind.text ++ "\"" else kind.text

def ofUnit? (u : CodeUnit) : Option TokenKind :=
  if u = 0x21 then some bang
  else if u = 0x3f then some questionMark
  else if u = 0x24 then some dollar
  else if u = 0x26 then some ampersand
  else if u = 0x28 then some parenOpen
  else if u = 0x29 then some parenClose
  else if u = 0x3a then some colon
  else if u = 0x3d then some equals
  else if u = 0x40 then some atSign
  else if u = 0x5b then some bracketOpen
  else if u = 0x5d then some bracketClose
  else if u = 0x7b then some braceOpen
  else if u = 0x7c then some pipe
  else if u = 0x7d then some braceClose
  else none

end TokenKind

/-- A token spans the offsets from `start` up to `stop`. Its value is empty for punctuators. -/
structure Token where
  kind : TokenKind
  start : Nat
  stop : Nat
  line : Nat
  column : Nat
  value : Text := []
  deriving DecidableEq, Repr

namespace Token

def startOfFile : Token := { kind := .startOfFile, start := 0, stop := 0, line := 0, column := 0 }

def describe (token : Token) : Text :=
  if token.kind.isPunctuator || token.kind == .startOfFile || token.kind == .endOfFile then token.kind.describe
  else token.kind.describe ++ " \"" ++ token.value ++ "\""

end Token

end QueryPlanner
