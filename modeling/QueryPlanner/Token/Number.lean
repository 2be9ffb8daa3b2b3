import QueryPlanner.Token
import QueryPlanner.Token.Fault

namespace QueryPlanner.Number
open CodeUnit (isDigit isNameStart)

structure Part where
  written : Text
  rest : Text

abbrev Result := Except LexicalFault

def digits (offset : Nat) (text : Text) : Result Part :=
  match text.takeWhile isDigit with
  | [] => .error ⟨offset, .digitExpected text.codePoint?⟩
  | written => .ok ⟨written, text.dropWhile isDigit⟩

def sign : Text → Part
  | 0x2d :: rest => ⟨[0x2d], rest⟩
  | text => ⟨[], text⟩

def integer (offset : Nat) : Text → Result Part
  | 0x30 :: u :: rest =>
    if isDigit u then .error ⟨offset + 1, .digitAfterZero u.toNat⟩ else .ok ⟨[0x30], u :: rest⟩
  | text => digits offset text

def fraction (offset : Nat) : Text → Result Part
  | 0x2e :: text => do
    let part ← digits (offset + 1) text
    return ⟨0x2e :: part.written, part.rest⟩
  | text => .ok ⟨[], text⟩

def exponentSign : Text → Part
  | u :: rest => if u = 0x2b ∨ u = 0x2d then ⟨[u], rest⟩ else ⟨[], u :: rest⟩
  | [] => ⟨[], []⟩

def exponent (offset : Nat) : Text → Result Part
  | u :: text =>
    if u = 0x45 ∨ u = 0x65 then do
      let sign := exponentSign text
      let part ← digits (offset + 1 + sign.written.length) sign.rest
      return ⟨u :: sign.written ++ part.written, part.rest⟩
    else .ok ⟨[], u :: text⟩
  | [] => .ok ⟨[], []⟩

def continues : Text → Bool
  | u :: _ => u == 0x2e || isNameStart u
  | [] => false

def scan (offset : Nat) (text : Text) : Result (TokenKind × Part) := do
  let sign := sign text
  let integer ← integer (offset + sign.written.length) sign.rest
  let whole := sign.written ++ integer.written
  let fraction ← fraction (offset + whole.length) integer.rest
  let exponent ← exponent (offset + whole.length + fraction.written.length) fraction.rest
  let written := whole ++ fraction.written ++ exponent.written
  if continues exponent.rest then
    throw ⟨offset + written.length, .digitExpected exponent.rest.codePoint?⟩
  let kind := if fraction.written = [] ∧ exponent.written = [] then TokenKind.int else TokenKind.float
  return (kind, ⟨written, exponent.rest⟩)

end QueryPlanner.Number
