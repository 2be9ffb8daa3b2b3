import QueryPlanner.Token.Fault

namespace QueryPlanner.StringLiteral
open CodeUnit

structure Escape where
  value : Text
  size : Nat

def maxEscapeSize : Nat := 12

abbrev Word := BitVec 32

/-- The value of a hexadecimal digit. Other units, and the end of the text, have all bits set. -/
def digitWord (u : Option CodeUnit) : Word :=
  match u.bind hexValue? with
  | some digit => BitVec.ofNat 32 digit
  | none => BitVec.allOnes 32

/--
Reads digits up to the closing brace of a braced escape sequence, after `size` of its units and the number
`point`. A failure tells how many units were looked at: the first that cannot belong to a scalar value is the last.
-/
def bracedEscape : Text → Nat → Word → Except Nat Escape
  | [], size, _ => .error size
  | u :: rest, size, point =>
    if maxEscapeSize ≤ size then .error size
    else if u = 0x7d then
      if size < 4 || !isScalarValue point.toNat then .error (size + 1)
      else .ok ⟨Text.ofCodePoint point.toNat, size + 1⟩
    else
      let point := point <<< 4 ||| digitWord u
      if point.msb then .error (size + 1) else bracedEscape rest (size + 1) point

def fourDigits? (text : Text) : Option Nat :=
  let point := digitWord text[0]? <<< 12 ||| digitWord text[1]? <<< 8 ||| digitWord text[2]? <<< 4 ||| digitWord text[3]?
  if point.msb then none else some point.toNat

def trailingHalf? : Text → Option CodeUnit
  | 0x5c :: 0x75 :: rest => do
    let trail : CodeUnit := (← fourDigits? rest).toUInt16
    if isTrailingSurrogate trail then some trail else none
  | _ => none

/-- A scalar value in four digits, or the two halves of a pair in two sequences of four; `digits` follows the letter. -/
def fixedEscape? (digits : Text) : Option Escape := do
  let point ← fourDigits? digits
  if isScalarValue point then return ⟨Text.ofCodePoint point, 6⟩
  let lead : CodeUnit := point.toUInt16
  if isLeadingSurrogate lead then
    let trail ← trailingHalf? (digits.drop 4)
    return ⟨[lead, trail], 12⟩
  failure

def shortEscape? (u : CodeUnit) : Option CodeUnit :=
  if u = CodeUnit.quote ∨ u = CodeUnit.backslash ∨ u = 0x2f then some u
  else if u = 0x62 then some 0x08
  else if u = 0x66 then some 0x0c
  else if u = 0x6e then some 0x0a
  else if u = 0x72 then some 0x0d
  else if u = 0x74 then some 0x09
  else none

def escape : Text → Except LexemeFault Escape
  | 0x75 :: 0x7b :: rest =>
    match bracedEscape rest 3 0 with
    | .ok escape => .ok escape
    | .error size => .error (.invalidUnicodeEscape ((CodeUnit.backslash :: 0x75 :: 0x7b :: rest).take size))
  | 0x75 :: rest =>
    match fixedEscape? rest with
    | some escape => .ok escape
    | none => .error (.invalidUnicodeEscape ((CodeUnit.backslash :: 0x75 :: rest).take 6))
  | u :: _ =>
    match shortEscape? u with
    | some value => .ok ⟨[value], 2⟩
    | none => .error (.invalidEscape [CodeUnit.backslash, u])
  | [] => .error (.invalidEscape [CodeUnit.backslash])

structure Scanned where
  value : Text
  stop : Nat
  rest : Text

/--
Reads characters up to the closing quote. `start` is the offset of the opening quote, `offset` that of the text
and `value`, back to front, what the characters so far stand for; `skip` units belong to an escape sequence
already read.
-/
def characters (start : Nat) : Text → Nat → Nat → Text → Except LexicalFault Scanned
  | [], _, _, _ => .error ⟨start, .unterminatedString⟩
  | _ :: rest, skip + 1, offset, value => characters start rest skip (offset + 1) value
  | u :: rest, 0, offset, value =>
    if u = quote then .ok ⟨value.reverse, offset + 1, rest⟩
    else if u = backslash then
      match escape rest with
      | .ok escape => characters start rest (escape.size - 1) (offset + 1) (escape.value.reverse ++ value)
      | .error fault => .error ⟨offset, fault⟩
    else if u.isLineEnd then .error ⟨start, .unterminatedString⟩
    else if u.isScalar then characters start rest 0 (offset + 1) (u :: value)
    else match rest with
      | v :: rest =>
        if Text.isPair u v then characters start rest 0 (offset + 2) (v :: u :: value)
        else .error ⟨offset, .invalidInString u.toNat⟩
      | [] => .error ⟨offset, .invalidInString u.toNat⟩

def scan (start : Nat) (text : Text) : Except LexicalFault Scanned := characters start text 0 (start + 1) []

end QueryPlanner.StringLiteral
