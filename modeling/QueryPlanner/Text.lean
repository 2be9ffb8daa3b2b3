/-!
Texts are sequences of UTF-16 code units. Offsets, lengths and slices count units, and a text may hold half
of a surrogate pair; `Text.WellFormed` says that it holds none.
-/

namespace QueryPlanner

abbrev CodeUnit := UInt16

abbrev Text := List CodeUnit

namespace CodeUnit

abbrev tab : CodeUnit := 0x09
abbrev lineFeed : CodeUnit := 0x0a
abbrev carriageReturn : CodeUnit := 0x0d
abbrev space : CodeUnit := 0x20
abbrev quote : CodeUnit := 0x22
abbrev backslash : CodeUnit := 0x5c

def isLeadingSurrogate (u : CodeUnit) : Bool := 0xd800 ≤ u && u ≤ 0xdbff

def isTrailingSurrogate (u : CodeUnit) : Bool := 0xdc00 ≤ u && u ≤ 0xdfff

def isScalar (u : CodeUnit) : Bool := !(0xd800 ≤ u && u ≤ 0xdfff)

def isDigit (u : CodeUnit) : Bool := 0x30 ≤ u && u ≤ 0x39

def isNameStart (u : CodeUnit) : Bool :=
  (0x41 ≤ u && u ≤ 0x5a) || (0x61 ≤ u && u ≤ 0x7a) || u == 0x5f

def isNameContinue (u : CodeUnit) : Bool := isNameStart u || isDigit u

def isLineEnd (u : CodeUnit) : Bool := u == lineFeed || u == carriageReturn

def isBlank (u : CodeUnit) : Bool := u == tab || u == space

def hexValue? (u : CodeUnit) : Option Nat :=
  if 0x30 ≤ u && u ≤ 0x39 then some (u.toNat - 0x30)
  else if 0x41 ≤ u && u ≤ 0x46 then some (u.toNat - 0x37)
  else if 0x61 ≤ u && u ≤ 0x66 then some (u.toNat - 0x57)
  else none

end CodeUnit

def isScalarValue (point : Nat) : Bool :=
  point ≤ 0xd7ff || (0xe000 ≤ point && point ≤ 0x10ffff)

namespace Text

def ofCodePoint (point : Nat) : Text :=
  if point < 0x10000 then [point.toUInt16]
  else [(0xd800 + (point - 0x10000) / 0x400).toUInt16, (0xdc00 + (point - 0x10000) % 0x400).toUInt16]

def ofString (s : String) : Text := s.toList.flatMap fun c => ofCodePoint c.toNat

def pairPoint (lead trail : CodeUnit) : Nat :=
  0x10000 + (lead.toNat - 0xd800) * 0x400 + (trail.toNat - 0xdc00)

def isPair (lead trail : CodeUnit) : Bool := lead.isLeadingSurrogate && trail.isTrailingSurrogate

def codePoint? : Text → Option Nat
  | [] => none
  | [u] => some u.toNat
  | u :: v :: _ => some (if isPair u v then pairPoint u v else u.toNat)

/-- Every leading surrogate is followed by a trailing one, and each trailing one follows a leading one. -/
def isWellFormed : Text → Bool
  | [] => true
  | u :: rest =>
    if u.isScalar then isWellFormed rest
    else match rest with
      | v :: rest => isPair u v && isWellFormed rest
      | [] => false

def WellFormed (text : Text) : Prop := text.isWellFormed = true

instance (text : Text) : Decidable text.WellFormed := inferInstanceAs (Decidable (_ = true))

def chars? : Text → Option (List Char)
  | [] => some []
  | u :: rest =>
    if u.isScalar then (chars? rest).map (Char.ofNat u.toNat :: ·)
    else match rest with
      | v :: rest => if isPair u v then (chars? rest).map (Char.ofNat (pairPoint u v) :: ·) else none
      | [] => none

end Text

instance : Coe String Text := ⟨Text.ofString⟩

namespace Text

def ofNat (n : Nat) : Text := ofString (String.ofList (Nat.toDigits 10 n))

def ofInt : Int → Text
  | .ofNat n => ofNat n
  | .negSucc n => "-" ++ ofNat (n + 1)

def toInt : Text → Int
  | 0x2d :: digits => -(natOf digits : Int)
  | digits => (natOf digits : Int)
where
  natOf (digits : Text) : Nat := digits.foldl (fun n d => n * 10 + (d.toNat - 0x30)) 0

def hex (upper : Bool) (width n : Nat) : Text :=
  let digits := (Nat.toDigits 16 n).map fun c => if upper then c.toUpper else c
  ofString (String.ofList (List.replicate (width - digits.length) '0' ++ digits))

def join (separator : Text) (parts : List Text) : Text := separator.intercalate parts

def joinFilled (separator : Text) (parts : List Text) : Text :=
  join separator (parts.filter (· ≠ []))

def wrap (before text after : Text) : Text :=
  if text = [] then [] else before ++ text ++ after

/-- Moves every line of a text to the right by two spaces, unless the text is empty. -/
def indent (text : Text) : Text :=
  wrap "  " (text.flatMap fun u => if u = CodeUnit.lineFeed then (u :: ofString "  ") else [u]) []

def spaces (n : Nat) : Text := List.replicate n CodeUnit.space

end Text

end QueryPlanner
