import QueryPlanner.Text

namespace QueryPlanner.Quoted

def shortEscape? (u : CodeUnit) : Option CodeUnit :=
  if u = 0x08 then some 0x62
  else if u = 0x09 then some 0x74
  else if u = 0x0a then some 0x6e
  else if u = 0x0c then some 0x66
  else if u = 0x0d then some 0x72
  else if u = CodeUnit.quote ∨ u = CodeUnit.backslash then some u
  else none

def hexEscape (upper : Bool) (u : CodeUnit) : Text := "\\u" ++ Text.hex upper 4 u.toNat

def enclose (text : Text) : Text := CodeUnit.quote :: text ++ [CodeUnit.quote]

def escapeLiteralUnit (u : CodeUnit) : Text :=
  match shortEscape? u with
  | some letter => [CodeUnit.backslash, letter]
  | none => if u < 0x20 || (0x7f ≤ u && u ≤ 0x9f) then hexEscape true u else [u]

/-- A string literal: control characters of both ranges are escaped with upper-case digits. -/
def literal (text : Text) : Text := enclose (text.flatMap escapeLiteralUnit)

def escapeLabelUnit (u : CodeUnit) : Text :=
  match shortEscape? u with
  | some letter => [CodeUnit.backslash, letter]
  | none => if u < 0x20 then hexEscape false u else [u]

def escapeLabel : Text → Text
  | [] => []
  | [u] => if u.isScalar then escapeLabelUnit u else hexEscape false u
  | u :: v :: rest =>
    if u.isScalar then escapeLabelUnit u ++ escapeLabel (v :: rest)
    else if Text.isPair u v then u :: v :: escapeLabel rest
    else hexEscape false u ++ escapeLabel (v :: rest)

/-- A label as a JSON string: the lower control characters and lone surrogates are escaped with lower-case digits. -/
def label (text : Text) : Text := enclose (escapeLabel text)

end QueryPlanner.Quoted
