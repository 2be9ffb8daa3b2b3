import QueryPlanner.Diagnostic
import QueryPlanner.Token.Scan

namespace QueryPlanner

/--
`ahead` is the token after the current one, once it has been looked at. Reading goes on at `rest` and `cursor`,
behind the last token read; comments in front of a token that could not be read stay read.
-/
structure TokenReader where
  source : Source
  lastToken : Token := .startOfFile
  token : Token := .startOfFile
  ahead : Option Token := none
  rest : Text := source.body
  cursor : Cursor := .start

namespace TokenReader

/-- A line end that was skipped in front of an unreadable token is counted, though it will be met again. -/
def skipLines (r : TokenReader) : TokenReader :=
  let skipped := (Scan.skipIgnored r.rest r.cursor).2
  { r with cursor := { r.cursor with line := skipped.line, lineStart := skipped.lineStart } }

def read : Nat → TokenReader → Except Diagnostic Token × TokenReader
  | 0, r => (.ok r.token, r)
  | fuel + 1, r =>
    match Scan.next r.rest r.cursor with
    | .error fault => (.error (.lexical r.source fault), r.skipLines)
    | .ok step =>
      let r := { r with rest := step.rest, cursor := step.cursor }
      if step.token.kind = .comment then read fuel r
      else (.ok step.token, { r with ahead := some step.token })

def lookahead (r : TokenReader) : Except Diagnostic Token × TokenReader :=
  if r.token.kind = .endOfFile then (.ok r.token, r)
  else match r.ahead with
    | some token => (.ok token, r)
    | none => read (r.rest.length + 1) r

/-- Moves to the next token. The token before is the last one even if there is nothing to move to. -/
def advance (r : TokenReader) : Except Diagnostic Token × TokenReader :=
  match lookahead { r with lastToken := r.token } with
  | (.ok token, r) => (.ok token, { r with token, ahead := none })
  | (.error d, r) => (.error d, r)

end TokenReader

end QueryPlanner
