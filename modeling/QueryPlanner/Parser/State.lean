import QueryPlanner.Token.Stream

/-!
The state of a parser and its elementary steps. A step that fails leaves the state as it stands: tokens taken
stay taken and levels opened stay open.
-/

namespace QueryPlanner

structure ParseOptions where
  noLocation : Bool := false
  /-- The most tokens that may be read, the end of the file not counted. -/
  maxTokens : Option Int := none
  /-- The most levels of selection sets, lists, objects, list types and list modifiers that may be open. -/
  maxDepth : Option Int := none
  allowFragmentVariables : Bool := false

def ParseOptions.defaultMaxDepth : Int := 128

def ParseOptions.depthLimit (o : ParseOptions) : Int := o.maxDepth.getD defaultMaxDepth

/--
The current token, the one before it, the tokens to come, the tokens taken, the open levels, and the calls of `advance`,
failed ones among them.
-/
structure ParserState where
  source : Source
  options : ParseOptions := {}
  lastToken : Token := .startOfFile
  token : Token := .startOfFile
  upcoming : TokenStream := .ofText source.body
  tokenCount : Nat := 0
  depth : Nat := 0
  advances : Nat := 0

namespace ParserState

def levelsLeft (s : ParserState) : Nat := (s.options.depthLimit - s.depth).toNat

def tokensLeft (s : ParserState) : Nat := s.upcoming.length

end ParserState

abbrev Parser := EStateM Diagnostic ParserState

namespace Parser

def currentToken : Parser Token := return (← get).token

def peek (kind : TokenKind) : Parser Bool := return (← get).token.kind = kind

def unexpectedAt (token : Token) : Parser Diagnostic := do
  return .grammar (← get).source token ("Unexpected " ++ token.describe ++ ".")

def unexpected : Parser Diagnostic := do unexpectedAt (← get).token

def exceedsTokens (s : ParserState) : Option Diagnostic := do
  let most ← s.options.maxTokens
  if (s.tokenCount : Int) ≤ most then none
  return .grammar s.source s.token ("Document contains more that " ++ Text.ofInt most ++ " tokens. Parsing aborted.")

def advance : Parser Unit := do
  let s ← get
  let s := { s with lastToken := s.token, advances := s.advances + 1 }
  match s.upcoming with
  | .endOfFile token => set { s with token }
  | .fault fault =>
    set s
    throw (.lexical s.source fault)
  | .cons token upcoming =>
    let s := { s with token, upcoming, tokenCount := s.tokenCount + 1 }
    set s
    match exceedsTokens s with
    | some d => throw d
    | none => return

def expectToken (kind : TokenKind) : Parser Token := do
  let s ← get
  if s.token.kind = kind then
    advance
    return s.token
  throw (.grammar s.source s.token ("Expected " ++ kind.describe ++ ", found " ++ s.token.describe ++ ".")
    (some kind.text))

def optionalToken (kind : TokenKind) : Parser Bool := do
  if (← get).token.kind = kind then
    advance
    return true
  return false

def isKeyword (token : Token) (word : Text) : Bool := token.kind == .name && token.value == word

def expectKeyword (word : Text) : Parser Unit := do
  let s ← get
  if isKeyword s.token word then advance
  else throw (.grammar s.source s.token ("Expected \"" ++ word ++ "\", found " ++ s.token.describe ++ ".") (some word))

def optionalKeyword (word : Text) : Parser Bool := do
  if isKeyword (← get).token word then
    advance
    return true
  return false

def locationFrom (start : Token) : Parser (Option Location) := do
  let s ← get
  if s.options.noLocation then return none
  return some ⟨s.source, start.start, s.lastToken.stop, start.line, start.column⟩

def tooDeep : Parser α := do
  let s ← get
  throw ⟨.depthLimit s.options.depthLimit, .position s.source s.token.start⟩

def nested (inner : Parser α) : Parser α := do
  let s ← get
  if s.options.depthLimit ≤ s.depth then tooDeep
  else
    set { s with depth := s.depth + 1 }
    let result ← inner
    modify fun s => { s with depth := s.depth - 1 }
    return result

/-- Reads items up to a closing token. Every item takes a token, so their number is bounded by the tokens left. -/
def itemsUntil (close : TokenKind) (item : Parser α) : Nat → Parser (List α)
  | 0 => return []
  | fuel + 1 => do
    if ← optionalToken close then return []
    let first ← item
    return first :: (← itemsUntil close item fuel)

def any (opening : TokenKind) (item : Parser α) (close : TokenKind) : Parser (List α) := do
  let _ ← expectToken opening
  itemsUntil close item ((← get).tokensLeft + 1)

def oneOrMore (item : Parser α) (close : TokenKind) : Parser (List α) := do
  let first ← item
  return first :: (← itemsUntil close item ((← get).tokensLeft + 1))

def many (opening : TokenKind) (item : Parser α) (close : TokenKind) : Parser (List α) := do
  let _ ← expectToken opening
  oneOrMore item close

def optionalMany (opening : TokenKind) (item : Parser α) (close : TokenKind) : Parser (List α) := do
  if ← optionalToken opening then oneOrMore item close else return []

def itemsWhile (kind : TokenKind) (item : Parser α) : Nat → Parser (List α)
  | 0 => return []
  | fuel + 1 => do
    if ← peek kind then
      let first ← item
      return first :: (← itemsWhile kind item fuel)
    return []

end Parser

end QueryPlanner
