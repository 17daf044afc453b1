/-
Module: ConfigScan.Yaml.Token.Reader
Purpose: Cutting a YAML text into tokens. A scalar or collection may turn out to be a mapping key
  only when the colon behind it is met, so its place among the tokens is remembered until then.
Main exports: Reader, Reader.fetch, tokens?
-/
import ConfigScan.Yaml.Token.Basic
import ConfigScan.Yaml.Token.Block
import ConfigScan.Yaml.Token.Plain
import ConfigScan.Yaml.Token.Quoted

namespace ConfigScan.Yaml

/-- A token that may be the start of a key: how many tokens precede it, where it stands, and
    whether nothing else can stand there. -/
structure Candidate where
  number : Nat
  mark : Mark
  required : Bool
deriving DecidableEq, Repr, Inhabited

/-- The state of reading: the tokens so far, last first, and their number; the columns of the open
    block collections, innermost first; the candidate key of the innermost flow collection and
    those of the collections around it; and whether a key may start here. -/
structure Reader where
  pos : Cursor
  tokens : List Token := []
  count : Nat := 0
  indents : List Nat := []
  candidate : Option Candidate := none
  outer : List (Option Candidate) := []
  keyAllowed : Bool := true
deriving Repr, Inhabited

namespace Reader

/-- Some flow collection is open. -/
def inFlow (r : Reader) : Bool := !r.outer.isEmpty

/-- Add a token at the end. -/
def emit (r : Reader) (token : Token) : Reader :=
  { r with tokens := token :: r.tokens, count := r.count + 1 }

/-- Insert a token behind the first `number` tokens. -/
def insertAt (r : Reader) (number : Nat) (token : Token) : Reader :=
  let later := r.count - number
  { r with tokens := r.tokens.take later ++ token :: r.tokens.drop later, count := r.count + 1 }

/-- Open a block collection at a column deeper than the current one, with its token at the end or
    behind the first `number` tokens. -/
def indent (r : Reader) (column : Nat) (token : Token) (number : Option Nat) : Reader :=
  if r.inFlow || r.indents.head?.any (column ≤ ·) then r
  else
    let r := { r with indents := column :: r.indents }
    match number with
    | some n => r.insertAt n token
    | none => r.emit token

/-- Close the block collections that stand deeper than `column`, or all of them. -/
def dedent (r : Reader) (column : Option Nat) : Reader :=
  if r.inFlow then r
  else
    let isDeeper (i : Nat) : Bool := match column with
      | some c => c < i
      | none => true
    let n := (r.indents.takeWhile isDeeper).length
    { r with
      tokens := List.replicate n .blockEnd ++ r.tokens
      count := r.count + n
      indents := r.indents.drop n }

/-- Give up the current candidate key. One that is required cannot be given up. -/
def dropCandidate (r : Reader) : Option Reader :=
  if r.candidate.any (·.required) then none else some { r with candidate := none }

/-- Remember the next token as a candidate key, if a key may start here. -/
def saveCandidate (r : Reader) : Option Reader :=
  if !r.keyAllowed then some r
  else do
    let r ← r.dropCandidate
    let required := !r.inFlow && r.indents.head? == some r.pos.mark.column
    return { r with candidate := some { number := r.count, mark := r.pos.mark, required } }

/-- The longest key, in bytes, that a colon may follow. -/
def maxKeyLength : Nat := 1024

/-- Give up a candidate that stands on an earlier line or too far back. -/
def refresh (now : Mark) : Option Candidate → Option (Option Candidate)
  | none => some none
  | some c =>
      if c.mark.line < now.line || c.mark.bytes + maxKeyLength < now.bytes then
        if c.required then none else some none
      else some (some c)

/-- Give up all candidates that no colon can reach any more. -/
def refreshCandidates (r : Reader) : Option Reader := do
  let candidate ← refresh r.pos.mark r.candidate
  let outer ← r.outer.mapM (refresh r.pos.mark)
  return { r with candidate, outer }

/-- Go past spaces, comments and breaks. A tab counts as a space where no key may start, and a
    break allows a key outside flow collections. The byte order mark is passed at the very start. -/
def skipGaps (inFlow : Bool) (keyAllowed inComment : Bool) (mark : Mark) :
    List Char → Bool × Cursor
  | [] => (keyAllowed, { rest := [], mark })
  | c :: rest =>
      if isBreak c then skipGaps inFlow (keyAllowed || !inFlow) false mark.feed rest
      else if inComment then skipGaps inFlow keyAllowed true (mark.step c) rest
      else if c = ' ' || (c = '\t' && (inFlow || !keyAllowed)) then
        skipGaps inFlow keyAllowed false (mark.step c) rest
      else if c = '#' then skipGaps inFlow keyAllowed true (mark.step c) rest
      else if c = '\ufeff' && mark == {} then
        skipGaps inFlow keyAllowed false (mark.step c) rest
      else (keyAllowed, { rest := c :: rest, mark })

/-- Go to the start of the next token. -/
def toToken (r : Reader) : Reader :=
  let (keyAllowed, pos) := skipGaps r.inFlow r.keyAllowed false r.pos.mark r.pos.rest
  { r with keyAllowed, pos }

/-- The reader behind the next `n` characters. -/
def advance (r : Reader) (n : Nat) : Reader := { r with pos := r.pos.advance n }

/-! ### One kind of token each -/

/-- The end of the text closes all that is open. -/
def fetchEnd (r : Reader) : Option Reader := do
  let r ← (r.dedent none).dropCandidate
  return ({ r with keyAllowed := false }).emit .streamEnd

/-- A directive closes all that is open. -/
def fetchDirective (r : Reader) : Option Reader := do
  let r ← (r.dedent none).dropCandidate
  let (directive, pos) ← Directive.read? (r.pos.advance 1)
  return ({ r with keyAllowed := false, pos }).emit (.directive directive)

/-- A document line closes all that is open. -/
def fetchDocumentLine (r : Reader) (token : Token) : Option Reader := do
  let r ← (r.dedent none).dropCandidate
  return (({ r with keyAllowed := false }).emit token).advance 3

/-- A bracket or brace that opens may be the start of a key, and allows keys behind it. -/
def fetchOpen (r : Reader) (token : Token) : Option Reader := do
  let r ← r.saveCandidate
  let r := { r with outer := r.candidate :: r.outer, candidate := none, keyAllowed := true }
  return (r.emit token).advance 1

/-- A bracket or brace that closes goes back to the candidate of the collection around it. -/
def fetchClose (r : Reader) (token : Token) : Option Reader := do
  let r ← r.dropCandidate
  let r := match r.outer with
    | candidate :: outer => { r with candidate, outer }
    | [] => r
  return (({ r with keyAllowed := false }).emit token).advance 1

/-- A comma starts the next entry. -/
def fetchComma (r : Reader) : Option Reader := do
  let r ← r.dropCandidate
  return (({ r with keyAllowed := true }).emit .comma).advance 1

/-- Outside flow collections, a dash or a sign of an entry stands only where a key may start. -/
def openEntry (r : Reader) (token : Token) : Option Reader :=
  if r.inFlow then some r
  else if r.keyAllowed then some (r.indent r.pos.mark.column token none)
  else none

/-- A dash opens a block sequence or goes on with it. -/
def fetchItem (r : Reader) : Option Reader := do
  let r ← (← r.openEntry .blockSeq).dropCandidate
  return (({ r with keyAllowed := true }).emit .item).advance 1

/-- A question mark opens a block mapping or goes on with it. -/
def fetchKey (r : Reader) : Option Reader := do
  let r ← (← r.openEntry .blockMap).dropCandidate
  return (({ r with keyAllowed := !r.inFlow }).emit .key).advance 1

/-- A colon makes the candidate a key, and the mapping it starts stands at the candidate's column.
    Without a candidate it is the value of an empty key. -/
def fetchValue (r : Reader) : Option Reader := do
  let r ← match r.candidate with
    | some c =>
        let r := (r.insertAt c.number .key).indent c.mark.column .blockMap (some c.number)
        some { r with candidate := none, keyAllowed := false }
    | none => do
        let r ← r.openEntry .blockMap
        some { r with keyAllowed := !r.inFlow }
  return (r.emit .value).advance 1

/-- A name behind `*` or `&` may be the start of a key. -/
def fetchName (r : Reader) (token : List Char → Token) : Option Reader := do
  let r ← r.saveCandidate
  let (name, pos) ← readName? (r.pos.advance 1)
  return ({ r with keyAllowed := false, pos }).emit (token name)

/-- A tag may be the start of a key. -/
def fetchTag (r : Reader) : Option Reader := do
  let r ← r.saveCandidate
  let (handle, suffix, pos) ← Tag.read? r.inFlow r.pos
  return ({ r with keyAllowed := false, pos }).emit (.tag handle suffix)

/-- A block scalar is never a key, and one may start behind it. -/
def fetchBlock (r : Reader) (folded : Bool) : Option Reader := do
  let r ← r.dropCandidate
  let (text, pos) ← Block.read? folded r.indents.head? (r.pos.advance 1)
  return ({ r with keyAllowed := true, pos }).emit (.scalar false text)

/-- A quoted scalar may be the start of a key. -/
def fetchQuoted (r : Reader) (double : Bool) : Option Reader := do
  let r ← r.saveCandidate
  let (text, pos) ← Quoted.read? double (r.pos.advance 1)
  return ({ r with keyAllowed := false, pos }).emit (.scalar false text)

/-- A plain scalar may be the start of a key. A break at its end allows a key behind it. -/
def fetchPlain (r : Reader) : Option Reader := do
  let r ← r.saveCandidate
  let least := match r.indents.head? with
    | some i => i + 1
    | none => 0
  let (text, broken, pos) ← Plain.read? r.inFlow least r.pos
  return ({ r with keyAllowed := broken, pos }).emit (.scalar true text)

/-- The token that starts with a character of its own. -/
def fetchMarked (r : Reader) (c : Char) (rest : List Char) : Option Reader :=
  match c with
  | '[' => r.fetchOpen .flowSeqOpen
  | '{' => r.fetchOpen .flowMapOpen
  | ']' => r.fetchClose .flowSeqClose
  | '}' => r.fetchClose .flowMapClose
  | ',' => r.fetchComma
  | '*' => r.fetchName .alias
  | '&' => r.fetchName .anchor
  | '!' => r.fetchTag
  | '\'' => r.fetchQuoted false
  | '"' => r.fetchQuoted true
  | c =>
      if c = '-' && atGap rest then r.fetchItem
      else if c = '?' && (r.inFlow || atGap rest) then r.fetchKey
      else if c = ':' && (r.inFlow || atGap rest) then r.fetchValue
      else if c = '|' && !r.inFlow then r.fetchBlock false
      else if c = '>' && !r.inFlow then r.fetchBlock true
      else if startsPlain r.inFlow (c :: rest) then r.fetchPlain
      else none

/-- Read the next token. -/
def fetch (r : Reader) : Option Reader := do
  let r ← r.toToken.refreshCandidates
  let r := r.dedent (some r.pos.mark.column)
  match r.pos.rest with
  | [] => r.fetchEnd
  | c :: rest =>
      let lineStart := r.pos.mark.column = 0
      if lineStart && c = '%' then r.fetchDirective
      else if lineStart && atDocumentLine (c :: rest) then
        r.fetchDocumentLine (if c = '-' then .documentStart else .documentEnd)
      else r.fetchMarked c rest

/-- Read tokens up to the end of the text; `fuel` is more than the number of characters left. -/
def run : Nat → Reader → Option Reader
  | 0, _ => none
  | fuel + 1, r => do
      let r ← r.fetch
      if r.tokens.head? = some .streamEnd then return r else run fuel r

end Reader

/-- The tokens of a text. A text with a character that YAML does not permit has none. -/
def tokens? (text : List Char) : Option (List Token) :=
  if text.all isPermitted then
    (Reader.run (text.length + 2) { pos := { rest := unifyBreaks text } }).map (·.tokens.reverse)
  else none

end ConfigScan.Yaml
