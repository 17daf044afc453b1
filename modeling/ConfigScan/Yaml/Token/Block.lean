/-
Module: ConfigScan.Yaml.Token.Block
Purpose: Block scalars: literal ones behind `|` and folded ones behind `>`.
Main exports: Block.Header, Block.readHeader?, Block.read?
-/
import ConfigScan.Yaml.Token.Cursor

namespace ConfigScan.Yaml.Block

/-- What becomes of the breaks at the end. -/
inductive Chomp where
  | strip
  | clip
  | keep
deriving DecidableEq, Repr, Inhabited

/-- The signs behind the indicator. -/
structure Header where
  chomp : Chomp := .clip
  /-- How much deeper than its parent the scalar is indented; zero when it has to be found out. -/
  increment : Nat := 0
deriving DecidableEq, Repr, Inhabited

/-- Read a chomping sign. -/
def chomp? : List Char → Option Chomp
  | '+' :: _ => some .keep
  | '-' :: _ => some .strip
  | _ => none

/-- Read the signs of a header: a chomping sign and a digit, in either order. Zero is no
    indentation. -/
def readHeader? (pos : Cursor) : Option (Header × Cursor) :=
  let digit? (pos : Cursor) : Option (Nat × Cursor) :=
    match pos.rest with
    | c :: _ =>
        if c = '0' then none
        else if c.isDigit then some (c.toNat - '0'.toNat, pos.advance 1) else some (0, pos)
    | [] => some (0, pos)
  match chomp? pos.rest with
  | some chomp => do
      let (increment, pos) ← digit? (pos.advance 1)
      return ({ chomp, increment }, pos)
  | none => do
      let (increment, pos) ← digit? pos
      if increment = 0 then return ({}, pos)
      else
        match chomp? pos.rest with
        | some chomp => return ({ chomp, increment }, pos.advance 1)
        | none => return ({ increment }, pos)

/-- What is read so far: the text, last character first, the break that ended its last line, the
    empty lines since, last first, and whether the last line started with a space. -/
structure State where
  text : List Char := []
  ending : Option Char := none
  empty : List Char := []
  spaced : Bool := false
deriving DecidableEq, Repr, Inhabited

namespace State

/-- The text with the breaks before a new line that starts with `c`. A folded scalar turns the
    single break between two lines into a space, unless one of them starts with a space. -/
def startLine (s : State) (folded : Bool) (c : Char) : State :=
  let joined :=
    if folded && s.ending == some '\n' && !s.spaced && !isSpace c then
      if s.empty.isEmpty then [' '] else s.empty
    else s.empty ++ s.ending.toList
  { text := c :: joined ++ s.text, spaced := isSpace c }

/-- The whole text, with the breaks at its end that are to stay. -/
def finish (s : State) (chomp : Chomp) : List Char :=
  (match chomp with
    | .strip => s.text
    | .clip => s.ending.toList ++ s.text
    | .keep => s.empty ++ s.ending.toList ++ s.text).reverse

end State

/-- Read on, inside a line or in front of one. The indentation `indent` is zero until it is known;
    `deepest` is the greatest column met in front of a line so far, and `least` the smallest
    indentation there can be. A tab may not stand where indentation is expected. -/
def readFrom (folded : Bool) (chomp : Chomp) (least : Nat) (inLine : Bool) (indent deepest : Nat)
    (s : State) (mark : Mark) : List Char → Option (List Char × Cursor)
  | [] => some (s.finish chomp, { rest := [], mark })
  | c :: rest =>
      if inLine then
        if isBreak c then
          readFrom folded chomp least false indent 0 { s with ending := some c } mark.feed rest
        else
          readFrom folded chomp least true indent 0 { s with text := c :: s.text } (mark.step c)
            rest
      else
        let inIndent := indent == 0 || mark.column < indent
        let deepest := max deepest mark.column
        if inIndent && c == ' ' then
          readFrom folded chomp least false indent deepest s (mark.step c) rest
        else if inIndent && c == '\t' then none
        else if isBreak c then
          readFrom folded chomp least false indent deepest { s with empty := c :: s.empty }
            mark.feed rest
        else
          let indent := if indent == 0 then max deepest least else indent
          if mark.column = indent then
            readFrom folded chomp least true indent 0 (s.startLine folded c) (mark.step c) rest
          else some (s.finish chomp, { rest := c :: rest, mark })

/-- Read a block scalar from behind its indicator; `parent` is the indentation around it, if there
    is any. -/
def read? (folded : Bool) (parent : Option Nat) (pos : Cursor) : Option (List Char × Cursor) := do
  let (header, pos) ← readHeader? pos
  let pos ← pos.finishLine?
  let indent := if header.increment = 0 then 0 else parent.getD 0 + header.increment
  let least := match parent with
    | some p => p + 1
    | none => 1
  readFrom folded header.chomp least false indent 0 {} pos.mark pos.rest

end ConfigScan.Yaml.Block
