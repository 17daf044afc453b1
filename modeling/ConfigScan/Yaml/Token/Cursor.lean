/-
Module: ConfigScan.Yaml.Token.Cursor
Purpose: Positions in a YAML text, its line breaks, and its classes of characters.
Main exports: Mark, Cursor, Cursor.advance, Cursor.skipBreak, unifyBreaks, isPermitted
-/

namespace ConfigScan.Yaml

/-- A place in a text: its line and column, both counted from zero, and how many bytes of the line
    precede it. -/
structure Mark where
  line : Nat := 0
  column : Nat := 0
  bytes : Nat := 0
deriving DecidableEq, Repr, Inhabited

namespace Mark

/-- The place behind a character of the line. -/
def step (mark : Mark) (c : Char) : Mark :=
  { mark with column := mark.column + 1, bytes := mark.bytes + c.utf8Size }

/-- The place behind a break. -/
def feed (mark : Mark) : Mark := { line := mark.line + 1 }

end Mark

/-- What is left of a text, and where that is. -/
structure Cursor where
  rest : List Char
  mark : Mark := {}
deriving DecidableEq, Repr, Inhabited

/-- A character that a YAML text may hold. -/
def isPermitted (c : Char) : Bool :=
  let n := c.toNat
  n == 0x9 || n == 0xA || n == 0xD || (0x20 ≤ n && n ≤ 0x7E) || n == 0x85 ||
    (0xA0 ≤ n && n ≤ 0xD7FF) || (0xE000 ≤ n && n ≤ 0xFFFD) || 0x10000 ≤ n

/-- A text in which every carriage return, alone or with a line feed, and every next-line character
    is a line feed. -/
def unifyBreaks : List Char → List Char
  | [] => []
  | '\r' :: '\n' :: rest => '\n' :: unifyBreaks rest
  | c :: rest => (if c = '\r' ∨ c = '\x85' then '\n' else c) :: unifyBreaks rest

/-- A line break: a line feed, or one of the separators of lines and paragraphs. -/
def isBreak (c : Char) : Bool := c == '\n' || c == '\u2028' || c == '\u2029'

/-- A space or a tab. -/
def isSpace (c : Char) : Bool := c == ' ' || c == '\t'

/-- A space, a tab or a break. -/
def isGap (c : Char) : Bool := isSpace c || isBreak c

/-- The text ends here, or a space, tab or break comes next. -/
def atGap : List Char → Bool
  | [] => true
  | c :: _ => isGap c

/-- The text ends here, or a break comes next. -/
def atBreak : List Char → Bool
  | [] => true
  | c :: _ => isBreak c

/-- A character of a name: an ASCII letter or digit, an underscore or a dash. -/
def isWord (c : Char) : Bool := c.isAlphanum || c == '_' || c == '-'

/-- A line that begins or ends a document starts here. -/
def atDocumentLine : List Char → Bool
  | '-' :: '-' :: '-' :: rest => atGap rest
  | '.' :: '.' :: '.' :: rest => atGap rest
  | _ => false

namespace Cursor

/-- The cursor `n` characters later on the same line. -/
def advance (pos : Cursor) (n : Nat) : Cursor :=
  { rest := pos.rest.drop n, mark := (pos.rest.take n).foldl Mark.step pos.mark }

/-- The cursor behind the characters of the line that `p` accepts. -/
def skipWhile (p : Char → Bool) (pos : Cursor) : Cursor :=
  pos.advance (pos.rest.takeWhile p).length

/-- The cursor at the start of the next line, when a break comes next. -/
def skipBreak (pos : Cursor) : Cursor :=
  match pos.rest with
  | c :: rest => if isBreak c then { rest, mark := pos.mark.feed } else pos
  | [] => pos

/-- The cursor behind the spaces and the comment that end a line, and behind its break; none when
    anything else stands there. -/
def finishLine? (pos : Cursor) : Option Cursor :=
  let pos := pos.skipWhile isSpace
  let pos := match pos.rest with
    | '#' :: _ => pos.skipWhile fun c => !isBreak c
    | _ => pos
  if atBreak pos.rest then some pos.skipBreak else none

end Cursor

end ConfigScan.Yaml
