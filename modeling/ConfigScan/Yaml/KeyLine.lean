/-
Module: ConfigScan.Yaml.KeyLine
Purpose: What the text of a line shows about block mappings: its indentation, the dashes in front
  of it, and whether it writes a key.
Main exports: indent, stripDashes, isContent, isDashLine, isDocumentMarker, KeyLine, KeyLine.read?,
  KeyLine.isInline
-/
import ConfigScan.Text.Blank

namespace ConfigScan.Yaml

/-- The number of spaces at the start of a line. -/
def indent (line : List Char) : Nat := (line.takeWhile (· == ' ')).length

/-- The line holds more than white space and a comment. -/
def isContent (line : List Char) : Bool :=
  match Text.trim line with
  | [] => false
  | c :: _ => c != '#'

/-- The line is an item of a block sequence. -/
def isDashLine (line : List Char) : Bool :=
  match line.dropWhile (· == ' ') with
  | ['-'] => true
  | '-' :: ' ' :: _ => true
  | _ => false

/-- The line starts like one that begins or ends a document. -/
def isDocumentMarker (line : List Char) : Bool :=
  "---".toList.isPrefixOf line || "...".toList.isPrefixOf line

/-- The rest of a line behind its next spaces and item dashes, and the column where that starts. A
    dash counts when a space or the end of the line follows it. -/
def stripDashesFrom (column : Nat) : List Char → Nat × List Char
  | ' ' :: rest => stripDashesFrom (column + 1) rest
  | ['-'] => (column + 1, [])
  | '-' :: ' ' :: rest => stripDashesFrom (column + 2) rest
  | rest => (column, rest)

/-- The line behind its leading spaces and item dashes, and the column where that starts. -/
def stripDashes (line : List Char) : Nat × List Char := stripDashesFrom 0 line

/-- A line that writes a key of a block mapping: the key's column, the key as it is written, without
    quotes, and the trimmed text behind its colon. -/
structure KeyLine where
  column : Nat
  token : List Char
  value : List Char
deriving DecidableEq, Repr, Inhabited

namespace KeyLine

/-- Split a text at the closing quote of the quoted text it starts with. A backslash escapes a
    double quote, and a single quote is doubled. -/
def splitQuoted? (quote : Char) : List Char → Option (List Char × List Char)
  | [] => none
  | [c] => if c = quote then some ([], []) else none
  | c :: d :: rest =>
      if (quote = '"' ∧ c = '\\') ∨ (quote = '\'' ∧ c = '\'' ∧ d = '\'') then
        (splitQuoted? quote rest).map fun (t, after) => (c :: d :: t, after)
      else if c = quote then some ([], d :: rest)
      else (splitQuoted? quote (d :: rest)).map fun (t, after) => (c :: t, after)

/-- Split a text at the colon that ends a plain key: the end of the text, a space or a tab follows
    it. A comment in front of it means that there is none. -/
def splitPlain? (spaced : Bool) : List Char → Option (List Char × List Char)
  | [] => none
  | [':'] => some ([], [':'])
  | ':' :: c :: rest =>
      if c = ' ' ∨ c = '\t' then some ([], ':' :: c :: rest)
      else (splitPlain? false (c :: rest)).map fun (t, after) => (':' :: t, after)
  | c :: rest =>
      if c = '#' && spaced then none
      else
        (splitPlain? (c == ' ' || c == '\t') rest).map fun (t, after) => (c :: t, after)

/-- The key at the start of a text, as it is written, and what follows it. -/
def splitKey? (text : List Char) : Option (List Char × List Char) :=
  match text with
  | '"' :: rest => (splitQuoted? '"' rest).map fun (t, after) => (t, Text.trimStart after)
  | '\'' :: rest => (splitQuoted? '\'' rest).map fun (t, after) => (t, Text.trimStart after)
  | _ => do
      let (before, after) ← splitPlain? false text
      let token := Text.trimEnd before
      if token.isEmpty then none else return (token, after)

/-- The trimmed text behind a colon, behind which nothing, a space or a tab has to come. -/
def afterColon? : List Char → Option (List Char)
  | [':'] => some []
  | ':' :: c :: rest => if c = ' ' ∨ c = '\t' then some (Text.trim (c :: rest)) else none
  | _ => none

/-- Read a line that writes a key. -/
def read? (line : List Char) : Option KeyLine :=
  let (column, text) := stripDashes line
  match text with
  | [] => none
  | c :: _ =>
      if ['#', '{', '[', '?'].contains c then none
      else do
        let (token, after) ← splitKey? text
        let value ← afterColon? after
        return { column, token, value }

/-- The text without the anchors and tags in front of it, read from inside one or in front. -/
def dropProperties (inside : Bool) : List Char → List Char
  | [] => []
  | c :: rest =>
      if inside then dropProperties (!Text.isBlank c) rest
      else if Text.isBlank c then dropProperties false rest
      else if c = '&' ∨ c = '!' then dropProperties true rest
      else c :: rest

/-- The value starts behind the key as a flow collection or an alias, perhaps behind anchors and
    tags. -/
def isInline (key : KeyLine) : Bool :=
  match dropProperties false key.value with
  | c :: _ => ['{', '[', '*'].contains c
  | [] => false

end KeyLine

end ConfigScan.Yaml
