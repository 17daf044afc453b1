/-
Module: ConfigScan.Yaml.Outline
Purpose: Where the keys of block mappings stand in the source, and where such a mapping ends. The
  lines of a mapping are found by position alone: its n-th key line belongs to its n-th key,
  whatever the spelling.
Main exports: OutlineLine, Outline, KeyPosition, Outline.findKey, Outline.lastLine
-/
import ConfigScan.Yaml.KeyLine

namespace ConfigScan.Yaml

/-- What matters about a line with content. -/
structure OutlineLine where
  /-- The number of lines in front of it. -/
  index : Nat
  indent : Nat
  /-- The column behind spaces and item dashes. -/
  column : Nat
  isDash : Bool
  isDocumentMarker : Bool
  key : Option KeyLine
deriving DecidableEq, Repr, Inhabited

/-- The lines with content, in order. -/
abbrev Outline := List OutlineLine

/-- The place of a key: its line counted from zero, its column, and whether its value starts on
    that line as a flow collection or an alias. -/
structure KeyPosition where
  line : Nat
  column : Nat
  inline : Bool
deriving DecidableEq, Repr, Inhabited

namespace Outline

/-- The outline of lines, the first of which has `index` lines in front of it. -/
def ofLinesFrom (index : Nat) : List (List Char) → Outline
  | [] => []
  | line :: rest =>
      let others := ofLinesFrom (index + 1) rest
      if isContent line then
        { index
          indent := Yaml.indent line
          column := (stripDashes line).1
          isDash := isDashLine line
          isDocumentMarker := Yaml.isDocumentMarker line
          key := KeyLine.read? line } :: others
      else others

/-- The outline of the lines of a text. -/
def ofLines (lines : List (List Char)) : Outline := ofLinesFrom 0 lines

/-- The lines from the one with `index` lines in front of it. -/
def startingAt (outline : Outline) (index : Nat) : Outline :=
  outline.dropWhile (·.index < index)

/-- Find the next key line, at `column` if that is known already, and the lines behind it. A line
    that is indented less than that column, or that starts in front of `least` while no column is
    known, ends the mapping. -/
def findKey (least : Nat) (column : Option Nat) : Outline → Option (KeyPosition × Outline)
  | [] => none
  | line :: rest =>
      let outside : Bool := match column with
        | some c => line.indent < c
        | none => line.column < least
      if outside then none
      else
        match line.key with
        | some key =>
            if column.all (· == key.column) then
              some ({ line := line.index, column := key.column, inline := key.isInline }, rest)
            else findKey least column rest
        | none => findKey least column rest

/-- Find as many key lines as there are keys. A key that can have no line gets none, and so do all
    keys after one that is not found. -/
def findKeys (least : Nat) (column : Option Nat) :
    (hasLine : List Bool) → Outline → List (Option KeyPosition)
  | [], _ => []
  | false :: rest, outline => none :: findKeys least column rest outline
  | true :: rest, outline =>
      match findKey least column outline with
      | some (position, later) =>
          some position :: findKeys least (some position.column) rest later
      | none => none :: rest.map fun _ => none

/-- A line with content does not belong to a mapping at `column` any more. -/
def endsMapping (column : Nat) (line : OutlineLine) : Bool :=
  line.indent < column || (line.indent == column && !line.isDash) || line.isDocumentMarker

/-- The last line of a mapping at `column` whose last key is on the line `lastKey`. -/
def lastLine (outline : Outline) (lastKey column : Nat) : Nat :=
  let own := (outline.startingAt (lastKey + 1)).takeWhile fun line => !endsMapping column line
  own.getLast?.elim lastKey (·.index)

end Outline

end ConfigScan.Yaml
