/-
Module: ConfigScan.Yaml.Marking
Purpose: Turning a value into a document node in which every block mapping that is found in the
  source carries its lines. The value is walked in document order, and the source with it.
Main exports: Value.key?, Value.node
-/
import ConfigScan.Document.Basic
import ConfigScan.Number.Shortest
import ConfigScan.Yaml.Outline
import ConfigScan.Yaml.Value

namespace ConfigScan.Yaml

/-- A text in lower case, as far as its letters are ASCII. -/
def lowerAscii (text : String) : String := String.ofList (text.toList.map Char.toLower)

/-- The truth value that a key may spell in a word. -/
def truthWord? (text : String) : Option Bool :=
  if ["on", "yes", "true"].contains (lowerAscii text) then some true
  else if ["off", "no", "false"].contains (lowerAscii text) then some false
  else none

/-- Whole numbers of a document have 64 bits and a sign. -/
def isSigned64 (n : Int) : Bool := Int64.minValue.toInt ≤ n && n ≤ Int64.maxValue.toInt

namespace Value

/-- The key that a value is. Collections are none. Numbers that are no signed 64-bit integer and
    null are texts, words for truth values are those, and tags do not count. -/
def key? : Value → Option Key
  | .null => some (.str "null")
  | .bool value => some (.bool value)
  | .int n => some (if isSigned64 n then .int n else .str (toString n))
  | .float x => some (.str x.text)
  | .str text =>
      some (match truthWord? text with
        | some value => .bool value
        | none => .str text)
  | .tagged _ value => value.key?
  | .seq _ | .map _ => none

/-- The node of a whole number, which is rounded to a float if it is too great. -/
def intNode (n : Int) : Node := if isSigned64 n then .int n else .float (.ofInt n)

mutual

/-- The node of a value, and the first line behind those that it has used. The search for its keys
    starts on the line `next`, at the column `least` or deeper; without `locate` there is none. -/
def mark (outline : Outline) (least : Nat) (locate : Bool) (next : Nat) : Value → Node × Nat
  | .null => (.null, next)
  | .bool value => (.bool value, next)
  | .int n => (intNode n, next)
  | .float x => (.float x, next)
  | .str text => (.str text, next)
  | .tagged _ value => mark outline least locate next value
  | .seq items =>
      let (nodes, next) := markItems outline least locate next items
      (.seq nodes, next)
  | .map entries =>
      let positions :=
        if locate then
          (outline.startingAt next).findKeys least none (entries.map fun e => e.1.key?.isSome)
        else []
      let (marked, next) := markEntries outline least positions next entries
      let located := positions.filterMap id
      match located.head?, located.getLast? with
      | some first, some last =>
          let stop := outline.lastLine last.line first.column
          (.map (Mapping.withLines marked (first.line + 1) (stop + 1)), max next (stop + 1))
      | _, _ => (.map marked, next)

/-- The nodes of items, one after the other. -/
def markItems (outline : Outline) (least : Nat) (locate : Bool) (next : Nat) :
    List Value → List Node × Nat
  | [] => ([], next)
  | item :: rest =>
      let (node, next) := mark outline least locate next item
      let (nodes, next) := markItems outline least locate next rest
      (node :: nodes, next)

/-- The entries of a mapping whose keys have these places. A value is searched behind its key, and
    not at all when that has no place or the value is written on its line. An entry whose key is a
    collection is left out. -/
def markEntries (outline : Outline) (least : Nat) (positions : List (Option KeyPosition))
    (next : Nat) : List (Value × Value) → Mapping × Nat
  | [] => ([], next)
  | (key, value) :: rest =>
      let (node, next) :=
        match positions.head?.join with
        | some position =>
            mark outline (position.column + 1) (!position.inline) (position.line + 1) value
        | none => mark outline least false next value
      let (others, next) := markEntries outline least positions.tail next rest
      match key.key? with
      | some key => ((key, node) :: others, next)
      | none => (others, next)

end

/-- The node of the value of a whole document, with the lines of its mappings. -/
def node (value : Value) (lines : List (List Char)) : Node :=
  (mark (Outline.ofLines lines) 0 true 0 value).1

end Value

end ConfigScan.Yaml
