/-
Module: ConfigScan.Document.Basic
Purpose: The document tree that checks look at: keys, nodes and mappings in source order. A mapping
  may carry line markers, which are ordinary entries with keys of their own, so several of them can
  stand among the other entries of one mapping.
Main exports: Key, Node, Mapping, Mapping.get?, Mapping.withLines, Node.lineRange?
-/
import ConfigScan.Number.Binary64

namespace ConfigScan

/-- A mapping key; the last two are line markers. -/
inductive Key where
  | str (text : String)
  | bool (value : Bool)
  | int (value : Int)
  | startLine
  | endLine
deriving DecidableEq, Repr, Inhabited

namespace Key

/-- The key is one of the two line markers. -/
def isMarker : Key → Bool
  | .startLine | .endLine => true
  | _ => false

/-- The text of a string key. -/
def str? : Key → Option String
  | .str text => some text
  | _ => none

/-- The key as it is shown. -/
def text : Key → String
  | .str text => text
  | .bool true => "true"
  | .bool false => "false"
  | .int value => toString value
  | .startLine => "__startline__"
  | .endLine => "__endline__"

/-- The place of a key's kind in the order of keys. -/
def rank : Key → Nat
  | .str _ => 0
  | .bool _ => 1
  | .int _ => 2
  | .startLine => 3
  | .endLine => 4

/-- Keys in order: by kind, then texts by code point, `false` before `true`, integers by size. -/
def le : Key → Key → Bool
  | .str a, .str b => a ≤ b
  | .bool a, .bool b => !a || b
  | .int a, .int b => a ≤ b
  | a, b => a.rank ≤ b.rank

end Key

/-- A node of a document. -/
inductive Node where
  | null
  | bool (value : Bool)
  | int (value : Int)
  | float (value : Binary64)
  | str (text : String)
  | seq (items : List Node)
  | map (entries : List (Key × Node))
deriving Repr, Inhabited

/-- The entries of a mapping in source order. Keys may repeat; a lookup sees the first. -/
abbrev Mapping := List (Key × Node)

namespace Node

/-- The entries of a mapping node. -/
def mapping? : Node → Option Mapping
  | .map entries => some entries
  | _ => none

/-- The items of a sequence node. -/
def items? : Node → Option (List Node)
  | .seq items => some items
  | _ => none

/-- The text of a string node. -/
def str? : Node → Option String
  | .str text => some text
  | _ => none

/-- The value of an integer node. -/
def int? : Node → Option Int
  | .int value => some value
  | _ => none

/-- The value as a line number, which is never negative. -/
def line? : Node → Option Nat
  | .int (.ofNat n) => some n
  | _ => none

end Node

namespace Mapping

/-- The value of the first entry with this key. -/
def get? (entries : Mapping) (key : Key) : Option Node :=
  (entries.find? (·.1 == key)).map (·.2)

/-- The value of the first entry with this string key. -/
def getStr? (entries : Mapping) (key : String) : Option Node :=
  entries.get? (.str key)

/-- The line of the first start marker. -/
def startLine? (entries : Mapping) : Option Nat :=
  (entries.get? .startLine).bind Node.line?

/-- The line of the first end marker. -/
def endLine? (entries : Mapping) : Option Nat :=
  (entries.get? .endLine).bind Node.line?

/-- The keys in source order. -/
def keys (entries : Mapping) : List Key := entries.map (·.1)

/-- A line number as a signed 64-bit integer. -/
def lineValue (n : Nat) : Node := .int (Int.bmod n UInt64.size)

/-- The entries followed by a start and an end marker. -/
def withLines (entries : Mapping) (first last : Nat) : Mapping :=
  entries ++ [(.startLine, lineValue first), (.endLine, lineValue last)]

/-- Both markers of a mapping. -/
def lineRange? (entries : Mapping) : Option (Nat × Nat) := do
  return (← entries.startLine?, ← entries.endLine?)

end Mapping

namespace Node

/-- The value under a string key of a mapping node. -/
def get? (node : Node) (key : String) : Option Node :=
  node.mapping?.bind (·.getStr? key)

/-- The first and last line of a node by its markers: those of a mapping, or from the start of the
    first to the end of the last item of a sequence of mappings. -/
def lineRange? : Node → Option (Nat × Nat)
  | .map entries => Mapping.lineRange? entries
  | .seq items => do
      let first ← items.head?.bind mapping?
      let last ← items.getLast?.bind mapping?
      return (← first.startLine?, ← last.endLine?)
  | _ => none

end Node

end ConfigScan
