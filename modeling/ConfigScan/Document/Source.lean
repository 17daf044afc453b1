/-
Module: ConfigScan.Document.Source
Purpose: The source side of a document: numbered lines, snippets of them, and a parsed file.
Main exports: RawLine, RawLine.ofText, RawLine.snippet, ParsedFile
-/
import ConfigScan.Document.Basic
import ConfigScan.Text.Line

namespace ConfigScan

/-- One line of source text with its number; a file's first line has number 1. -/
structure RawLine where
  number : Nat
  text : String
deriving DecidableEq, Repr, Inhabited

namespace RawLine

/-- Number lines upwards from `first`. -/
def numberFrom (first : Nat) : List (List Char) → List RawLine
  | [] => []
  | line :: rest => ⟨first, String.ofList line⟩ :: numberFrom (first + 1) rest

/-- The numbered lines of a text. -/
def ofText (text : String) : List RawLine :=
  numberFrom 1 (Text.lines text.toList)

/-- The lines from one before `first` to one after `last`, as far as the file has them. The line
    at position `p` of the list is line `p + 1` of the file. -/
def snippet (lines : List RawLine) (first last : Nat) : List RawLine :=
  (lines.take (last + 1)).drop (first - 2)

end RawLine

/-- A file that was read: its document and its source lines. -/
structure ParsedFile where
  document : Node
  lines : List RawLine
deriving Repr, Inhabited

end ConfigScan
