/-
Module: ConfigScan.Yaml.Token.Quoted
Purpose: Scalars written in single or double quotes.
Main exports: Quoted.read?
-/
import ConfigScan.Text.Digit
import ConfigScan.Yaml.Token.Folding

namespace ConfigScan.Yaml.Quoted

/-- The character that a one-letter escape stands for. -/
def escapes : List (Char × Char) :=
  [('0', '\x00'), ('a', '\x07'), ('b', '\x08'), ('t', '\t'), ('\t', '\t'), ('n', '\n'),
   ('v', '\x0b'), ('f', '\x0c'), ('r', '\r'), ('e', '\x1b'), (' ', ' '), ('"', '"'), ('/', '/'),
   ('\\', '\\'), ('N', '\x85'), ('_', '\xa0'), ('L', '\u2028'), ('P', '\u2029')]

/-- The number of hexadecimal digits behind an escape letter. -/
def hexDigits : List (Char × Nat) := [('x', 2), ('u', 4), ('U', 8)]

/-- What the next character means. -/
inductive Mode where
  /-- It is text, or a quote, or starts an escape. -/
  | text
  /-- It follows a single quote, which it may double. -/
  | quote
  /-- It follows a backslash. -/
  | escape
  /-- It is the next of so many hexadecimal digits after the value so far. -/
  | hex (left value : Nat)
deriving DecidableEq, Repr, Inhabited

/-- A character number that an escape may give. -/
def charOf? (n : Nat) : Option Char := if n.isValidChar then some (Char.ofNat n) else none

/-- Read on inside the quotes, with `text` read so far, last character first, and `gap` the white
    space since. A document line may not start inside quotes. -/
def readFrom (double : Bool) (mode : Mode) (text : List Char) (gap : Gap)
    (mark : Mark) : List Char → Option (List Char × Cursor)
  | [] =>
      match mode with
      | .quote => some (text.reverse, { rest := [], mark })
      | _ => none
  | c :: rest =>
      match mode with
      | .quote =>
          if c = '\'' then readFrom double .text ('\'' :: text) {} (mark.step c) rest
          else some (text.reverse, { rest := c :: rest, mark })
      | .escape =>
          if isBreak c then readFrom double .text text { broken := true } mark.feed rest
          else
            match escapes.lookup c with
            | some e => readFrom double .text (e :: text) {} (mark.step c) rest
            | none =>
                match hexDigits.lookup c with
                | some n => readFrom double (.hex n 0) text {} (mark.step c) rest
                | none => none
      | .hex left value =>
          match Text.hexValue? c with
          | none => none
          | some digit =>
              let value := 16 * value + digit
              if left ≤ 1 then
                match charOf? value with
                | some e => readFrom double .text (e :: text) {} (mark.step c) rest
                | none => none
              else readFrom double (.hex (left - 1) value) text {} (mark.step c) rest
      | .text =>
          if isSpace c then readFrom double .text text (gap.space c) (mark.step c) rest
          else if isBreak c then readFrom double .text text (gap.lineBreak c) mark.feed rest
          else if mark.column == 0 && atDocumentLine (c :: rest) then none
          else
            let text := gap.fold ++ text
            if double && c = '"' then
              some (text.reverse, { rest, mark := mark.step c })
            else if !double && c = '\'' then
              readFrom double .quote text {} (mark.step c) rest
            else if double && c = '\\' then
              readFrom double .escape text {} (mark.step c) rest
            else readFrom double .text (c :: text) {} (mark.step c) rest

/-- Read a quoted scalar from behind its opening quote. -/
def read? (double : Bool) (pos : Cursor) : Option (List Char × Cursor) :=
  readFrom double .text [] {} pos.mark pos.rest

end ConfigScan.Yaml.Quoted
