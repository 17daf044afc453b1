/-
Module: ConfigScan.Yaml.Token.Property
Purpose: Anchors, aliases, tags and directives.
Main exports: readName?, Tag.read?, Directive.read?
-/
import ConfigScan.Yaml.Token.Cursor
import ConfigScan.Text.Digit
import ConfigScan.Text.Utf8

namespace ConfigScan.Yaml

/-- Read the name of an anchor or alias from behind its indicator. Some mark or a gap has to come
    after it. -/
def readName? (pos : Cursor) : Option (List Char × Cursor) :=
  let name := pos.rest.takeWhile isWord
  let after := pos.advance name.length
  let ended := atGap after.rest ||
    after.rest.head?.any fun c => ['?', ':', ',', ']', '}', '%', '@', '\x60'].contains c
  if name.isEmpty || !ended then none else some (name, after)

namespace Tag

/-- The marks that may stand in a tag as they are. -/
def uriMarks : List Char :=
  [';', '/', '?', ':', '@', '&', '=', '+', '$', '.', '!', '~', '*', '\'', '(', ')']

/-- A character of a tag that stands for itself. Commas and brackets belong to a tag only where no
    flow collection could claim them. -/
def isUriChar (wide : Bool) (c : Char) : Bool :=
  isWord c || uriMarks.contains c || (wide && [',', '[', ']'].contains c)

/-- The number of bytes of a character whose first byte is `b`, or zero. -/
def width (b : Nat) : Nat :=
  if b < 0x80 then 1
  else if b < 0xC0 then 0
  else if b < 0xE0 then 2
  else if b < 0xF0 then 3
  else if b < 0xF8 then 4
  else 0

/-- Read the bytes of a tag; `due` continuation bytes are still to come. A byte may be escaped by
    a percent sign and two hexadecimal digits, and continuation bytes have to be. -/
def readUri (wide : Bool) : Nat → List UInt8 → Nat → List Char →
    Option (List UInt8 × Nat × List Char)
  | due, bytes, count, '%' :: a :: b :: rest =>
      match Text.hexValue? a, Text.hexValue? b with
      | some high, some low =>
          let byte := 16 * high + low
          if due = 0 then
            if width byte = 0 then none
            else readUri wide (width byte - 1) (UInt8.ofNat byte :: bytes) (count + 3) rest
          else if byte / 64 = 2 then
            readUri wide (due - 1) (UInt8.ofNat byte :: bytes) (count + 3) rest
          else none
      | _, _ => none
  | due, bytes, count, c :: rest =>
      if c = '%' then none
      else if due ≠ 0 then none
      else if isUriChar wide c then
        readUri wide 0 ((String.utf8EncodeChar c).reverse ++ bytes) (count + 1) rest
      else some (bytes.reverse, count, c :: rest)
  | due, bytes, count, [] => if due = 0 then some (bytes.reverse, count, []) else none

/-- Read the bytes of a tag that starts here. -/
def readUri? (wide : Bool) (pos : Cursor) : Option (List UInt8 × Cursor) := do
  let (bytes, count, _) ← readUri wide 0 [] 0 pos.rest
  return (bytes, pos.advance count)

/-- Read a handle: an exclamation mark, word characters, and a second mark if one follows. -/
def readHandle? (pos : Cursor) : Option (List Char × Cursor) :=
  match pos.rest with
  | '!' :: rest =>
      let word := rest.takeWhile isWord
      let after := pos.advance (word.length + 1)
      match after.rest with
      | '!' :: _ => some ('!' :: word ++ ['!'], after.advance 1)
      | _ => some ('!' :: word, after)
  | _ => none

/-- The handle has a mark at both ends. -/
def isClosed (handle : List Char) : Bool := 2 ≤ handle.length && handle.getLast? == some '!'

/-- Read the handle and the rest of a tag that starts here. A tag in angle brackets has the empty
    handle, and so has a lone exclamation mark. No tag goes on behind an escaped NUL. -/
def readParts? (pos : Cursor) : Option (List Char × List UInt8 × Cursor) :=
  match pos.rest with
  | '!' :: '<' :: _ => do
      let (bytes, after) ← readUri? true (pos.advance 2)
      if bytes.isEmpty then none
      else
        match after.rest with
        | '>' :: _ => return ([], bytes.takeWhile (· != 0), after.advance 1)
        | _ => none
  | _ => do
      let (handle, after) ← readHandle? pos
      let (bytes, finish) ← readUri? false after
      if isClosed handle then
        if bytes.isEmpty then none else return (handle, bytes.takeWhile (· != 0), finish)
      else
        let whole := (Text.Utf8.encode handle.tail ++ bytes).takeWhile (· != 0)
        if whole.isEmpty then return ([], [33], finish) else return (['!'], whole, finish)

/-- Read a tag that starts here. A gap has to follow it, or a comma in a flow collection. -/
def read? (inFlow : Bool) (pos : Cursor) : Option (List Char × List UInt8 × Cursor) := do
  let (handle, bytes, after) ← readParts? pos
  if atGap after.rest || (inFlow && after.rest.head? == some ',') then
    return (handle, bytes, after)
  else none

end Tag

/-- A directive in front of a document. -/
inductive Directive where
  /-- The version of the language. -/
  | version (major minor : Nat)
  /-- The bytes that a tag handle stands for. -/
  | tagHandle (name : List Char) (start : List UInt8)
deriving DecidableEq, Repr, Inhabited

namespace Directive

/-- Read one to nine decimal digits. -/
def readNumber? (pos : Cursor) : Option (Nat × Cursor) :=
  let digits := pos.rest.takeWhile Char.isDigit
  if digits.isEmpty || 9 < digits.length then none
  else some (digits.foldl (fun n c => 10 * n + (c.toNat - '0'.toNat)) 0, pos.advance digits.length)

/-- Read a version number. -/
def readVersion? (pos : Cursor) : Option (Directive × Cursor) := do
  let (major, pos) ← readNumber? (pos.skipWhile isSpace)
  match pos.rest with
  | '.' :: _ =>
      let (minor, pos) ← readNumber? (pos.advance 1)
      return (.version major minor, pos)
  | _ => none

/-- Read a handle and the bytes it stands for. -/
def readTag? (pos : Cursor) : Option (Directive × Cursor) := do
  let (handle, pos) ← Tag.readHandle? (pos.skipWhile isSpace)
  if !(Tag.isClosed handle || handle == ['!']) || !pos.rest.head?.any isSpace then none
  else
    let (bytes, pos) ← Tag.readUri? true (pos.skipWhile isSpace)
    if bytes.isEmpty || !atGap pos.rest then none
    else return (.tagHandle handle (bytes.takeWhile (· != 0)), pos)

/-- Read a directive from behind its percent sign, with the rest of its line. -/
def read? (pos : Cursor) : Option (Directive × Cursor) := do
  let name := pos.rest.takeWhile isWord
  let after := pos.advance name.length
  if !atGap after.rest then none
  else
    let (directive, after) ←
      if name = "YAML".toList then readVersion? after
      else if name = "TAG".toList then readTag? after
      else none
    return (directive, ← after.finishLine?)

end Directive

end ConfigScan.Yaml
