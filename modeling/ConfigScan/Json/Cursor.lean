/-
Module: ConfigScan.Json.Cursor
Purpose: Positions in a JSON text, which is read byte by byte, and the faults of such a text.
Main exports: Place, Cursor, Fault, Fault.message, Error, Error.message
-/
import ConfigScan.Text.Quoted

namespace ConfigScan.Json

/-- A value that stands where another kind of value is wanted. -/
inductive Found where
  | null
  | bool (value : Bool)
  | int (value : Int)
  /-- A number with a fraction or an exponent, or too long for 64 bits, as it is shown. -/
  | float (shown : String)
  | text (value : List Char)
  | list
  | object
deriving DecidableEq, Repr, Inhabited

/-- What is wrong with a JSON text. -/
inductive Fault where
  | valueMissing
  | listOpen
  | objectOpen
  | textOpen
  | noValue
  | noWord
  | noColon
  | noListSeparator
  | noObjectSeparator
  | lastComma
  | keyNoText
  | moreText
  | numberMalformed
  | numberTooGreat
  | controlCharacter
  | escapeUnknown
  | surrogateAlone
  | surrogateUnpaired
  | wrongKind (found : Found) (wanted : String)
  | unknownField (name : List Char) (known : List String)
  | repeatedField (name : String)
deriving DecidableEq, Repr, Inhabited

/-- A value of the wrong kind, in words. -/
def Found.message : Found → String
  | .null => "null"
  | .bool value => "boolean `" ++ toString value ++ "`"
  | .int value => "integer `" ++ toString value ++ "`"
  | .float shown => "floating point `" ++ shown ++ "`"
  | .text value => "string " ++ String.ofList (Text.quoted value)
  | .list => "sequence"
  | .object => "map"

/-- The wording of a fault. -/
def Fault.message : Fault → String
  | .valueMissing => "EOF while parsing a value"
  | .listOpen => "EOF while parsing a list"
  | .objectOpen => "EOF while parsing an object"
  | .textOpen => "EOF while parsing a string"
  | .noValue => "expected value"
  | .noWord => "expected ident"
  | .noColon => "expected `:`"
  | .noListSeparator => "expected `,` or `]`"
  | .noObjectSeparator => "expected `,` or `\x7d`"
  | .lastComma => "trailing comma"
  | .keyNoText => "key must be a string"
  | .moreText => "trailing characters"
  | .numberMalformed => "invalid number"
  | .numberTooGreat => "number out of range"
  | .controlCharacter => "control character (\\u0000-\\u001F) found while parsing a string"
  | .escapeUnknown => "invalid escape"
  | .surrogateAlone => "lone leading surrogate in hex escape"
  | .surrogateUnpaired => "unexpected end of hex escape"
  | .wrongKind found wanted => "invalid type: " ++ found.message ++ ", expected " ++ wanted
  | .unknownField name known =>
      "unknown field `" ++ String.ofList name ++ "`, expected one of " ++
        ", ".intercalate (known.map fun field => "`" ++ field ++ "`")
  | .repeatedField name => "duplicate field `" ++ name ++ "`"

/-- A line, counted from one, and how many of its bytes have been read. -/
structure Place where
  line : Nat := 1
  column : Nat := 0
deriving DecidableEq, Repr, Inhabited

/-- The place behind one more byte. -/
def Place.after (place : Place) (b : UInt8) : Place :=
  if b = 10 then { line := place.line + 1, column := 0 }
  else { place with column := place.column + 1 }

/-- A fault and where it was met. -/
structure Error where
  fault : Fault
  place : Place
deriving DecidableEq, Repr, Inhabited

/-- The wording of an error. -/
def Error.message (e : Error) : String :=
  e.fault.message ++ " at line " ++ toString e.place.line ++ " column " ++
    toString e.place.column

/-- The bytes that are left, and the place in front of them. -/
structure Cursor where
  rest : List UInt8
  place : Place := {}
deriving DecidableEq, Repr, Inhabited

namespace Cursor

/-- The cursor behind the next byte. -/
def skip (c : Cursor) : Cursor :=
  match c.rest with
  | [] => c
  | b :: rest => { rest, place := c.place.after b }

/-- The cursor behind the bytes up to the first one that `p` refuses. -/
def skipWhileFrom (p : UInt8 → Bool) (place : Place) : List UInt8 → Cursor
  | [] => { rest := [], place }
  | b :: rest =>
      if p b then skipWhileFrom p (place.after b) rest else { rest := b :: rest, place }

/-- The cursor behind the bytes up to the first one that `p` refuses. -/
def skipWhile (p : UInt8 → Bool) (c : Cursor) : Cursor := skipWhileFrom p c.place c.rest

/-- A space, tab, line feed or carriage return. -/
def isBlank (b : UInt8) : Bool := b == 32 || b == 9 || b == 10 || b == 13

/-- The cursor behind the white space that comes next. -/
def skipBlanks (c : Cursor) : Cursor := c.skipWhile isBlank

/-- A fault at the place where reading has arrived. -/
def fail {α : Type} (c : Cursor) (fault : Fault) : Except Error α := .error ⟨fault, c.place⟩

/-- A fault of the next byte, which counts as read; at the end there is none. -/
def failAhead {α : Type} (c : Cursor) (fault : Fault) : Except Error α := c.skip.fail fault

/-- The next byte is this one. -/
def startsWith (c : Cursor) (b : UInt8) : Bool := c.rest.head? == some b

end Cursor

end ConfigScan.Json
