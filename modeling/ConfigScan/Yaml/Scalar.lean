/-
Module: ConfigScan.Yaml.Scalar
Purpose: The value of a scalar by its text, its tag and whether it is plain.
Main exports: Scalar.integer?, Scalar.float?, Scalar.plainValue?, CoreTag, Scalar.value?
-/
import ConfigScan.Number.Decimal
import ConfigScan.Text.Digit
import ConfigScan.Text.Utf8
import ConfigScan.Yaml.Token.Cursor
import ConfigScan.Yaml.Value

namespace ConfigScan.Yaml.Scalar

/-- The spellings of null. -/
def isNullWord (text : String) : Bool := ["null", "Null", "NULL", "~"].contains text

/-- The value of a truth word. -/
def boolWord? (text : String) : Option Bool :=
  if ["true", "True", "TRUE"].contains text then some true
  else if ["false", "False", "FALSE"].contains text then some false
  else none

/-- A text that starts with a sign. -/
def isSigned : List Char → Bool
  | '+' :: _ | '-' :: _ => true
  | _ => false

/-- The text without a plus sign in front. -/
def dropPlus : List Char → List Char
  | '+' :: rest => rest
  | text => text

/-- Digits that start with a needless zero, with or without a sign: a text, and no number. -/
def isPadded (text : List Char) : Bool :=
  match if isSigned text then text.drop 1 else text with
  | '0' :: rest => !rest.isEmpty && rest.all Char.isDigit
  | _ => false

/-- The number that digits of a base spell; at least one digit is needed. -/
def natural? (base : Nat) (digits : List Char) : Option Nat :=
  if digits.isEmpty then none
  else digits.foldlM (fun n c => do
    let digit ← Text.hexValue? c
    if digit < base then return base * n + digit else none) 0

/-- The base that the two characters in front of a number name, and what follows them. -/
def based? : List Char → Option (Nat × List Char)
  | '0' :: 'x' :: rest => some (16, rest)
  | '0' :: 'o' :: rest => some (8, rest)
  | '0' :: 'b' :: rest => some (2, rest)
  | _ => none

/-- The whole number that a text spells: decimal without needless zeros, or hexadecimal, octal or
    binary behind `0x`, `0o` or `0b`, each with an optional sign. -/
def integer? (text : List Char) : Option Int :=
  match text with
  | '-' :: rest =>
      match based? rest with
      | some (base, digits) => (natural? base digits).map fun n => -(n : Int)
      | none => if isPadded text then none else (natural? 10 rest).map fun n => -(n : Int)
  | _ =>
      let body := dropPlus text
      match based? body with
      | some (base, digits) => (natural? base digits).map Int.ofNat
      | none => if isPadded text then none else (natural? 10 body).map Int.ofNat

/-- The float that a text spells: a decimal numeral, or a word for infinity or not-a-number. A
    numeral too great for a finite value spells none. -/
def float? (text : List Char) : Option Binary64 :=
  let body := dropPlus text
  if text.head? = some '+' ∧ isSigned body then none
  else if [".inf", ".Inf", ".INF"].contains (String.ofList body) then some (.infinity false)
  else if ["-.inf", "-.Inf", "-.INF"].contains (String.ofList text) then some (.infinity true)
  else if [".nan", ".NaN", ".NAN"].contains (String.ofList text) then some .nan
  else
    match Decimal.read? body with
    | some d => if d.toBinary64.isFinite then some d.toBinary64 else none
    | none => none

/-- Whole numbers are kept as such in 64 bits, signed or unsigned. -/
def isWord64 (n : Int) : Bool := Int64.minValue.toInt ≤ n && n < UInt64.size

/-- Whole numbers that are too long for 64 bits are refused as long as 128 bits hold them. -/
def isWord128 (n : Int) : Bool := -Int.ofNat (1 <<< 127) ≤ n && n < Int.ofNat (1 <<< 128)

/-- The value of a text as a whole number: it may be refused, or be none. -/
def integerValue? (text : List Char) : Option (Option Value) :=
  match integer? text with
  | some n =>
      if isWord64 n then some (some (.int n)) else if isWord128 n then some none else none
  | none => none

/-- The value of a plain scalar without a tag. -/
def plainValue? (text : List Char) : Option Value :=
  let word := String.ofList text
  if text.isEmpty || isNullWord word then some .null
  else
    match boolWord? word with
    | some b => some (.bool b)
    | none =>
        match integerValue? text with
        | some value => value
        | none =>
            match if isPadded text then none else float? text with
            | some x => some (.float x)
            | none => some (.str word)

/-- The tags of YAML itself that ask for a kind of scalar. -/
inductive CoreTag where
  | bool
  | int
  | float
  | null
deriving DecidableEq, Repr, Inhabited

namespace CoreTag

/-- All of them. -/
def all : List CoreTag := [.bool, .int, .float, .null]

/-- How a tag ends. -/
def kind : CoreTag → String
  | .bool => "bool"
  | .int => "int"
  | .float => "float"
  | .null => "null"

/-- The bytes of a tag. -/
def bytes (tag : CoreTag) : List UInt8 :=
  Text.Utf8.encode ("tag:yaml.org,2002:" ++ tag.kind).toList

/-- The value of a text under a tag that it has to fit. -/
def value? (tag : CoreTag) (text : List Char) : Option Value :=
  match tag with
  | .bool => (boolWord? (String.ofList text)).map .bool
  | .int => (integerValue? text).join
  | .float => (float? text).map .float
  | .null => if isNullWord (String.ofList text) then some .null else none

end CoreTag

/-- The value of a scalar. A tag of YAML itself has to fit the text. Any other one makes it a text,
    except that a plain scalar keeps its meaning under a tag with an exclamation mark in front. -/
def value? (tag : Option (List UInt8)) (plain : Bool) (text : List Char) : Option Value :=
  match tag with
  | none => if plain then plainValue? text else some (.str (String.ofList text))
  | some tag =>
      match CoreTag.all.find? (·.bytes == tag) with
      | some core => core.value? text
      | none =>
          if plain && tag.head? == some 33 then plainValue? text
          else some (.str (String.ofList text))

end ConfigScan.Yaml.Scalar
