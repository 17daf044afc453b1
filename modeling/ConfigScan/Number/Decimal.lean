/-
Module: ConfigScan.Number.Decimal
Purpose: Decimal numerals such as `12`, `.5`, `5.` and `1.5e-3`, and their binary64 value.
Main exports: Decimal, Decimal.read?, Decimal.toBinary64
-/
import ConfigScan.Number.Binary64

namespace ConfigScan

/-- The number `coefficient * 10 ^ exponent`, with a sign. -/
structure Decimal where
  negative : Bool
  coefficient : Nat
  exponent : Int
deriving DecidableEq, Repr

/-- The value of a decimal digit. -/
def digitValue (c : Char) : Nat := c.toNat - '0'.toNat

/-- The value of a run of decimal digits. -/
def digitsValue (digits : List Char) : Nat :=
  digits.foldl (fun n c => 10 * n + digitValue c) 0

namespace Decimal

/-- Split off a leading sign; `true` stands for minus. -/
def splitSign : List Char → Bool × List Char
  | '-' :: rest => (true, rest)
  | '+' :: rest => (false, rest)
  | text => (false, text)

/-- Read what follows the digits of a numeral: nothing, or `e` and a whole number. -/
def readExponent? : List Char → Option Int
  | [] => some 0
  | c :: rest =>
      if c = 'e' ∨ c = 'E' then
        let (negative, digits) := splitSign rest
        if digits.isEmpty || !digits.all Char.isDigit then none
        else if negative then some (-(digitsValue digits : Int)) else some (digitsValue digits)
      else none

/-- Read a numeral: a sign, digits with at most one point among or beside them and at least one
    digit in all, and an exponent. -/
def read? (text : List Char) : Option Decimal :=
  let (negative, body) := splitSign text
  let whole := body.takeWhile Char.isDigit
  let afterWhole := body.dropWhile Char.isDigit
  let (fraction, rest) :=
    match afterWhole with
    | '.' :: more => (more.takeWhile Char.isDigit, more.dropWhile Char.isDigit)
    | more => ([], more)
  if whole.isEmpty && fraction.isEmpty then none
  else (readExponent? rest).map fun exponent =>
    { negative, coefficient := digitsValue (whole ++ fraction),
      exponent := exponent - fraction.length }

/-- The number of decimal digits of `n`, with none for zero. -/
def digitCount (n : Nat) : Nat := if n = 0 then 0 else (Nat.toDigits 10 n).length

/-- The nearest binary64 value. A numeral above `10 ^ 310` is infinite and one below `10 ^ -330` is
    zero before its power of ten is worked out. -/
def toBinary64 (d : Decimal) : Binary64 :=
  let top := d.exponent + digitCount d.coefficient
  if d.coefficient = 0 ∨ top < -330 then .ofMagnitude d.negative 0
  else if 310 < top then .infinity d.negative
  else if 0 ≤ d.exponent then .nearest d.negative (d.coefficient * Nat.pow 10 d.exponent.toNat) 1
  else .nearest d.negative d.coefficient (Nat.pow 10 (-d.exponent).toNat)

end Decimal

end ConfigScan
