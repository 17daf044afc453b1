/-
Module: ConfigScan.Json.Number
Purpose: Reading JSON numbers. One without fraction and exponent is a whole number if 64 bits hold
  it. Any other is a float, worked out from the digits that 64 bits hold and a power of ten.
Main exports: readNumber
-/
import ConfigScan.Json.Cursor
import ConfigScan.Number.Shortest

namespace ConfigScan.Json

/-- An ASCII digit. -/
def isDigit (b : UInt8) : Bool := 48 ≤ b.toNat && b.toNat ≤ 57

/-- The value of a digit. -/
def digitOf (b : UInt8) : Nat := b.toNat - 48

/-- The digits that come next. -/
def nextDigits (c : Cursor) : List UInt8 := c.rest.takeWhile isDigit

/-- The greatest significand. -/
def maxSignificand : Nat := UInt64.size - 1

/-- Append digits to a significand as long as 64 bits hold it; also how many digits are left. -/
def appendDigits (significand : Nat) : List UInt8 → Nat × Nat
  | [] => (significand, 0)
  | b :: rest =>
      let more := 10 * significand + digitOf b
      if maxSignificand < more then (significand, (b :: rest).length) else appendDigits more rest

/-- Scale a float by a power of ten, rounding each time that a factor is taken in; powers above
    `10 ^ 308` are taken in parts, `parts` of them at most. None is too great. -/
def scaleByTen (x : Binary64) (exponent : Int) : Nat → Option Binary64
  | 0 => some x
  | parts + 1 =>
      if exponent.natAbs ≤ 308 then
        let power := Binary64.ofInt (Nat.pow 10 exponent.natAbs)
        let scaled := if 0 ≤ exponent then x.times power else x.dividedBy power
        if scaled.isFinite then some scaled else none
      else if x.magnitude = 0 then some x
      else if 0 ≤ exponent then none
      else scaleByTen (x.dividedBy (.ofInt (Nat.pow 10 308))) (exponent + 308) parts

/-- The float with these digits and exponent. -/
def floatAt (negative : Bool) (significand : Nat) (exponent : Int) (c : Cursor) :
    Except Error (Found × Cursor) :=
  match scaleByTen (.ofInt significand) exponent 4 with
  | some x => .ok (.float (if negative then x.negate else x).text, c)
  | none => c.fail .numberTooGreat

/-- The greatest exponent that may be written. -/
def maxExponent : Nat := 1 <<< 31 - 1

/-- Read exponent digits after the value so far: the exponent, or none at the digit that makes it
    too great. -/
def readExponentFrom (value : Nat) (place : Place) : List UInt8 → Option Nat × Cursor
  | [] => (some value, { rest := [], place })
  | b :: rest =>
      if !isDigit b then (some value, { rest := b :: rest, place })
      else
        let more := 10 * value + digitOf b
        if maxExponent < more then (none, { rest, place := place.after b })
        else readExponentFrom more (place.after b) rest

/-- Read an exponent from behind its letter. -/
def readExponent (negative : Bool) (significand : Nat) (exponent : Int) (c : Cursor) :
    Except Error (Found × Cursor) :=
  let down := c.startsWith 45
  let c := if c.startsWith 43 || down then c.skip else c
  match c.rest with
  | [] => c.fail .valueMissing
  | b :: _ =>
      if !isDigit b then c.failAhead .numberMalformed
      else
        match readExponentFrom 0 c.place c.rest with
        | (some e, c) =>
            floatAt negative significand (if down then exponent - e else exponent + e) c
        | (none, c) =>
            if significand != 0 && !down then c.fail .numberTooGreat
            else floatAt negative 0 0 (c.skipWhile isDigit)

/-- The next byte is the letter of an exponent. -/
def atExponent (c : Cursor) : Bool := c.startsWith 101 || c.startsWith 69

/-- Read a fraction from behind its point. -/
def readFraction (negative : Bool) (significand : Nat) (exponent : Int) (c : Cursor) :
    Except Error (Found × Cursor) :=
  let digits := nextDigits c
  if digits.isEmpty then
    c.failAhead (if c.rest.isEmpty then .valueMissing else .numberMalformed)
  else
    let (significand, left) := appendDigits significand digits
    let exponent := exponent - (digits.length - left : Nat)
    let c := c.skipWhile isDigit
    if atExponent c then readExponent negative significand exponent c.skip
    else floatAt negative significand exponent c

/-- A whole number, unless it is a zero below zero or no signed number of 64 bits. -/
def wholeAt (negative : Bool) (significand : Nat) (c : Cursor) : Except Error (Found × Cursor) :=
  if !negative then .ok (.int significand, c)
  else if significand = 0 ∨ 1 <<< 63 < significand then floatAt true significand 0 c
  else .ok (.int (-significand), c)

/-- Read what follows the digits in front of a point or exponent. -/
def readTail (negative : Bool) (significand left : Nat) (c : Cursor) :
    Except Error (Found × Cursor) :=
  if c.startsWith 46 then readFraction negative significand left c.skip
  else if atExponent c then readExponent negative significand left c.skip
  else if left = 0 then wholeAt negative significand c
  else floatAt negative significand left c

/-- Read a number from behind its sign. A zero in front of other digits is no number. -/
def readNumber (negative : Bool) (c : Cursor) : Except Error (Found × Cursor) :=
  match c.rest with
  | [] => c.fail .valueMissing
  | b :: rest =>
      if !isDigit b then c.failAhead .numberMalformed
      else if b = 48 then
        if rest.head?.any isDigit then c.skip.failAhead .numberMalformed
        else readTail negative 0 0 c.skip
      else
        let (significand, left) := appendDigits 0 (nextDigits c)
        readTail negative significand left (c.skipWhile isDigit)

end ConfigScan.Json
