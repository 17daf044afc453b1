/-
Module: ConfigScan.Number.Binary64
Purpose: The IEEE 754 binary64 format as plain bits, and rounding of a ratio to the nearest value.
Main exports: Binary64, Binary64.nearest, Binary64.isNaN, Binary64.same, Binary64.times
-/

namespace ConfigScan

/-- A binary64 datum, given by its 64 bits. -/
structure Binary64 where
  bits : UInt64
deriving DecidableEq, Repr, Inhabited

namespace Binary64

/-- The first bit pattern (without sign) that is no finite number. -/
def infinityBits : Nat := 0x7ff <<< 52

/-- The bits with the sign bit set when `negative`. -/
def ofMagnitude (negative : Bool) (magnitude : Nat) : Binary64 :=
  ⟨UInt64.ofNat (if negative then 1 <<< 63 + magnitude else magnitude)⟩

/-- Positive or negative infinity. -/
def infinity (negative : Bool) : Binary64 := ofMagnitude negative infinityBits

/-- The quiet NaN with an empty payload. -/
def nan : Binary64 := ⟨0x7ff8000000000000⟩

/-- The bits without the sign bit. -/
def magnitude (x : Binary64) : Nat := x.bits.toNat % 1 <<< 63

/-- The sign bit is set. -/
def isNegative (x : Binary64) : Bool := 1 <<< 63 ≤ x.bits.toNat

/-- The datum is not a number. -/
def isNaN (x : Binary64) : Bool := infinityBits < x.magnitude

/-- The datum is a finite number. -/
def isFinite (x : Binary64) : Bool := x.magnitude < infinityBits

/-- Equality of values: every NaN is one value, and the two zeros are equal. -/
def same (x y : Binary64) : Bool :=
  if x.isNaN || y.isNaN then x.isNaN && y.isNaN
  else x == y || (x.magnitude == 0 && y.magnitude == 0)

/-- The whole number nearest to `num / den`; a half goes to the even neighbour. -/
def roundHalfEven (num den : Nat) : Nat :=
  let quotient := num / den
  let twice := 2 * (num % den)
  if twice < den then quotient
  else if den < twice then quotient + 1
  else quotient + quotient % 2

/-- The quotient `num / den / 2 ^ q` as a ratio of naturals. -/
def scaled (num den : Nat) (q : Int) : Nat × Nat :=
  if 0 ≤ q then (num, den <<< q.toNat) else (num <<< (-q).toNat, den)

/-- The exponent `q` of the unit in the last place of `num / den`: the quotient by `2 ^ q` has 53
    binary digits, unless the least exponent -1074 cuts it short. -/
def unitExponent (num den : Nat) : Int :=
  let guess : Int := (Nat.log2 num : Int) - (Nat.log2 den : Int) - 53
  let (n, d) := scaled num den guess
  max (if n / d < 1 <<< 53 then guess else guess + 1) (-1074)

/-- The binary64 value nearest to `num / den`, ties to even, and infinity past the largest.
    The bit patterns count the values upwards, so a carry out of the significand needs no care. -/
def nearest (negative : Bool) (num den : Nat) : Binary64 :=
  if num = 0 then ofMagnitude negative 0
  else
    let q := unitExponent num den
    let (n, d) := scaled num den q
    let pattern := (q + 1074).toNat <<< 52 + roundHalfEven n d
    ofMagnitude negative (min pattern infinityBits)

/-- The whole number `n` as the nearest binary64 value. -/
def ofInt (n : Int) : Binary64 := nearest (n < 0) n.natAbs 1

/-- A finite nonzero magnitude as `m * 2 ^ q`. -/
def significand (x : Binary64) : Nat × Int :=
  let exponent : Nat := x.magnitude >>> 52
  let fraction : Nat := x.magnitude % 1 <<< 52
  if exponent = 0 then (fraction, -1074) else (1 <<< 52 + fraction, (exponent : Int) - 1075)

/-- A finite magnitude as a ratio. -/
def ratio (x : Binary64) : Nat × Nat :=
  let (m, q) := x.significand
  (m <<< q.toNat, 1 <<< (-q).toNat)

/-- The product of two finite magnitudes, rounded to the nearest value. -/
def times (x y : Binary64) : Binary64 :=
  nearest false (x.ratio.1 * y.ratio.1) (x.ratio.2 * y.ratio.2)

/-- The quotient of two finite magnitudes, rounded to the nearest value. -/
def dividedBy (x y : Binary64) : Binary64 :=
  nearest false (x.ratio.1 * y.ratio.2) (x.ratio.2 * y.ratio.1)

/-- The same magnitude with the other sign. -/
def negate (x : Binary64) : Binary64 := ofMagnitude (!x.isNegative) x.magnitude

end Binary64

end ConfigScan
