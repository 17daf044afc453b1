/-
Module: ConfigScan.Number.Shortest
Purpose: The shortest decimal text that reads back as a given binary64 value.
Main exports: Shortest.digits, Binary64.text
-/
import ConfigScan.Number.Decimal

namespace ConfigScan

namespace Shortest

/-- The open or closed interval of the numbers that round to `m * 2 ^ q`, in units of `2 ^ (q - 2)`:
    half a unit in the last place on each side, and half of that below a power of two. -/
structure Interval where
  low : Nat
  mid : Nat
  high : Nat
  closed : Bool

/-- The rounding interval of `m * 2 ^ q`; its ends belong to it when `m` is even. -/
def Interval.of (m : Nat) (q : Int) : Interval :=
  { low := if m = 1 <<< 52 ∧ -1074 < q then 4 * m - 1 else 4 * m - 2
    mid := 4 * m
    high := 4 * m + 2
    closed := m % 2 = 0 }

/-- `a * 10 ^ k` against `b * 2 ^ e`, both brought to whole numbers. -/
def common (a : Nat) (k : Int) (b : Nat) (e : Int) : Nat × Nat :=
  ((a * Nat.pow 10 k.toNat) <<< (-e).toNat, (b * Nat.pow 10 (-k).toNat) <<< e.toNat)

/-- The number `d * 10 ^ k` lies in the interval whose unit is `2 ^ e`. -/
def Interval.holds (i : Interval) (e : Int) (d : Nat) (k : Int) : Bool :=
  let (x, low) := common d k i.low e
  let (_, high) := common d k i.high e
  if i.closed then low ≤ x && x ≤ high else low < x && x < high

/-- The distance of `d * 10 ^ k` from the middle of the interval. -/
def Interval.distance (i : Interval) (e : Int) (d : Nat) (k : Int) : Nat :=
  let (x, mid) := common d k i.mid e
  (x - mid) + (mid - x)

/-- The better of the two multiples of `10 ^ k` around the middle that lie in the interval: the
    nearer one, and of two equally near ones the even one. -/
def Interval.pick? (i : Interval) (e k : Int) : Option Nat :=
  let (unit, mid) := common 1 k i.mid e
  let below := mid / unit
  let hits := [below, below + 1].filter (i.holds e · k)
  match hits with
  | [a, b] =>
      let da := i.distance e a k
      let db := i.distance e b k
      some (if da < db then a else if db < da then b else if a % 2 = 0 then a else b)
  | [a] => some a
  | _ => none

/-- The decimal exponent `p` with `10 ^ p ≤ x`, found by counting down from `p + fuel`. -/
def leadExponent (mid : Nat) (e : Int) : Nat → Int → Int
  | 0, p => p
  | fuel + 1, p =>
      let (power, x) := common 1 p mid e
      if power ≤ x then p else leadExponent mid e fuel (p - 1)

/-- Try one digit, then two, and so on up to seventeen. -/
def search (i : Interval) (e lead : Int) : Nat → Int → Nat × Int
  | 0, k => (0, k)
  | fuel + 1, k =>
      match i.pick? e k with
      | some d => (d, k)
      | none => search i e lead fuel (k - 1)

/-- The shortest digits `d` and the exponent `k` such that `d * 10 ^ k` rounds to `m * 2 ^ q`, and
    of those the nearest. -/
def digits (m : Nat) (q : Int) : Nat × Int :=
  let i := Interval.of m q
  let lead := leadExponent i.mid (q - 2) 640 309
  search i (q - 2) lead 18 lead

end Shortest

namespace Binary64

/-- Write `digits * 10 ^ k`: without an exponent from `10 ^ -5` up to `10 ^ 16`, always with a
    point there, and with one digit before the point otherwise. -/
def decimalText (digits : List Char) (k : Int) : List Char :=
  let point : Int := digits.length + k
  if 0 ≤ k ∧ point ≤ 16 then digits ++ List.replicate k.toNat '0' ++ ['.', '0']
  else if 0 < point ∧ point ≤ 16 then
    digits.take point.toNat ++ '.' :: digits.drop point.toNat
  else if -5 < point ∧ point ≤ 0 then
    ['0', '.'] ++ List.replicate (-point).toNat '0' ++ digits
  else
    let exponent := 'e' :: (toString (point - 1)).toList
    match digits with
    | [d] => d :: exponent
    | d :: others => d :: '.' :: others ++ exponent
    | [] => exponent

/-- Drop the trailing zeros of a coefficient. -/
def trimZeros : Nat → Nat → Int → Nat × Int
  | 0, d, k => (d, k)
  | fuel + 1, d, k => if d % 10 = 0 ∧ d ≠ 0 then trimZeros fuel (d / 10) (k + 1) else (d, k)

/-- The text of a value: the shortest digits that read back, `.nan`, `.inf` or `-.inf`. -/
def text (x : Binary64) : String :=
  if x.isNaN then ".nan"
  else
    let sign := if x.isNegative then ['-'] else []
    if !x.isFinite then String.ofList (sign ++ ".inf".toList)
    else if x.magnitude = 0 then String.ofList (sign ++ "0.0".toList)
    else
      let (m, q) := x.significand
      let (d, k) := Shortest.digits m q
      let (d, k) := trimZeros 20 d k
      String.ofList (sign ++ decimalText (Nat.toDigits 10 d) k)

end Binary64

end ConfigScan
