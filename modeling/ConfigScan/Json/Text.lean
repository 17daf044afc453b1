/-
Module: ConfigScan.Json.Text
Purpose: Reading JSON texts in quotes.
Main exports: readText
-/
import ConfigScan.Json.Cursor
import ConfigScan.Text.Digit
import ConfigScan.Text.Utf8

namespace ConfigScan.Json

/-- The byte that a one-letter escape stands for. -/
def escapes : List (UInt8 × UInt8) :=
  [(34, 34), (92, 92), (47, 47), (98, 8), (102, 12), (110, 10), (114, 13), (116, 9)]

/-- The value of a byte that is a hexadecimal digit. -/
def hexByte? (b : UInt8) : Option Nat := Text.hexValue? (Char.ofNat b.toNat)

/-- What the next byte means. The first half of a pair of surrogates is kept until the second. -/
inductive TextMode where
  | plain
  /-- It follows a backslash. -/
  | escape
  /-- It is the backslash in front of the second half of a pair. -/
  | pairEscape (first : Nat)
  /-- It is the letter in front of the second half of a pair. -/
  | pairLetter (first : Nat)
  /-- It is the next of so many hexadecimal digits after the value so far, if that is one. -/
  | hex (first : Option Nat) (left : Nat) (value : Option Nat)
deriving DecidableEq, Repr, Inhabited

/-- What four hexadecimal digits give: a character, or the first half of a pair. -/
def unit? (first : Option Nat) (value : Option Nat) : Except Fault (Char ⊕ Nat) :=
  match first, value with
  | _, none => .error .escapeUnknown
  | none, some n =>
      if 0xDC00 ≤ n ∧ n ≤ 0xDFFF then .error .surrogateAlone
      else if 0xD800 ≤ n ∧ n ≤ 0xDBFF then .ok (.inr n)
      else .ok (.inl (Char.ofNat n))
  | some m, some n =>
      if 0xDC00 ≤ n ∧ n ≤ 0xDFFF then
        .ok (.inl (Char.ofNat (0x10000 + (m - 0xD800) * 0x400 + (n - 0xDC00))))
      else .error .surrogateAlone

/-- Read on inside the quotes, with the bytes `done` read so far, last one first. -/
def readTextFrom (mode : TextMode) (done : List UInt8) (place : Place) :
    List UInt8 → Except Error (List UInt8 × Cursor)
  | [] => .error ⟨.textOpen, place⟩
  | b :: rest =>
      let next := place.after b
      match mode with
      | .plain =>
          if b = 34 then .ok (done.reverse, { rest, place := next })
          else if b = 92 then readTextFrom .escape done next rest
          else if b.toNat < 32 then .error ⟨.controlCharacter, next⟩
          else readTextFrom .plain (b :: done) next rest
      | .escape =>
          if b = 117 then readTextFrom (.hex none 4 (some 0)) done next rest
          else
            match escapes.lookup b with
            | some e => readTextFrom .plain (e :: done) next rest
            | none => .error ⟨.escapeUnknown, next⟩
      | .pairEscape first =>
          if b = 92 then readTextFrom (.pairLetter first) done next rest
          else .error ⟨.surrogateUnpaired, next⟩
      | .pairLetter first =>
          if b = 117 then readTextFrom (.hex (some first) 4 (some 0)) done next rest
          else .error ⟨.surrogateUnpaired, next⟩
      | .hex first left value =>
          let value := do return 16 * (← value) + (← hexByte? b)
          if 1 < left then readTextFrom (.hex first (left - 1) value) done next rest
          else
            match unit? first value with
            | .error fault => .error ⟨fault, next⟩
            | .ok (.inr half) => readTextFrom (.pairEscape half) done next rest
            | .ok (.inl c) =>
                readTextFrom .plain ((Text.Utf8.encode [c]).reverse ++ done) next rest

/-- Read a text from behind its opening quote. -/
def readText (c : Cursor) : Except Error (List Char × Cursor) :=
  (readTextFrom .plain [] c.place c.rest).map fun (bytes, c) =>
    ((Text.Utf8.decode? bytes).getD [], c)

end ConfigScan.Json
