/-
Module: ConfigScan.Proofs.Json.Text
Purpose: A JSON text in quotes is read back, whichever of its characters are escaped and how.
Main exports: Json.readTextFrom_writesChar, Json.readText_writes
-/
import ConfigScan.Json.Text
import ConfigScan.Proofs.Json.Grammar
import ConfigScan.Proofs.Text.Utf8

namespace ConfigScan.Json

open Text.Utf8 (encode encode_ascii encode_append)

/-- The place behind some bytes. -/
def Place.behind (place : Place) (bytes : List UInt8) : Place := bytes.foldl Place.after place

@[simp] theorem Place.behind_cons (place : Place) (b : UInt8) (bytes : List UInt8) :
    place.behind (b :: bytes) = (place.after b).behind bytes := rfl

@[simp] theorem Place.behind_append (place : Place) (front back : List UInt8) :
    place.behind (front ++ back) = (place.behind front).behind back := List.foldl_append

variable {done rest : List UInt8} {place : Place}

/-! ### Characters as they are -/

/-- Bytes that are no quotes, backslashes or control characters are taken as they are. -/
theorem readTextFrom_plain {bytes : List UInt8}
    (plain : ∀ b ∈ bytes, b ≠ 34 ∧ b ≠ 92 ∧ 32 ≤ b.toNat) :
    readTextFrom .plain done place (bytes ++ rest) =
      readTextFrom .plain (bytes.reverse ++ done) (place.behind bytes) rest := by
  induction bytes generalizing done place with
  | nil => rfl
  | cons b bytes inductionHypothesis =>
      obtain ⟨⟨noQuote, noBackslash, noControl⟩, others⟩ := List.forall_mem_cons.mp plain
      rw [List.cons_append, readTextFrom]
      simp only [if_neg noQuote, if_neg noBackslash, if_neg (Nat.not_lt.mpr noControl)]
      rw [inductionHypothesis others, List.reverse_cons, List.append_assoc]
      rfl

theorem plain_of_mem_encode {c : Char} (noQuote : c ≠ '"') (noBackslash : c ≠ '\\')
    (noControl : 32 ≤ c.toNat) : ∀ b ∈ encode [c], b ≠ 34 ∧ b ≠ 92 ∧ 32 ≤ b.toNat := by
  intro b member
  have other : ∀ d : Char, c ≠ d → d.toNat < 128 → b.toNat ≠ d.toNat := by
    intro d different ascii same
    rcases Text.Utf8.mem_encode_singleton member with equal | beyond
    · exact different (Char.toNat_inj.mp (equal.symm.trans same))
    · omega
  refine ⟨?_, ?_, ?_⟩
  · rintro rfl
    exact other '"' noQuote (by decide) rfl
  · rintro rfl
    exact other '\\' noBackslash (by decide) rfl
  · rcases Text.Utf8.mem_encode_singleton member with equal | beyond <;> omega

/-! ### Escapes by number -/

theorem ascii_of_hexValue? {c : Char} {i : Nat} (digit : Text.hexValue? c = some i) :
    c.toNat < 128 := by
  by_contra beyond
  have high : ∀ d : Char, d.toNat < 128 → ¬ c ≤ d := by
    intro d ascii below
    have := UInt32.le_iff_toNat_le.mp below
    exact beyond (Nat.lt_of_le_of_lt this ascii)
  have noDigit : c.isDigit = false := by
    simp only [Char.isDigit, Bool.and_eq_false_iff, decide_eq_false_iff_not]
    exact .inr (high '9' (by decide))
  rw [Text.hexValue?, noDigit, if_neg Bool.false_ne_true,
    if_neg fun both => high 'f' (by decide) both.2,
    if_neg fun both => high 'F' (by decide) both.2] at digit
  cases digit

theorem hexByte?_eq {c : Char} {i : Nat} (digit : Text.hexValue? c = some i) :
    hexByte? (.ofNat c.toNat) = some i := by
  have ascii := ascii_of_hexValue? digit
  rw [hexByte?, Text.Utf8.toNat_byte (by omega), Char.ofNat_toNat, digit]

/-- How reading goes on when the last hexadecimal digit of a number has been read. -/
def afterUnit (first : Option Nat) (n : Nat) (done : List UInt8) (place : Place)
    (rest : List UInt8) : Except Error (List UInt8 × Cursor) :=
  match unit? first (some n) with
  | .error fault => .error ⟨fault, place⟩
  | .ok (.inr half) => readTextFrom (.pairEscape half) done place rest
  | .ok (.inl c) => readTextFrom .plain ((encode [c]).reverse ++ done) place rest

theorem readTextFrom_digit {c : Char} {i n left : Nat} (digit : Text.hexValue? c = some i)
    (more : 1 < left) (first : Option Nat) :
    readTextFrom (.hex first left (some n)) done place (.ofNat c.toNat :: rest) =
      readTextFrom (.hex first (left - 1) (some (16 * n + i))) done
        (place.after (.ofNat c.toNat)) rest := by
  rw [readTextFrom]
  simp only [if_pos more, hexByte?_eq digit]
  rfl

theorem readTextFrom_lastDigit {c : Char} {i n : Nat} (digit : Text.hexValue? c = some i)
    (first : Option Nat) :
    readTextFrom (.hex first 1 (some n)) done place (.ofNat c.toNat :: rest) =
      afterUnit first (16 * n + i) done (place.after (.ofNat c.toNat)) rest := by
  rw [readTextFrom]
  simp only [if_neg (Nat.lt_irrefl 1), hexByte?_eq digit]
  rfl

/-- Four hexadecimal digits are read as their number. -/
theorem readTextFrom_unit {digits : List Char} {n : Nat} (isUnit : IsUnit digits n)
    (first : Option Nat) :
    readTextFrom (.hex first 4 (some 0)) done place (encode digits ++ rest) =
      afterUnit first n done (place.behind (encode digits)) rest := by
  cases isUnit with
  | digits a b c d =>
      rw [encode_ascii (ascii_of_hexValue? a), encode_ascii (ascii_of_hexValue? b),
        encode_ascii (ascii_of_hexValue? c), encode_ascii (ascii_of_hexValue? d)]
      simp only [List.cons_append]
      rw [readTextFrom_digit a (by decide), readTextFrom_digit b (by decide),
        readTextFrom_digit c (by decide), readTextFrom_lastDigit d]
      simp only [Nat.mul_zero, Nat.zero_add]
      rfl

/-! ### Any characters -/

theorem unit?_toNat (c : Char) : unit? none (some c.toNat) = .ok (.inl c) := by
  have valid : c.toNat.isValidChar := c.valid
  rw [Nat.isValidChar] at valid
  rw [unit?, if_neg (by omega), if_neg (by omega), Char.ofNat_toNat]

theorem unit?_pair {c : Char} {high low : Nat} (highSmall : high < 0x400) (lowSmall : low < 0x400)
    (value : c.toNat = 0x10000 + high * 0x400 + low) :
    unit? none (some (0xD800 + high)) = .ok (.inr (0xD800 + high)) ∧
      unit? (some (0xD800 + high)) (some (0xDC00 + low)) = .ok (.inl c) := by
  constructor
  · rw [unit?, if_neg (by omega), if_pos (by omega)]
  · rw [unit?, if_pos (by omega), Nat.add_sub_cancel_left, Nat.add_sub_cancel_left, ← value,
      Char.ofNat_toNat]

/-- Whatever way a character is written, it is what is read. -/
theorem readTextFrom_writesChar {c : Char} {written : List Char} (writes : WritesChar c written) :
    readTextFrom .plain done place (encode written ++ rest) =
      readTextFrom .plain ((encode [c]).reverse ++ done) (place.behind (encode written)) rest := by
  cases writes with
  | plain noQuote noBackslash noControl =>
      exact readTextFrom_plain (plain_of_mem_encode noQuote noBackslash noControl)
  | letter known =>
      simp only [letters, List.mem_cons, Prod.mk.injEq, List.not_mem_nil, or_false] at known
      rcases known with ⟨rfl, rfl⟩ | ⟨rfl, rfl⟩ | ⟨rfl, rfl⟩ | ⟨rfl, rfl⟩ | ⟨rfl, rfl⟩ | ⟨rfl, rfl⟩ |
        ⟨rfl, rfl⟩ | ⟨rfl, rfl⟩ <;> rfl
  | unit isUnit =>
      rw [encode_ascii (by decide), encode_ascii (by decide)]
      change readTextFrom (.hex none 4 (some 0)) done _ (encode _ ++ rest) = _
      rw [readTextFrom_unit isUnit, afterUnit, unit?_toNat]
      rfl
  | pair isFirst isSecond highSmall lowSmall value =>
      obtain ⟨firstUnit, secondUnit⟩ := unit?_pair highSmall lowSmall value
      rw [encode_ascii (by decide), encode_ascii (by decide), encode_append,
        encode_ascii (c := '\\') (by decide), encode_ascii (c := 'u') (by decide)]
      -- The first surrogate waits until the second one completes the pair.
      change readTextFrom (.hex none 4 (some 0)) done _ (encode _ ++ _ ++ rest) = _
      rw [List.append_assoc, readTextFrom_unit isFirst, afterUnit, firstUnit]
      change readTextFrom (.hex (some _) 4 (some 0)) done _ (encode _ ++ rest) = _
      rw [readTextFrom_unit isSecond, afterUnit, secondUnit]
      simp only [Place.behind_cons, Place.behind_append]

theorem readTextFrom_writesChars {text written : List Char} (writes : WritesChars text written) :
    readTextFrom .plain done place (encode written ++ rest) =
      readTextFrom .plain ((encode text).reverse ++ done) (place.behind (encode written)) rest := by
  induction writes generalizing done place with
  | nil => rfl
  | @cons c text _ _ first _ inductionHypothesis =>
      have whole : encode (c :: text) = encode [c] ++ encode text := encode_append [c] text
      rw [encode_append, List.append_assoc, readTextFrom_writesChar first, inductionHypothesis,
        Place.behind_append, whole, List.reverse_append, List.append_assoc]

/-- A text in quotes is read up to its closing quote. -/
theorem readText_writes {text written : List Char} (writes : WritesChars text written)
    (rest : List UInt8) (place : Place) :
    ∃ behind, readText ⟨encode written ++ 34 :: rest, place⟩ = .ok (text, ⟨rest, behind⟩) := by
  have read : readTextFrom .plain [] place (encode written ++ 34 :: rest) = _ :=
    readTextFrom_writesChars writes
  rw [List.append_nil, readTextFrom, if_pos rfl, List.reverse_reverse] at read
  refine ⟨(place.behind (encode written)).after 34, ?_⟩
  rw [readText, read]
  simp only [Except.map, Text.Utf8.decode?_encode, Option.getD_some]

end ConfigScan.Json
