/-
Module: ConfigScan.Proofs.Text.Utf8
Purpose: The bytes of a text stand for that text and are shown as it, and an ASCII byte among them
  is a character.
Main exports: Text.Utf8.encode_append, Text.Utf8.encode_ascii, Text.Utf8.mem_encode_singleton,
  Text.Utf8.decode?_eq_some_iff, Text.Utf8.text_bytes, Text.Utf8.IsText
-/
import ConfigScan.Text.Utf8
import Mathlib.Data.List.Basic

namespace ConfigScan.Text.Utf8

/-! ### The bytes of a text -/

theorem encode_cons (c : Char) (text : List Char) :
    encode (c :: text) = String.utf8EncodeChar c ++ encode text := rfl

theorem encode_singleton (c : Char) : encode [c] = String.utf8EncodeChar c := List.append_nil _

@[simp] theorem encode_append (front back : List Char) :
    encode (front ++ back) = encode front ++ encode back := List.flatMap_append

/-- The bytes of texts with a separator between them. -/
theorem encode_intercalate (separator : List Char) (parts : List (List Char)) :
    encode (separator.intercalate parts) = (encode separator).intercalate (parts.map encode) := by
  induction parts with
  | nil => rfl
  | cons first rest inductionHypothesis =>
      cases rest with
      | nil => simp
      | cons second rest =>
          rw [List.map_cons, List.map_cons, List.intercalate_cons_cons,
            List.intercalate_cons_cons, encode_append, encode_append, inductionHypothesis,
            List.map_cons]

theorem toNat_byte {n : Nat} (small : n < 256) : (UInt8.ofNat n).toNat = n :=
  UInt8.toNat_ofNat_of_lt' small

/-- The bytes of a code point, by its length: a first byte that shows the length, and the bits in
    groups of six behind it. -/
inductive Encodes (n : Nat) : List UInt8 → Prop where
  | one (small : n < 0x80) : Encodes n [.ofNat n]
  | two (least : 0x80 ≤ n) (small : n < 0x800) :
      Encodes n [.ofNat (n / 64 % 32 + 0xC0), .ofNat (n % 64 + 0x80)]
  | three (least : 0x800 ≤ n) (small : n < 0x10000) :
      Encodes n
        [.ofNat (n / 4096 % 16 + 0xE0), .ofNat (n / 64 % 64 + 0x80), .ofNat (n % 64 + 0x80)]
  | four (least : 0x10000 ≤ n) (small : n < 0x110000) :
      Encodes n
        [.ofNat (n / 262144 % 8 + 0xF0), .ofNat (n / 4096 % 64 + 0x80),
          .ofNat (n / 64 % 64 + 0x80), .ofNat (n % 64 + 0x80)]

theorem toNat_lt (c : Char) : c.toNat < 0x110000 := by
  have valid : c.toNat.isValidChar := c.valid
  rw [Nat.isValidChar] at valid
  omega

theorem encodes_encodeChar (c : Char) : Encodes c.toNat (String.utf8EncodeChar c) := by
  have limit := toNat_lt c
  rw [String.utf8EncodeChar]
  split
  · next short => exact .one (Nat.lt_succ_of_le short)
  split
  · next least small => exact .two (Nat.lt_of_not_le least) (Nat.lt_succ_of_le small)
  split
  · next least small => exact .three (Nat.lt_of_not_le least) (Nat.lt_succ_of_le small)
  · next least => exact .four (Nat.lt_of_not_le least) limit

variable {n : Nat} {bytes : List UInt8}

theorem Encodes.encodeChar_eq {c : Char} (encodes : Encodes c.toNat bytes) :
    String.utf8EncodeChar c = bytes := by
  have own := encodes_encodeChar c
  revert own
  generalize String.utf8EncodeChar c = others
  intro own
  cases encodes <;> cases own <;> first | rfl | omega

theorem Encodes.length_pos (encodes : Encodes n bytes) : 0 < bytes.length := by
  cases encodes <;> exact Nat.succ_pos _

theorem length_le_length_encode (text : List Char) : text.length ≤ (encode text).length := by
  induction text with
  | nil => exact Nat.le_refl _
  | cons c text inductionHypothesis =>
      have first := (encodes_encodeChar c).length_pos
      rw [encode_cons, List.length_append, List.length_cons]
      omega

theorem Encodes.eq_of_ascii (encodes : Encodes n bytes) (ascii : n < 128) :
    bytes = [.ofNat n] := by
  cases encodes with
  | one => rfl
  | two | three | four => omega

theorem Encodes.mem {b : UInt8} (encodes : Encodes n bytes) (member : b ∈ bytes) :
    b.toNat = n ∨ 128 ≤ b.toNat := by
  cases encodes with
  | one small =>
      rw [List.mem_singleton.mp member, toNat_byte (by omega)]
      exact .inl rfl
  | two | three | four =>
      simp only [List.mem_cons, List.not_mem_nil, or_false] at member
      casesm* _ ∨ _ <;> subst b <;> rw [toNat_byte (by omega)] <;> omega

/-- The bytes of a character outside ASCII are none of ASCII. -/
theorem mem_encode_singleton {c : Char} {b : UInt8} (member : b ∈ encode [c]) :
    b.toNat = c.toNat ∨ 128 ≤ b.toNat := by
  rw [encode_singleton] at member
  exact (encodes_encodeChar c).mem member

/-- A character of ASCII is one byte. -/
theorem encode_ascii {c : Char} (ascii : c.toNat < 128) (text : List Char) :
    encode (c :: text) = .ofNat c.toNat :: encode text := by
  rw [encode_cons, (encodes_encodeChar c).eq_of_ascii ascii]
  rfl

/-! ### The text of bytes -/

theorem scalar?_eq {c : Char} {least m : Nat} (same : m = c.toNat) (enough : least ≤ m) :
    scalar? least m = some c := by
  have valid : m.isValidChar := same ▸ c.valid
  rw [scalar?, if_pos (by simp [enough, valid]), same, Char.ofNat_toNat]

theorem payload_byte (bits : Nat) : payload (.ofNat (bits % 64 + 0x80)) = bits % 64 := by
  unfold payload
  rw [toNat_byte (by omega), Nat.add_sub_cancel]

theorem isContinuation_byte (bits : Nat) :
    isContinuation (.ofNat (bits % 64 + 0x80)) = true := by
  rw [isContinuation, toNat_byte (by omega), Bool.and_eq_true, decide_eq_true_eq,
    decide_eq_true_eq]
  omega

/-- Reading the bytes of a character gives that character. -/
theorem Encodes.decode?_append {c : Char} (encodes : Encodes c.toNat bytes) (rest : List UInt8) :
    decode? (bytes ++ rest) = (decode? rest).map (c :: ·) := by
  cases encodes with
  | one small =>
      rw [List.singleton_append, decode?.eq_def]
      simp only [toNat_byte (by omega : c.toNat < 256), if_pos small, Char.ofNat_toNat]
  | two least small =>
      have first := toNat_byte (by omega : c.toNat / 64 % 32 + 0xC0 < 256)
      have whole : scalar? 0x80 ((c.toNat / 64 % 32 + 0xC0 - 0xC0) * 64 + c.toNat % 64) = some c :=
        scalar?_eq (by omega) (by omega)
      rw [List.cons_append, List.singleton_append, decode?.eq_def]
      simp only [first, isContinuation_byte, payload_byte, whole]
      rw [if_neg (by omega), if_neg (by decide), if_pos (by simp; omega)]
      exact Option.map_eq_bind.symm
  | three least small =>
      have first := toNat_byte (by omega : c.toNat / 4096 % 16 + 0xE0 < 256)
      have whole : scalar? 0x800 (((c.toNat / 4096 % 16 + 0xE0 - 0xE0) * 64 +
          c.toNat / 64 % 64) * 64 + c.toNat % 64) = some c :=
        scalar?_eq (by omega) (by omega)
      rw [List.cons_append, List.cons_append, List.singleton_append, decode?.eq_def]
      simp only [first, isContinuation_byte, payload_byte, whole]
      rw [if_neg (by omega), if_neg (by decide), if_neg (by simp), if_neg (by decide),
        if_pos (by simp; omega)]
      exact Option.map_eq_bind.symm
  | four least small =>
      have first := toNat_byte (by omega : c.toNat / 262144 % 8 + 0xF0 < 256)
      have whole : scalar? 0x10000 ((((c.toNat / 262144 % 8 + 0xF0 - 0xF0) * 64 +
          c.toNat / 4096 % 64) * 64 + c.toNat / 64 % 64) * 64 + c.toNat % 64) = some c :=
        scalar?_eq (by omega) (by omega)
      rw [List.cons_append, List.cons_append, List.cons_append, List.singleton_append,
        decode?.eq_def]
      simp only [first, isContinuation_byte, payload_byte, whole]
      rw [if_neg (by omega), if_neg (by decide), if_neg (by simp), if_neg (by decide),
        if_neg (by simp), if_neg (by decide), if_pos (by simp; omega)]
      exact Option.map_eq_bind.symm

theorem decode?_encode (text : List Char) : decode? (encode text) = some text := by
  induction text with
  | nil => rfl
  | cons c rest inductionHypothesis =>
      rw [encode_cons, (encodes_encodeChar c).decode?_append, inductionHypothesis,
        Option.map_some]

theorem toNat_charOfNat {n : Nat} (valid : n.isValidChar) : (Char.ofNat n).toNat = n := by
  rw [Char.ofNat, dif_pos valid]
  rfl

theorem scalar?_eq_some {least n : Nat} {c : Char} (found : scalar? least n = some c) :
    least ≤ n ∧ c.toNat = n := by
  rw [scalar?] at found
  split at found
  · next inRange =>
    rw [Bool.and_eq_true, decide_eq_true_eq, decide_eq_true_eq] at inRange
    rw [← Option.some.inj found]
    exact ⟨inRange.1, toNat_charOfNat inRange.2⟩
  · cases found

theorem isContinuation_iff {b : UInt8} :
    isContinuation b = true ↔ 0x80 ≤ b.toNat ∧ b.toNat < 0xC0 := by
  simp [isContinuation]

theorem ofNat_eq {m : Nat} {b : UInt8} (same : m = b.toNat) : UInt8.ofNat m = b := by
  rw [same, UInt8.ofNat_toNat]

theorem encodes_of_two {a b : UInt8} {c : Char} (first : 0xC0 ≤ a.toNat ∧ a.toNat < 0xE0)
    (second : isContinuation b = true)
    (found : scalar? 0x80 ((a.toNat - 0xC0) * 64 + payload b) = some c) :
    Encodes c.toNat [a, b] := by
  obtain ⟨low, high⟩ := isContinuation_iff.mp second
  obtain ⟨least, same⟩ := scalar?_eq_some found
  unfold payload at least same
  have bytes := Encodes.two (n := c.toNat) (by omega) (by omega)
  rwa [ofNat_eq (by omega : c.toNat / 64 % 32 + 0xC0 = a.toNat),
    ofNat_eq (by omega : c.toNat % 64 + 0x80 = b.toNat)] at bytes

theorem encodes_of_three {a b c : UInt8} {x : Char} (first : 0xE0 ≤ a.toNat ∧ a.toNat < 0xF0)
    (second : isContinuation b = true) (third : isContinuation c = true)
    (found : scalar? 0x800 (((a.toNat - 0xE0) * 64 + payload b) * 64 + payload c) = some x) :
    Encodes x.toNat [a, b, c] := by
  obtain ⟨low, high⟩ := isContinuation_iff.mp second
  obtain ⟨low', high'⟩ := isContinuation_iff.mp third
  obtain ⟨least, same⟩ := scalar?_eq_some found
  unfold payload at least same
  have bytes := Encodes.three (n := x.toNat) (by omega) (by omega)
  rwa [ofNat_eq (by omega : x.toNat / 4096 % 16 + 0xE0 = a.toNat),
    ofNat_eq (by omega : x.toNat / 64 % 64 + 0x80 = b.toNat),
    ofNat_eq (by omega : x.toNat % 64 + 0x80 = c.toNat)] at bytes

theorem encodes_of_four {a b c d : UInt8} {x : Char} (first : 0xF0 ≤ a.toNat ∧ a.toNat < 0xF8)
    (second : isContinuation b = true) (third : isContinuation c = true)
    (fourth : isContinuation d = true)
    (found : scalar? 0x10000 ((((a.toNat - 0xF0) * 64 + payload b) * 64 + payload c) * 64 +
      payload d) = some x) : Encodes x.toNat [a, b, c, d] := by
  obtain ⟨low, high⟩ := isContinuation_iff.mp second
  obtain ⟨low', high'⟩ := isContinuation_iff.mp third
  obtain ⟨low'', high''⟩ := isContinuation_iff.mp fourth
  obtain ⟨least, same⟩ := scalar?_eq_some found
  unfold payload at least same
  have bytes := Encodes.four (n := x.toNat) (by omega) (toNat_lt x)
  rwa [ofNat_eq (by omega : x.toNat / 262144 % 8 + 0xF0 = a.toNat),
    ofNat_eq (by omega : x.toNat / 4096 % 64 + 0x80 = b.toNat),
    ofNat_eq (by omega : x.toNat / 64 % 64 + 0x80 = c.toNat),
    ofNat_eq (by omega : x.toNat % 64 + 0x80 = d.toNat)] at bytes

/-- Bytes that stand for a text are the bytes of it. -/
theorem encode_of_decode? {bytes : List UInt8} {text : List Char}
    (decoded : decode? bytes = some text) : bytes = encode text := by
  -- one case for each length of a character; all other cases end in `none`
  fun_induction decode? bytes generalizing text
  case case1 =>
    cases decoded
    rfl
  case case2 a rest n small inductionHypothesis =>
    obtain ⟨tail, isTail, rfl⟩ := Option.map_eq_some_iff.mp decoded
    have same : (Char.ofNat a.toNat).toNat = a.toNat :=
      toNat_charOfNat (Or.inl (by omega))
    have encodes : Encodes (Char.ofNat a.toNat).toNat [a] := by
      have bytes := Encodes.one (n := a.toNat) small
      rw [ofNat_eq rfl] at bytes
      rwa [same]
    rw [encode_cons, encodes.encodeChar_eq, ← inductionHypothesis isTail]
    rfl
  case case4 a n large b rest second first inductionHypothesis =>
    obtain ⟨c, found, later⟩ := Option.bind_eq_some_iff.mp decoded
    obtain ⟨tail, isTail, isText⟩ := Option.bind_eq_some_iff.mp later
    cases isText
    have encodes := encodes_of_two (by simpa using first) (by simpa using second) found
    rw [encode_cons, encodes.encodeChar_eq, ← inductionHypothesis isTail]
    rfl
  case case6 a n large b second notTwo c rest third first inductionHypothesis =>
    obtain ⟨x, found, later⟩ := Option.bind_eq_some_iff.mp decoded
    obtain ⟨tail, isTail, isText⟩ := Option.bind_eq_some_iff.mp later
    cases isText
    have encodes := encodes_of_three (by simpa using first) (by simpa using second)
      (by simpa using third) found
    rw [encode_cons, encodes.encodeChar_eq, ← inductionHypothesis isTail]
    rfl
  case case8 a n large b second notTwo c third notThree d rest fourth first inductionHypothesis =>
    obtain ⟨x, found, later⟩ := Option.bind_eq_some_iff.mp decoded
    obtain ⟨tail, isTail, isText⟩ := Option.bind_eq_some_iff.mp later
    cases isText
    have encodes := encodes_of_four (by simpa using first) (by simpa using second)
      (by simpa using third) (by simpa using fourth) found
    rw [encode_cons, encodes.encodeChar_eq, ← inductionHypothesis isTail]
    rfl
  all_goals cases decoded

theorem decode?_eq_some_iff {bytes : List UInt8} {text : List Char} :
    decode? bytes = some text ↔ bytes = encode text := by
  constructor
  · exact encode_of_decode?
  · rintro rfl
    exact decode?_encode text

/-! ### What bytes show -/

variable {pending : Pending} {b : UInt8}

/-- The first byte of a character of several bytes shows nothing yet. -/
theorem lossyFrom_begin (high : 0x80 ≤ b.toNat) (begins : begin? b.toNat = some pending)
    (rest : List UInt8) : lossyFrom none (b :: rest) = lossyFrom (some pending) rest := by
  rw [lossyFrom, step, start, if_neg (by omega), begins]
  rfl

/-- The last byte of a character shows it. -/
theorem lossyFrom_last (least : pending.least ≤ b.toNat) (greatest : b.toNat ≤ pending.greatest)
    (last : pending.further = 0) (rest : List UInt8) :
    lossyFrom (some pending) (b :: rest) =
      Char.ofNat (pending.bits * 64 + payload b) :: lossyFrom none rest := by
  rw [lossyFrom, step, if_pos (by simp [least, greatest]), if_pos last]
  rfl

/-- Every other byte of a character adds its bits. -/
theorem lossyFrom_more (least : pending.least ≤ b.toNat) (greatest : b.toNat ≤ pending.greatest)
    {further : Nat} (more : pending.further = further + 1) (rest : List UInt8) :
    lossyFrom (some pending) (b :: rest) =
      lossyFrom (some ⟨0x80, 0xBF, further, pending.bits * 64 + payload b⟩) rest := by
  rw [lossyFrom, step, if_pos (by simp [least, greatest]), if_neg (by omega), more]
  rfl

/-- The bytes of a character show that character. -/
theorem Encodes.lossyFrom_append {c : Char} (encodes : Encodes c.toNat bytes)
    (rest : List UInt8) : lossyFrom none (bytes ++ rest) = c :: lossyFrom none rest := by
  have valid : c.toNat < 0xD800 ∨ 0xDFFF < c.toNat := by
    have isValid : c.toNat.isValidChar := c.valid
    rw [Nat.isValidChar] at isValid
    omega
  cases encodes with
  | one small =>
      have first := toNat_byte (by omega : c.toNat < 256)
      rw [List.singleton_append, lossyFrom, step, start, first, if_pos small, Char.ofNat_toNat]
      rfl
  | two least small =>
      have first := toNat_byte (by omega : c.toNat / 64 % 32 + 0xC0 < 256)
      have second := toNat_byte (by omega : c.toNat % 64 + 0x80 < 256)
      have begins : begin? (UInt8.ofNat (c.toNat / 64 % 32 + 0xC0)).toNat =
          some ⟨0x80, 0xBF, 0, c.toNat / 64 % 32⟩ := by
        rw [first, begin?, if_pos (by simp; omega), Nat.add_sub_cancel]
      have whole : c.toNat / 64 % 32 * 64 + c.toNat % 64 = c.toNat := by omega
      rw [List.cons_append, List.singleton_append, lossyFrom_begin (by omega) begins,
        lossyFrom_last (by dsimp; omega) (by dsimp; omega) rfl, payload_byte, whole,
        Char.ofNat_toNat]
  | three least small =>
      have first := toNat_byte (by omega : c.toNat / 4096 % 16 + 0xE0 < 256)
      have second := toNat_byte (by omega : c.toNat / 64 % 64 + 0x80 < 256)
      have third := toNat_byte (by omega : c.toNat % 64 + 0x80 < 256)
      have begins : begin? (UInt8.ofNat (c.toNat / 4096 % 16 + 0xE0)).toNat =
          some ⟨if c.toNat / 4096 % 16 + 0xE0 = 0xE0 then 0xA0 else 0x80,
            if c.toNat / 4096 % 16 + 0xE0 = 0xED then 0x9F else 0xBF, 1,
            c.toNat / 4096 % 16⟩ := by
        rw [first, begin?, if_neg (by simp), if_pos (by simp; omega), Nat.add_sub_cancel]
      have whole : (c.toNat / 4096 % 16 * 64 + c.toNat / 64 % 64) * 64 + c.toNat % 64 =
          c.toNat := by omega
      -- after the bytes of an overlong form or a surrogate the second byte would be out of range
      have inRange : (if c.toNat / 4096 % 16 + 0xE0 = 0xE0 then 0xA0 else 0x80) ≤
            c.toNat / 64 % 64 + 0x80 ∧
          c.toNat / 64 % 64 + 0x80 ≤
            (if c.toNat / 4096 % 16 + 0xE0 = 0xED then 0x9F else 0xBF) := by
        constructor <;> split <;> omega
      rw [List.cons_append, List.cons_append, List.singleton_append,
        lossyFrom_begin (by omega) begins,
        lossyFrom_more (by rw [second]; exact inRange.1) (by rw [second]; exact inRange.2) rfl,
        lossyFrom_last (by dsimp; omega) (by dsimp; omega) rfl, payload_byte, payload_byte, whole,
        Char.ofNat_toNat]
  | four least small =>
      have first := toNat_byte (by omega : c.toNat / 262144 % 8 + 0xF0 < 256)
      have second := toNat_byte (by omega : c.toNat / 4096 % 64 + 0x80 < 256)
      have third := toNat_byte (by omega : c.toNat / 64 % 64 + 0x80 < 256)
      have fourth := toNat_byte (by omega : c.toNat % 64 + 0x80 < 256)
      have begins : begin? (UInt8.ofNat (c.toNat / 262144 % 8 + 0xF0)).toNat =
          some ⟨if c.toNat / 262144 % 8 + 0xF0 = 0xF0 then 0x90 else 0x80,
            if c.toNat / 262144 % 8 + 0xF0 = 0xF4 then 0x8F else 0xBF, 2,
            c.toNat / 262144 % 8⟩ := by
        rw [first, begin?, if_neg (by simp), if_neg (by simp), if_pos (by simp; omega),
          Nat.add_sub_cancel]
      have whole : ((c.toNat / 262144 % 8 * 64 + c.toNat / 4096 % 64) * 64 +
          c.toNat / 64 % 64) * 64 + c.toNat % 64 = c.toNat := by omega
      have inRange : (if c.toNat / 262144 % 8 + 0xF0 = 0xF0 then 0x90 else 0x80) ≤
            c.toNat / 4096 % 64 + 0x80 ∧
          c.toNat / 4096 % 64 + 0x80 ≤
            (if c.toNat / 262144 % 8 + 0xF0 = 0xF4 then 0x8F else 0xBF) := by
        constructor <;> split <;> omega
      rw [List.cons_append, List.cons_append, List.cons_append, List.singleton_append,
        lossyFrom_begin (by omega) begins,
        lossyFrom_more (by rw [second]; exact inRange.1) (by rw [second]; exact inRange.2) rfl,
        lossyFrom_more (by dsimp; omega) (by dsimp; omega) rfl,
        lossyFrom_last (by dsimp; omega) (by dsimp; omega) rfl, payload_byte, payload_byte,
        payload_byte, whole, Char.ofNat_toNat]

theorem lossy_encode (text : List Char) : lossy (encode text) = text := by
  rw [lossy]
  induction text with
  | nil => rfl
  | cons c rest inductionHypothesis =>
      rw [encode_cons, (encodes_encodeChar c).lossyFrom_append, inductionHypothesis]

/-- A string is shown as it is. -/
@[simp] theorem text_bytes (string : String) : text (Utf8.bytes string) = string := by
  rw [text, Utf8.bytes, lossy_encode, String.ofList_toList]

@[simp] theorem bytes_empty : Utf8.bytes "" = [] := rfl

/-- The bytes are those of a text. -/
def IsText (bytes : List UInt8) : Prop := ∃ string, bytes = Utf8.bytes string

/-- What is shown for the bytes of a text has these bytes. -/
theorem IsText.bytes_text (isText : IsText bytes) : Utf8.bytes (text bytes) = bytes := by
  obtain ⟨string, rfl⟩ := isText
  rw [text_bytes]

end ConfigScan.Text.Utf8
