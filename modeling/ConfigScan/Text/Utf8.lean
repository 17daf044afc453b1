/-
Module: ConfigScan.Text.Utf8
Purpose: UTF-8: the bytes of a text, the text that bytes stand for, and the text that is shown for
  bytes that stand for none.
Main exports: Utf8.encode, Utf8.decode?, Utf8.lossy, Utf8.bytes, Utf8.text
-/

namespace ConfigScan.Text.Utf8

/-- The bytes of a text. -/
def encode (text : List Char) : List UInt8 :=
  text.flatMap String.utf8EncodeChar

/-- A byte that continues a character. -/
def isContinuation (b : UInt8) : Bool := 0x80 ≤ b.toNat && b.toNat < 0xC0

/-- The six bits that a continuation byte carries. -/
def payload (b : UInt8) : Nat := b.toNat - 0x80

/-- A code point that may be written with as many bytes as it was, and that is no surrogate. -/
def scalar? (least n : Nat) : Option Char :=
  if least ≤ n && n.isValidChar then some (Char.ofNat n) else none

/-- The text that bytes stand for. Overlong forms, surrogates and code points above U+10FFFF are
    no text. -/
def decode? : List UInt8 → Option (List Char)
  | [] => some []
  | a :: rest =>
      let n := a.toNat
      if n < 0x80 then (decode? rest).map (Char.ofNat n :: ·)
      else
        match rest with
        | b :: rest =>
            if !isContinuation b then none
            else if 0xC0 ≤ n && n < 0xE0 then do
              let c ← scalar? 0x80 ((n - 0xC0) * 64 + payload b)
              return c :: (← decode? rest)
            else
              match rest with
              | c :: rest =>
                  if !isContinuation c then none
                  else if 0xE0 ≤ n && n < 0xF0 then do
                    let x ← scalar? 0x800 (((n - 0xE0) * 64 + payload b) * 64 + payload c)
                    return x :: (← decode? rest)
                  else
                    match rest with
                    | d :: rest =>
                        if !isContinuation d then none
                        else if 0xF0 ≤ n && n < 0xF8 then do
                          let x ← scalar? 0x10000
                            ((((n - 0xF0) * 64 + payload b) * 64 + payload c) * 64 + payload d)
                          return x :: (← decode? rest)
                        else none
                    | [] => none
              | [] => none
        | [] => none

/-! ### Bytes that are no text -/

/-- The character that is shown where bytes stand for none. -/
def replacement : Char := Char.ofNat 0xFFFD

/-- What is still to come of a character: the least and the greatest byte that may be next, how many
    bytes come behind that one, and the bits read so far. -/
structure Pending where
  least : Nat
  greatest : Nat
  further : Nat
  bits : Nat
deriving DecidableEq, Repr, Inhabited

/-- What comes behind the first byte of a character of several bytes. The byte after the first one
    rules out overlong forms, surrogates and code points above U+10FFFF. -/
def begin? (n : Nat) : Option Pending :=
  if 0xC2 ≤ n && n < 0xE0 then some ⟨0x80, 0xBF, 0, n - 0xC0⟩
  else if 0xE0 ≤ n && n < 0xF0 then
    some ⟨if n = 0xE0 then 0xA0 else 0x80, if n = 0xED then 0x9F else 0xBF, 1, n - 0xE0⟩
  else if 0xF0 ≤ n && n < 0xF5 then
    some ⟨if n = 0xF0 then 0x90 else 0x80, if n = 0xF4 then 0x8F else 0xBF, 2, n - 0xF0⟩
  else none

/-- What a byte between characters shows, and what is then to come. -/
def start (b : UInt8) : List Char × Option Pending :=
  if b.toNat < 0x80 then ([Char.ofNat b.toNat], none)
  else
    match begin? b.toNat with
    | some pending => ([], some pending)
    | none => ([replacement], none)

/-- What one more byte shows. A character that does not go on is replaced as a whole, and the byte
    is read as the first one of the next. -/
def step : Option Pending → UInt8 → List Char × Option Pending
  | none, b => start b
  | some pending, b =>
      if pending.least ≤ b.toNat && b.toNat ≤ pending.greatest then
        let bits := pending.bits * 64 + payload b
        if pending.further = 0 then ([Char.ofNat bits], none)
        else ([], some ⟨0x80, 0xBF, pending.further - 1, bits⟩)
      else (replacement :: (start b).1, (start b).2)

/-- What bytes show when a character may be half read. -/
def lossyFrom : Option Pending → List UInt8 → List Char
  | none, [] => []
  | some _, [] => [replacement]
  | state, b :: rest => (step state b).1 ++ lossyFrom (step state b).2 rest

/-- What is shown for bytes: the text that they stand for, with every longest beginning of a
    character that does not go on as one, and every other byte that begins none, replaced. -/
def lossy (bytes : List UInt8) : List Char := lossyFrom none bytes

/-- The bytes of a string. -/
def bytes (text : String) : List UInt8 := encode text.toList

/-- The string that is shown for bytes. -/
def text (bytes : List UInt8) : String := String.ofList (lossy bytes)

end ConfigScan.Text.Utf8

namespace ConfigScan

/-- A string stands for its bytes. -/
instance Name.ofString : Coe String (List UInt8) := ⟨Text.Utf8.bytes⟩

end ConfigScan
