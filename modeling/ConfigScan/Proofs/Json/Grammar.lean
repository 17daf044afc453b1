/-
Module: ConfigScan.Proofs.Json.Grammar
Purpose: JSON values and the texts that write them, with any white space between the parts and any
  escapes inside texts, and the one of these texts that has the least of both.
Main exports: Json.Value, Json.WritesChars, Json.Encloses, Json.Writes, Json.WritesDocument,
  Json.Value.compact, Json.writes_compact
-/
import ConfigScan.Json.Printer
import ConfigScan.Text.Digit

namespace ConfigScan.Json

/-! ### Values -/

/-- Digits, at least one of them. -/
structure Digits where
  first : Char
  others : List Char
  areDigits : ∀ c ∈ first :: others, c.isDigit = true

/-- The digits as they stand in the text. -/
def Digits.text (digits : Digits) : List Char := digits.first :: digits.others

/-- A number as it is written. Its whole part has no zero in front of other digits. -/
structure Numeral where
  negative : Bool
  whole : Digits
  noLeadingZero : whole.first = '0' → whole.others = []
  fraction : Option Digits
  /-- The letter of the exponent, its sign if there is one, and its digits. -/
  exponent :
    Option ({ c : Char // c ∈ ['e', 'E'] } × Option { c : Char // c ∈ ['+', '-'] } × Digits)

/-- The number as it stands in the text. -/
def Numeral.text (numeral : Numeral) : List Char :=
  (if numeral.negative then ['-'] else []) ++ numeral.whole.text ++
    (match numeral.fraction with
      | none => []
      | some digits => '.' :: digits.text) ++
    match numeral.exponent with
      | none => []
      | some (letter, sign, digits) => letter.1 :: (sign.map (·.1)).toList ++ digits.text

/-- A JSON value. The members of an object stand in the order in which they are written, and a name
    may come more than once. -/
inductive Value where
  | null
  | bool (value : Bool)
  | number (numeral : Numeral)
  | text (value : String)
  | list (items : List Value)
  | object (members : List (String × Value))

/-! ### Texts in quotes -/

/-- Escapes by one letter, with the characters that they stand for. -/
def letters : List (Char × Char) :=
  [('"', '"'), ('\\', '\\'), ('/', '/'), ('b', '\x08'), ('f', '\x0c'), ('n', '\n'), ('r', '\r'),
    ('t', '\t')]

/-- Four hexadecimal digits and the number that they write. -/
inductive IsUnit : List Char → Nat → Prop where
  | digits {a b c d : Char} {i j k l : Nat} (first : Text.hexValue? a = some i)
      (second : Text.hexValue? b = some j) (third : Text.hexValue? c = some k)
      (fourth : Text.hexValue? d = some l) :
      IsUnit [a, b, c, d] (16 * (16 * (16 * i + j) + k) + l)

/-- A character inside quotes: as it is, if it is no quote, no backslash and no control character,
    or as an escape. One beyond four hexadecimal digits is escaped as a pair of surrogates. -/
inductive WritesChar : Char → List Char → Prop where
  | plain {c : Char} (noQuote : c ≠ '"') (noBackslash : c ≠ '\\') (noControl : 32 ≤ c.toNat) :
      WritesChar c [c]
  | letter {c letter : Char} (known : (letter, c) ∈ letters) : WritesChar c ['\\', letter]
  | unit {c : Char} {digits : List Char} (isUnit : IsUnit digits c.toNat) :
      WritesChar c ('\\' :: 'u' :: digits)
  | pair {c : Char} {first second : List Char} {high low : Nat}
      (isFirst : IsUnit first (0xD800 + high)) (isSecond : IsUnit second (0xDC00 + low))
      (highSmall : high < 0x400) (lowSmall : low < 0x400)
      (value : c.toNat = 0x10000 + high * 0x400 + low) :
      WritesChar c ('\\' :: 'u' :: (first ++ '\\' :: 'u' :: second))

/-- The characters between the quotes of a text. -/
inductive WritesChars : List Char → List Char → Prop where
  | nil : WritesChars [] []
  | cons {c : Char} {text written others : List Char} (first : WritesChar c written)
      (rest : WritesChars text others) : WritesChars (c :: text) (written ++ others)

/-- A text with its quotes. -/
inductive WritesText : String → List Char → Prop where
  | quotes {text : String} {inner : List Char} (writes : WritesChars text.toList inner) :
      WritesText text ('"' :: (inner ++ ['"']))

/-! ### Lists and objects -/

/-- White space, as it may stand between the parts of a value. -/
def Blanks (text : List Char) : Prop := ∀ c ∈ text, c ∈ [' ', '\t', '\n', '\r']

section Parts

variable {α : Type} (WritesPart : α → List Char → Prop) (closing : Char)

/-- What stands behind a part: the parts that are left, each behind a comma, and the closing
    sign. -/
inductive Follows : List α → List Char → Prop where
  | close : Follows [] [closing]
  | part {x : α} {xs : List α} {before text after rest : List Char} (isBlank : Blanks before)
      (writes : WritesPart x text) (isBlankBehind : Blanks after) (follows : Follows xs rest) :
      Follows (x :: xs) (',' :: (before ++ (text ++ (after ++ rest))))

/-- What stands behind an opening sign: all parts with commas between them, and the closing sign. -/
inductive Encloses : List α → List Char → Prop where
  | empty {blanks : List Char} (isBlank : Blanks blanks) : Encloses [] (blanks ++ [closing])
  | parts {x : α} {xs : List α} {before text after rest : List Char} (isBlank : Blanks before)
      (writes : WritesPart x text) (isBlankBehind : Blanks after)
      (follows : Follows WritesPart closing xs rest) :
      Encloses (x :: xs) (before ++ (text ++ (after ++ rest)))

variable {WritesPart : α → List Char → Prop} {closing : Char} {parts : List α} {text : List Char}

theorem Follows.length_lt (follows : Follows WritesPart closing parts text) :
    parts.length < text.length := by
  induction follows with
  | close => exact Nat.one_pos
  | part _ _ _ _ inductionHypothesis =>
      simp only [List.length_cons, List.length_append]
      omega

/-- There are no more parts than characters that write them. -/
theorem Encloses.length_le (encloses : Encloses WritesPart closing parts text) :
    parts.length ≤ text.length := by
  cases encloses with
  | empty => exact Nat.zero_le _
  | parts _ _ _ follows =>
      have fewer := follows.length_lt
      simp only [List.length_cons, List.length_append]
      omega

end Parts

mutual

/-- The texts that write a value. -/
inductive Writes : Value → List Char → Prop where
  | null : Writes .null ['n', 'u', 'l', 'l']
  | true : Writes (.bool true) ['t', 'r', 'u', 'e']
  | false : Writes (.bool false) ['f', 'a', 'l', 's', 'e']
  | number (numeral : Numeral) : Writes (.number numeral) numeral.text
  | text {value : String} {written : List Char} (writes : WritesText value written) :
      Writes (.text value) written
  | list {items : List Value} {body : List Char} (encloses : Encloses Writes ']' items body) :
      Writes (.list items) ('[' :: body)
  | object {members : List (String × Value)} {body : List Char}
      (encloses : Encloses WritesMember '}' members body) :
      Writes (.object members) ('{' :: body)

/-- The texts that write a member of an object: its name, a colon and its value. -/
inductive WritesMember : String × Value → List Char → Prop where
  | member {name : String} {value : Value} {key before after text : List Char}
      (writesName : WritesText name key) (isBlank : Blanks before) (isBlankBehind : Blanks after)
      (writesValue : Writes value text) :
      WritesMember (name, value) (key ++ (before ++ ':' :: (after ++ text)))

end

/-- A whole text that writes a value, with white space around it. -/
inductive WritesDocument (value : Value) : List Char → Prop where
  | padded {before text after : List Char} (isBlank : Blanks before) (writes : Writes value text)
      (isBlankBehind : Blanks after) : WritesDocument value (before ++ (text ++ after))

/-! ### The shortest spelling -/

/-- The parts behind a part, and the closing sign, without white space. -/
def following (closing : Char) : List (List Char) → List Char
  | [] => [closing]
  | part :: parts => ',' :: (part ++ following closing parts)

/-- The parts behind an opening sign, and the closing sign, without white space. -/
def enclosed (closing : Char) : List (List Char) → List Char
  | [] => [closing]
  | part :: parts => part ++ following closing parts

mutual

/-- A value without white space, and with those characters escaped that have to be. -/
def Value.compact : Value → List Char
  | .null => ['n', 'u', 'l', 'l']
  | .bool true => ['t', 'r', 'u', 'e']
  | .bool false => ['f', 'a', 'l', 's', 'e']
  | .number numeral => numeral.text
  | .text value => quoted value.toList
  | .list items => '[' :: enclosed ']' (compactItems items)
  | .object members => '{' :: enclosed '}' (compactMembers members)

def compactItems : List Value → List (List Char)
  | [] => []
  | item :: items => item.compact :: compactItems items

def compactMembers : List (String × Value) → List (List Char)
  | [] => []
  | (name, value) :: members =>
      (quoted name.toList ++ ':' :: value.compact) :: compactMembers members

end

theorem blanks_nil : Blanks [] := fun _ member => by cases member

theorem hexValue?_digitChar : ∀ n < 16, Text.hexValue? (Nat.digitChar n) = some n := by decide

/-- The escape of a control character that has none of its own letter. -/
theorem isUnit_control {n : Nat} (control : n < 32) :
    IsUnit ['0', '0', Nat.digitChar (n / 16), Nat.digitChar (n % 16)] n := by
  have writes := IsUnit.digits (i := 0) (j := 0) (a := '0') (b := '0') (by decide) (by decide)
    (hexValue?_digitChar (n / 16) (by omega)) (hexValue?_digitChar (n % 16) (by omega))
  have value : 16 * (16 * (16 * 0 + 0) + n / 16) + n % 16 = n := by omega
  rwa [value] at writes

theorem writesChar_escaped (c : Char) : WritesChar c (escaped c) := by
  unfold escaped
  split
  case h_8 noQuote noBackslash _ _ _ _ _ =>
      split
      · next control => exact .unit (isUnit_control control)
      · next noControl => exact .plain noQuote noBackslash (Nat.not_lt.mp noControl)
  all_goals exact .letter (by decide)

theorem writesChars_escaped (text : List Char) : WritesChars text (text.flatMap escaped) := by
  induction text with
  | nil => exact .nil
  | cons c text inductionHypothesis => exact .cons (writesChar_escaped c) inductionHypothesis

theorem writesText_quoted (text : String) : WritesText text (quoted text.toList) :=
  .quotes (writesChars_escaped text.toList)

mutual

/-- Every value has a text. -/
theorem writes_compact : (value : Value) → Writes value value.compact
  | .null => .null
  | .bool true => .true
  | .bool false => .false
  | .number numeral => .number numeral
  | .text value => .text (writesText_quoted value)
  | .list items => .list (encloses_compactItems items)
  | .object members => .object (encloses_compactMembers members)

theorem encloses_compactItems :
    (items : List Value) → Encloses Writes ']' items (enclosed ']' (compactItems items))
  | [] => .empty blanks_nil
  | item :: items => .parts blanks_nil (writes_compact item) blanks_nil (follows_compactItems items)

theorem follows_compactItems :
    (items : List Value) → Follows Writes ']' items (following ']' (compactItems items))
  | [] => .close
  | item :: items => .part blanks_nil (writes_compact item) blanks_nil (follows_compactItems items)

theorem encloses_compactMembers : (members : List (String × Value)) →
    Encloses WritesMember '}' members (enclosed '}' (compactMembers members))
  | [] => .empty blanks_nil
  | (name, value) :: members =>
      .parts blanks_nil
        (.member (writesText_quoted name) blanks_nil blanks_nil (writes_compact value))
        blanks_nil (follows_compactMembers members)

theorem follows_compactMembers : (members : List (String × Value)) →
    Follows WritesMember '}' members (following '}' (compactMembers members))
  | [] => .close
  | (name, value) :: members =>
      .part blanks_nil
        (.member (writesText_quoted name) blanks_nil blanks_nil (writes_compact value))
        blanks_nil (follows_compactMembers members)

end

theorem writesDocument_compact {value : Value} {text : List Char} (same : value.compact = text) :
    WritesDocument value text := by
  have writes := WritesDocument.padded blanks_nil (writes_compact value) blanks_nil
  rwa [List.nil_append, List.append_nil, same] at writes

end ConfigScan.Json
