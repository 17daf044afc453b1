/-
Module: ConfigScan.Proofs.Json.TextList
Purpose: Reading a list of texts, in front of any JSON value: a list of texts is read back, and
  every other value is refused.
Main exports: Json.Gives, Json.Value.texts?, Json.Value.texts?_eq_some, Json.textList_gives
-/
import ConfigScan.Filter.Reader
import ConfigScan.Proofs.Json.Text

namespace ConfigScan.Json

open Text.Utf8 (encode encode_ascii encode_append)

/-! ### What reading gives -/

/-- Reading gives a value and leaves the bytes `rest`, or it gives an error if there is no value. -/
inductive Gives {α : Type} (rest : List UInt8) : Option α → Except Error (α × Cursor) → Prop where
  | value (x : α) (place : Place) : Gives rest (some x) (.ok (x, ⟨rest, place⟩))
  | fault (e : Error) : Gives rest none (.error e)

variable {α β : Type} {rest : List UInt8} {place : Place}

/-- What is read next follows what has been read, and an error stays one. -/
theorem Gives.bind {behind : List UInt8} {outcome : Option α} {next : α → Option β}
    {result : Except Error (α × Cursor)} {read : α × Cursor → Except Error (β × Cursor)}
    (gives : Gives behind outcome result)
    (further : ∀ x place, outcome = some x → Gives rest (next x) (read (x, ⟨behind, place⟩))) :
    Gives rest (outcome.bind next) (result >>= read) := by
  cases gives with
  | value x place => exact further x place rfl
  | fault e => exact .fault e

theorem gives_none {result : Except Error (α × Cursor)} (fails : ∃ e, result = .error e) :
    Gives rest none result := by
  obtain ⟨e, rfl⟩ := fails
  exact .fault e

theorem bind_fails {result : Except Error α} {read : α → Except Error β}
    (fails : ∀ x, ∃ e, read x = .error e) : ∃ e, (result >>= read) = .error e := by
  cases result with
  | error e => exact ⟨e, rfl⟩
  | ok x => exact fails x

/-- A value of another kind than the wanted one is an error, whether it can be read or not. -/
theorem refuse_fails (wanted : String) (c : Cursor) :
    ∃ e, (refuse wanted c : Except Error α) = .error e := by
  unfold refuse
  dsimp only
  split
  · exact ⟨_, rfl⟩
  split
  · exact bind_fails fun _ => ⟨_, rfl⟩
  · exact bind_fails fun _ => ⟨_, rfl⟩
  · exact bind_fails fun _ => ⟨_, rfl⟩
  · exact bind_fails fun _ => ⟨_, rfl⟩
  · exact bind_fails fun _ => ⟨_, rfl⟩
  · exact ⟨_, rfl⟩
  · exact ⟨_, rfl⟩
  split
  · exact bind_fails fun _ => ⟨_, rfl⟩
  · exact ⟨_, rfl⟩

/-! ### White space -/

theorem skipWhileFrom_append {passes : UInt8 → Bool} {bytes : List UInt8}
    (pass : ∀ b ∈ bytes, passes b = true) :
    Cursor.skipWhileFrom passes place (bytes ++ rest) =
      Cursor.skipWhileFrom passes (place.behind bytes) rest := by
  induction bytes generalizing place with
  | nil => rfl
  | cons b bytes inductionHypothesis =>
      obtain ⟨first, others⟩ := List.forall_mem_cons.mp pass
      rw [List.cons_append, Cursor.skipWhileFrom, if_pos first, inductionHypothesis others]
      rfl

theorem isBlank_of_mem_encode {blanks : List Char} (areBlank : Blanks blanks) :
    ∀ b ∈ encode blanks, Cursor.isBlank b = true := by
  induction blanks with
  | nil => intro b member; cases member
  | cons c blanks inductionHypothesis =>
      obtain ⟨first, others⟩ := List.forall_mem_cons.mp areBlank
      intro b member
      rw [Text.Utf8.encode_cons, List.mem_append] at member
      rcases member with inFirst | inOthers
      · simp only [List.mem_cons, List.not_mem_nil, or_false] at first
        rcases first with rfl | rfl | rfl | rfl <;> rw [List.mem_singleton.mp inFirst] <;> rfl
      · exact inductionHypothesis others b inOthers

/-- White space in front of something is passed. -/
theorem skipBlanks_blanks {blanks : List Char} (areBlank : Blanks blanks) :
    Cursor.skipBlanks ⟨encode blanks ++ rest, place⟩ =
      Cursor.skipBlanks ⟨rest, place.behind (encode blanks)⟩ :=
  skipWhileFrom_append (isBlank_of_mem_encode areBlank)

theorem skipBlanks_cons {b : UInt8} (shown : Cursor.isBlank b = false) :
    Cursor.skipBlanks ⟨b :: rest, place⟩ = ⟨b :: rest, place⟩ := by
  rw [Cursor.skipBlanks, Cursor.skipWhile, Cursor.skipWhileFrom, if_neg (by simp [shown])]

/-- White space at the end is passed up to the end. -/
theorem skipBlanks_all {blanks : List Char} (areBlank : Blanks blanks) :
    Cursor.skipBlanks ⟨encode blanks, place⟩ = ⟨[], place.behind (encode blanks)⟩ := by
  have skipped : Cursor.skipBlanks ⟨encode blanks ++ [], place⟩ = _ := skipBlanks_blanks areBlank
  rwa [List.append_nil] at skipped

/-- White space is passed up to the next byte that is none. -/
theorem skipBlanks_to {blanks : List Char} (areBlank : Blanks blanks) {b : UInt8}
    (shown : Cursor.isBlank b = false) :
    Cursor.skipBlanks ⟨encode blanks ++ b :: rest, place⟩ =
      ⟨b :: rest, place.behind (encode blanks)⟩ := by
  rw [skipBlanks_blanks areBlank, skipBlanks_cons shown]

/-- There are no more parts of a list or an object than bytes that write them. -/
theorem Encloses.length_le_bytes {WritesPart : α → List Char → Prop} {closing : Char}
    {parts : List α} {text : List Char} (encloses : Encloses WritesPart closing parts text)
    (rest : List UInt8) : parts.length ≤ (encode text ++ rest).length := by
  have inText := encloses.length_le
  have inBytes := Text.Utf8.length_le_length_encode text
  rw [List.length_append]
  omega

/-! ### The first byte of a value -/

/-- What the first byte of a value shows: it is no white space and no closing sign, a quote starts a
    text, and an opening bracket a list. -/
structure Starts (value : Value) (b : UInt8) : Prop where
  shown : Cursor.isBlank b = false
  noClosing : b ≠ 93
  quote : b = 34 → ∃ s, value = .text s
  bracket : b = 91 → ∃ items, value = .list items

theorem starts_of_other {value : Value} {b : UInt8} (shown : Cursor.isBlank b = false)
    (other : b ∉ [34, 91, 93]) : Starts value b where
  shown := shown
  noClosing := fun same => other (by simp [same])
  quote := fun same => absurd (by simp [same]) other
  bracket := fun same => absurd (by simp [same]) other

theorem digit_shown : ∀ n < 58, 48 ≤ n →
    Cursor.isBlank (.ofNat n) = false ∧ UInt8.ofNat n ∉ [34, 91, 93] := by decide

theorem starts_digit {value : Value} {c : Char} (digit : c.isDigit = true) (rest : List Char) :
    ∃ b others, encode (c :: rest) = b :: others ∧ Starts value b := by
  simp only [Char.isDigit, Bool.and_eq_true, decide_eq_true_eq, UInt32.le_iff_toNat_le] at digit
  have least : 48 ≤ c.toNat := digit.1
  have greatest : c.toNat ≤ 57 := digit.2
  obtain ⟨shown, other⟩ := digit_shown c.toNat (by omega) least
  exact ⟨_, _, encode_ascii (by omega) rest, starts_of_other shown other⟩

theorem Numeral.starts (numeral : Numeral) :
    ∃ b others, encode numeral.text = b :: others ∧ Starts (.number numeral) b := by
  obtain ⟨negative, ⟨first, others, areDigits⟩, _, _, _⟩ := numeral
  cases negative with
  | true => exact ⟨45, _, rfl, starts_of_other (by decide) (by decide)⟩
  | false => exact starts_digit (areDigits first List.mem_cons_self) _

theorem Writes.starts {value : Value} {text : List Char} (writes : Writes value text) :
    ∃ b others, encode text = b :: others ∧ Starts value b := by
  cases writes with
  | null => exact ⟨110, _, rfl, starts_of_other (by decide) (by decide)⟩
  | true => exact ⟨116, _, rfl, starts_of_other (by decide) (by decide)⟩
  | false => exact ⟨102, _, rfl, starts_of_other (by decide) (by decide)⟩
  | number numeral => exact numeral.starts
  | text writes =>
      cases writes with
      | quotes =>
          exact ⟨34, _, rfl, by decide, by decide, fun _ => ⟨_, rfl⟩,
            fun same => absurd same (by decide)⟩
  | list =>
      exact ⟨91, _, rfl, by decide, by decide, fun same => absurd same (by decide),
        fun _ => ⟨_, rfl⟩⟩
  | object => exact ⟨123, _, rfl, starts_of_other (by decide) (by decide)⟩

/-! ### Texts and lists of texts -/

namespace Value

/-- The text that a value is. -/
def text? : Value → Option String
  | .text value => some value
  | _ => none

/-- The texts of a value that is a list of texts. -/
def texts? : Value → Option (List String)
  | .list items => items.mapM text?
  | _ => none

theorem text?_eq_none {value : Value} (noText : ∀ s, value ≠ .text s) : value.text? = none := by
  cases value with
  | text s => exact absurd rfl (noText s)
  | _ => rfl

theorem text?_eq_some {value : Value} {s : String} : value.text? = some s ↔ value = .text s := by
  cases value <;> simp [text?]

theorem mapM_text?_eq_some {values : List Value} {items : List String} :
    values.mapM text? = some items ↔ values = items.map .text := by
  induction values generalizing items with
  | nil => cases items <;> simp
  | cons value values inductionHypothesis =>
      rw [List.mapM_cons]
      simp only [Option.bind_eq_bind, Option.bind_eq_some_iff, text?_eq_some, inductionHypothesis]
      cases items <;> simp [eq_comm]

/-- The values with texts are the lists of texts. -/
theorem texts?_eq_some {value : Value} {items : List String} :
    value.texts? = some items ↔ value = .list (items.map .text) := by
  cases value <;> simp [texts?, mapM_text?_eq_some]

theorem texts?_eq_none {value : Value} (noList : ∀ items, value ≠ .list items) :
    value.texts? = none := by
  cases value with
  | list items => exact absurd rfl (noList items)
  | _ => rfl

end Value

theorem textValue_cons {b : UInt8} {bytes : List UInt8} (shown : Cursor.isBlank b = false) :
    textValue ⟨b :: bytes, place⟩ =
      if b = 34 then (readText ⟨bytes, place.after b⟩).bind fun read =>
        .ok (String.ofList read.1, read.2)
      else refuse "a string" ⟨b :: bytes, place⟩ := by
  unfold textValue
  rw [skipBlanks_cons shown]
  by_cases quote : b = 34
  · subst quote
    rfl
  · have other : Cursor.startsWith ⟨b :: bytes, place⟩ 34 = false := by
      simp [Cursor.startsWith, quote]
    simp [other, quote]

/-- The bytes of a text in quotes. -/
theorem encode_quotes (inner : List Char) :
    encode ('"' :: (inner ++ ['"'])) ++ rest = 34 :: (encode inner ++ 34 :: rest) := by
  rw [encode_ascii (by decide), encode_append, List.cons_append, List.append_assoc]
  rfl

/-- A text is read, and any other value refused. -/
theorem textValue_gives {value : Value} {text : List Char} (writes : Writes value text) :
    Gives rest value.text? (textValue ⟨encode text ++ rest, place⟩) := by
  by_cases isText : ∃ s, value = .text s
  · obtain ⟨s, rfl⟩ := isText
    cases writes with
    | text writes =>
      cases writes with
      | quotes chars =>
        obtain ⟨behind, read⟩ := readText_writes chars rest (place.after 34)
        rw [encode_quotes, textValue_cons (by decide), if_pos rfl, read, Value.text?]
        simp only [Except.bind, String.ofList_toList]
        exact .value s behind
  · obtain ⟨b, others, bytes, starts⟩ := writes.starts
    rw [bytes, List.cons_append, textValue_cons starts.shown, if_neg (mt starts.quote isText),
      Value.text?_eq_none fun s same => isText ⟨s, same⟩]
    exact gives_none (refuse_fails _ _)

/-! ### Items -/

theorem nextItem_closing (first : Bool) {blanks : List Char} (areBlank : Blanks blanks) :
    nextItem first ⟨encode blanks ++ 93 :: rest, place⟩ =
      .ok (false, ⟨93 :: rest, place.behind (encode blanks)⟩) := by
  rw [nextItem, skipBlanks_to areBlank (by decide)]
  rfl

variable {value : Value} {before after text : List Char}

/-- The first item of a list is next behind the opening bracket. -/
theorem nextItem_first (areBlank : Blanks before) (writes : Writes value text) :
    ∃ behind, nextItem true ⟨encode before ++ (encode text ++ rest), place⟩ =
      .ok (true, ⟨encode text ++ rest, behind⟩) := by
  obtain ⟨b, others, bytes, starts⟩ := writes.starts
  refine ⟨place.behind (encode before), ?_⟩
  rw [bytes, List.cons_append, nextItem, skipBlanks_to areBlank starts.shown]
  simp only [if_neg starts.noClosing, if_true]

/-- Each further item is next behind a comma. -/
theorem nextItem_comma (isBlankBehind : Blanks after) (areBlank : Blanks before)
    (writes : Writes value text) :
    ∃ behind,
      nextItem false ⟨encode after ++ 44 :: (encode before ++ (encode text ++ rest)), place⟩ =
        .ok (true, ⟨encode text ++ rest, behind⟩) := by
  obtain ⟨b, others, bytes, starts⟩ := writes.starts
  rw [bytes, List.cons_append, nextItem, skipBlanks_to isBlankBehind (by decide)]
  simp [Cursor.skip, skipBlanks_to areBlank starts.shown, starts.noClosing]

/-- An item and the items behind it give the texts of them all. -/
theorem textItems_part {items : List Value} {fuel : Nat} {first : Bool} {c : Cursor}
    {bytes : List UInt8} (writes : Writes value text)
    (next : ∃ behind, nextItem first c = .ok (true, ⟨encode text ++ bytes, behind⟩))
    (others : ∀ place, Gives rest (items.mapM Value.text?) (textItems fuel false ⟨bytes, place⟩)) :
    Gives rest ((value :: items).mapM Value.text?) (textItems (fuel + 1) first c) := by
  obtain ⟨behind, next⟩ := next
  rw [textItems, next, List.mapM_cons]
  refine (textValue_gives writes).bind fun item place _ => ?_
  refine (others place).bind fun items place _ => ?_
  exact .value _ place

/-- The items behind an item are read up to the closing bracket. -/
theorem textItems_follows {items : List Value} {written : List Char}
    (follows : Follows Writes ']' items written) (isBlankBehind : Blanks after)
    {fuel : Nat} (enough : items.length ≤ fuel) (place : Place) :
    Gives (93 :: rest) (items.mapM Value.text?)
      (textItems (fuel + 1) false ⟨encode after ++ (encode written ++ rest), place⟩) := by
  -- Each item takes one unit of the fuel, and one is left for the closing bracket.
  induction follows generalizing after fuel place with
  | close =>
      rw [textItems, show encode [']'] ++ rest = 93 :: rest from rfl,
        nextItem_closing false isBlankBehind]
      exact .value _ _
  | part areBlank writes isBlankAfter _ inductionHypothesis =>
      obtain ⟨fuel, rfl⟩ := Nat.exists_eq_add_of_le' (Nat.zero_lt_of_lt enough)
      simp only [encode_ascii (c := ',') (by decide), encode_append, List.cons_append,
        List.append_assoc]
      refine textItems_part writes (nextItem_comma isBlankBehind areBlank writes) fun place => ?_
      exact inductionHypothesis isBlankAfter (Nat.le_of_succ_le_succ enough) place

theorem textItems_encloses {items : List Value} {body : List Char}
    (encloses : Encloses Writes ']' items body) :
    Gives (93 :: rest) (items.mapM Value.text?)
      (textItems ((encode body ++ rest).length + 2) true ⟨encode body ++ rest, place⟩) := by
  have enough := encloses.length_le_bytes rest
  cases encloses with
  | empty areBlank =>
      rw [encode_append, List.append_assoc, textItems,
        show encode [']'] ++ rest = 93 :: rest from rfl, nextItem_closing true areBlank]
      exact .value _ _
  | parts areBlank writes isBlankBehind follows =>
      simp only [encode_append, List.append_assoc] at enough ⊢
      exact textItems_part writes (nextItem_first areBlank writes)
        (textItems_follows follows isBlankBehind (Nat.le_of_succ_le enough))

theorem textList_cons {b : UInt8} {bytes : List UInt8} (shown : Cursor.isBlank b = false)
    (areBlank : Blanks before) :
    textList ⟨encode before ++ b :: bytes, place⟩ =
      if b = 91 then
        (textItems (bytes.length + 2) true ⟨bytes, (place.behind (encode before)).after b⟩).bind
          fun read => (closeList read.2).bind fun c => .ok (read.1, c)
      else refuse "a sequence" ⟨b :: bytes, place.behind (encode before)⟩ := by
  unfold textList
  rw [skipBlanks_to areBlank shown]
  by_cases bracket : b = 91
  · subst bracket
    rfl
  · have other : Cursor.startsWith ⟨b :: bytes, place.behind (encode before)⟩ 91 = false := by
      simp [Cursor.startsWith, bracket]
    simp [other, bracket]

/-- A list of texts is read, and any other value refused, also a list that has another value among
    its items. -/
theorem textList_gives (areBlank : Blanks before) (writes : Writes value text) :
    Gives rest value.texts? (textList ⟨encode before ++ (encode text ++ rest), place⟩) := by
  by_cases isList : ∃ items, value = .list items
  · obtain ⟨items, rfl⟩ := isList
    cases writes with
    | list encloses =>
        rw [encode_ascii (by decide), List.cons_append, textList_cons (by decide) areBlank,
          if_pos (by decide), Value.texts?, ← Option.bind_fun_some (items.mapM Value.text?)]
        exact (textItems_encloses encloses).bind fun items place _ => .value items _
  · obtain ⟨b, others, bytes, starts⟩ := writes.starts
    rw [bytes, List.cons_append, textList_cons starts.shown areBlank,
      if_neg (mt starts.bracket isList),
      Value.texts?_eq_none fun items same => isList ⟨items, same⟩]
    exact gives_none (refuse_fails _ _)

end ConfigScan.Json
