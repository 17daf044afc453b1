/-
Module: ConfigScan.Proofs.Layout.Spelling
Purpose: The ways to write a key in front of its colon, and what may stand in front of it on its
  line. A key line is read back as it was written.
Main exports: Layout.IsLead, Layout.PlainKey, Layout.Spelling, Layout.keyText, Layout.dashText,
  Layout.read?_keyText
-/
import ConfigScan.Proofs.Yaml.Outline
import Mathlib.Data.List.Chain

namespace ConfigScan

/-! ### Trimming -/

namespace Text

theorem trimEnd_cons {c : Char} (visible : isBlank c = false) (rest : List Char) :
    trimEnd (c :: rest) = c :: trimEnd rest := by
  simp only [trimEnd, List.reverse_cons, List.dropWhile_append]
  cases dropped : rest.reverse.dropWhile isBlank with
  | nil => simp [visible]
  | cons d others => simp

/-- A text in which something is visible keeps it when its end is trimmed. -/
theorem trimEnd_ne_nil {text : List Char} (visible : text.dropWhile isBlank ≠ []) :
    trimEnd text ≠ [] := by
  intro trimmed
  apply visible
  rw [trimEnd, List.reverse_eq_nil_iff, List.dropWhile_eq_nil_iff] at trimmed
  rw [List.dropWhile_eq_nil_iff]
  exact fun c member => trimmed c (List.mem_reverse.mpr member)

end Text

namespace Yaml

/-- A line has content when the first visible character is there and starts no comment. -/
theorem isContent_eq (line : List Char) :
    isContent line = match line.dropWhile Text.isBlank with
      | [] => false
      | c :: _ => c != '#' := by
  unfold isContent Text.trim Text.trimStart
  cases dropped : line.dropWhile Text.isBlank with
  | nil => rfl
  | cons c rest =>
      have visible : Text.isBlank c = false := by
        have head := List.head?_dropWhile_not Text.isBlank line
        rw [dropped] at head
        simpa using head
      rw [Text.trimEnd_cons visible]

theorem isContent_cons_visible {c : Char} (visible : Text.isBlank c = false) (rest : List Char) :
    isContent (c :: rest) = (c != '#') := by
  rw [isContent_eq, List.dropWhile_cons_of_neg (by simp [visible])]

theorem isContent_space (line : List Char) : isContent (' ' :: line) = isContent line := by
  rw [isContent_eq, isContent_eq, List.dropWhile_cons_of_pos (by decide)]

namespace Layout

/-! ### In front of a node -/

/-- A number of spaces. -/
abbrev spaces (n : Nat) : List Char := List.replicate n ' '

/-- What may stand in front of a node on its first line: spaces, and dashes with spaces behind
    each. -/
inductive IsLead : List Char → Prop where
  | spaces (n : Nat) : IsLead (spaces n)
  | dash {lead : List Char} (isLead : IsLead lead) (n : Nat) :
      IsLead (lead ++ '-' :: Layout.spaces (n + 1))

theorem stripDashesFrom_spaces (column n : Nat) (text : List Char) :
    stripDashesFrom column (spaces n ++ text) = stripDashesFrom (column + n) text := by
  induction n generalizing column with
  | zero => rfl
  | succ n inductionHypothesis =>
      rw [spaces, List.replicate_succ, List.cons_append, stripDashesFrom, inductionHypothesis]
      congr 1
      omega

/-- Spaces and dashes in front of a node are passed up to its column. -/
theorem IsLead.stripDashesFrom {lead : List Char} (isLead : IsLead lead) (column : Nat)
    (text : List Char) :
    stripDashesFrom column (lead ++ text) = Yaml.stripDashesFrom (column + lead.length) text := by
  induction isLead generalizing column text with
  | spaces n => simpa using stripDashesFrom_spaces column n text
  | dash isLead n inductionHypothesis =>
      rw [List.append_assoc, inductionHypothesis, Layout.spaces, List.replicate_succ,
        List.cons_append, List.cons_append, Yaml.stripDashesFrom, stripDashesFrom_spaces]
      congr 1
      simp only [List.length_append, List.length_cons, List.length_replicate]
      omega

theorem isContent_spaces (n : Nat) (text : List Char) :
    isContent (spaces n ++ text) = isContent text := by
  induction n with
  | zero => rfl
  | succ n inductionHypothesis =>
      rw [spaces, List.replicate_succ, List.cons_append, isContent_space, inductionHypothesis]

theorem IsLead.isContent {lead : List Char} (isLead : IsLead lead) {text : List Char}
    (content : isContent text = true) : Yaml.isContent (lead ++ text) = true := by
  induction isLead generalizing text with
  | spaces n => rwa [isContent_spaces]
  | dash isLead n inductionHypothesis =>
      rw [List.append_assoc, List.cons_append]
      exact inductionHypothesis (isContent_cons_visible rfl _)

/-! ### Quoted keys -/

/-- One character of a double-quoted key as it is written: an escape is a backslash with any
    character behind it. -/
inductive QuotedChar where
  | raw (c : Char) (unescaped : c ≠ '"' ∧ c ≠ '\\')
  | escape (c : Char)

/-- A character of a double-quoted key. -/
def QuotedChar.text : QuotedChar → List Char
  | .raw c _ => [c]
  | .escape c => ['\\', c]

/-- A character of a single-quoted key, in which quotes are doubled. -/
def doubled (c : Char) : List Char := if c = '\'' then ['\'', '\''] else [c]

theorem splitQuoted?_cons {quote c : Char} (notQuote : c ≠ quote)
    (noEscape : ¬ (quote = '"' ∧ c = '\\')) (rest : List Char) :
    KeyLine.splitQuoted? quote (c :: rest) =
      (KeyLine.splitQuoted? quote rest).map fun (t, after) => (c :: t, after) := by
  cases rest with
  | nil => simp [KeyLine.splitQuoted?, notQuote]
  | cons d others =>
      have raw : ¬ ((quote = '"' ∧ c = '\\') ∨ (quote = '\'' ∧ c = '\'' ∧ d = '\'')) := by
        rintro (escape | ⟨single, same, _⟩)
        · exact noEscape escape
        · exact notQuote (same.trans single.symm)
      rw [KeyLine.splitQuoted?, if_neg raw, if_neg notQuote]

theorem splitQuoted?_pair {quote c d : Char}
    (pair : (quote = '"' ∧ c = '\\') ∨ (quote = '\'' ∧ c = '\'' ∧ d = '\'')) (rest : List Char) :
    KeyLine.splitQuoted? quote (c :: d :: rest) =
      (KeyLine.splitQuoted? quote rest).map fun (t, after) => (c :: d :: t, after) := by
  rw [KeyLine.splitQuoted?, if_pos pair]

theorem splitQuoted?_closing {quote : Char} (noEscape : ¬ (quote = '"' ∧ quote = '\\'))
    {rest : List Char} (closed : ∀ c ∈ rest.head?, c ≠ quote) :
    KeyLine.splitQuoted? quote (quote :: rest) = some ([], rest) := by
  cases rest with
  | nil => simp [KeyLine.splitQuoted?]
  | cons d others =>
      have single : ¬ ((quote = '"' ∧ quote = '\\') ∨
          (quote = '\'' ∧ quote = '\'' ∧ d = '\'')) := by
        rintro (escape | ⟨same, _, next⟩)
        · exact noEscape escape
        · exact closed d rfl (next.trans same.symm)
      rw [KeyLine.splitQuoted?, if_neg single, if_pos rfl]

/-- The text between single quotes ends at the quote that is not doubled. -/
theorem splitQuoted?_doubled (text : List Char) {rest : List Char}
    (closed : ∀ c ∈ rest.head?, c ≠ '\'') :
    KeyLine.splitQuoted? '\'' (text.flatMap doubled ++ '\'' :: rest) =
      some (text.flatMap doubled, rest) := by
  induction text with
  | nil => exact splitQuoted?_closing (by decide) closed
  | cons c others inductionHypothesis =>
      rw [List.flatMap_cons, List.append_assoc]
      by_cases single : c = '\''
      · subst single
        simp only [doubled, if_true, List.cons_append, List.nil_append]
        rw [splitQuoted?_pair (Or.inr ⟨rfl, rfl, rfl⟩), inductionHypothesis]
        rfl
      · simp only [doubled, if_neg single, List.cons_append, List.nil_append]
        rw [splitQuoted?_cons single (fun both => absurd both.1 (by decide)), inductionHypothesis]
        rfl

/-- The text between double quotes ends at the quote that is not escaped. -/
theorem splitQuoted?_escaped (text : List QuotedChar) {rest : List Char}
    (closed : ∀ c ∈ rest.head?, c ≠ '"') :
    KeyLine.splitQuoted? '"' (text.flatMap QuotedChar.text ++ '"' :: rest) =
      some (text.flatMap QuotedChar.text, rest) := by
  induction text with
  | nil => exact splitQuoted?_closing (by decide) closed
  | cons c others inductionHypothesis =>
      rw [List.flatMap_cons, List.append_assoc]
      cases c with
      | raw c unescaped =>
          simp only [QuotedChar.text, List.cons_append, List.nil_append]
          rw [splitQuoted?_cons unescaped.1 (fun both => unescaped.2 both.2), inductionHypothesis]
          rfl
      | escape c =>
          simp only [QuotedChar.text, List.cons_append, List.nil_append]
          rw [splitQuoted?_pair (Or.inl ⟨rfl, rfl⟩), inductionHypothesis]
          rfl

/-! ### Plain keys -/

/-- Neighbours in a plain key: no blank follows a colon, and no comment sign follows a blank. -/
def PlainNeighbours (c d : Char) : Prop :=
  (c = ':' → d ≠ ' ' ∧ d ≠ '\t') ∧ (d = '#' → c ≠ ' ' ∧ c ≠ '\t')

instance (c d : Char) : Decidable (PlainNeighbours c d) := by
  unfold PlainNeighbours
  infer_instance

/-- A plain key, with the spaces behind it. It can be told from a collection, a quoted text, an
    explicit key and an item of a sequence, and the line that it starts is neither blank nor a
    comment. -/
structure PlainKey where
  text : List Char
  start : ∀ c ∈ text.head?, c ∉ [' ', '{', '[', '?', '"', '\'']
  noItem : ¬ ['-', ' '] <+: text
  neighbours : text.IsChain PlainNeighbours
  visible : isContent text = true

/-- The colon behind a plain key is the first one with a blank or nothing behind it. -/
theorem splitPlain?_append {text : List Char} (neighbours : text.IsChain PlainNeighbours)
    {spaced : Bool} (noComment : spaced = true → ∀ c ∈ text.head?, c ≠ '#') {tail : List Char}
    (apart : ∀ c ∈ tail.head?, c = ' ' ∨ c = '\t') :
    KeyLine.splitPlain? spaced (text ++ ':' :: tail) = some (text, ':' :: tail) := by
  induction text generalizing spaced with
  | nil =>
      cases tail with
      | nil => rfl
      | cons c rest => rw [List.nil_append, KeyLine.splitPlain?, if_pos (apart c rfl)]
  | cons c rest inductionHypothesis =>
      have nextNeighbours := neighbours.tail
      have next : ∀ d ∈ rest.head?, PlainNeighbours c d := by
        intro d member
        cases rest with
        | nil => cases member
        | cons first others =>
            cases member
            exact (List.isChain_cons_cons.mp neighbours).1
      rw [List.cons_append]
      by_cases colon : c = ':'
      · subst colon
        have step : KeyLine.splitPlain? false (rest ++ ':' :: tail) = some (rest, ':' :: tail) :=
          inductionHypothesis nextNeighbours (by simp)
        cases rest with
        | nil =>
            rw [List.nil_append] at step ⊢
            rw [KeyLine.splitPlain?, if_neg (by decide), step]
            rfl
        | cons d others =>
            have notBlank := (next d rfl).1 rfl
            rw [List.cons_append] at step ⊢
            rw [KeyLine.splitPlain?, if_neg (by simp [notBlank]), step]
            rfl
      · have noSign : (c = '#' && spaced) = false := by
          cases spaced with
          | false => simp
          | true => simpa using noComment rfl c rfl
        have step : KeyLine.splitPlain? (c == ' ' || c == '\t') (rest ++ ':' :: tail) =
            some (rest, ':' :: tail) := by
          apply inductionHypothesis nextNeighbours
          intro blank d member sign
          have notBlank := (next d member).2 sign
          simp [notBlank] at blank
        rw [KeyLine.splitPlain?, noSign, if_neg Bool.false_ne_true, step]
        · rfl
        · simp [colon]
        · simp [colon]

/-! ### Keys and what follows them -/

/-- The ways to write a key, with the spaces behind it. -/
inductive Spelling where
  | plain (key : PlainKey)
  | single (key : List Char) (padding : Nat)
  | double (key : List QuotedChar) (padding : Nat)

namespace Spelling

/-- All that stands in front of the colon. -/
def text : Spelling → List Char
  | .plain key => key.text
  | .single key padding => '\'' :: (key.flatMap doubled ++ '\'' :: spaces padding)
  | .double key padding => '"' :: (key.flatMap QuotedChar.text ++ '"' :: spaces padding)

/-- The key as it is written, without quotes. -/
def token : Spelling → List Char
  | .plain key => Text.trimEnd key.text
  | .single key _ => key.flatMap doubled
  | .double key _ => key.flatMap QuotedChar.text

end Spelling

/-- What stands behind the colon of a key. -/
structure KeyTail where
  text : List Char
  apart : ∀ c ∈ text.head?, c = ' ' ∨ c = '\t'

/-- Nothing, as the value stands below. -/
def KeyTail.empty : KeyTail where
  text := []
  apart := by simp

/-- A value behind one space. -/
def KeyTail.spaced (value : List Char) : KeyTail where
  text := ' ' :: value
  apart := by simp

/-- What stands behind the dash of an item. -/
structure DashTail where
  text : List Char
  apart : ∀ c ∈ text.head?, c = ' '

/-- A value behind one space. -/
def DashTail.spaced (value : List Char) : DashTail where
  text := ' ' :: value
  apart := by simp

/-- The line of a key, from the column of the key on. -/
def keyText (spelling : Spelling) (tail : KeyTail) : List Char :=
  spelling.text ++ ':' :: tail.text

/-- The line of an item, from the column of the dash on. -/
def dashText (tail : DashTail) : List Char := '-' :: tail.text

/-! ### Reading them back -/

theorem stripDashesFrom_of_ne {c : Char} (notSpace : c ≠ ' ') (notDash : c ≠ '-') (column : Nat)
    (rest : List Char) : stripDashesFrom column (c :: rest) = (column, c :: rest) := by
  rw [stripDashesFrom] <;> simp [notSpace, notDash]

theorem stripDashesFrom_dash {d : Char} (notSpace : d ≠ ' ') (column : Nat) (rest : List Char) :
    stripDashesFrom column ('-' :: d :: rest) = (column, '-' :: d :: rest) := by
  rw [stripDashesFrom] <;> simp [notSpace]

/-- The text starts like a key: not like a comment, a collection, an explicit key or an item. -/
def StartsKey (text : List Char) : Prop :=
  ∃ c rest, text = c :: rest ∧ c ∉ [' ', '#', '{', '[', '?'] ∧
    (c = '-' → ∃ d others, rest = d :: others ∧ d ≠ ' ')

/-- A text that starts like a key is not a number of items. -/
theorem StartsKey.stripDashesFrom {text : List Char} (starts : StartsKey text) (column : Nat) :
    stripDashesFrom column text = (column, text) := by
  obtain ⟨c, rest, rfl, allowed, afterDash⟩ := starts
  by_cases dash : c = '-'
  · subst dash
    obtain ⟨d, others, rfl, notSpace⟩ := afterDash rfl
    exact stripDashesFrom_dash notSpace column others
  · apply stripDashesFrom_of_ne _ dash
    rintro rfl
    exact allowed (by decide)

/-- Behind spaces and dashes, a line is split into a key, a colon and a value. -/
theorem StartsKey.read?_eq {lead text : List Char} (starts : StartsKey text)
    (isLead : IsLead lead) :
    KeyLine.read? (lead ++ text) = (KeyLine.splitKey? text).bind fun split =>
      (KeyLine.afterColon? split.2).map fun value =>
        { column := lead.length, token := split.1, value } := by
  have stripped : stripDashes (lead ++ text) = (lead.length, text) := by
    rw [stripDashes, isLead.stripDashesFrom, starts.stripDashesFrom, Nat.zero_add]
  obtain ⟨c, rest, rfl, allowed, _⟩ := starts
  have readable : ¬ ['#', '{', '[', '?'].contains c = true := by
    rw [List.contains_iff_mem]
    exact fun member => allowed (List.mem_cons_of_mem _ member)
  unfold KeyLine.read?
  rw [stripped]
  simp only [if_neg readable, bind, Option.map_eq_bind]
  rfl

theorem keyText_start (spelling : Spelling) (tail : KeyTail) :
    StartsKey (keyText spelling tail) := by
  cases spelling with
  | single key padding =>
      exact ⟨'\'', _, rfl, by decide, fun dash => absurd dash (by decide)⟩
  | double key padding =>
      exact ⟨'"', _, rfl, by decide, fun dash => absurd dash (by decide)⟩
  | plain key =>
      obtain ⟨text, start, noItem, neighbours, visible⟩ := key
      cases text with
      | nil => exact absurd visible (by decide)
      | cons c rest =>
          refine ⟨c, rest ++ ':' :: tail.text, rfl, ?_, ?_⟩
          · intro member
            have allowed := start c rfl
            by_cases sign : c = '#'
            · rw [sign, isContent_cons_visible (by decide)] at visible
              exact absurd visible (by decide)
            · simp_all
          · intro dash
            subst dash
            cases rest with
            | nil => exact ⟨':', tail.text, rfl, by decide⟩
            | cons d others =>
                refine ⟨d, others ++ ':' :: tail.text, rfl, ?_⟩
                intro space
                subst space
                exact noItem ⟨others, rfl⟩

theorem stripDashesFrom_keyText (column : Nat) (spelling : Spelling) (tail : KeyTail) :
    stripDashesFrom column (keyText spelling tail) = (column, keyText spelling tail) :=
  (keyText_start spelling tail).stripDashesFrom column

theorem trimStart_spaces (n : Nat) (text : List Char) :
    Text.trimStart (spaces n ++ text) = Text.trimStart text := by
  induction n with
  | zero => rfl
  | succ n inductionHypothesis =>
      rw [spaces, List.replicate_succ, List.cons_append, Text.trimStart,
        List.dropWhile_cons_of_pos (by decide)]
      exact inductionHypothesis

theorem trimStart_spaces_colon (n : Nat) (tail : List Char) :
    Text.trimStart (spaces n ++ ':' :: tail) = ':' :: tail := by
  rw [trimStart_spaces, Text.trimStart, List.dropWhile_cons_of_neg (by decide)]

theorem head?_spaces_colon {quote : Char} (notSpace : ' ' ≠ quote) (notColon : ':' ≠ quote)
    (padding : Nat) (tail : List Char) :
    ∀ c ∈ (spaces padding ++ ':' :: tail).head?, c ≠ quote := by
  intro c member
  cases padding with
  | zero =>
      cases member
      exact notColon
  | succ padding =>
      cases member
      exact notSpace

theorem splitKey?_single (key : List Char) {rest : List Char}
    (closed : ∀ c ∈ rest.head?, c ≠ '\'') :
    KeyLine.splitKey? ('\'' :: (key.flatMap doubled ++ '\'' :: rest)) =
      some (key.flatMap doubled, Text.trimStart rest) := by
  rw [KeyLine.splitKey?, splitQuoted?_doubled key closed, Option.map_some]

theorem splitKey?_double (key : List QuotedChar) {rest : List Char}
    (closed : ∀ c ∈ rest.head?, c ≠ '"') :
    KeyLine.splitKey? ('"' :: (key.flatMap QuotedChar.text ++ '"' :: rest)) =
      some (key.flatMap QuotedChar.text, Text.trimStart rest) := by
  rw [KeyLine.splitKey?, splitQuoted?_escaped key closed, Option.map_some]

theorem splitKey?_plain {text : List Char} (notQuoted : ∀ c ∈ text.head?, c ≠ '"' ∧ c ≠ '\'')
    (neighbours : text.IsChain PlainNeighbours) (shown : Text.trimEnd text ≠ [])
    (tail : KeyTail) :
    KeyLine.splitKey? (text ++ ':' :: tail.text) =
      some (Text.trimEnd text, ':' :: tail.text) := by
  have split : KeyLine.splitPlain? false (text ++ ':' :: tail.text) =
      some (text, ':' :: tail.text) :=
    splitPlain?_append neighbours (by simp) tail.apart
  have first : ∀ c rest, text ++ ':' :: tail.text = c :: rest → c ≠ '"' ∧ c ≠ '\'' := by
    intro c rest equality
    cases text with
    | nil => exact absurd rfl shown
    | cons d others => exact notQuoted c (congrArg List.head? equality)
  unfold KeyLine.splitKey?
  split
  · next rest equality => exact absurd rfl (first _ _ equality).1
  · next rest equality => exact absurd rfl (first _ _ equality).2
  · rw [split]
    simp [shown]

theorem splitKey?_keyText (spelling : Spelling) (tail : KeyTail) :
    KeyLine.splitKey? (keyText spelling tail) = some (spelling.token, ':' :: tail.text) := by
  cases spelling with
  | single key padding =>
      have split := splitKey?_single key
        (head?_spaces_colon (by decide) (by decide) padding tail.text)
      rw [trimStart_spaces_colon] at split
      simpa only [keyText, Spelling.text, Spelling.token, List.cons_append, List.append_assoc]
        using split
  | double key padding =>
      have split := splitKey?_double key
        (head?_spaces_colon (by decide) (by decide) padding tail.text)
      rw [trimStart_spaces_colon] at split
      simpa only [keyText, Spelling.text, Spelling.token, List.cons_append, List.append_assoc]
        using split
  | plain key =>
      refine splitKey?_plain (fun c first => ?_) key.neighbours ?_ tail
      · have allowed := key.start c first
        simp_all
      · apply Text.trimEnd_ne_nil
        intro hidden
        have visible := key.visible
        rw [isContent_eq, hidden] at visible
        exact absurd visible (by decide)

theorem afterColon?_tail (tail : KeyTail) :
    KeyLine.afterColon? (':' :: tail.text) = some (Text.trim tail.text) := by
  obtain ⟨text, apart⟩ := tail
  cases text with
  | nil => rfl
  | cons c rest => rw [KeyLine.afterColon?, if_pos (apart c rfl)]

/-- A key line is read back, whatever stands in front of its key. -/
theorem read?_keyText {lead : List Char} (isLead : IsLead lead) (spelling : Spelling)
    (tail : KeyTail) :
    KeyLine.read? (lead ++ keyText spelling tail) =
      some { column := lead.length, token := spelling.token, value := Text.trim tail.text } := by
  rw [(keyText_start spelling tail).read?_eq isLead, splitKey?_keyText, Option.bind_some,
    afterColon?_tail, Option.map_some]

end Layout

end Yaml

end ConfigScan
