/-
Module: ConfigScan.Proofs.Layout.KeyForms
Purpose: Keys as they are written on their line: plain, or between quotes of either kind. Every such
  line is read back, and a quoted scalar that no colon follows is not read as a key.
Main exports: Layout.IsPlainKey, Layout.PlainScalar, Layout.QuotedScalar, Layout.KeyForm,
  Layout.read?_written
-/
import ConfigScan.Proofs.Layout.Spelling

namespace ConfigScan.Yaml.Layout

/-! ### Plain scalars -/

/-- The text can stand as a plain key in front of a colon. It can be told from a comment, a
    collection, an explicit key, a quoted scalar and an item of a sequence, and neither a colon nor a
    comment inside it comes before that colon. -/
structure IsPlainKey (text : List Char) : Prop where
  nonempty : text ≠ []
  start : ∀ c ∈ text.head?, c ∉ [' ', '#', '{', '[', '?', '"', '\'']
  notDash : text ≠ ['-']
  noItem : ¬ ['-', ' '] <+: text
  noColon : ∀ c ∈ text.getLast?, c ≠ ':'
  neighbours : text.IsChain PlainNeighbours

/-- A plain key in which something is visible. -/
structure PlainScalar where
  text : List Char
  isPlain : IsPlainKey text
  visible : ∃ c ∈ text, Text.isBlank c = false

theorem trimEnd_spaces (text : List Char) (n : Nat) :
    Text.trimEnd (text ++ spaces n) = Text.trimEnd text := by
  rw [Text.trimEnd, List.reverse_append, List.reverse_replicate,
    List.dropWhile_append_of_pos fun c member => by rw [List.eq_of_mem_replicate member]; rfl]
  rfl

theorem IsPlainKey.startsKey {text : List Char} (isPlain : IsPlainKey text) (rest : List Char) :
    StartsKey (text ++ rest) := by
  cases text with
  | nil => exact absurd rfl isPlain.nonempty
  | cons c others =>
      have allowed := isPlain.start c rfl
      refine ⟨c, others ++ rest, rfl, fun member => allowed ?_, ?_⟩
      · simp only [List.mem_cons] at member ⊢
        tauto
      · rintro rfl
        cases others with
        | nil => exact absurd rfl isPlain.notDash
        | cons d more =>
            refine ⟨d, more ++ rest, rfl, ?_⟩
            rintro rfl
            exact isPlain.noItem ⟨more, rfl⟩

/-- Spaces may follow a plain key, as no colon is at its end. -/
theorem IsPlainKey.neighbours_spaces {text : List Char} (isPlain : IsPlainKey text) (n : Nat) :
    (text ++ spaces n).IsChain PlainNeighbours := by
  refine List.isChain_append.mpr ⟨isPlain.neighbours, ?_, ?_⟩
  · exact List.isChain_replicate_of_rel n (by decide)
  · intro last isLast next isNext
    have space : next = ' ' := List.eq_of_mem_replicate (List.mem_of_mem_head? isNext)
    subst space
    exact ⟨fun colon => absurd colon (isPlain.noColon last isLast),
      fun sign => absurd sign (by decide)⟩

/-- A plain key is read up to the spaces in front of its colon. -/
theorem PlainScalar.splitKey?_eq (scalar : PlainScalar) (padding : Nat) (tail : KeyTail) :
    KeyLine.splitKey? (scalar.text ++ (spaces padding ++ ':' :: tail.text)) =
      some (Text.trimEnd scalar.text, ':' :: tail.text) := by
  have shown : Text.trimEnd (scalar.text ++ spaces padding) ≠ [] := by
    rw [trimEnd_spaces]
    apply Text.trimEnd_ne_nil
    rw [Ne, List.dropWhile_eq_nil_iff]
    obtain ⟨c, member, seen⟩ := scalar.visible
    exact fun blank => by simp [blank c member] at seen
  have notQuoted : ∀ c ∈ (scalar.text ++ spaces padding).head?, c ≠ '"' ∧ c ≠ '\'' := by
    intro c first
    rw [List.head?_append_of_ne_nil _ scalar.isPlain.nonempty] at first
    have allowed := scalar.isPlain.start c first
    simp_all
  have split := splitKey?_plain notQuoted (scalar.isPlain.neighbours_spaces padding) shown tail
  rwa [List.append_assoc, trimEnd_spaces] at split

/-! ### Quoted scalars -/

/-- A quoted scalar: between single quotes, which are doubled inside, or between double quotes, in
    front of each of which, and of each backslash, stands a backslash inside. -/
inductive QuotedScalar where
  | single (chars : List Char)
  | double (chars : List QuotedChar)

namespace QuotedScalar

/-- The quote at both ends. -/
def mark : QuotedScalar → Char
  | .single _ => '\''
  | .double _ => '"'

/-- What is written between the quotes. -/
def inner : QuotedScalar → List Char
  | .single chars => chars.flatMap doubled
  | .double chars => chars.flatMap QuotedChar.text

/-- The scalar with its quotes. -/
def text (scalar : QuotedScalar) : List Char := scalar.mark :: scalar.inner ++ [scalar.mark]

theorem mark_mem (scalar : QuotedScalar) : scalar.mark ∈ ['\'', '"'] := by
  cases scalar <;> simp [mark]

theorem mark_ne (scalar : QuotedScalar) {c : Char} (other : c ∉ ['\'', '"']) :
    c ≠ scalar.mark :=
  fun same => other (same ▸ scalar.mark_mem)

theorem startsKey (scalar : QuotedScalar) (rest : List Char) :
    StartsKey (scalar.text ++ rest) := by
  refine ⟨scalar.mark, scalar.inner ++ [scalar.mark] ++ rest, rfl, fun member => ?_, fun dash => ?_⟩
  · have apart : ∀ c ∈ [' ', '#', '{', '[', '?'], c ∉ ['\'', '"'] := by simp
    exact scalar.mark_ne (apart _ member) rfl
  · exact absurd dash.symm (scalar.mark_ne (by decide))

/-- A quoted scalar is read up to its closing quote, whatever it contains. -/
theorem splitKey?_eq (scalar : QuotedScalar) {rest : List Char}
    (closed : ∀ c ∈ rest.head?, c ≠ scalar.mark) :
    KeyLine.splitKey? (scalar.text ++ rest) = some (scalar.inner, Text.trimStart rest) := by
  have whole : scalar.text ++ rest = scalar.mark :: (scalar.inner ++ scalar.mark :: rest) := by
    simp only [text, List.cons_append, List.append_assoc, List.nil_append]
  rw [whole]
  cases scalar with
  | single chars => exact splitKey?_single chars closed
  | double chars => exact splitKey?_double chars closed

end QuotedScalar

theorem afterColon?_eq_none {text : List Char} (noColon : text.head? ≠ some ':') :
    KeyLine.afterColon? text = none := by
  cases text with
  | nil => rfl
  | cons c rest =>
      have notColon : c ≠ ':' := fun colon => noColon (by rw [colon]; rfl)
      unfold KeyLine.afterColon?
      split <;> simp_all

/-! ### Key lines -/

/-- The ways to write a key. -/
inductive KeyForm where
  | plain (scalar : PlainScalar)
  | quoted (scalar : QuotedScalar)

namespace KeyForm

/-- The key as it stands on its line. -/
def text : KeyForm → List Char
  | .plain scalar => scalar.text
  | .quoted scalar => scalar.text

/-- What is read of the key: what stands between its quotes, or a plain key without white space at
    its end. -/
def token : KeyForm → List Char
  | .plain scalar => Text.trimEnd scalar.text
  | .quoted scalar => scalar.inner

variable (key : KeyForm) (padding : Nat) (tail : KeyTail)

theorem startsKey : StartsKey (key.text ++ (spaces padding ++ ':' :: tail.text)) := by
  cases key with
  | plain scalar => exact scalar.isPlain.startsKey _
  | quoted scalar => exact scalar.startsKey _

theorem splitKey?_eq :
    KeyLine.splitKey? (key.text ++ (spaces padding ++ ':' :: tail.text)) =
      some (key.token, ':' :: tail.text) := by
  cases key with
  | plain scalar => exact scalar.splitKey?_eq padding tail
  | quoted scalar =>
      have closed := head?_spaces_colon (scalar.mark_ne (by decide)) (scalar.mark_ne (by decide))
        padding tail.text
      have split := scalar.splitKey?_eq closed
      rwa [trimStart_spaces_colon] at split

end KeyForm

/-- Behind any indentation and any dashes, a key is read back with its column, as it is written, and
    with its value. A quoted scalar that no colon follows is not read as a key there. -/
theorem read?_written {lead : List Char} (isLead : IsLead lead) :
    (∀ (key : KeyForm) (padding : Nat) (tail : KeyTail),
      KeyLine.read? (lead ++ (key.text ++ (spaces padding ++ ':' :: tail.text))) =
        some { column := lead.length, token := key.token, value := Text.trim tail.text }) ∧
    ∀ (scalar : QuotedScalar) (after : List Char), (∀ c ∈ after.head?, c ≠ scalar.mark) →
      (Text.trimStart after).head? ≠ some ':' →
      KeyLine.read? (lead ++ (scalar.text ++ after)) = none := by
  constructor
  · intro key padding tail
    rw [(key.startsKey padding tail).read?_eq isLead, key.splitKey?_eq, Option.bind_some,
      afterColon?_tail, Option.map_some]
  · intro scalar after closed noColon
    rw [(scalar.startsKey after).read?_eq isLead, scalar.splitKey?_eq closed, Option.bind_some,
      afterColon?_eq_none noColon, Option.map_none]

/-- Below a dash, a key with escapes between double quotes, and a scalar between single quotes that
    has a colon and a doubled quote inside and a comment with a colon behind it. -/
theorem read?_written_quotes :
    IsLead "  - ".toList ∧
      KeyLine.read? "  - \"a\\\": #\\\\\" :\t'b' ".toList =
        some { column := 4, token := "a\\\": #\\\\".toList, value := "'b'".toList } ∧
      KeyLine.read? "  - 'it''s: x' # y: z".toList = none := by
  have isLead : IsLead "  - ".toList := .dash (.spaces 2) 0
  exact ⟨isLead,
    (read?_written isLead).1
      (.quoted (.double [.raw 'a' (by decide), .escape '"', .raw ':' (by decide),
        .raw ' ' (by decide), .raw '#' (by decide), .escape '\\']))
      1 ⟨"\t'b' ".toList, by simp⟩,
    (read?_written isLead).2 (.single "it's: x".toList) " # y: z".toList
      (by simp [QuotedScalar.mark]) (by decide)⟩

/-- A plain key without anything visible is not read back, and white space in front of one is kept
    if it is no space. -/
theorem read?_unseen_key :
    (IsPlainKey ['\u00a0'] ∧ KeyLine.read? "\u00a0: 1".toList = none) ∧
      IsPlainKey ['\u00a0', 'a'] ∧
        KeyLine.read? "\u00a0a: 1".toList =
          some { column := 0, token := ['\u00a0', 'a'], value := ['1'] } := by
  have start : ∀ c ∈ some '\u00a0', c ∉ [' ', '#', '{', '[', '?', '"', '\''] := by simp
  exact ⟨⟨⟨by decide, start, by decide, by decide, by simp, by decide⟩, by decide⟩,
    ⟨by decide, start, by decide, by decide, by simp, by decide⟩, by decide⟩

end ConfigScan.Yaml.Layout
