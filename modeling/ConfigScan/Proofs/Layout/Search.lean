/-
Module: ConfigScan.Proofs.Layout.Search
Purpose: What the search for keys finds in the lines of a layout: the keys of a mapping on the first
  lines of its entries, and its end on the last line with content that lies inside it.
Main exports: Layout.lastLine_eq, Layout.keyAhead_append, Layout.Entries.places,
  Layout.Entries.findKeys_eq
-/
import ConfigScan.Proofs.Layout.Inside

namespace ConfigScan.Yaml.Layout

/-! ### The last line with content -/

theorem contentEnd_concat_content {line : List Char} (content : isContent line = true)
    (front : List (List Char)) : contentEnd (front ++ [line]) = front.length + 1 := by
  rw [contentEnd, List.rdropWhile_concat_neg _ _ _ (by simp [content]), List.length_append,
    List.length_singleton]

theorem contentEnd_concat_blank {line : List Char} (blank : isContent line = false)
    (front : List (List Char)) : contentEnd (front ++ [line]) = contentEnd front := by
  rw [contentEnd, List.rdropWhile_concat_pos _ _ _ (by simp [blank]), contentEnd]

/-- Only what follows a line with content matters behind it. -/
theorem contentEnd_append_cons {line : List Char} (content : isContent line = true)
    (front back : List (List Char)) :
    contentEnd (front ++ line :: back) = front.length + 1 + contentEnd back := by
  induction back using List.reverseRecOn with
  | nil => exact contentEnd_concat_content content front
  | append_singleton others last inductionHypothesis =>
      have regroup : front ++ line :: (others ++ [last]) = (front ++ line :: others) ++ [last] := by
        simp
      rw [regroup]
      cases shown : isContent last with
      | true =>
          rw [contentEnd_concat_content shown, contentEnd_concat_content shown,
            List.length_append, List.length_cons]
          omega
      | false =>
          rw [contentEnd_concat_blank shown, contentEnd_concat_blank shown, inductionHypothesis]

theorem contentEnd_le_length (lines : List (List Char)) : contentEnd lines ≤ lines.length :=
  (List.rdropWhile_prefix _ lines).length_le

/-- No line behind the last one with content has any. -/
theorem blank_drop_contentEnd (lines : List (List Char)) :
    ∀ line ∈ lines.drop (contentEnd lines), isContent line = false := by
  induction lines using List.reverseRecOn with
  | nil => simp
  | append_singleton front last inductionHypothesis =>
      intro line member
      cases shown : isContent last with
      | true =>
          rw [contentEnd_concat_content shown, List.drop_of_length_le (by simp)] at member
          cases member
      | false =>
          rw [contentEnd_concat_blank shown,
            List.drop_append_of_le_length (contentEnd_le_length front)] at member
          rcases List.mem_append.mp member with inFront | isLast
          · exact inductionHypothesis line inFront
          · rw [List.mem_singleton.mp isLast]
            exact shown

/-! ### Where a mapping ends -/

theorem endsMapping_ofLine (column index : Nat) (line : List Char) :
    Outline.endsMapping column (OutlineLine.ofLine index line) = endsAt column line := rfl

/-- The first line of an outline is made of the first line with content. -/
theorem head?_ofLinesFrom {index : Nat} {lines : List (List Char)} {line : OutlineLine}
    (head : (Outline.ofLinesFrom index lines).head? = some line) :
    ∃ text, lines.find? isContent = some text ∧ line = OutlineLine.ofLine line.index text := by
  induction lines generalizing index with
  | nil => cases head
  | cons first rest inductionHypothesis =>
      cases content : isContent first with
      | true =>
          rw [Outline.ofLinesFrom_cons_content content] at head
          cases head
          exact ⟨first, List.find?_cons_of_pos content, rfl⟩
      | false =>
          rw [Outline.ofLinesFrom_cons_blank content] at head
          rw [List.find?_cons_of_neg (by simp [content])]
          exact inductionHypothesis head

/-- The outline of lines ends at the last one with content. -/
theorem getLast?_ofLinesFrom (index : Nat) (lines : List (List Char)) :
    ((Outline.ofLinesFrom (index + 1) lines).getLast?.elim index fun line => line.index) =
      index + contentEnd lines := by
  induction lines using List.reverseRecOn with
  | nil => rfl
  | append_singleton front last inductionHypothesis =>
      rw [Outline.ofLinesFrom_append]
      cases shown : isContent last with
      | true =>
          rw [Outline.ofLinesFrom_cons_content shown, contentEnd_concat_content shown]
          simp only [Outline.ofLinesFrom_nil, List.getLast?_append, List.getLast?_singleton,
            Option.some_or, Option.elim_some, OutlineLine.ofLine]
          omega
      | false =>
          rw [Outline.ofLinesFrom_cons_blank shown, contentEnd_concat_blank shown,
            Outline.ofLinesFrom_nil, List.append_nil]
          exact inductionHypothesis

/-- A mapping ends on the last line with content behind its last key, when the lines that follow
    begin with one that ends it. -/
theorem lastLine_eq {source own rest : List (List Char)} {lastKey column : Nat}
    (written : source.drop (lastKey + 1) = own ++ rest) (inside : AllInside column own)
    (ends : Ends column rest) :
    (Outline.ofLines source).lastLine lastKey column = lastKey + contentEnd own := by
  have kept : ∀ line ∈ Outline.ofLinesFrom (lastKey + 1) own,
      (!Outline.endsMapping column line) = true := by
    intro line member
    obtain ⟨text, textMember, content, equality, _⟩ := Outline.mem_ofLinesFrom member
    rw [equality, endsMapping_ofLine, (inside text textMember content).stays]
    rfl
  have stopped : (Outline.ofLinesFrom (lastKey + 1 + own.length) rest).takeWhile
      (fun line => !Outline.endsMapping column line) = [] := by
    cases outline : Outline.ofLinesFrom (lastKey + 1 + own.length) rest with
    | nil => rfl
    | cons line others =>
        obtain ⟨text, first, equality⟩ := head?_ofLinesFrom (by rw [outline]; rfl)
        apply List.takeWhile_cons_of_neg
        rw [equality, endsMapping_ofLine, ends text first]
        exact Bool.false_ne_true
  unfold Outline.lastLine
  rw [Outline.startingAt_ofLines, written, Outline.ofLinesFrom_append,
    List.takeWhile_append_of_pos kept, stopped, List.append_nil]
  exact getLast?_ofLinesFrom lastKey own

/-! ### Lines that the search passes -/

/-- All lines with content start at `least` or deeper. -/
abbrev Deep (least : Nat) (lines : List (List Char)) : Prop :=
  AllContent (fun line => least ≤ (stripDashes line).1) lines

theorem writesKey_of_blank {lines : List (List Char)}
    (blank : ∀ line ∈ lines, isContent line = false) : writesKey lines = false := by
  apply List.any_eq_false.mpr
  intro line member
  rw [blank line member]
  exact Bool.false_ne_true

theorem AllContent.deep {column least : Nat} {lines : List (List Char)}
    (inside : AllInside column lines) (least_le : least ≤ column + 1) : Deep least lines :=
  fun line member content => Nat.le_trans least_le (inside line member content).deeper

theorem writesKey_append (front back : List (List Char)) :
    writesKey (front ++ back) = (writesKey front || writesKey back) := by
  rw [writesKey, List.any_append]
  rfl

theorem writesKey_eq (lines : List (List Char)) :
    writesKey lines =
      (lines.filter isContent).any fun line => (KeyLine.read? line).isSome := by
  rw [List.any_filter]
  rfl

theorem stripDashesFrom_snd (column other : Nat) (text : List Char) :
    (stripDashesFrom column text).2 = (stripDashesFrom other text).2 := by
  fun_induction stripDashesFrom column text generalizing other with
  | case1 column rest inductionHypothesis =>
      rw [inductionHypothesis (other + 1), stripDashesFrom]
  | case2 column => rfl
  | case3 column rest inductionHypothesis =>
      rw [inductionHypothesis (other + 2), stripDashesFrom]
  | case4 column rest noSpace noDash noItem => rw [stripDashesFrom] <;> assumption

/-- What stands in front of a node does not decide whether its line reads as one with a key. -/
theorem isSome_read?_lead {lead : List Char} (isLead : IsLead lead) (text : List Char) :
    (KeyLine.read? (lead ++ text)).isSome = (KeyLine.read? text).isSome := by
  have same : (stripDashes (lead ++ text)).2 = (stripDashes text).2 := by
    rw [stripDashes, isLead.stripDashesFrom]
    exact stripDashesFrom_snd _ _ text
  unfold KeyLine.read?
  generalize stripDashes (lead ++ text) = whole at same ⊢
  generalize stripDashes text = stripped at same ⊢
  obtain ⟨column, behind⟩ := whole
  obtain ⟨otherColumn, otherBehind⟩ := stripped
  cases same
  cases behind with
  | nil => rfl
  | cons c rest =>
      simp only
      split
      · rfl
      · simp [Option.isSome_bind]

theorem writesKey_lead {lead : List Char} (isLead : IsLead lead) (tail : DashTail)
    (rest : List (List Char)) :
    writesKey ((lead ++ dashText tail) :: rest) = writesKey (dashText tail :: rest) := by
  have content := isContent_dashText tail
  simp only [writesKey, List.any_cons, isLead.isContent content, content,
    isSome_read?_lead isLead]

/-- Lines that are deep enough hide no key from the search. -/
theorem keyAhead_append {least : Nat} {front : List (List Char)} (deep : Deep least front)
    (back : List (List Char)) :
    keyAhead least (front ++ back) = (writesKey front || keyAhead least back) := by
  have kept : ∀ line ∈ front.filter isContent,
      decide (least ≤ (stripDashes line).1) = true := by
    intro line member
    obtain ⟨inFront, content⟩ := List.mem_filter.mp member
    exact decide_eq_true (deep line inFront content)
  rw [keyAhead, List.filter_append, List.takeWhile_append_of_pos kept, List.any_append,
    writesKey_eq]
  rfl

/-- The search for a first key looks for the next line that reads as one with a key. -/
theorem isSome_findKey (least index : Nat) (lines : List (List Char)) :
    ((Outline.ofLinesFrom index lines).findKey least none).isSome = keyAhead least lines := by
  induction lines generalizing index with
  | nil => rfl
  | cons line rest inductionHypothesis =>
      cases content : isContent line with
      | false =>
          rw [Outline.ofLinesFrom_cons_blank content, inductionHypothesis, keyAhead, keyAhead,
            List.filter_cons_of_neg (by simp [content])]
      | true =>
          rw [Outline.ofLinesFrom_cons_content content, Outline.findKey_cons, keyAhead,
            List.filter_cons_of_pos content]
          by_cases shallow : (stripDashes line).1 < least
          · have ended : Outline.outside least none (OutlineLine.ofLine index line) = true :=
              decide_eq_true shallow
            rw [if_pos ended, List.takeWhile_cons_of_neg (by simpa using shallow)]
            rfl
          · have goesOn : Outline.outside least none (OutlineLine.ofLine index line) = false :=
              decide_eq_false shallow
            rw [goesOn, List.takeWhile_cons_of_pos (by simpa using shallow), List.any_cons]
            have later := inductionHypothesis (index + 1)
            rw [keyAhead] at later
            cases written : KeyLine.read? line with
            | some key => simp [OutlineLine.ofLine, written]
            | none => simp [OutlineLine.ofLine, written, later]

theorem passes_of_writesKey {least index : Nat} {front : List (List Char)}
    (deep : Deep least front) (noKey : writesKey front = false) :
    ∀ line ∈ Outline.ofLinesFrom index front, Outline.passes least none line = true := by
  intro line member
  obtain ⟨text, textMember, content, equality, _⟩ := Outline.mem_ofLinesFrom member
  have reached := deep text textMember content
  have unread : KeyLine.read? text = none := by
    have noneReads := List.any_eq_false.mp noKey text textMember
    simpa [content] using noneReads
  rw [equality]
  simp [Outline.passes, Outline.outside, Outline.matchesKey, OutlineLine.ofLine, unread, reached]

theorem passes_of_allInside {column index : Nat} {front : List (List Char)}
    (inside : AllInside column front) (least : Nat) :
    ∀ line ∈ Outline.ofLinesFrom index front,
      Outline.passes least (some column) line = true := by
  intro line member
  obtain ⟨text, textMember, content, equality, _⟩ := Outline.mem_ofLinesFrom member
  have within := inside text textMember content
  have goesOn : ¬ indent text < column := Nat.not_lt.mpr within.indent
  have otherColumn : Outline.matchesKey (some column) (OutlineLine.ofLine line.index text) =
      false := by
    cases written : KeyLine.read? text with
    | none => simp [Outline.matchesKey, OutlineLine.ofLine, written]
    | some key =>
        have deeper := within.deeper
        rw [← KeyLine.read?_column written] at deeper
        have notEqual : column ≠ key.column := Nat.ne_of_lt deeper
        simp [Outline.matchesKey, OutlineLine.ofLine, written, notEqual]
  rw [equality, Outline.passes, otherColumn]
  simp [Outline.outside, OutlineLine.ofLine, goesOn]

/-! ### The keys of a mapping -/

/-- The value of the entry starts on the line of its key as a flow collection or an alias. -/
def Entry.isInline {c : Nat} : Entry c → Bool
  | .leaf _ tail _ _ => tail.isInline
  | .mapping .. | .sequence .. => false

/-- The places of the keys of entries, when `line` lines stand in front of them. -/
def Entries.places (line : Nat) : {c : Nat} → Entries c → List KeyPosition
  | c, .one entry => [{ line, column := c, inline := entry.isInline }]
  | c, .cons entry gap rest =>
      { line, column := c, inline := entry.isInline } ::
        rest.places (line + 1 + entry.tailLines.length + gap.lines.length)

variable {c : Nat}

theorem Entry.isSome_key? (entry : Entry c) : entry.value.1.key?.isSome = true := by
  cases entry with
  | leaf key tail value more => exact key.scalar
  | mapping key tail notInline gap inner deeper entries => exact key.scalar
  | sequence key tail notInline gap inner notShallower items => exact key.scalar

theorem Entry.head_spelled (entry : Entry c) :
    ∃ spelling tail, entry.head = keyText spelling tail ∧ tail.isInline = entry.isInline := by
  cases entry with
  | leaf key tail value more => exact ⟨key.spelling, tail, rfl, rfl⟩
  | mapping key tail notInline gap inner deeper entries =>
      exact ⟨key.spelling, tail, rfl, notInline⟩
  | sequence key tail notInline gap inner notShallower items =>
      exact ⟨key.spelling, tail, rfl, notInline⟩

/-- The search takes the first line of an entry that it reaches. -/
theorem Entry.findKey_eq (entry : Entry c) {lead : List Char} (isLead : IsLead lead)
    (length : lead.length = c) {least index : Nat} {column : Option Nat}
    (reached : Outline.outside least column (OutlineLine.ofLine index (lead ++ entry.head)) = false)
    (same : column.all (· == c) = true) (back : List (List Char)) :
    (Outline.ofLinesFrom index ((lead ++ entry.head) :: back)).findKey least column =
      some ({ line := index, column := c, inline := entry.isInline },
        Outline.ofLinesFrom (index + 1) back) := by
  subst length
  obtain ⟨spelling, tail, equality, inline⟩ := entry.head_spelled
  rw [equality] at reached ⊢
  have content : isContent (lead ++ keyText spelling tail) = true :=
    isLead.isContent (isContent_keyText spelling tail)
  have written := read?_keyText isLead spelling tail
  rw [Outline.ofLinesFrom_cons_content content,
    Outline.findKey_cons_of_matchesKey reached written same, ← inline]
  rfl

/-- The key of a next entry is at the column of the first one. -/
theorem Entry.reached_spaces (entry : Entry c) (least index : Nat) :
    Outline.outside least (some c) (OutlineLine.ofLine index (spaces c ++ entry.head)) = false := by
  obtain ⟨spelling, tail, equality⟩ := entry.head_eq
  rw [equality]
  exact decide_eq_false (Nat.not_lt.mpr (Nat.le_of_eq (indent_keyText c spelling tail).symm))

/-- The first key of a mapping is searched at its column or in front of it. -/
theorem Entry.reached_lead (entry : Entry c) {lead : List Char} (isLead : IsLead lead)
    (length : lead.length = c) {least : Nat} (least_le : least ≤ c) (index : Nat) :
    Outline.outside least none (OutlineLine.ofLine index (lead ++ entry.head)) = false := by
  obtain ⟨spelling, tail, equality⟩ := entry.head_eq
  rw [equality]
  apply decide_eq_false
  rw [OutlineLine.ofLine, stripDashes, isLead.stripDashesFrom, stripDashesFrom_keyText,
    Nat.zero_add]
  exact Nat.not_lt.mpr (length ▸ least_le)

theorem Entries.reached_head (entries : Entries c) (least index : Nat) :
    Outline.outside least (some c) (OutlineLine.ofLine index (spaces c ++ entries.head)) =
      false := by
  cases entries with
  | one entry => exact entry.reached_spaces least index
  | cons entry gap rest => exact entry.reached_spaces least index

/-- The search finds every key of a mapping on the first line of its entry. -/
theorem Entries.findKeys_eq : ∀ {c : Nat} (entries : Entries c) {lead : List Char},
    IsLead lead → lead.length = c → ∀ {least index : Nat} {column : Option Nat},
    Outline.outside least column (OutlineLine.ofLine index (lead ++ entries.head)) = false →
    column.all (· == c) = true → ∀ rest : List (List Char),
    (Outline.ofLinesFrom index ((lead ++ entries.head) :: (entries.tailLines ++ rest))).findKeys
        least column (entries.value.map fun e => e.1.key?.isSome) =
      (entries.places index).map some
  | _, .one entry, lead, isLead, length, least, index, column, reached, same, rest => by
      simp only [Entries.value, List.map_cons, List.map_nil, entry.isSome_key?, Entries.head]
      rw [Outline.findKeys, entry.findKey_eq isLead length reached same]
      rfl
  | c, .cons entry gap others, lead, isLead, length, least, index, column, reached, same, rest => by
      have inside : AllInside c (entry.tailLines ++ gap.lines) :=
        (entry.allInside_tailLines (Nat.le_refl c)).append gap.allInside
      have later := others.findKeys_eq (.spaces c) List.length_replicate
        (others.reached_head least
          (index + 1 + entry.tailLines.length + gap.lines.length)) (by simp) rest
      have regroup : (entry.tailLines ++ (gap.lines ++ (spaces c ++ others.head) ::
          others.tailLines)) ++ rest = (entry.tailLines ++ gap.lines) ++
            ((spaces c ++ others.head) :: (others.tailLines ++ rest)) := by
        simp
      have shift : index + 1 + (entry.tailLines ++ gap.lines).length =
          index + 1 + entry.tailLines.length + gap.lines.length := by
        rw [List.length_append, Nat.add_assoc (index + 1)]
      simp only [Entries.value, List.map_cons, entry.isSome_key?, Entries.head]
      rw [Outline.findKeys, entry.findKey_eq isLead length reached same]
      simp only [Entries.tailLines]
      rw [regroup, Outline.ofLinesFrom_append,
        Outline.findKeys_append_of_passes (passes_of_allInside inside least), shift, later]
      rfl

end ConfigScan.Yaml.Layout
