/-
Module: ConfigScan.Proofs.Suppression.Grammar
Purpose: What counts as a directive in a text, said without the regular expression: where one
  starts, what its id and its comment are, and which directives a line has from left to right.
Main exports: Directive.Begins, Directive.Opens, Directive.Remark, Directive.Scans,
  Directive.matchAt?_of_opens, Directive.ofLine_eq_iff_scans
-/
import ConfigScan.Proofs.Regex
import ConfigScan.Proofs.Text.Runs
import ConfigScan.Suppression

namespace ConfigScan.Directive

/-! ### The grammar -/

/-- The words that open a directive. -/
inductive IsKeyword : List Char → Prop where
  | checkov : IsKeyword "checkov:skip=".toList
  | confcheck : IsKeyword "confcheck:skip=".toList

/-- A character of an id: an ASCII letter, an underscore, or a decimal digit of any script. -/
def InId (c : Char) : Prop :=
  ('a' ≤ c ∧ c ≤ 'z') ∨ ('A' ≤ c ∧ c ≤ 'Z') ∨ c = '_' ∨ Text.isDecimalDigit c = true

/-- A directive starts here: one of the words that open one, any number of spaces, and at least one
    character of an id. -/
def Begins (text : List Char) : Prop :=
  ∃ word spaces c rest, IsKeyword word ∧
    text = word ++ (List.replicate spaces ' ' ++ c :: rest) ∧ InId c

/-- A directive starts here and has this id, which is as long as it can be. `tail` is what stands
    behind the id. -/
def Opens (text id tail : List Char) : Prop :=
  ∃ word spaces body, IsKeyword word ∧ text = word ++ (List.replicate spaces ' ' ++ body) ∧
    Text.RunsTo InId body id tail ∧ id ≠ []

/-- What stands behind an id, the comment that it is, and the text from which the scan goes on. -/
inductive Remark : List Char → Option String → List Char → Prop where
  /-- Behind a colon, all up to the end of the line is the comment, without the white space at its
      ends. -/
  | comment {rest line after inner : List Char} (upToEnd : Text.RunsTo (· ≠ '\n') rest line after)
      (trims : Text.Trims line inner) (visible : inner ≠ []) :
      Remark (':' :: rest) (some (String.ofList inner)) after
  /-- White space alone is no comment, but it is passed over like one. -/
  | blank {rest line after : List Char} (upToEnd : Text.RunsTo (· ≠ '\n') rest line after)
      (nonempty : line ≠ []) (trims : Text.Trims line []) : Remark (':' :: rest) none after
  /-- There is no colon, or nothing behind it on the line. -/
  | none {tail : List Char} (bare : ∀ c rest, tail = ':' :: c :: rest → c = '\n') :
      Remark tail none tail

/-- The directives of a text from left to right. Each is read at the leftmost place where one
    starts, and the next ones in what is left behind its id or its comment. -/
inductive Scans : List Char → List (String × Option String) → Prop where
  | nothing {text : List Char} (nowhere : ∀ place, place <:+ text → ¬ Begins place) :
      Scans text []
  | directive {before place id tail after : List Char} {comment : Option String}
      {found : List (String × Option String)}
      (leftmost : ∀ back, back <:+ before → back ≠ [] → ¬ Begins (back ++ place))
      (opens : Opens place id tail) (remark : Remark tail comment after)
      (further : Scans after found) :
      Scans (before ++ place) ((String.ofList id, comment) :: found)

/-! ### The start of a directive -/

variable {text body id tail after : List Char} {comment : Option String} {m : Regex.Match}

theorem contains_idChars_iff (c : Char) : idChars.contains c = true ↔ InId c := by
  have underscore : '_' ≤ c ∧ c ≤ '_' ↔ c = '_' :=
    ⟨fun between => Char.le_antisymm between.2 between.1, by rintro rfl; decide⟩
  simp only [idChars, Regex.CharClass.contains, Regex.ClassItem.contains, List.any_cons,
    List.any_nil, Bool.or_false, Bool.bne_false, Bool.or_eq_true, Bool.and_eq_true,
    decide_eq_true_eq, underscore, InId]
  tauto

theorem not_inId_space : ¬ InId ' ' := by
  rw [← contains_idChars_iff]
  decide

/-- No text starts with both words. -/
theorem outcomes_opening {word : List Char} (isKeyword : IsKeyword word)
    (starts : m.rest = word ++ body) : opening.outcomes m = [{ m with rest := body }] := by
  obtain ⟨text, groups⟩ := m
  subst starts
  cases isKeyword <;> rfl

theorem outcomes_opening_eq_nil (noKeyword : ∀ word, IsKeyword word → ¬ word <+: m.rest) :
    opening.outcomes m = [] := by
  have checkov := Regex.outcomes_spelled_eq_nil _ (noKeyword _ .checkov)
  have confcheck := Regex.outcomes_spelled_eq_nil _ (noKeyword _ .confcheck)
  -- each word is what its own branch spells with `:skip=` behind it
  rw [show "checkov:skip=".toList = "checkov".toList ++ ":skip=".toList from rfl,
    Regex.outcomes_spelled_append] at checkov
  rw [show "confcheck:skip=".toList = "confcheck".toList ++ ":skip=".toList from rfl,
    Regex.outcomes_spelled_append] at confcheck
  rw [opening, Regex.outcomes_seq, Regex.outcomes_either, List.flatMap_append]
  exact List.append_eq_nil_iff.mpr ⟨checkov, confcheck⟩

theorem runsTo_spaces (text : List Char) :
    Text.RunsTo (· = ' ') text (text.takeWhile (· == ' ')) (text.dropWhile (· == ' ')) :=
  Text.runsTo_takeWhile (fun _ => beq_iff_eq) text

/-- Spaces in front of an id are passed over, all of them. -/
theorem outcomes_pattern {word : List Char} (spaces : Nat) (isKeyword : IsKeyword word)
    (text_eq : text = word ++ (List.replicate spaces ' ' ++ body))
    (stops : ∀ c ∈ body.head?, c ≠ ' ') :
    pattern.outcomes { rest := text } =
      (Regex.seq (.group 1 (.atLeastOne (.one idChars))) remark).outcomes { rest := body } := by
  have runs : Text.RunsTo (· = ' ') (List.replicate spaces ' ' ++ body)
      (List.replicate spaces ' ') body :=
    ⟨rfl, fun d member => List.eq_of_mem_replicate member, stops⟩
  have isSpace : ∀ c, ({ items := [.range ' ' ' '] } : Regex.CharClass).contains c = true ↔
      c = ' ' := fun c => Regex.contains_range_self.trans eq_comm
  rw [pattern, Regex.outcomes_seq, outcomes_opening isKeyword text_eq, List.flatMap_singleton,
    Regex.outcomes_seq, Regex.flatMap_outcomes_many_one, runs.dropWhile_eq isSpace]
  rintro _ rest isBlank
  obtain rfl := (isSpace _).mp isBlank
  rfl

/-! ### Its comment -/

theorem contains_lineChars_iff (c : Char) : lineChars.contains c = true ↔ c ≠ '\n' := by
  have negated : lineChars.contains c =
      !({ items := [.range '\n' '\n'] } : Regex.CharClass).contains c := by
    simp only [lineChars, Regex.CharClass.contains, Bool.bne_true, Bool.bne_false]
  rw [negated, Bool.not_eq_true', ← Bool.not_eq_true, Regex.contains_range_self]
  exact not_congr eq_comm

theorem outcomes_colon (rest : List Char) (groups : List (Nat × List Char)) :
    (Regex.literal ":").outcomes { rest := ':' :: rest, groups } = [{ rest, groups }] :=
  Regex.outcomes_spelled ":".toList rfl

theorem head?_outcomes_remark {rest line after : List Char} (groups : List (Nat × List Char))
    (upToEnd : Text.RunsTo (· ≠ '\n') rest line after) (nonempty : line ≠ []) :
    (remark.outcomes { rest := ':' :: rest, groups }).head? =
      some { rest := after, groups := (2, line) :: groups } := by
  rw [remark, Regex.outcomes_optional, List.head?_append,
    Regex.head?_outcomes_seq (congrArg List.head? (outcomes_colon rest groups))
      (Regex.head?_outcomes_group 2 contains_lineChars_iff upToEnd nonempty)]
  rfl

theorem outcomes_remark_of_bare (groups : List (Nat × List Char))
    (bare : ∀ c rest, tail = ':' :: c :: rest → c = '\n') :
    remark.outcomes { rest := tail, groups } = [{ rest := tail, groups }] := by
  rw [remark, Regex.outcomes_optional, Regex.outcomes_seq]
  by_cases colon : ":".toList <+: tail
  · obtain ⟨rest, rfl⟩ := colon
    have stops : ∀ c ∈ rest.head?, ¬ lineChars.contains c = true := by
      intro c first
      obtain ⟨more, rfl⟩ := List.head?_eq_some_iff.mp first
      rw [contains_lineChars_iff, not_not]
      exact bare c more rfl
    rw [show ":".toList ++ rest = ':' :: rest from rfl, outcomes_colon, List.flatMap_singleton,
      Regex.outcomes_group_eq_nil 2 stops]
    rfl
  · have stuck : (Regex.literal ":").outcomes { rest := tail, groups } = [] :=
      Regex.outcomes_spelled_eq_nil _ colon
    rw [stuck]
    rfl

theorem comment?_of_trims {line inner : List Char} (trims : Text.Trims line inner) :
    comment? line = if inner = [] then none else some (String.ofList inner) := by
  rw [comment?, Text.trims_iff.mp trims]
  simp [List.isEmpty_iff]

/-- Behind an id the expression prefers what the grammar has there. -/
theorem Remark.head?_outcomes (remark : Remark tail comment after) (id : List Char) :
    ∃ m, (Directive.remark.outcomes { rest := tail, groups := [(1, id)] }).head? = some m ∧
      m.rest = after ∧ ofMatch? m = some (String.ofList id, comment) := by
  cases remark with
  | comment upToEnd trims visible =>
      refine ⟨_, head?_outcomes_remark _ upToEnd (trims.ne_nil visible), rfl, ?_⟩
      have kept := comment?_of_trims trims
      rw [if_neg visible] at kept
      exact congrArg (fun comment => some (String.ofList id, comment)) kept
  | blank upToEnd nonempty trims =>
      refine ⟨_, head?_outcomes_remark _ upToEnd nonempty, rfl, ?_⟩
      exact congrArg (fun comment => some (String.ofList id, comment)) (comment?_of_trims trims)
  | none bare => exact ⟨_, congrArg List.head? (outcomes_remark_of_bare _ bare), rfl, rfl⟩

/-- Whatever stands behind an id is a comment of it or is none. -/
theorem exists_remark (tail : List Char) : ∃ comment after, Remark tail comment after := by
  by_cases bare : ∀ c rest, tail = ':' :: c :: rest → c = '\n'
  · exact ⟨none, tail, .none bare⟩
  · push Not at bare
    obtain ⟨c, more, rfl, inLine⟩ := bare
    have upToEnd := Text.runsTo_takeWhile contains_lineChars_iff (c :: more)
    rw [List.takeWhile_cons_of_pos ((contains_lineChars_iff c).mpr inLine)] at upToEnd
    have trims := Text.trims_trim (c :: more.takeWhile lineChars.contains)
    by_cases isBlank : Text.trim (c :: more.takeWhile lineChars.contains) = []
    · rw [isBlank] at trims
      exact ⟨none, _, .blank upToEnd (List.cons_ne_nil _ _) trims⟩
    · exact ⟨_, _, .comment upToEnd trims isBlank⟩

/-! ### One directive -/

/-- Where a directive starts it has an id. -/
theorem begins_iff : Begins text ↔ ∃ id tail, Opens text id tail := by
  constructor
  · rintro ⟨word, spaces, c, rest, isKeyword, rfl, inId⟩
    refine ⟨_, _, word, spaces, c :: rest, isKeyword, rfl,
      Text.runsTo_takeWhile contains_idChars_iff _, ?_⟩
    rw [List.takeWhile_cons_of_pos ((contains_idChars_iff c).mpr inId)]
    exact List.cons_ne_nil _ _
  · rintro ⟨id, tail, word, spaces, body, isKeyword, rfl, runs, nonempty⟩
    obtain ⟨c, more, rfl⟩ := List.exists_cons_of_ne_nil nonempty
    exact ⟨word, spaces, c, more ++ tail, isKeyword, by rw [runs.text_eq]; rfl,
      runs.all c List.mem_cons_self⟩

/-- The expression matches where the grammar has a directive, and with the same parts. -/
theorem matchAt?_of_opens (opens : Opens text id tail) (remark : Remark tail comment after) :
    ∃ m, pattern.matchAt? text = some m ∧ m.rest = after ∧
      ofMatch? m = some (String.ofList id, comment) := by
  obtain ⟨word, spaces, body, isKeyword, text_eq, runs, nonempty⟩ := opens
  obtain ⟨m, preferred, rest_eq, reads⟩ := remark.head?_outcomes id
  have notSpace : ∀ c ∈ body.head?, c ≠ ' ' := by
    obtain ⟨d, more, rfl⟩ := List.exists_cons_of_ne_nil nonempty
    rw [runs.text_eq]
    rintro _ ⟨⟩ rfl
    exact not_inId_space (runs.all _ List.mem_cons_self)
  refine ⟨m, ?_, rest_eq, reads⟩
  rw [Regex.matchAt?, outcomes_pattern spaces isKeyword text_eq notSpace]
  exact Regex.head?_outcomes_seq (Regex.head?_outcomes_group 1 contains_idChars_iff runs nonempty)
    preferred

/-- Nothing matches where no directive starts. -/
theorem matchAt?_eq_none (nowhere : ¬ Begins text) : pattern.matchAt? text = none := by
  rw [Regex.matchAt?_eq_none]
  by_cases hasKeyword : ∃ word, IsKeyword word ∧ word <+: text
  · obtain ⟨word, isKeyword, body, rfl⟩ := hasKeyword
    have spaces := runsTo_spaces body
    have areSpaces := List.eq_replicate_length.mpr spaces.all
    rw [areSpaces] at spaces
    rw [outcomes_pattern _ isKeyword (congrArg (word ++ ·) spaces.text_eq) spaces.stops,
      Regex.outcomes_seq, Regex.outcomes_group_eq_nil]
    · rfl
    · intro c first inId
      obtain ⟨rest, rest_eq⟩ := List.head?_eq_some_iff.mp first
      have body_eq := spaces.text_eq.trans (congrArg (_ ++ ·) rest_eq)
      exact nowhere ⟨word, _, c, rest, isKeyword, congrArg (word ++ ·) body_eq,
        (contains_idChars_iff c).mp inId⟩
  · push Not at hasKeyword
    rw [pattern, Regex.outcomes_seq, outcomes_opening_eq_nil hasKeyword]
    rfl

/-- A directive takes something away from the text. -/
theorem length_lt_of_opens (opens : Opens text id tail) (remark : Remark tail comment after) :
    after.length < text.length := by
  obtain ⟨word, spaces, body, _, rfl, runs, nonempty⟩ := opens
  have idLength := List.length_pos_iff.mpr nonempty
  have afterLength : after.length ≤ tail.length := by
    cases remark with
    | comment upToEnd | blank upToEnd =>
        have restLength := congrArg List.length upToEnd.text_eq
        simp only [List.length_append, List.length_cons] at restLength ⊢
        omega
    | none bare => exact le_refl _
  rw [runs.text_eq]
  simp only [List.length_append]
  omega

/-! ### All directives of a text -/

variable {found : List (String × Option String)}

theorem not_begins_nil : ¬ Begins [] := by
  rintro ⟨word, spaces, c, rest, _, empty, _⟩
  simp at empty

theorem scans_nil_iff : Scans [] found ↔ found = [] := by
  constructor
  · intro scans
    -- `Scans.directive` has an append for its text, so `cases` needs a variable there
    generalize empty : ([] : List Char) = text at scans
    cases scans with
    | nothing => rfl
    | directive leftmost opens remark further =>
        obtain ⟨_, rfl⟩ := List.append_eq_nil_iff.mp empty.symm
        exact absurd (begins_iff.mpr ⟨_, _, opens⟩) not_begins_nil
  · rintro rfl
    refine .nothing fun place suffix => ?_
    rw [List.suffix_nil.mp suffix]
    exact not_begins_nil

/-- A character at which no directive starts is passed over. -/
theorem scans_cons_iff {c : Char} (nowhere : ¬ Begins (c :: text)) :
    Scans (c :: text) found ↔ Scans text found := by
  constructor
  · intro scans
    generalize whole : c :: text = all at scans
    cases scans with
    | nothing noPlace =>
        subst whole
        exact .nothing fun place suffix => noPlace place (suffix.trans (List.suffix_cons c text))
    | @directive before place id tail after comment found leftmost opens remark further =>
        cases before with
        | nil =>
            rw [List.nil_append] at whole
            exact absurd (begins_iff.mpr ⟨_, _, whole ▸ opens⟩) nowhere
        | cons d before =>
            obtain ⟨rfl, rfl⟩ := List.cons.inj whole
            exact .directive
              (fun back suffix => leftmost back (suffix.trans (List.suffix_cons _ before)))
              opens remark further
  · intro scans
    cases scans with
    | nothing noPlace =>
        refine .nothing fun place suffix => ?_
        rcases List.suffix_cons_iff.mp suffix with rfl | inText
        · exact nowhere
        · exact noPlace place inText
    | @directive before place id tail after comment found leftmost opens remark further =>
        rw [← List.cons_append]
        refine .directive ?_ opens remark further
        intro back suffix nonempty
        rcases List.suffix_cons_iff.mp suffix with rfl | inBefore
        · exact nowhere
        · exact leftmost back inBefore nonempty

/-- A directive that starts at the front of the text is the first one. -/
theorem scans_iff_of_opens (opens : Opens text id tail) (remark : Remark tail comment after) :
    Scans text found ↔ ∃ more, found = (String.ofList id, comment) :: more ∧ Scans after more := by
  constructor
  · intro scans
    have begins : Begins text := begins_iff.mpr ⟨id, tail, opens⟩
    cases scans with
    | nothing nowhere => exact absurd begins (nowhere text (List.suffix_refl text))
    | @directive before place id' tail' after' comment' more leftmost opens' remark' further =>
        cases before with
        | nil =>
            -- both directives are the one that the expression prefers here
            obtain ⟨m, found, rfl, reads⟩ := matchAt?_of_opens opens remark
            obtain ⟨m', found', rfl, reads'⟩ := matchAt?_of_opens opens' remark'
            obtain rfl := Option.some.inj (found.symm.trans found')
            have same := Option.some.inj (reads'.symm.trans reads)
            exact ⟨more, by rw [same], further⟩
        | cons c before =>
            exact absurd begins (leftmost _ (List.suffix_refl _) (List.cons_ne_nil _ _))
  · rintro ⟨more, rfl, further⟩
    have leftmost : ∀ back, back <:+ [] → back ≠ [] → ¬ Begins (back ++ text) :=
      fun back suffix nonempty => absurd (List.suffix_nil.mp suffix) nonempty
    exact .directive leftmost opens remark further

/-- What the expression finds is what the grammar has. -/
theorem findAll_eq_iff_scans {fuel : Nat} (enough : text.length ≤ fuel) :
    (pattern.findAll fuel text).filterMap ofMatch? = found ↔ Scans text found := by
  induction fuel generalizing text found with
  | zero =>
      rw [List.eq_nil_of_length_eq_zero (Nat.le_zero.mp enough), scans_nil_iff]
      exact eq_comm
  | succ fuel inductionHypothesis =>
      induction text generalizing found with
      | nil =>
          rw [scans_nil_iff]
          exact eq_comm
      | cons c rest inductionOnText =>
          by_cases begins : Begins (c :: rest)
          · -- an id has at least one character, so the fuel lasts for what is behind it
            obtain ⟨id, tail, opens⟩ := begins_iff.mp begins
            obtain ⟨comment, after, remark⟩ := exists_remark tail
            have shorter := length_lt_of_opens opens remark
            obtain ⟨m, matched, rfl, reads⟩ := matchAt?_of_opens opens remark
            have enoughAfter : m.rest.length ≤ fuel := by omega
            rw [Regex.findAll_of_matchAt? matched, List.filterMap_cons_some reads,
              scans_iff_of_opens opens remark]
            constructor
            · rintro rfl
              exact ⟨_, rfl, (inductionHypothesis enoughAfter).mp rfl⟩
            · rintro ⟨more, rfl, further⟩
              exact congrArg _ ((inductionHypothesis enoughAfter).mpr further)
          · have enoughRest : rest.length ≤ fuel + 1 := Nat.le_of_succ_le enough
            rw [Regex.findAll_cons_of_none (matchAt?_eq_none begins), scans_cons_iff begins]
            exact inductionOnText enoughRest

/-- The directives that are read from a line are those that the grammar has there, and these are
    what the line adds to the suppressions of the lines in front of it. -/
theorem ofLine_eq_iff_scans (line : RawLine) (found : List (String × Option String)) :
    (ofLine line.text = found ↔ Scans line.text.toList found) ∧
      ∀ front, Suppressions.collect (front ++ [line]) =
        (Suppressions.collect front).insertAll (ofLine line.text) := by
  refine ⟨findAll_eq_iff_scans (le_refl _), fun front => ?_⟩
  rw [Suppressions.collect, Suppressions.collect, List.foldl_append]
  rfl

/-- A word that opens a directive can give an id, what stands behind that is then its comment, and
    white space alone and a colon at the end of a line are no comment. -/
example :
    ofLine "checkov:skip=checkov:skip=A\nconfcheck:skip=  B_2:\ncheckov:skip=\u0663x: \t" =
      [("checkov", some "skip=A"), ("B_2", none), ("\u0663x", none)] := by decide +kernel

end ConfigScan.Directive
