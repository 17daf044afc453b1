/-
Module: ConfigScan.Glob.Pattern
Purpose: Glob patterns such as `**/vendor/*.{yml,yaml}` and how they are read.
Main exports: Glob.Token, Glob.Pattern, Glob.read?
-/

namespace ConfigScan.Glob

/-- One piece of a pattern. -/
inductive Token where
  /-- This character. -/
  | literal (c : Char)
  /-- `?`: any one byte. -/
  | any
  /-- `*`: any bytes, slashes among them. -/
  | star
  /-- `**/` at the start: nothing, or anything that ends in a slash. -/
  | leading
  /-- `/**` at the end: a slash and anything. -/
  | trailing
  /-- `/**/`: a slash, or anything between two slashes. -/
  | between
  /-- `[a-z]`, or its complement. -/
  | range (negated : Bool) (ranges : List (Char × Char))
  /-- `{a,b}`: one of several patterns. -/
  | oneOf (branches : List (List Token))
deriving Repr, Inhabited

/-- A pattern is matched piece by piece. -/
abbrev Pattern := List Token

/-- What is read so far: the branch being written, its pieces last first; and for every brace that
    is still open, the branches closed in it, last first, and the branch that the brace stands
    in. -/
structure Reader where
  branch : List Token := []
  braces : List (List (List Token) × List Token) := []
deriving Repr, Inhabited

namespace Reader

/-- Add a piece to the current branch. -/
def push (r : Reader) (token : Token) : Reader := { r with branch := token :: r.branch }

/-- `{` opens a brace with an empty first branch. -/
def openBrace (r : Reader) : Reader := { branch := [], braces := ([], r.branch) :: r.braces }

/-- `,` starts the next branch inside a brace, and stands for itself outside. -/
def comma (r : Reader) : Reader :=
  match r.braces with
  | [] => r.push (.literal ',')
  | (done, outer) :: others => { branch := [], braces := (r.branch :: done, outer) :: others }

/-- `}` closes the innermost brace; there has to be one. -/
def closeBrace? (r : Reader) : Option Reader :=
  match r.braces with
  | [] => none
  | (done, outer) :: others =>
      some { branch := .oneOf ((r.branch :: done).reverse.map List.reverse) :: outer
             braces := others }

/-- The whole pattern; every brace has to be closed. -/
def finish? (r : Reader) : Option Pattern :=
  if r.braces.isEmpty then some r.branch.reverse else none

/-- The piece before a double star gives way to it, or swallows it when it is such a piece. -/
def absorb (r : Reader) (token : Token) : Reader :=
  match r.branch with
  | .leading :: _ | .trailing :: _ => r
  | _ :: rest => { r with branch := token :: rest }
  | [] => r.push token

/-- `**`, standing behind `before` and in front of `after`: the piece it is, and the text left. It
    is special only as a whole segment of the path, and two plain stars otherwise. -/
def doubleStar (r : Reader) (before : Option Char) (after : List Char) : Reader × List Char :=
  let plain := ((r.push .star).push .star, after)
  let inBrace := !r.braces.isEmpty
  if r.branch.isEmpty then
    match after with
    | [] => (r.push .leading, [])
    | c :: rest => if c = '/' then (r.push .leading, rest) else plain
  else if before = some '/' || (inBrace && (before = some ',' || before = some '{')) then
    match after with
    | [] => (r.absorb .trailing, [])
    | c :: rest =>
        if inBrace && (c = ',' || c = '}') then (r.absorb .trailing, after)
        else if c = '/' then (r.absorb .between, rest)
        else plain
  else plain

end Reader

/-- The members of a bracket, read from behind its opening. `first` holds until one is read, and
    `waiting` says that a dash stands open for the end of a range. -/
def readRanges : List (Char × Char) → Bool → Bool → List Char →
    Option (List (Char × Char) × List Char)
  | _, _, _, [] => none
  | ranges, first, waiting, c :: rest =>
      if c = ']' && !first then
        some ((if waiting then ('-', '-') :: ranges else ranges).reverse, rest)
      else if c = '-' && !first && !waiting then readRanges ranges false true rest
      else if waiting then
        match ranges with
        | (low, _) :: others =>
            if c < low then none else readRanges ((low, c) :: others) false false rest
        | [] => readRanges [(c, c)] false false rest
      else readRanges ((c, c) :: ranges) false false rest

/-- A bracket, read from behind its opening. `!` and `^` stand for the complement. -/
def readBracket? : List Char → Option (Token × List Char)
  | c :: rest =>
      if c = '!' || c = '^' then
        (readRanges [] true false rest).map fun (ranges, rest) => (.range true ranges, rest)
      else
        (readRanges [] true false (c :: rest)).map fun (ranges, rest) => (.range false ranges, rest)
  | [] => none

/-- Read pieces up to the end of the text; `before` is the character in front of it, and `fuel` is
    at least its length. -/
def readFrom : Nat → Reader → Option Char → List Char → Option Reader
  | _, r, _, [] => some r
  | 0, _, _, _ :: _ => none
  | fuel + 1, r, before, c :: rest =>
      match c with
      | '?' => readFrom fuel (r.push .any) c rest
      | '*' =>
          match rest with
          | '*' :: after =>
              let (r, left) := r.doubleStar before after
              readFrom fuel r (if left.length < after.length then '/' else '*') left
          | _ => readFrom fuel (r.push .star) c rest
      | '[' => do
          let (token, rest) ← readBracket? rest
          readFrom fuel (r.push token) ']' rest
      | '{' => readFrom fuel r.openBrace c rest
      | '}' => do readFrom fuel (← r.closeBrace?) c rest
      | ',' => readFrom fuel r.comma c rest
      | '\\' =>
          match rest with
          | e :: rest => readFrom fuel (r.push (.literal e)) e rest
          | [] => none
      | c => readFrom fuel (r.push (.literal c)) c rest

/-- The pattern that a text spells. Brackets and braces have to be closed, ranges to ascend, and a
    backslash to be followed by the character it stands for. -/
def read? (text : String) : Option Pattern := do
  (← readFrom text.toList.length {} none text.toList).finish?

end ConfigScan.Glob
