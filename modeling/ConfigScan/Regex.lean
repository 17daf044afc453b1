/-
Module: ConfigScan.Regex
Purpose: Regular expressions with numbered groups, and what a backtracking search finds with them:
  the leftmost match, and of the matches there the one that the expression prefers.
Main exports: Regex, Regex.outcomes, Regex.find?, Regex.findAll
-/
import ConfigScan.Text.Digit

namespace ConfigScan

namespace Regex

/-- An item of a class of characters: a range with both of its ends, or `\d`, the decimal digits of
    every script. -/
inductive ClassItem where
  | range (low high : Char)
  | digit
deriving DecidableEq, Repr, Inhabited

/-- The item has this character. -/
def ClassItem.contains (c : Char) : ClassItem → Bool
  | .range low high => low ≤ c && c ≤ high
  | .digit => Text.isDecimalDigit c

/-- A class of characters: those of the items, or in a negated class all others. -/
structure CharClass where
  items : List ClassItem
  negated : Bool := false
deriving DecidableEq, Repr, Inhabited

/-- The class has this character. -/
def CharClass.contains (charClass : CharClass) (c : Char) : Bool :=
  charClass.items.any (·.contains c) != charClass.negated

end Regex

/-- A regular expression. -/
inductive Regex where
  /-- The empty text. -/
  | empty
  /-- One character of a class. -/
  | one (charClass : Regex.CharClass)
  | seq (first second : Regex)
  /-- One or the other; the first one is preferred. -/
  | either (preferred other : Regex)
  /-- Any number of rounds; more are preferred to fewer. -/
  | many (inner : Regex)
  /-- A group whose text is kept under a number. -/
  | group (number : Nat) (inner : Regex)
deriving DecidableEq, Repr, Inhabited

namespace Regex

/-- These characters one after another. -/
def spelled : List Char → Regex
  | [] => .empty
  | c :: rest => .seq (.one { items := [.range c c] }) (spelled rest)

/-- A text and nothing else, as in `abc`. -/
def literal (text : String) : Regex := spelled text.toList

/-- One round or more, as in `r+`. -/
def atLeastOne (inner : Regex) : Regex := .seq inner (.many inner)

/-- Once or not at all, as in `r?`; once is preferred. -/
def optional (inner : Regex) : Regex := .either inner .empty

/-- How far a match has come: the text that is left, and the texts of the groups that it went
    through, the last one first. -/
structure Match where
  rest : List Char
  groups : List (Nat × List Char) := []
deriving DecidableEq, Repr, Inhabited

namespace Match

/-- The text of a group, if the match went through it. -/
def group? (m : Match) (number : Nat) : Option (List Char) :=
  (m.groups.find? (·.1 == number)).map (·.2)

/-- Keep for a group the text that was passed since `start` was left. -/
def keep (number : Nat) (start : List Char) (m : Match) : Match :=
  { m with groups := (number, start.take (start.length - m.rest.length)) :: m.groups }

end Match

/-- Where at most `fuel` rounds of a step can lead, more rounds first. A round that takes nothing is
    none, so the length of the text is fuel enough. -/
def rounds (step : Match → List Match) : Nat → Match → List Match
  | 0, m => [m]
  | fuel + 1, m =>
      ((step m).filter fun after => after.rest.length < m.rest.length).flatMap (rounds step fuel) ++
        [m]

/-- Everything that going on with an expression can come to, in the order in which a backtracking
    search tries it. -/
def outcomes : Regex → Match → List Match
  | .empty, m => [m]
  | .one charClass, m =>
      match m.rest with
      | [] => []
      | c :: rest => if charClass.contains c then [{ m with rest }] else []
  | .seq first second, m => (first.outcomes m).flatMap second.outcomes
  | .either preferred other, m => preferred.outcomes m ++ other.outcomes m
  | .many inner, m => rounds inner.outcomes m.rest.length m
  | .group number inner, m => (inner.outcomes m).map (Match.keep number m.rest)

/-- The match at the front of a text that the expression prefers. -/
def matchAt? (regex : Regex) (text : List Char) : Option Match :=
  (regex.outcomes { rest := text }).head?

/-- The match that starts furthest to the left. -/
def find? (regex : Regex) : List Char → Option Match
  | [] => regex.matchAt? []
  | c :: rest => regex.matchAt? (c :: rest) <|> regex.find? rest

/-- All matches from left to right, each searched for in what the one in front of it has left. This
    is for expressions that do not match the empty text; the length of the text is fuel enough. -/
def findAll (regex : Regex) : Nat → List Char → List Match
  | 0, _ => []
  | fuel + 1, text =>
      match regex.find? text with
      | some m => m :: regex.findAll fuel m.rest
      | none => []

end Regex

end ConfigScan
