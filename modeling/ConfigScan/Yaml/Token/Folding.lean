/-
Module: ConfigScan.Yaml.Token.Folding
Purpose: The white space inside a scalar that runs over several lines: spaces are kept within a
  line, a single break becomes a space, and further breaks are kept.
Main exports: Gap, Gap.space, Gap.lineBreak, Gap.fold
-/
import ConfigScan.Yaml.Token.Cursor

namespace ConfigScan.Yaml

/-- The white space met since the last character of a scalar: the spaces before a break, the first
    break, and the breaks after it; both lists last first. -/
structure Gap where
  spaces : List Char := []
  first : Option Char := none
  others : List Char := []
  /-- A break was met, be it an escaped one. -/
  broken : Bool := false
deriving DecidableEq, Repr, Inhabited

namespace Gap

/-- One more space or tab. Those after a break count as indentation. -/
def space (gap : Gap) (c : Char) : Gap :=
  if gap.broken then gap else { gap with spaces := c :: gap.spaces }

/-- One more break. -/
def lineBreak (gap : Gap) (c : Char) : Gap :=
  if gap.broken then { gap with others := c :: gap.others }
  else { gap with spaces := [], first := some c, broken := true }

/-- What the gap leaves in the text, last character first. -/
def fold (gap : Gap) : List Char :=
  if gap.broken then
    match gap.first with
    | some '\n' => if gap.others.isEmpty then [' '] else gap.others
    | some c => gap.others ++ [c]
    | none => gap.others
  else gap.spaces

end Gap

end ConfigScan.Yaml
