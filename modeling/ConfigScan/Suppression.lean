/-
Module: ConfigScan.Suppression
Purpose: Comment directives that switch a check off for one file, such as
  `# checkov:skip=CKV_1: accepted risk`, and the set of checks that a file switches off.
Main exports: Suppressions, Suppressions.insert, Directive.pattern, Directive.ofLine,
  Suppressions.collect
-/
import ConfigScan.Document.Source
import ConfigScan.Regex
import ConfigScan.Text.Blank

namespace ConfigScan

/-- The checks that a file switches off, in the order of their first mention, each with the comment
    of that mention. -/
structure Suppressions where
  entries : List (String × Option String) := []
deriving DecidableEq, Repr, Inhabited

namespace Suppressions

/-- The check with this id is switched off. -/
def contains (s : Suppressions) (id : String) : Bool :=
  s.entries.any (·.1 == id)

/-- Switch a check off; a check that is off already keeps its comment. -/
def insert (s : Suppressions) (id : String) (comment : Option String) : Suppressions :=
  if s.contains id then s else ⟨s.entries ++ [(id, comment)]⟩

/-- The comment given for a check that is switched off. -/
def commentFor? (s : Suppressions) (id : String) : Option String :=
  (s.entries.find? (·.1 == id)).bind (·.2)

/-- Insert entries one after another. -/
def insertAll (s : Suppressions) (entries : List (String × Option String)) : Suppressions :=
  entries.foldl (fun s e => s.insert e.1 e.2) s

end Suppressions

namespace Directive

/-- The characters of a check id, `[A-Za-z_\d]`. -/
def idChars : Regex.CharClass :=
  { items := [.range 'A' 'Z', .range 'a' 'z', .range '_' '_', .digit] }

/-- The characters of a comment, `[^\n]`. -/
def lineChars : Regex.CharClass := { items := [.range '\n' '\n'], negated := true }

/-- What a directive opens with, `(?:checkov|confcheck):skip=`. -/
def opening : Regex :=
  .seq (.either (.literal "checkov") (.literal "confcheck")) (.literal ":skip=")

/-- What may follow the id, `(?::([^\n]+))?`. -/
def remark : Regex :=
  .optional (.seq (.literal ":") (.group 2 (.atLeastOne (.one lineChars))))

/-- A directive, `(?:checkov|confcheck):skip= *([A-Za-z_\d]+)(?::([^\n]+))?`. The first group is
    the id of the check, the second one the comment. -/
def pattern : Regex :=
  .seq opening <| .seq (.many (.one { items := [.range ' ' ' '] })) <|
    .seq (.group 1 (.atLeastOne (.one idChars))) remark

/-- A trimmed comment, absent when nothing is left of it. -/
def comment? (raw : List Char) : Option String :=
  let text := Text.trim raw
  if text.isEmpty then none else some (String.ofList text)

/-- The id and the comment that a match gives. -/
def ofMatch? (m : Regex.Match) : Option (String × Option String) :=
  (m.group? 1).map fun id => (String.ofList id, (m.group? 2).bind comment?)

/-- The directives of one line from left to right. -/
def ofLine (line : String) : List (String × Option String) :=
  (pattern.findAll line.toList.length line.toList).filterMap ofMatch?

end Directive

namespace Suppressions

/-- The suppressions that the comment directives of a file ask for. -/
def collect (lines : List RawLine) : Suppressions :=
  lines.foldl (fun s line => s.insertAll (Directive.ofLine line.text)) {}

end Suppressions

end ConfigScan
