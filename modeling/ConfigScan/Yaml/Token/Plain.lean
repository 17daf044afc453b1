/-
Module: ConfigScan.Yaml.Token.Plain
Purpose: Scalars written without quotes.
Main exports: startsPlain, Plain.read?
-/
import ConfigScan.Yaml.Token.Folding

namespace ConfigScan.Yaml

/-- The characters that have a meaning of their own at the start of a token. -/
def indicators : List Char :=
  ['-', '?', ':', ',', '[', ']', '{', '}', '#', '&', '*', '!', '|', '>', '\'', '"', '%', '@',
   '\x60']

/-- A plain scalar may start here. A dash may start one before anything but a space, and outside
    flow collections so may a question mark and a colon before anything but a gap. -/
def startsPlain (inFlow : Bool) : List Char → Bool
  | [] => false
  | c :: rest =>
      (!isGap c && !indicators.contains c) ||
        (c == '-' && !(rest.head?.any isSpace)) ||
        (!inFlow && (c == '?' || c == ':') && !atGap rest)

namespace Plain

/-- A character that ends a plain scalar: a colon before a gap, and the marks of a flow collection
    inside of one. -/
def ends (inFlow : Bool) (c : Char) (rest : List Char) : Bool :=
  (c == ':' && atGap rest) || (inFlow && [',', '[', ']', '{', '}'].contains c)

/-- A colon that a flow collection does not allow inside a plain scalar. -/
def isStrayColon (inFlow : Bool) (c : Char) (rest : List Char) : Bool :=
  inFlow && c == ':' && rest.head?.any fun d => [',', '?', '[', ']', '{', '}'].contains d

/-- Behind a gap, a scalar goes on only if it is indented enough, no document line starts here, and
    no comment does. -/
def goesOn (inFlow : Bool) (indent column : Nat) (text : List Char) : Bool :=
  (inFlow || indent ≤ column) && !(column == 0 && atDocumentLine text) && text.head? != some '#'

/-- A scalar that was read: its text, whether a break was the last thing met, and the cursor. -/
abbrev Result := List Char × Bool × Cursor

/-- Read on, with `text` read so far, last character first, and `gap` the white space since.
    `inGap` says that white space has just been met. -/
def readFrom (inFlow : Bool) (indent : Nat) (text : List Char) (gap : Gap) (inGap : Bool)
    (mark : Mark) : List Char → Option Result
  | [] => some (text.reverse, gap.broken, { rest := [], mark })
  | c :: rest =>
      let done : Result := (text.reverse, gap.broken, { rest := c :: rest, mark })
      if isSpace c then
        if gap.broken && mark.column < indent && c == '\t' then none
        else readFrom inFlow indent text (gap.space c) true (mark.step c) rest
      else if isBreak c then
        readFrom inFlow indent text (gap.lineBreak c) true mark.feed rest
      else if inGap && !goesOn inFlow indent mark.column (c :: rest) then some done
      else if isStrayColon inFlow c rest then none
      else if ends inFlow c rest then some done
      else
        readFrom inFlow indent (c :: gap.fold ++ text) {} false (mark.step c) rest

/-- Read a plain scalar whose continuation lines are indented by at least `indent`. -/
def read? (inFlow : Bool) (indent : Nat) (pos : Cursor) : Option Result :=
  readFrom inFlow indent [] {} false pos.mark pos.rest

end Plain

end ConfigScan.Yaml
