/-
Module: ConfigScan.Glob.Match
Purpose: Matching of glob patterns against the bytes of a path.
Main exports: Glob.Token.advance, Glob.Pattern.accepts, Glob.Pattern.fits
-/
import ConfigScan.Glob.Pattern
import ConfigScan.Path.Basic
import ConfigScan.Text.Utf8

namespace ConfigScan.Glob

/-- The places that a match can have come to: what is left of the path, longer rests first. All
    rests are ends of one and the same path. -/
abbrev Places := List (List UInt8)

/-- The byte of an ASCII slash. -/
def slash : UInt8 := 47

namespace Places

/-- The places of both lists, in order and without repetition; `fuel` is at least their number. -/
def mergeWith : Nat → Places → Places → Places
  | 0, _, _ => []
  | _ + 1, [], b => b
  | _ + 1, a, [] => a
  | fuel + 1, x :: a, y :: b =>
      if x.length = y.length then x :: mergeWith fuel a b
      else if y.length < x.length then x :: mergeWith fuel a (y :: b)
      else y :: mergeWith fuel (x :: a) b

/-- The places of both lists. -/
def merge (a b : Places) : Places := mergeWith (a.length + b.length + 1) a b

/-- Go past one byte that `p` accepts. -/
def past (p : UInt8 → Bool) (places : Places) : Places :=
  places.filterMap fun
    | b :: rest => if p b then some rest else none
    | [] => none

/-- Go past these bytes. -/
def pastAll (bytes : List UInt8) (places : Places) : Places :=
  bytes.foldl (fun places b => places.past (· == b)) places

/-- All ends of a list, the whole list first. -/
def ends : List UInt8 → Places
  | [] => [[]]
  | b :: rest => (b :: rest) :: ends rest

/-- Go past any bytes at all. -/
def onward : Places → Places
  | [] => []
  | longest :: _ => ends longest

/-- Go past a slash. -/
def pastSlash (places : Places) : Places := places.past (· == slash)

end Places

/-- The byte is one of a bracket's range. A character of several bytes counts as each of its bytes,
    and of a range only the bytes in the middle count as its ends. -/
def inRange (b : UInt8) : Char × Char → Bool
  | (low, high) =>
      let lows := String.utf8EncodeChar low
      if low = high then lows.contains b
      else
        let highs := String.utf8EncodeChar high
        lows.dropLast.contains b || highs.tail.contains b ||
          (lows.getLast?.getD 0 ≤ b && b ≤ highs.headD 0)

mutual

/-- The piece matches nothing but the empty path: it is a brace without any other branch. -/
def Token.isVoid : Token → Bool
  | .oneOf branches => branchesVoid branches
  | _ => false

/-- All pieces are void. -/
def tokensVoid : List Token → Bool
  | [] => true
  | token :: rest => token.isVoid && tokensVoid rest

/-- All branches are void. -/
def branchesVoid : List (List Token) → Bool
  | [] => true
  | branch :: rest => tokensVoid branch && branchesVoid rest

end

mutual

/-- The places that a match can come to past one piece. A void branch of a brace is no choice; a
    brace with no other branch is passed without a byte. -/
def Token.advance (places : Places) : Token → Places
  | .literal c => places.pastAll (String.utf8EncodeChar c)
  | .any => places.past fun _ => true
  | .star => places.onward
  | .leading => (places.merge places.pastSlash).merge places.onward.pastSlash
  | .trailing => places.pastSlash.onward
  | .between => places.pastSlash.merge places.pastSlash.onward.pastSlash
  | .range negated ranges => places.past fun b => ranges.any (inRange b) != negated
  | .oneOf branches => if branchesVoid branches then places else advanceAny places branches

/-- The places past all pieces. -/
def advanceAll (places : Places) : List Token → Places
  | [] => places
  | token :: rest => advanceAll (token.advance places) rest

/-- The places past one of the branches that are not void. -/
def advanceAny (places : Places) : List (List Token) → Places
  | [] => []
  | branch :: rest =>
      if tokensVoid branch then advanceAny places rest
      else (advanceAll places branch).merge (advanceAny places rest)

end

namespace Pattern

/-- The pattern matches all bytes of a path. A lone `**` matches every path. -/
def accepts (pattern : Pattern) (path : List UInt8) : Bool :=
  match pattern with
  | [.leading] => true
  | _ => (advanceAll [path] pattern).contains []

/-- The characters of a pattern that holds nothing but literals. -/
def literals? : Pattern → Option (List Char)
  | [] => some []
  | .literal c :: rest => (literals? rest).map (c :: ·)
  | _ => none

/-- `**/` and a name. -/
def isName : Pattern → Bool
  | .leading :: rest =>
      match literals? rest with
      | some cs => !cs.isEmpty && !cs.contains '/'
      | none => false
  | _ => false

/-- `*.` and an extension, with or without `**/` before it. -/
def isExtension (pattern : Pattern) : Bool :=
  let body := match pattern with
    | .leading :: rest => rest
    | all => all
  match body with
  | .star :: .literal '.' :: rest =>
      match literals? rest with
      | some cs => !cs.contains '/' && !cs.contains '.'
      | none => false
  | _ => false

/-- A beginning of a path: literals alone, or literals and then a star or `/**`. -/
def isStart (pattern : Pattern) : Bool :=
  match pattern.reverse with
  | .star :: before => !before.isEmpty && (literals? before).isSome
  | .trailing :: before => (literals? before).isSome
  | all => !all.isEmpty && (literals? all).isSome

/-- An end of a path: literals, with a star or `**/` or both before them. -/
def isEnd (pattern : Pattern) : Bool :=
  let afterLeading := match pattern with
    | .leading :: rest => rest
    | all => all
  let body := match afterLeading with
    | .star :: rest => rest
    | all => all
  match literals? body with
  | some cs => !cs.isEmpty && cs != ['/']
  | none => false

/-- The last piece is the end of an extension: literals without a slash back to a dot. -/
def endsInExtension (pattern : Pattern) : Bool :=
  let tail := pattern.reverse.takeWhile fun
    | .literal c => c != '/' && c != '.'
    | _ => false
  match pattern.reverse.drop tail.length with
  | .literal '.' :: _ => true
  | _ => false

/-- The pattern is looked up by the name or the extension of a path instead of the whole path. -/
def goesByName (pattern : Pattern) : Bool :=
  pattern.isName ||
    (!(literals? pattern).isSome || pattern.isEmpty) &&
      (pattern.isExtension || (!pattern.isStart && !pattern.isEnd && pattern.endsInExtension))

/-- The pattern matches a path. A path that ends in a dot has no name, so a pattern that goes by
    the name does not match it. -/
def fits (pattern : Pattern) (path : Path) : Bool :=
  if pattern.goesByName && path.bytes.getLast? == some Path.dot then false
  else pattern.accepts path.bytes

end Pattern

end ConfigScan.Glob
