/-
Module: ConfigScan.Path.Basic
Purpose: Slash-separated paths, taken lexically: their components, order, parent and name.
Main exports: Path, Path.Component, Path.components, Path.join, Path.parent?, Path.extension?
-/
import ConfigScan.Text.Utf8

namespace ConfigScan

/-- The name of an entry of a directory, byte by byte. -/
abbrev Name := List UInt8

/-- A path as it is spelled, byte by byte. -/
structure Path where
  bytes : List UInt8
deriving DecidableEq, Repr, Inhabited

namespace Path

/-- The path as a message shows it. -/
def text (p : Path) : String := Text.Utf8.text p.bytes

/-- The byte between the steps of a path. -/
def slash : UInt8 := 0x2F

/-- The byte that makes up the idle step and the step to the parent. -/
def dot : UInt8 := 0x2E

/-- One step of a path. A leading `.` is a step of its own; every other `.` and every empty
    stretch between slashes is not. -/
inductive Component where
  | root
  | current
  | parent
  | name (bytes : Name)
deriving DecidableEq, Repr, Inhabited

namespace Component

/-- The place of a component's kind in the order of components. -/
def rank : Component → Nat
  | .root => 0
  | .current => 1
  | .parent => 2
  | .name _ => 3

/-- Components in order: by kind, and names by their bytes. -/
def lt : Component → Component → Bool
  | .name a, .name b => a < b
  | a, b => a.rank < b.rank

end Component

/-- Cut bytes at every slash. -/
def segments : List UInt8 → List (List UInt8)
  | [] => [[]]
  | c :: rest =>
      if c = slash then [] :: segments rest
      else
        match segments rest with
        | [] => [[c]]
        | head :: tail => (c :: head) :: tail

/-- A segment that is no step: nothing at all, or a single dot. -/
def isIdle (segment : List UInt8) : Bool := segment == [] || segment == [dot]

/-- The step a segment stands for. -/
def stepOf? (segment : List UInt8) : Option Component :=
  if isIdle segment then none
  else if segment = [dot, dot] then some .parent
  else some (.name segment)

/-- The part of a path before its body: the root's slash or a leading dot. -/
def splitHead : List UInt8 → List UInt8 × List UInt8
  | [] => ([], [])
  | c :: rest =>
      if c = slash then ([slash], rest)
      else if c = dot && (rest.isEmpty || rest.head? == some slash) then ([dot], rest)
      else ([], c :: rest)

/-- The component of a path's head. -/
def headComponent (head : List UInt8) : List Component :=
  if head = [slash] then [.root] else if head = [dot] then [.current] else []

/-- The components of a path. -/
def components (p : Path) : List Component :=
  let (head, body) := splitHead p.bytes
  headComponent head ++ (segments body).filterMap stepOf?

/-- Two spellings of one path: they have the same components. -/
def same (p q : Path) : Bool := p.components == q.components

/-- The lexicographic order of component lists. -/
def componentsLt : List Component → List Component → Bool
  | _, [] => false
  | [], _ :: _ => true
  | a :: as, b :: bs => a.lt b || (a == b && componentsLt as bs)

/-- Paths in order, component by component. -/
def lt (p q : Path) : Bool := componentsLt p.components q.components

/-- The path starts at the root. -/
def isAbsolute (p : Path) : Bool := p.bytes.head? == some slash

/-- `q` seen from the directory `p`; an absolute `q` is itself. -/
def join (p q : Path) : Path :=
  if q.isAbsolute then q
  else if p.bytes.isEmpty || p.bytes.getLast? == some slash then ⟨p.bytes ++ q.bytes⟩
  else ⟨p.bytes ++ slash :: q.bytes⟩

/-- The bytes of segments with slashes between them. -/
def unsegments (parts : List (List UInt8)) : List UInt8 :=
  [slash].intercalate parts

/-- The path without its last component, spelled as in `p`. The root and the empty path have
    none. -/
def parent? (p : Path) : Option Path :=
  let (head, body) := splitHead p.bytes
  match (segments body).reverse.dropWhile isIdle with
  | [] => if head = [dot] then some ⟨""⟩ else none
  | _ :: before => some ⟨head ++ unsegments (before.dropWhile isIdle).reverse⟩

/-- The last component, when it is a name. -/
def name? (p : Path) : Option Name :=
  match p.components.getLast? with
  | some (.name bytes) => some bytes
  | _ => none

/-- What follows the last dot of the name, when something stands before that dot. -/
def extension? (p : Path) : Option Name := do
  let name ← p.name?
  let after := (name.reverse.takeWhile (· != dot)).reverse
  if after.length + 1 < name.length then return after else none

/-- The extension is a text, and one of `extensions`, in whatever case of ASCII letters. -/
def hasExtension (p : Path) (extensions : List String) : Bool :=
  match p.extension?.bind Text.Utf8.decode? with
  | some ext => extensions.any fun e => e.toLower == (String.ofList ext).toLower
  | none => false

/-- The last components of `p` are those of `q`. -/
def endsWith (p q : Path) : Bool := q.components.isSuffixOf p.components

end Path

end ConfigScan
