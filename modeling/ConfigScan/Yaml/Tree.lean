/-
Module: ConfigScan.Yaml.Tree
Purpose: The tree that the tokens of a YAML document spell, with its anchors and aliases numbered.
Main exports: Tree, Tree.eventCount, Tree.anchored, Tree.ofTokens?
-/
import ConfigScan.Yaml.Token.Reader

namespace ConfigScan.Yaml

/-- The node of a document as it is written. An anchor gives a node a number, and an alias refers
    to one. -/
inductive Tree where
  | alias (id : Nat)
  | scalar (anchor : Option Nat) (tag : Option (List UInt8)) (plain : Bool) (text : List Char)
  | seq (anchor : Option Nat) (tag : Option (List UInt8)) (items : List Tree)
  | map (anchor : Option Nat) (tag : Option (List UInt8)) (entries : List (Tree × Tree))
deriving Repr, Inhabited

namespace Tree

/-- A node that is left out: a plain scalar without text. -/
def empty : Tree := .scalar none none true []

mutual

/-- The number of steps in which a tree is written down: one for a scalar or an alias, and two for
    a collection besides those of its members. -/
def eventCount : Tree → Nat
  | .alias _ | .scalar _ _ _ _ => 1
  | .seq _ _ items => 2 + itemsCount items
  | .map _ _ entries => 2 + entriesCount entries

/-- The steps of a list of items. -/
def itemsCount : List Tree → Nat
  | [] => 0
  | item :: rest => eventCount item + itemsCount rest

/-- The steps of a list of entries. -/
def entriesCount : List (Tree × Tree) → Nat
  | [] => 0
  | (key, value) :: rest => eventCount key + eventCount value + entriesCount rest

end

mutual

/-- The nodes with an anchor, in the order in which they start. -/
def anchored : Tree → List (Nat × Tree)
  | .alias _ => []
  | .scalar anchor tag plain text => anchor.toList.map fun id => (id, .scalar anchor tag plain text)
  | .seq anchor tag items =>
      (anchor.toList.map fun id => (id, .seq anchor tag items)) ++ itemsAnchored items
  | .map anchor tag entries =>
      (anchor.toList.map fun id => (id, .map anchor tag entries)) ++ entriesAnchored entries

/-- The anchored nodes of a list of items. -/
def itemsAnchored : List Tree → List (Nat × Tree)
  | [] => []
  | item :: rest => anchored item ++ itemsAnchored rest

/-- The anchored nodes of a list of entries. -/
def entriesAnchored : List (Tree × Tree) → List (Nat × Tree)
  | [] => []
  | (key, value) :: rest => anchored key ++ (anchored value ++ entriesAnchored rest)

end

end Tree

/-! ### From tokens to a tree -/

/-- What is left of the tokens, the numbers that anchor names stand for at this point, and what tag
    handles stand for. -/
structure Grammar where
  tokens : List Token
  anchors : List (List Char × Nat) := []
  handles : List (List Char × List UInt8) := []
deriving Repr, Inhabited

namespace Grammar

/-- The next token. -/
def peek (g : Grammar) : Token := g.tokens.headD .streamEnd

/-- The state behind the next token. -/
def skip (g : Grammar) : Grammar := { g with tokens := g.tokens.tail }

/-- Number an anchor: by how many names there are so far, its own old meaning included. -/
def declare (g : Grammar) (name : List Char) : Nat × Grammar :=
  let id := g.anchors.length
  let others := g.anchors.filter (·.1 != name)
  (id, { g with anchors := (name, id) :: others })

/-- What stands in front of a node: its anchor and its tag. -/
structure Properties where
  anchor : Option (List Char) := none
  tag : Option (List Char × List UInt8) := none
deriving Repr, Inhabited

/-- Read an anchor and a tag, in either order. -/
def properties (g : Grammar) : Properties × Grammar :=
  match g.peek with
  | .anchor name =>
      match g.skip.peek with
      | .tag handle suffix => ({ anchor := some name, tag := some (handle, suffix) }, g.skip.skip)
      | _ => ({ anchor := some name }, g.skip)
  | .tag handle suffix =>
      match g.skip.peek with
      | .anchor name => ({ anchor := some name, tag := some (handle, suffix) }, g.skip.skip)
      | _ => ({ tag := some (handle, suffix) }, g.skip)
  | _ => ({}, g)

/-- The bytes of a tag: its handle has to stand for something, and the empty handle for nothing. -/
def wholeTag? (g : Grammar) : List Char × List UInt8 → Option (List UInt8)
  | ([], suffix) => some suffix
  | (handle, suffix) => (g.handles.lookup handle).map (· ++ suffix)

/-- The tag of a scalar; a lone exclamation mark says no more than no tag. -/
def scalarTag (tag : Option (List UInt8)) : Option (List UInt8) :=
  if tag = some [33] then none else tag

/-- Number an anchor, if there is one. -/
def declare? (g : Grammar) : Option (List Char) → Option Nat × Grammar
  | none => (none, g)
  | some name => ((g.declare name).1, (g.declare name).2)

/-- These tokens end a block entry whose node is left out. -/
def endsBlockNode : Token → Bool
  | .key | .value | .blockEnd => true
  | _ => false

mutual

/-- Read a node. Block collections are allowed when `block`, and a sequence without indentation
    when `indentless`. Properties alone stand for an empty scalar. -/
def node : Nat → (block indentless : Bool) → Grammar → Option (Tree × Grammar)
  | 0, _, _, _ => none
  | fuel + 1, block, indentless, g =>
      match g.peek with
      | .alias name => (g.anchors.lookup name).map fun id => (.alias id, g.skip)
      | _ => do
          let (props, g) := g.properties
          let tag ← match props.tag with
            | none => some none
            | some parts => (g.wholeTag? parts).map some
          let (anchor, declared) := g.declare? props.anchor
          match g.peek with
          | .scalar plain text =>
              return (.scalar anchor (scalarTag tag) plain text, declared.skip)
          | .flowSeqOpen => do
              let (items, g) ← flowItems fuel true declared.skip
              return (.seq anchor tag items, g)
          | .flowMapOpen => do
              let (entries, g) ← flowEntries fuel true declared.skip
              return (.map anchor tag entries, g)
          | token =>
              if indentless && token == .item then do
                let (items, g) ← indentlessItems fuel declared
                return (.seq anchor tag items, g)
              else if block && token == .blockSeq then do
                let (items, g) ← blockItems fuel declared.skip
                return (.seq anchor tag items, g)
              else if block && token == .blockMap then do
                let (entries, g) ← blockEntries fuel declared.skip
                return (.map anchor tag entries, g)
              else if props.anchor.isSome || props.tag.isSome then
                return (.scalar anchor tag true [], declared)
              else none

/-- Read the items of a block sequence up to its end. -/
def blockItems : Nat → Grammar → Option (List Tree × Grammar)
  | 0, _ => none
  | fuel + 1, g =>
      match g.peek with
      | .blockEnd => some ([], g.skip)
      | .item => do
          let g := g.skip
          let (item, g) ←
            if g.peek == .item || g.peek == .blockEnd then some (Tree.empty, g)
            else node fuel true false g
          let (items, g) ← blockItems fuel g
          return (item :: items, g)
      | _ => none

/-- Read the items of a sequence that stands at the column of its parent's keys. Whatever is no
    item ends it. -/
def indentlessItems : Nat → Grammar → Option (List Tree × Grammar)
  | 0, _ => none
  | fuel + 1, g =>
      match g.peek with
      | .item => do
          let g := g.skip
          let (item, g) ←
            if g.peek == .item || endsBlockNode g.peek then some (Tree.empty, g)
            else node fuel true false g
          let (items, g) ← indentlessItems fuel g
          return (item :: items, g)
      | _ => some ([], g)

/-- Read the entries of a block mapping up to its end. -/
def blockEntries : Nat → Grammar → Option (List (Tree × Tree) × Grammar)
  | 0, _ => none
  | fuel + 1, g =>
      match g.peek with
      | .blockEnd => some ([], g.skip)
      | .key => do
          let (key, g) ← blockNode fuel g.skip
          let (value, g) ←
            if g.peek == .value then blockNode fuel g.skip else some (Tree.empty, g)
          let (entries, g) ← blockEntries fuel g
          return ((key, value) :: entries, g)
      | _ => none

/-- Read the key or the value of a block mapping, which may be left out. -/
def blockNode : Nat → Grammar → Option (Tree × Grammar)
  | 0, _ => none
  | fuel + 1, g => if endsBlockNode g.peek then some (Tree.empty, g) else node fuel true true g

/-- Read the items of a flow sequence up to its end. An item behind the sign of a key is a mapping
    with a single entry. -/
def flowItems : Nat → (first : Bool) → Grammar → Option (List Tree × Grammar)
  | 0, _, _ => none
  | fuel + 1, first, g =>
      if g.peek == .flowSeqClose then some ([], g.skip)
      else do
        let g ← if first then some g else if g.peek == .comma then some g.skip else none
        if g.peek == .flowSeqClose then return ([], g.skip)
        else
          let (item, g) ← if g.peek == .key then flowPair fuel g.skip else node fuel false false g
          let (items, g) ← flowItems fuel false g
          return (item :: items, g)

/-- Read a mapping with a single entry inside a flow sequence. A mark right behind the sign of the
    key is passed over, and the key is left out. -/
def flowPair : Nat → Grammar → Option (Tree × Grammar)
  | 0, _ => none
  | fuel + 1, g => do
      let isMark (token : Token) : Bool := token == .comma || token == .flowSeqClose
      let (key, g) ←
        if g.peek == .value || isMark g.peek then some (Tree.empty, g.skip)
        else node fuel false false g
      let (value, g) ←
        if g.peek == .value && !isMark g.skip.peek then node fuel false false g.skip
        else some (Tree.empty, if g.peek == .value then g.skip else g)
      return (.map none none [(key, value)], g)

/-- Read the entries of a flow mapping up to its end. -/
def flowEntries : Nat → (first : Bool) → Grammar → Option (List (Tree × Tree) × Grammar)
  | 0, _, _ => none
  | fuel + 1, first, g =>
      if g.peek == .flowMapClose then some ([], g.skip)
      else do
        let g ← if first then some g else if g.peek == .comma then some g.skip else none
        if g.peek == .flowMapClose then return ([], g.skip)
        else
          let (entry, g) ← flowEntry fuel g
          let (entries, g) ← flowEntries fuel false g
          return (entry :: entries, g)

/-- Read an entry of a flow mapping. Without the sign of a key it is a key alone. -/
def flowEntry : Nat → Grammar → Option ((Tree × Tree) × Grammar)
  | 0, _ => none
  | fuel + 1, g => do
      let isMark (token : Token) : Bool := token == .comma || token == .flowMapClose
      if g.peek == .key then
        let g := g.skip
        let (key, g) ←
          if g.peek == .value || isMark g.peek then some (Tree.empty, g)
          else node fuel false false g
        let (value, g) ←
          if g.peek == .value && !isMark g.skip.peek then node fuel false false g.skip
          else some (Tree.empty, if g.peek == .value then g.skip else g)
        return ((key, value), g)
      else
        let (key, g) ← node fuel false false g
        return ((key, .empty), g)

end

/-- Read directives: at most one version, which is 1.1 or 1.2, and each handle once. -/
def directives (versions : Nat) : List (List Char × List UInt8) → List Token →
    Option (List (List Char × List UInt8) × List Token)
  | handles, .directive (.version major minor) :: rest =>
      if versions = 0 ∧ major = 1 ∧ (minor = 1 ∨ minor = 2) then directives 1 handles rest
      else none
  | handles, .directive (.tagHandle name start) :: rest =>
      if (handles.lookup name).isSome then none
      else directives versions ((name, start) :: handles) rest
  | handles, tokens => some (handles, tokens)

/-- What the two handles stand for that every document has. -/
def defaultHandles : List (List Char × List UInt8) :=
  [(['!'], [33]), (['!', '!'], Text.Utf8.encode "tag:yaml.org,2002:".toList)]

/-- These tokens come in front of a document. -/
def opensDocument : Token → Bool
  | .directive _ | .documentStart => true
  | _ => false

/-- Read the node of a document behind its start line, which may be left out. -/
def content (fuel : Nat) (g : Grammar) : Option (Tree × Grammar) :=
  if opensDocument g.peek || g.peek == .documentEnd || g.peek == .streamEnd then
    some (Tree.empty, g)
  else node fuel true false g

/-- Read a document. One without directives needs no start line. -/
def document (fuel : Nat) (tokens : List Token) : Option (Tree × Grammar) := do
  if opensDocument (tokens.headD .streamEnd) then
    let (handles, rest) ← directives 0 [] tokens
    match rest with
    | .documentStart :: rest =>
        content fuel { tokens := rest, handles := handles ++ defaultHandles }
    | _ => none
  else node fuel true false { tokens, handles := defaultHandles }

end Grammar

/-- The tree of a text that holds exactly one document. -/
def Tree.ofTokens? (tokens : List Token) : Option Tree := do
  let (tree, g) ← Grammar.document (4 * tokens.length + 8) tokens
  if g.tokens.dropWhile (· == .documentEnd) = [.streamEnd] then return tree else none

end ConfigScan.Yaml
