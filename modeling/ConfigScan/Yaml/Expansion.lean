/-
Module: ConfigScan.Yaml.Expansion
Purpose: The value of a tree, with every alias replaced by what its anchor marks. Nesting is
  limited, and so is the number of aliases that are followed.
Main exports: Tree.tagName?, Value.ofTree?
-/
import ConfigScan.Yaml.Scalar
import ConfigScan.Yaml.Tree

namespace ConfigScan.Yaml

namespace Tree

/-- The tag of a node. -/
def tag? : Tree → Option (List UInt8)
  | .alias _ => none
  | .scalar _ tag _ _ | .seq _ tag _ | .map _ tag _ => tag

/-- The name of a tag of an application's own: such a tag starts with an exclamation mark, which
    is no part of the name unless it is all there is. -/
def tagName? (tree : Tree) : Option String :=
  match tree.tag? with
  | some (33 :: rest) =>
      (Text.Utf8.decode? (if rest.isEmpty then [33] else rest)).map String.ofList
  | _ => none

end Tree

namespace Expansion

/-- A computation that may fail, and that may follow so many aliases yet. -/
abbrev Expand := StateT Nat Option

/-- Turn a node into a value. The flag says that its tag has been dealt with. -/
abbrev Reading := (tagDone : Bool) → Tree → Expand Value

/-- Turn entries into values, in order. No key may come twice. -/
def entries (key value : Tree → Expand Value) (done : List (Value × Value)) :
    List (Tree × Tree) → Expand (List (Value × Value))
  | [] => return done
  | (k, v) :: rest => do
      let name ← key k
      if done.any fun entry => entry.1.same name then failure
      else
        let content ← value v
        entries key value (done ++ [(name, content)]) rest

/-- Turn a collection into a value, given how its members are turned into values. The flag passes
    on to keys, but to no other members. -/
def collection (member : Reading) : Reading
  | _, .seq _ _ items => return .seq (← items.mapM (member false))
  | tagDone, .map _ _ pairs => return .map (← entries (member tagDone) (member false) [] pairs)
  | _, _ => failure

/-- Turn a node that is no alias into a value, regardless of an application's own tag. -/
def content (whole : Reading) : Reading
  | tagDone, .scalar _ tag plain text =>
      liftM (Scalar.value? (if tagDone then none else tag) plain text)
  | tagDone, tree => whole tagDone tree

/-- Turn a node that is no alias into a value under its tag. -/
def node (whole : Reading) : Reading
  | true, tree => content whole true tree
  | false, tree =>
      match tree.tagName? with
      | some name => return .tagged name (← content whole true tree)
      | none => content whole false tree

/-- Follow an alias to the last node that its number marks. -/
def follow (anchored : List (Nat × Tree)) (id : Nat) : Expand Tree := do
  let left ← get
  if left = 0 then failure
  else
    set (left - 1)
    liftM (anchored.reverse.lookup id)

/-- Turn a node into a value, following it if it is an alias. -/
def read (anchored : List (Nat × Tree)) (whole : Reading) : Reading
  | _, .alias id => do node whole false (← follow anchored id)
  | tagDone, tree => node whole tagDone tree

/-- Turn a node into a value inside of which collections are nested this deep at most. -/
def nested (anchored : List (Nat × Tree)) : Nat → Reading
  | 0 => read anchored fun _ _ => failure
  | depth + 1 => read anchored (collection (nested anchored depth))

/-- How deep collections may be nested. -/
def maxDepth : Nat := 128

/-- How many aliases may be followed for each step in which the tree is written down. -/
def aliasesPerEvent : Nat := 100

end Expansion

/-- The value of a tree. -/
def Value.ofTree? (tree : Tree) : Option Value :=
  ((Expansion.nested tree.anchored Expansion.maxDepth false tree).run
    (Expansion.aliasesPerEvent * tree.eventCount)).map (·.1)

end ConfigScan.Yaml
