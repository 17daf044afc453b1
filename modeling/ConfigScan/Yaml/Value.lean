/-
Module: ConfigScan.Yaml.Value
Purpose: The values that YAML nodes stand for, and when two of them are the same.
Main exports: Value, Value.same, Value.isNull
-/
import ConfigScan.Number.Binary64

namespace ConfigScan.Yaml

/-- The value of a node. Tags of an application's own are kept. -/
inductive Value where
  | null
  | bool (value : Bool)
  | int (value : Int)
  | float (value : Binary64)
  | str (text : String)
  | seq (items : List Value)
  | map (entries : List (Value × Value))
  | tagged (tag : String) (value : Value)
deriving Repr, Inhabited

namespace Value

/-- A tag without a leading exclamation mark. -/
def bareTag (tag : String) : List Char :=
  match tag.toList with
  | '!' :: rest => rest
  | text => text

mutual

/-- Two values are the same: numbers of one kind by value, and mappings whatever the order of
    their entries. -/
def same : Value → Value → Bool
  | .null, .null => true
  | .bool a, .bool b => a == b
  | .int a, .int b => a == b
  | .float a, .float b => a.same b
  | .str a, .str b => a == b
  | .seq a, .seq b => sameItems a b
  | .map a, .map b => a.length == b.length && entriesWithin a b
  | .tagged s a, .tagged t b => bareTag s == bareTag t && same a b
  | _, _ => false

/-- Two lists hold the same values in the same order. -/
def sameItems : List Value → List Value → Bool
  | [], [] => true
  | a :: as, b :: bs => same a b && sameItems as bs
  | _, _ => false

/-- Every entry of the first list is among those of the second. -/
def entriesWithin : List (Value × Value) → List (Value × Value) → Bool
  | [], _ => true
  | (key, value) :: rest, others =>
      (others.any fun other => same key other.1 && same value other.2) &&
        entriesWithin rest others

end

/-- The value is null, with or without tags. -/
def isNull : Value → Bool
  | .null => true
  | .tagged _ value => value.isNull
  | _ => false

end Value

end ConfigScan.Yaml
