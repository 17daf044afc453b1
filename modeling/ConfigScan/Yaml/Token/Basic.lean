/-
Module: ConfigScan.Yaml.Token.Basic
Purpose: The tokens of a YAML text.
Main exports: Token
-/
import ConfigScan.Yaml.Token.Property

namespace ConfigScan.Yaml

/-- A token. Indentation shows as tokens of its own, which open and close block collections. -/
inductive Token where
  | directive (directive : Directive)
  | documentStart
  | documentEnd
  | streamEnd
  | blockSeq
  | blockMap
  | blockEnd
  | flowSeqOpen
  | flowSeqClose
  | flowMapOpen
  | flowMapClose
  /-- The dash of a block sequence. -/
  | item
  /-- The comma of a flow collection. -/
  | comma
  | key
  | value
  | alias (name : List Char)
  | anchor (name : List Char)
  | tag (handle : List Char) (suffix : List UInt8)
  | scalar (plain : Bool) (text : List Char)
deriving DecidableEq, Repr, Inhabited

end ConfigScan.Yaml
