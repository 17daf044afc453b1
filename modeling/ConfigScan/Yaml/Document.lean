/-
Module: ConfigScan.Yaml.Document
Purpose: Reading the document of a YAML text or file.
Main exports: Value.ofText?, ParsedFile.ofYaml?, FileSystem.readYaml?
-/
import ConfigScan.Document.Source
import ConfigScan.FileTree.Basic
import ConfigScan.Yaml.Expansion
import ConfigScan.Yaml.Marking

namespace ConfigScan

/-- The value of a text that holds exactly one YAML document. -/
def Yaml.Value.ofText? (text : List Char) : Option Yaml.Value := do
  Value.ofTree? (← Tree.ofTokens? (← tokens? text))

/-- The document of a YAML text, with line markers and source lines. There is none when the text
    is no YAML or its document is null. -/
def ParsedFile.ofYaml? (text : String) : Option ParsedFile := do
  let value ← Yaml.Value.ofText? text.toList
  if value.isNull then none
  else return { document := value.node (Text.lines text.toList), lines := RawLine.ofText text }

/-- The document of a YAML file; there is none when the file cannot be read. -/
def FileSystem.readYaml? (fs : FileSystem) (path : Path) : Option ParsedFile :=
  match fs.readText path with
  | .ok text => ParsedFile.ofYaml? text
  | .error _ => none

end ConfigScan
