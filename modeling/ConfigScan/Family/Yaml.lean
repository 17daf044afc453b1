/-
Module: ConfigScan.Family.Yaml
Purpose: The family of all YAML files, which has no checks of its own.
Main exports: Path.isYaml, Family.yaml
-/
import ConfigScan.Family.Basic
import ConfigScan.Yaml.Document

namespace ConfigScan

/-- The extension is that of a YAML file, in whatever case. -/
def Path.isYaml (path : Path) : Bool := path.hasExtension ["yml", "yaml"]

/-- YAML files of any kind. -/
def Family.yaml {σ : Type} (registry : Registry σ) (fs : FileSystem) : Family σ :=
  { checkType := .yaml
    registry
    parseFile := fun path => if path.isYaml then fs.readYaml? path else none }

end ConfigScan
