/-
Module: ConfigScan.Path.Display
Purpose: Absolute paths, the way from one directory to a file, and how a file is shown in a report.
Main exports: Path.absolute, Path.relativeSteps?, PathDisplay, PathDisplay.render
-/
import ConfigScan.Path.Basic

namespace ConfigScan

namespace Path

/-- The bytes of a component. -/
def Component.bytes : Component → List UInt8
  | .root => "/"
  | .current => "."
  | .parent => ".."
  | .name bytes => bytes

/-- The path starts with two slashes and no more, which keeps both of them. -/
def hasTwoSlashes (bytes : List UInt8) : Bool :=
  [slash, slash].isPrefixOf bytes && !([slash, slash, slash].isPrefixOf bytes)

/-- The path from the root, for the current directory `cwd`. It is worked out from the spelling
    alone: single dots and repeated slashes go, `..` and a slash at the end stay. The empty path
    has no absolute form and stays as it is. -/
def absolute (cwd p : Path) : Path :=
  if p.bytes.isEmpty then p
  else
    let steps := p.components.filter fun c => c != .current && c != .root
    let start : Path :=
      if !p.isAbsolute then cwd else if hasTwoSlashes p.bytes then ⟨"//"⟩ else ⟨"/"⟩
    let whole := steps.foldl (fun q c => q.join ⟨c.bytes⟩) start
    if p.bytes.getLast? == some slash then whole.join ⟨""⟩ else whole

/-- The steps that lead from the directory `base` to the file, both given by their components, once
    their common beginning is passed. A `..` of the base cannot be undone. -/
def stepsFrom? : List Component → List Component → Option (List Component)
  | file, [] => some file
  | [], _ :: base => some (.parent :: base.map fun _ => .parent)
  | a :: file, b :: base =>
      if a = b then stepsFrom? file base
      else if b = .parent then none
      else some (.parent :: base.map (fun _ => .parent) ++ a :: file)

/-- The components after a leading dot. -/
def plainComponents (p : Path) : List Component :=
  match p.components with
  | .current :: rest => rest
  | all => all

/-- The steps from a base directory to a file. There are none from an absolute base to a relative
    file, and an absolute file is reached from a relative base by its own components. -/
def relativeSteps? (file base : Path) : Option (List Component) :=
  if file.isAbsolute && !base.isAbsolute then some file.components
  else if !file.isAbsolute && base.isAbsolute then none
  else stepsFrom? file.plainComponents base.plainComponents

end Path

/-- What the path of a finding is shown relative to. -/
inductive PathDisplay where
  | scanRoot
  | fileParent
deriving DecidableEq, Repr, Inhabited

namespace PathDisplay

/-- The directory that paths are shown relative to: the scan root, or the current directory when
    there is none; or the directory of the file itself. -/
def base (display : PathDisplay) (cwd file : Path) (root : Option Path) : Path :=
  match display with
  | .scanRoot =>
      match root with
      | some root => Path.absolute cwd root
      | none => cwd
  | .fileParent => (Path.absolute cwd file).parent?.getD ⟨""⟩

/-- The names and `..` steps of a path, as they are shown. A name that is no text is shown with what
    is no text replaced. -/
def shownSteps (steps : List Path.Component) : List String :=
  steps.filterMap fun
    | .name bytes => some (Text.Utf8.text bytes)
    | .parent => some ".."
    | _ => none

/-- A file as a report shows it: a slash, and the steps from the base directory. -/
def render (display : PathDisplay) (cwd file : Path) (root : Option Path) : String :=
  let target := Path.absolute cwd file
  let steps := (target.relativeSteps? (display.base cwd file root)).getD target.components
  "/" ++ "/".intercalate (shownSteps steps)

end PathDisplay

end ConfigScan
