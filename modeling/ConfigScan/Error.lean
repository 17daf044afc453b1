/-
Module: ConfigScan.Error
Purpose: What can stop a scan, and what can go wrong with a single file.
Main exports: FileError, ScanError, ScanError.message
-/
import ConfigScan.Path.Basic

namespace ConfigScan

/-- Why a path could not be opened or read. -/
inductive FileError where
  | notFound
  | permissionDenied
  | notADirectory
  | isADirectory
  | nameTooLong
  | tooManyLinks
  | nulInName
  | notUtf8
deriving DecidableEq, Repr, Inhabited

/-- The wording of a file error. -/
def FileError.message : FileError → String
  | .notFound => "No such file or directory (os error 2)"
  | .permissionDenied => "Permission denied (os error 13)"
  | .notADirectory => "Not a directory (os error 20)"
  | .isADirectory => "Is a directory (os error 21)"
  | .nameTooLong => "File name too long (os error 36)"
  | .tooManyLinks => "Too many levels of symbolic links (os error 40)"
  | .nulInName => "file name contained an unexpected NUL byte"
  | .notUtf8 => "stream did not contain valid UTF-8"

/-- What stops a scan. Trouble with one file is not among it: such a file is left out. -/
inductive ScanError where
  | config (text : String)
  | rootNotFound (root : Path)
  | registry (text : String)
  | io (cause : FileError)
  /-- The root is a directory, but what is in it cannot be listed. -/
  | walk (root : Path) (cause : FileError)
deriving DecidableEq, Repr, Inhabited

/-- The wording of a scan error. -/
def ScanError.message : ScanError → String
  | .config text => "Configuration error: " ++ text
  | .rootNotFound root => "Scan root not found: " ++ root.text
  | .registry text => "Registry error: " ++ text
  | .io cause => "I/O error: " ++ cause.message
  | .walk root cause =>
      "Walk error: IO error for operation on " ++ root.text ++ ": " ++ cause.message

end ConfigScan
