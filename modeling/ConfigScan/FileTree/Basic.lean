/-
Module: ConfigScan.FileTree.Basic
Purpose: A file system as a value: a tree of directories, files and symbolic links, with what may be
  done with each, and the rules by which a path names an entry of it.
Main exports: Access, Entry, FileSystem, FileSystem.lookup, FileSystem.isDirectory,
  FileSystem.readText, FileSystem.openDirectory
-/
import ConfigScan.Error
import ConfigScan.Text.Utf8

namespace ConfigScan

/-- What may be done with a directory. -/
structure Access where
  /-- The names in it can be listed. -/
  list : Bool := true
  /-- A path can lead through it. -/
  search : Bool := true
deriving DecidableEq, Repr, Inhabited

/-- An entry of a directory. -/
inductive Entry where
  | file (readable : Bool) (content : List UInt8)
  | link (target : Path)
  | dir (access : Access) (children : List (Name × Entry))
deriving Repr, Inhabited

namespace Entry

/-- A file that can be read. -/
abbrev text (content : String) : Entry := .file true content

/-- A directory that can be listed and searched. -/
abbrev folder (children : List (Name × Entry)) : Entry := .dir {} children

/-- The entry of this name among the children of a directory. -/
def child? (name : Name) : List (Name × Entry) → Option Entry
  | [] => none
  | (other, entry) :: rest => if other = name then some entry else child? name rest

/-- The entry reached from here by names alone; links are not followed. -/
def at? : List Name → Entry → Option Entry
  | [], entry => some entry
  | name :: names, .dir _ children => (child? name children).bind (at? names)
  | _ :: _, _ => none

end Entry

/-- The entries from the root directory on, and the directory that relative paths start from. -/
structure FileSystem where
  root : Entry
  currentDir : Path
deriving Repr, Inhabited

namespace FileSystem

/-- Where a walk along the segments of a path ends: at an entry, just short of a missing one in an
    existing directory, or at a link with more segments to go. Places are given by the names from
    the root, the last one first. -/
inductive Arrival where
  | found (place : List Name)
  | missing (place : List Name) (name : Name)
  | link (place : List Name) (target : Path) (rest : List (List UInt8))
deriving Repr, Inhabited

/-- The longest name of an entry, in bytes. -/
def maxNameBytes : Nat := 255

/-- The longest path that can be looked up, in bytes. -/
def maxPathBytes : Nat := 4095

/-- The most links that one look-up follows. -/
def maxLinks : Nat := 40

/-- Walk along segments up to the first link. Every segment, an empty one too, needs a directory to
    stand in, and all but the empty ones need one that can be searched. -/
def follow (root : Entry) : List Name → List (List UInt8) → Except FileError Arrival
  | place, [] => .ok (.found place)
  | place, segment :: rest =>
      match root.at? place.reverse with
      | some (.dir access children) =>
          if segment = [] then follow root place rest
          else if !access.search then .error .permissionDenied
          else if segment = [Path.dot] then follow root place rest
          else if segment = [Path.dot, Path.dot] then follow root place.tail rest
          else if maxNameBytes < segment.length then .error .nameTooLong
          else
            match Entry.child? segment children with
            | none => if rest.isEmpty then .ok (.missing place segment) else .error .notFound
            | some (.link target) => .ok (.link place target rest)
            | some _ => follow root (segment :: place) rest
      | _ => .error .notADirectory

/-- Walk along segments and follow at most so many links. -/
def resolve (root : Entry) : Nat → List Name → List (List UInt8) → Except FileError Arrival
  | links, place, parts =>
      match follow root place parts with
      | .ok (.link dir target rest) =>
          match links with
          | 0 => .error .tooManyLinks
          | left + 1 =>
              resolve root left (if target.isAbsolute then [] else dir)
                (Path.segments target.bytes ++ rest)
      | other => other

/-- Where a path starts from: the root, or for a relative path the current directory. -/
def start (fs : FileSystem) (p : Path) : List Name :=
  if p.isAbsolute then []
  else (fs.currentDir.components.filterMap fun | .name bytes => some bytes | _ => none).reverse

/-- Walk along a path from where it starts. -/
def arrive (fs : FileSystem) (p : Path) : Except FileError Arrival :=
  if p.bytes.contains 0 then .error .nulInName
  else if p.bytes.isEmpty then .error .notFound
  else if maxPathBytes < p.bytes.length then .error .nameTooLong
  else resolve fs.root maxLinks (fs.start p) (Path.segments p.bytes)

/-- The entry that a path names once all links are followed. -/
def lookup (fs : FileSystem) (p : Path) : Except FileError Entry :=
  match fs.arrive p with
  | .ok (.found place) =>
      match fs.root.at? place.reverse with
      | some entry => .ok entry
      | none => .error .notFound
  | .ok _ => .error .notFound
  | .error e => .error e

/-- The path names a directory. -/
def isDirectory (fs : FileSystem) (p : Path) : Bool :=
  match fs.lookup p with
  | .ok (.dir ..) => true
  | _ => false

/-- The directory that a path names, when it can be listed. -/
def openDirectory (fs : FileSystem) (p : Path) : Except FileError Entry :=
  match fs.lookup p with
  | .ok (.dir access children) =>
      if access.list then .ok (.dir access children) else .error .permissionDenied
  | .ok _ => .error .notADirectory
  | .error e => .error e

/-- The text of the file that a path names. -/
def readText (fs : FileSystem) (p : Path) : Except FileError String :=
  match fs.lookup p with
  | .ok (.file readable content) =>
      if readable then
        match Text.Utf8.decode? content with
        | some text => .ok (String.ofList text)
        | none => .error .notUtf8
      else .error .permissionDenied
  | .ok (.dir access _) => .error (if access.list then .isADirectory else .permissionDenied)
  | .ok (.link _) => .error .notFound
  | .error e => .error e

end FileSystem

end ConfigScan
