/-
Module: ConfigScan.FileTree.Create
Purpose: Building a file system entry by entry. What cannot be created is left out, and what is
  created can be listed, searched and read.
Main exports: FileSystem.empty, FileSystem.addDirectory, FileSystem.addFile, FileSystem.addLink
-/
import ConfigScan.FileTree.Basic

namespace ConfigScan

namespace Entry

/-- The children with the entry of this name replaced, or added at the end. -/
def setChild (name : Name) (entry : Entry) : List (Name × Entry) → List (Name × Entry)
  | [] => [(name, entry)]
  | (other, old) :: rest =>
      if other = name then (name, entry) :: rest else (other, old) :: setChild name entry rest

/-- The tree with the entry at these names replaced or added; the directories on the way stay. -/
def put (entry : Entry) : List Name → Entry → Entry
  | [], _ => entry
  | name :: names, .dir access children =>
      .dir access
        (setChild name (put entry names ((child? name children).getD (folder []))) children)
  | _ :: _, other => other

end Entry

namespace FileSystem

/-- Nothing but the current directory and the directories above it. -/
def empty (currentDir : Path) : FileSystem :=
  { root := (currentDir.components.filterMap fun | .name bytes => some bytes | _ => none).foldr
      (fun name inner => .folder [(name, inner)]) (.folder [])
    currentDir }

/-- The file system with an entry put at a place. -/
def putAt (fs : FileSystem) (place : List Name) (entry : Entry) : FileSystem :=
  { fs with root := Entry.put entry place.reverse fs.root }

/-- The place of a directory reached by one more segment, which is made if it is missing. -/
def enter (fs : FileSystem) (place : List Name) (segment : List UInt8) :
    FileSystem × Option (List Name) :=
  match follow fs.root place [segment] with
  | .ok (.missing dir name) => (fs.putAt (name :: dir) (.folder []), some (name :: dir))
  | .ok _ =>
      match resolve fs.root maxLinks place [segment] with
      | .ok (.found there) =>
          match fs.root.at? there.reverse with
          | some (.dir ..) => (fs, some there)
          | _ => (fs, none)
      | _ => (fs, none)
  | .error _ => (fs, none)

/-- Enter segments one after another; the place is lost at the first that cannot be entered. -/
def enterAll (fs : FileSystem) : List Name → List (List UInt8) →
    FileSystem × Option (List Name)
  | place, [] => (fs, some place)
  | place, segment :: rest =>
      match fs.enter place segment with
      | (fs, some there) => fs.enterAll there rest
      | (fs, none) => (fs, none)

/-- Make a directory and the missing directories above it. -/
def addDirectory (fs : FileSystem) (p : Path) : FileSystem × Option (List Name) :=
  fs.enterAll (fs.start p) (Path.segments p.bytes)

/-- Make the directories above a path. -/
def addParent (fs : FileSystem) (p : Path) : FileSystem × Option (List Name) :=
  match p.parent? with
  | some parent => fs.addDirectory parent
  | none => (fs, some [])

/-- Write a file, with the missing directories above it. A file that is there is replaced. -/
def addFile (fs : FileSystem) (p : Path) (content : List UInt8) : FileSystem :=
  match fs.addParent p with
  | (fs, none) => fs
  | (fs, some _) =>
      match fs.arrive p with
      | .ok (.missing dir name) => fs.putAt (name :: dir) (.file true content)
      | .ok (.found place) =>
          match fs.root.at? place.reverse with
          | some (.file ..) => fs.putAt place (.file true content)
          | _ => fs
      | _ => fs

/-- Make a symbolic link, with the missing directories above it. -/
def addLink (fs : FileSystem) (p target : Path) : FileSystem :=
  match fs.addParent p, p.name? with
  | (fs, some place), some name =>
      match fs.root.at? place.reverse with
      | some (.dir _ children) =>
          match Entry.child? name children with
          | none => fs.putAt (name :: place) (.link target)
          | some _ => fs
      | _ => fs
  | (fs, _), _ => fs

end FileSystem

end ConfigScan
