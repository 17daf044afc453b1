/-
Module: ConfigScan.Filter.Reader
Purpose: Reading a scan filter from JSON: an object with a list of texts under each of three names,
  or a list of up to three such lists. What is left out is empty.
Main exports: ScanFilter.ofJson, ScanFilter.ofText, ScanFilter.ofFile
-/
import ConfigScan.FileTree.Basic
import ConfigScan.Filter.Basic
import ConfigScan.Json.Number
import ConfigScan.Json.Text

namespace ConfigScan

namespace Json

/-- Read the rest of a word. -/
def readWord : List Char → Cursor → Except Error Cursor
  | [], c => .ok c
  | expected :: more, c =>
      match c.rest with
      | [] => c.fail .valueMissing
      | b :: _ =>
          if b.toNat = expected.toNat then readWord more c.skip else c.failAhead .noWord

/-- Refuse the value that comes next, because another kind of value is wanted. A list or an object
    is refused at its start, and all else behind its end. -/
def refuse {α : Type} (wanted : String) (c : Cursor) : Except Error α := do
  let wrong (found : Found) (c : Cursor) : Except Error α := c.fail (.wrongKind found wanted)
  match c.rest with
  | [] => c.failAhead .noValue
  | b :: _ =>
      match Char.ofNat b.toNat with
      | 'n' => wrong .null (← readWord "ull".toList c.skip)
      | 't' => wrong (.bool true) (← readWord "rue".toList c.skip)
      | 'f' => wrong (.bool false) (← readWord "alse".toList c.skip)
      | '-' =>
          let (found, c) ← readNumber true c.skip
          wrong found c
      | '"' =>
          let (text, c) ← readText c.skip
          wrong (.text text) c
      | '[' => wrong .list c
      | '{' => wrong .object c
      | _ =>
          if isDigit b then
            let (found, c) ← readNumber false c
            wrong found c
          else c.failAhead .noValue

/-- Go to the next item of a list, from behind its bracket when `first`, else from behind an item;
    `false` says that the list ends here. -/
def nextItem (first : Bool) (c : Cursor) : Except Error (Bool × Cursor) :=
  let c := c.skipBlanks
  match c.rest with
  | [] => c.fail .listOpen
  | b :: _ =>
      if b = 93 then .ok (false, c)
      else if first then .ok (true, c)
      else if b = 44 then
        let c := c.skip.skipBlanks
        match c.rest with
        | [] => c.fail .valueMissing
        | b :: _ => if b = 93 then c.failAhead .lastComma else .ok (true, c)
      else c.failAhead .noListSeparator

/-- Close a list. -/
def closeList (c : Cursor) : Except Error Cursor :=
  let c := c.skipBlanks
  match c.rest with
  | [] => c.fail .listOpen
  | b :: _ =>
      if b = 93 then .ok c.skip
      else if b = 44 then
        let c := c.skip.skipBlanks
        c.failAhead (if c.startsWith 93 then .lastComma else .moreText)
      else c.failAhead .moreText

/-- Read a text. -/
def textValue (c : Cursor) : Except Error (String × Cursor) := do
  let c := c.skipBlanks
  if c.rest.isEmpty then c.fail .valueMissing
  else if c.startsWith 34 then
    let (text, c) ← readText c.skip
    return (String.ofList text, c)
  else refuse "a string" c

/-- Read the items of a list of texts; `fuel` is more than the number of bytes left. -/
def textItems : Nat → (first : Bool) → Cursor → Except Error (List String × Cursor)
  | 0, _, c => c.fail .listOpen
  | fuel + 1, first, c => do
      let (more, c) ← nextItem first c
      if more then
        let (item, c) ← textValue c
        let (items, c) ← textItems fuel false c
        return (item :: items, c)
      else return ([], c)

/-- Read a list of texts. -/
def textList (c : Cursor) : Except Error (List String × Cursor) := do
  let c := c.skipBlanks
  if c.rest.isEmpty then c.fail .valueMissing
  else if c.startsWith 91 then
    let (items, c) ← textItems (c.rest.length + 1) true c.skip
    return (items, ← closeList c)
  else refuse "a sequence" c

/-- Read up to so many lists of texts out of a list. -/
def textLists : Nat → (first : Bool) → Cursor → Except Error (List (List String) × Cursor)
  | 0, _, c => .ok ([], c)
  | count + 1, first, c => do
      let (more, c) ← nextItem first c
      if more then
        let (items, c) ← textList c
        let (lists, c) ← textLists count false c
        return (items :: lists, c)
      else return ([], c)

/-- Go to the next key of an object, from behind its brace when `first`, else from behind a value;
    `false` says that the object ends here. -/
def nextKey (first : Bool) (c : Cursor) : Except Error (Bool × Cursor) :=
  let c := c.skipBlanks
  match c.rest with
  | [] => c.fail .objectOpen
  | b :: _ =>
      if b = 125 then .ok (false, c)
      else if first then if b = 34 then .ok (true, c) else c.failAhead .keyNoText
      else if b = 44 then
        let c := c.skip.skipBlanks
        match c.rest with
        | [] => c.fail .valueMissing
        | b :: _ =>
            if b = 34 then .ok (true, c)
            else if b = 125 then c.failAhead .lastComma
            else c.failAhead .keyNoText
      else c.failAhead .noObjectSeparator

/-- Read the colon behind a key. -/
def readColon (c : Cursor) : Except Error Cursor :=
  let c := c.skipBlanks
  match c.rest with
  | [] => c.fail .objectOpen
  | b :: _ => if b = 58 then .ok c.skip else c.failAhead .noColon

/-- A fault of a key, which counts as met behind the end of the object if that comes next. -/
def failKey {α : Type} (c : Cursor) (fault : Fault) : Except Error α :=
  let c := c.skipBlanks
  (if c.startsWith 125 then c.skip else c).fail fault

end Json

namespace ScanFilter

open Json (Cursor Error)

/-- The names of a filter's lists. -/
inductive Field where
  | checks
  | skipChecks
  | excludedPaths
deriving DecidableEq, Repr, Inhabited

namespace Field

/-- All names. -/
def all : List Field := [.checks, .skipChecks, .excludedPaths]

/-- How a name is written. -/
def name : Field → String
  | .checks => "checks"
  | .skipChecks => "skip_checks"
  | .excludedPaths => "excluded_paths"

end Field

/-- The filter with these lists. -/
def ofFields (fields : List (Field × List String)) : ScanFilter :=
  { checks := (fields.lookup .checks).getD []
    skipChecks := (fields.lookup .skipChecks).getD []
    excludedPaths := (fields.lookup .excludedPaths).getD [] }

/-- Read the fields of an object; `fuel` is more than the number of bytes left. -/
def readFields : Nat → (done : List (Field × List String)) → Cursor →
    Except Error (List (Field × List String) × Cursor)
  | 0, _, c => c.fail .objectOpen
  | fuel + 1, done, c => do
      let (more, c) ← Json.nextKey done.isEmpty c
      if more then
        let (key, c) ← Json.readText c.skip
        match Field.all.find? fun field => field.name == String.ofList key with
        | none => Json.failKey c (.unknownField key (Field.all.map Field.name))
        | some field =>
            if (done.lookup field).isSome then Json.failKey c (.repeatedField field.name)
            else
              let (items, c) ← Json.textList (← Json.readColon c)
              readFields fuel ((field, items) :: done) c
      else return (done, c)

/-- Read a filter. -/
def readValue (c : Cursor) : Except Error (ScanFilter × Cursor) := do
  let c := c.skipBlanks
  if c.rest.isEmpty then c.fail .valueMissing
  else if c.startsWith 123 then
    let (fields, c) ← readFields (c.rest.length + 1) [] c.skip
    return (ofFields fields, c.skip)
  else if c.startsWith 91 then
    let (lists, c) ← Json.textLists 3 true c.skip
    return (ofFields (Field.all.zip lists), ← Json.closeList c)
  else Json.refuse "struct ScanFilter" c

/-- The filter that a JSON text describes. -/
def ofJson (text : String) : Except Error ScanFilter := do
  let (filter, c) ← readValue { rest := Text.Utf8.encode text.toList }
  let c := c.skipBlanks
  if c.rest.isEmpty then return filter else c.failAhead .moreText

/-- The filter that a JSON text describes, or the error that stops a scan. -/
def ofText (text : String) : Except ScanError ScanFilter :=
  (ofJson text).mapError fun e => .config ("Invalid scan filter: " ++ e.message)

/-- The filter that a JSON file describes. -/
def ofFile (fs : FileSystem) (path : Path) : Except ScanError ScanFilter :=
  match fs.readText path with
  | .ok text => ofText text
  | .error e => .error (.config ("Failed to read " ++ path.text ++ ": " ++ e.message))

end ScanFilter

end ConfigScan
