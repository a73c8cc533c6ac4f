import Lindenmayer.Files.Path
import Lindenmayer.Text.Quoted

/-!
Directories with files in them, and the two things done with them: a file is read, and a file is
written after the directories above it have been made. Names are bounded: a segment may have 255
octets, and a name 4095.
-/

namespace Lindenmayer.Files

inductive Fault
  | missing
  | exists
  | notDirectory
  | isDirectory
  | tooLong
  | nul
  | other (number : Nat) (text : String)
  deriving DecidableEq

structure Error where
  fault : Fault
  name : String
  deriving DecidableEq

def numbered (number : Nat) (text name : String) : String :=
  s!"[Errno {number}] " ++ text ++ ": " ++ Text.quote name

/-- A name with a NUL in it is not passed on, and is not shown. -/
def Error.message (e : Error) : String :=
  match e.fault with
  | .missing => numbered 2 "No such file or directory" e.name
  | .exists => numbered 17 "File exists" e.name
  | .notDirectory => numbered 20 "Not a directory" e.name
  | .isDirectory => numbered 21 "Is a directory" e.name
  | .tooLong => numbered 36 "File name too long" e.name
  | .nul => "embedded null byte"
  | .other number text => numbered number text e.name

def maxSegment : Nat := 255

def maxName : Nat := 4095

def nameFault? (name : String) : Option Fault :=
  if name.toList.contains (Char.ofNat 0) then some .nul
  else if maxName < name.utf8ByteSize then some .tooLong
  else none

inductive Entry
  | directory
  | file (content : List UInt8)
  deriving DecidableEq

abbrev Place := List String

/-- Places count from the first directory; names without a slash in front, from `here`. -/
structure Tree where
  here : Place
  entries : List (Place × Entry)

def Place.name (root : String) (p : Place) : String := root ++ "/".intercalate p

namespace Tree

def find? (t : Tree) (p : Place) : Option Entry :=
  if p = [] then some .directory else t.entries.lookup p

def insertEntry (p : Place) (e : Entry) : List (Place × Entry) → List (Place × Entry)
  | [] => [(p, e)]
  | x :: xs => if x.1 = p then (p, e) :: xs else x :: insertEntry p e xs

def insert (t : Tree) (p : Place) (e : Entry) : Tree :=
  { t with entries := insertEntry p e t.entries }

def follow (t : Tree) (above : Place) : List String → Except Fault Place
  | [] => .ok above
  | s :: ss =>
    match t.find? above with
    | none => .error .missing
    | some (.file _) => .error .notDirectory
    | some .directory =>
      if s = "." then t.follow above ss
      else if s = ".." then t.follow above.dropLast ss
      else if maxSegment < s.utf8ByteSize then .error .tooLong
      else t.follow (above ++ [s]) ss

def start (t : Tree) (p : Path) : Place := if p.absolute then [] else t.here

def locate (t : Tree) (p : Path) : Except Fault Place :=
  if p.segments.isEmpty && !p.absolute then .error .missing
  else t.follow (t.start p) (if p.closed then p.segments ++ ["."] else p.segments)

/-- The place of a file that may be made. A name that must mean a directory is none. -/
def locateNew (t : Tree) (p : Path) : Except Fault Place :=
  if p.closed && !p.segments.isEmpty && !Path.isDots (p.segments.getLast?.getD "") then
    (t.follow (t.start p) (p.segments.dropLast ++ ["."])).bind fun _ => .error .isDirectory
  else t.locate p

def readAt (t : Tree) (place : Place) : Except Fault (List UInt8) :=
  match t.find? place with
  | none => .error .missing
  | some .directory => .error .isDirectory
  | some (.file content) => .ok content

def writeAt (t : Tree) (place : Place) (content : List UInt8) : Except Fault Tree :=
  match t.find? place with
  | some .directory => .error .isDirectory
  | _ => .ok (t.insert place (.file content))

def atName {α : Type} (name : String) (place : Path → Except Fault Place)
    (use : Place → Except Fault α) : Except Error α :=
  match nameFault? name with
  | some fault => .error ⟨fault, name⟩
  | none => ((place (.ofString name)).bind use).mapError (⟨·, name⟩)

def read (t : Tree) (name : String) : Except Error (List UInt8) := atName name t.locate t.readAt

def openNew (t : Tree) (name : String) (content : List UInt8) : Except Error Tree :=
  atName name t.locateNew fun place => t.writeAt place content

def directoryFault? (name segment : String) : Option Fault :=
  match nameFault? name with
  | some fault => some fault
  | none => if maxSegment < segment.utf8ByteSize then some .tooLong else none

/-- Makes the directories along the segments, where there are none. A file in the way is an error
at the last place, or at the first below it. Directories made before an error stay. -/
def makeDirectories (t : Tree) (root : String) (above : Place) :
    List String → Except (Error × Tree) Tree
  | [] => .ok t
  | s :: ss =>
    let place := above ++ [s]
    match t.find? place with
    | some .directory => t.makeDirectories root place ss
    | some (.file _) =>
      match ss with
      | [] => .error (⟨.exists, Place.name root place⟩, t)
      | s' :: _ =>
        let below := Place.name root (place ++ [s'])
        .error (⟨(nameFault? below).getD .notDirectory, below⟩, t)
    | none =>
      match directoryFault? (Place.name root place) s with
      | some fault => .error (⟨fault, Place.name root place⟩, t)
      | none => (t.insert place .directory).makeDirectories root place ss

def makeParents (t : Tree) (p : Path) : Except (Error × Tree) Tree :=
  t.makeDirectories p.fullRoot [] (p.full t.here).dropLast

/-- Writes a file. Directories that were made stay when the file cannot be written. -/
def write (t : Tree) (name : String) (content : List UInt8) : Option Error × Tree :=
  match t.makeParents (.ofString name) with
  | .error (e, made) => (some e, made)
  | .ok made =>
    match made.openNew name content with
    | .error e => (some e, made)
    | .ok written => (none, written)

def files (t : Tree) : List (Place × List UInt8) :=
  t.entries.filterMap fun x =>
    match x.2 with
    | .directory => none
    | .file content => some (x.1, content)

def filesBelow (t : Tree) : List (Place × List UInt8) :=
  t.files.filterMap fun f =>
    if t.here.isPrefixOf f.1 then some (f.1.drop t.here.length, f.2) else none

def plant (t : Tree) (name : String) (content : List UInt8) : Tree := (t.write name content).2

def bare (here : Place) : Tree :=
  match (⟨here, []⟩ : Tree).makeDirectories "/" [] here with
  | .ok t => t
  | .error _ => ⟨here, []⟩

end Tree

end Lindenmayer.Files
