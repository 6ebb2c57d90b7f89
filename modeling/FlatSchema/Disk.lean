import FlatSchema.Library

/-!
# A disk

Directories and files below one root, and a working directory.  A path is followed from the root or
the working directory, one segment after the other, through directories that exist; `..` leads to
the directory above and stays at the root.  Names on the disk are texts, and no others are taken.  Names
and paths are limited in length, both counted in bytes.
-/

namespace FlatSchema

/-- A sink reads as empty and keeps nothing of what is written to it. -/
inductive Node where
  | directory
  | file (bytes : ByteArray)
  | sink

/-- `nodes` are named by the way to them from the root, which itself is always there. -/
structure Disk where
  nodes : List (List String × Node)
  here : List String

namespace Disk

/-- The longest name that is looked up. -/
def nameLimit : Nat := 255

/-- The longest path that is read from or written to. -/
def pathLimit : Nat := 4095

/-! ## Contents -/

def node? (d : Disk) (place : List String) : Option Node :=
  if place = [] then some .directory
  else (d.nodes.find? (·.1 = place)).map (·.2)

def isDirectory (d : Disk) (place : List String) : Bool :=
  match d.node? place with
  | some .directory => true
  | _ => false

def put (d : Disk) (place : List String) (node : Node) : Disk :=
  { d with nodes := d.nodes.filter (·.1 ≠ place) ++ [(place, node)] }

/-- Makes a directory and those it lies in, where they are missing. -/
def makeDirectory (d : Disk) (place : List String) : Disk :=
  (List.range place.length).foldl
    (fun d n =>
      let above := place.take (n + 1)
      if (d.node? above).isSome then d else d.put above .directory)
    d

/-- An empty disk but for a working directory. -/
def empty (here : List String) : Disk :=
  (Disk.mk [] here).makeDirectory here

/-- Places a file below the working directory, with the directories it lies in. -/
def addFile (d : Disk) (place : List String) (bytes : ByteArray) : Disk :=
  (d.makeDirectory (d.here ++ place.dropLast)).put (d.here ++ place) (.file bytes)

def addDirectory (d : Disk) (place : List String) : Disk :=
  d.makeDirectory (d.here ++ place)

/-! ## Following paths -/

def walk (d : Disk) (place : List String) : List OsText → Except OsError (List String)
  | [] => .ok place
  | segment :: rest =>
    if d.isDirectory place then
      if segment = "" ∨ segment = "." then d.walk place rest
      else if segment = ".." then d.walk place.dropLast rest
      else if nameLimit < segment.bytes.length then .error .nameTooLong
      else
        match segment.text? with
        | none => .error .noEntry
        | some name =>
          let next := place ++ [name]
          if (d.node? next).isSome then d.walk next rest else .error .noEntry
    else .error .notDirectory

/-- Where following a path starts. -/
def origin (d : Disk) (p : Path) : List String :=
  if p.isAbsolute then [] else d.here

/-- The place a path leads to, however long it is; the empty path leads nowhere. -/
def follow (d : Disk) (p : Path) : Except OsError (List String) :=
  if p.text = "" then .error .noEntry else d.walk (d.origin p) p.segments

/-- What keeps a path from being followed at all. -/
def refusal? (p : Path) : Option FileError :=
  if p.hasNul then some .nulInPath
  else if pathLimit < p.text.bytes.length then some (.os .nameTooLong)
  else none

def locate (d : Disk) (p : Path) : Except FileError (List String) :=
  match refusal? p with
  | some e => .error e
  | none => (d.follow p).mapError .os

def placeText (place : List String) : String :=
  "/" ++ Text.join '/' place

/-! ## Operations -/

def isFile (d : Disk) (p : Path) : Bool :=
  match d.locate p with
  | .ok place =>
    match d.node? place with
    | some (.file _) => true
    | _ => false
  | .error _ => false

def read (d : Disk) (p : Path) : Except FileError String :=
  match d.locate p with
  | .ok place =>
    match d.node? place with
    | some (.file bytes) =>
      match String.fromUTF8? bytes with
      | some text => .ok text
      | none => .error .invalidUtf8
    | some .sink => .ok ""
    | _ => .error (.os .isDirectory)
  | .error e => .error e

/-- The absolute path of what a path leads to, or the path itself if it leads nowhere.  Only the
names in it are limited in length. -/
def key (d : Disk) (p : Path) : String :=
  match d.follow p with
  | .ok place => placeText place
  | .error _ => p.display

/-- Writes to the name `last` in a directory; a file is made anew or replaced. -/
def writeNamed (d : Disk) (place : List String) (last : OsText) (text : String) : Except OsError Disk :=
  if nameLimit < last.bytes.length then .error .nameTooLong
  else
    match last.text? with
    | none => .error .noText
    | some name =>
      match d.node? (place ++ [name]) with
      | some .directory => .error .isDirectory
      | some .sink => .ok d
      | _ => .ok (d.put (place ++ [name]) (.file text.toUTF8))

/-- Writes where the segments lead from a place, through directories that exist.  Segments that end
in an empty one or in dots name a directory. -/
def writeAt (d : Disk) (place : List String) (segments : List OsText) (text : String) :
    Except OsError Disk :=
  match segments.reverse.dropWhile (· = OsText.ofText "") with
  | [] => .error .isDirectory
  | last :: above =>
    match d.walk place above.reverse with
    | .error e => .error e
    | .ok place =>
      if !d.isDirectory place then .error .notDirectory
      else if above.length + 1 < segments.length ∨ last = "." ∨ last = ".." then
        .error .isDirectory
      else d.writeNamed place last text

def write (d : Disk) (p : Path) (text : String) : Except FileError Disk :=
  match refusal? p with
  | some e => .error e
  | none =>
    if p.text = "" then .error (.os .noEntry)
    else (d.writeAt (d.origin p) p.segments text).mapError .os

/-- The disk as a library; on each way through the includes a file is read at most once. -/
def library {m : Type → Type} [Monad m] (d : Disk) : Library m where
  isFile := fun p => pure (d.isFile p)
  read := fun p => pure (d.read p)
  key := fun p => pure (d.key p)
  depth := d.nodes.length + 1

end Disk

end FlatSchema
