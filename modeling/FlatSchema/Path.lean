import FlatSchema.Text.Os

/-!
# Paths

A path is bytes, and messages show it as it was written, as far as it can be shown.  Its components are
read off the bytes: slashes in a row count as one, `.` counts only at the start of a relative path.
`normalize` writes a path with as few components as its `..` allow, without asking any file system.
-/

namespace FlatSchema

structure Path where
  text : OsText
  deriving DecidableEq, Repr

namespace Path

inductive Component where
  | root
  | current
  | parent
  | name (s : OsText)
  deriving DecidableEq, Repr

def display (p : Path) : String :=
  p.text.display

/-- Whether the path holds a NUL, which no name on a disk has. -/
def hasNul (p : Path) : Bool :=
  0 ∈ p.text.bytes

/-! ## Components -/

def isAbsolute (p : Path) : Bool :=
  p.text.bytes.head? = some OsText.slash

def segments (p : Path) : List OsText :=
  p.text.segments

/-- A segment that is not the first; empty ones and `.` are nothing. -/
def innerComponent? (segment : OsText) : Option Component :=
  if segment = "" ∨ segment = "." then none
  else if segment = ".." then some .parent
  else some (.name segment)

/-- The first segment of a relative path, where `.` counts. -/
def firstComponent? (segment : OsText) : Option Component :=
  if segment = "." then some .current else innerComponent? segment

def components (p : Path) : List Component :=
  match p.segments with
  | [] => []
  | first :: rest =>
    (if p.isAbsolute then [.root] else (firstComponent? first).toList)
      ++ rest.filterMap innerComponent?

/-! ## Joining and parents -/

/-- `path` as seen from `dir`: an absolute path stands for itself. -/
def join (dir path : Path) : Path :=
  if path.isAbsolute ∨ dir.text = "" then path
  else if dir.text.bytes.getLast? = some OsText.slash then ⟨dir.text ++ path.text⟩
  else ⟨dir.text ++ "/" ++ path.text⟩

/-- The segments without those at the end that are no component; the first segment stays. -/
def trimSegments (segments : List OsText) : List OsText :=
  match segments with
  | [] => []
  | first :: rest => first :: (rest.reverse.dropWhile fun s => (innerComponent? s).isNone).reverse

/-- The path without its last component, as far as it was written; the root and the empty path have
no parent. -/
def parent? (p : Path) : Option Path :=
  match trimSegments p.segments with
  | [] => none
  | [only] => if p.isAbsolute ∨ only = "" then none else some ⟨""⟩
  | segments =>
    let upper := trimSegments segments.dropLast
    if p.isAbsolute ∧ upper.length = 1 then some ⟨"/"⟩ else some ⟨.joined upper⟩

/-! ## Normal form -/

/-- One component onto the normal form so far, kept with the last component first.  `..` takes back
the last component, and stands for itself where there is none to take back. -/
def push (done : List Component) : Component → List Component
  | .root => [.root]
  | .current => done
  | .name s => .name s :: done
  | .parent =>
    match done with
    | [] => [.parent]
    | [.root] => [.parent, .root]
    | _ :: rest => rest

def normalComponents (cs : List Component) : List Component :=
  (cs.foldl push []).reverse

def Component.text : Component → OsText
  | root => ""
  | current => "."
  | parent => ".."
  | name s => s

/-- The text of components; the root is the slash in front. -/
def ofComponents (cs : List Component) : Path :=
  if cs = [.root] then ⟨"/"⟩ else ⟨.joined (cs.map Component.text)⟩

def normalize (p : Path) : Path :=
  ofComponents (normalComponents p.components)

/-! ## Examples -/

example : (normalize ⟨"x/y/../../a.fbs"⟩).text = "a.fbs" := by decide +kernel
example : (normalize ⟨"../../a.fbs"⟩).text = "a.fbs" := by decide +kernel
example : (normalize ⟨"/../"⟩).text = "/.." := by decide +kernel
example : (parent? ⟨"././b"⟩).map Path.text = some "." := by decide +kernel
example : (parent? ⟨"//a"⟩).map Path.text = some "/" := by decide +kernel

end Path

end FlatSchema
