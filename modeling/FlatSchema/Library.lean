import FlatSchema.Error
import FlatSchema.Path

/-!
# Where schema texts come from

A library answers three questions about a path: whether it names a file, what the file holds, and
under which key the file is recorded, so that a file is read once however it is spelled.  Answers
come in a monad `m`: the identity for texts in memory, `IO` for a real disk.

A `Store` is a library in memory that takes a path and its normal form for the same file.  A key is the
normal form as it is shown, so that files whose paths are no texts may share one.
-/

namespace FlatSchema

structure Library (m : Type → Type) where
  isFile : Path → m Bool
  read : Path → m (Except FileError String)
  key : Path → m String
  /-- How many files may be open at once, one including the next. -/
  depth : Nat

/-- Texts by the normal form of their path. -/
structure Store where
  files : List (Path × String)
  deriving DecidableEq, Repr

namespace Store

def empty : Store := ⟨[]⟩

/-- A text inserted again replaces the one before. -/
def insert (s : Store) (path : Path) (text : String) : Store :=
  ⟨(path.normalize, text) :: s.files.filter (·.1 ≠ path.normalize)⟩

def ofList (files : List (Path × String)) : Store :=
  files.foldl (fun s f => s.insert f.1 f.2) empty

def find? (s : Store) (path : Path) : Option String :=
  (s.files.find? (·.1 = path.normalize)).map (·.2)

def contains (s : Store) (path : Path) : Bool :=
  (s.find? path).isSome

def read (s : Store) (path : Path) : Except FileError String :=
  match s.find? path with
  | some text => .ok text
  | none => .error (.notFound path.display)

def key (path : Path) : String :=
  path.normalize.display

/-- The library of a store.  No more files can be open than there are, besides one that is met
again and left at once. -/
def library (s : Store) : Library Id where
  isFile := s.contains
  read := s.read
  key := key
  depth := s.files.length + 1

/-- How deep includes may nest where spellings are told apart and need not come to an end. -/
def spelledDepth : Nat := 1000

/-- The same files, each recorded under every spelling that is used for it. -/
def spelledLibrary (s : Store) : Library Id where
  isFile := s.contains
  read := s.read
  key := Path.display
  depth := s.files.length + spelledDepth

end Store

end FlatSchema
