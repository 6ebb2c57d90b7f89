import FlatSchema.Grammar.Parse
import FlatSchema.Library
import FlatSchema.Log
import FlatSchema.Schema.Resolution

/-!
# Compiling files and their includes

A build reads a file into its schema and then, in the order of the text, every file that it
includes.  A file is recorded before it is read, so it is read once even if it includes itself, and
a file that fails stays recorded.  An include is looked for next to the file that asks for it, and
then in the include directories in order.
-/

namespace FlatSchema

structure Options where
  rootName : String
  includeDirs : List Path
  deriving DecidableEq, Repr

def Options.default : Options :=
  ⟨"default", []⟩

/-- A schema under construction, and what was logged on the way. -/
structure Build where
  schema : Schema
  log : List LogEntry
  deriving DecidableEq, Repr

namespace Build

def start (options : Options) : Build :=
  ⟨.empty options.rootName, []⟩

def note (b : Build) (level : LogLevel) (message : String) : Build :=
  { b with log := b.log ++ [⟨level, .compiler, message⟩] }

/-- What a step leaves behind, and whether it succeeded. -/
abbrev Result := Except CompileError Unit × Build

variable {m : Type → Type} [Monad m]

/-! ## Includes -/

/-- The places where an include is looked for, in order. -/
def candidates (dirs : List Path) (origin : Path) (written : String) : List Path :=
  let beside := match origin.parent? with
    | some dir => dir.join ⟨written⟩
    | none => ⟨written⟩
  beside :: dirs.map (·.join ⟨written⟩)

def firstFile (lib : Library m) : List Path → m (Option Path)
  | [] => pure none
  | p :: ps => do
    if ← lib.isFile p then pure (some p) else firstFile lib ps

/-- Follows the includes of a file one after the other; `visit` opens a file. -/
def follow (lib : Library m) (dirs : List Path) (visit : Path → Build → m Result) (origin : Path) :
    List String → Build → m Result
  | [], b => pure (.ok (), b)
  | written :: rest, b => do
    match ← firstFile lib (candidates dirs origin written) with
    | none => pure (.error (.includeNotFound written), b)
    | some p =>
      let b := b.note .debug ("Following include '" ++ written ++ "' -> " ++ p.display)
      match ← visit p b with
      | (.ok _, b) => follow lib dirs visit origin rest b
      | (.error e, b) => pure (.error e, b)

/-! ## Files -/

/-- Reads a text into the schema and follows its includes. -/
def addText (lib : Library m) (dirs : List Path) (visit : Path → Build → m Result) (path : Path)
    (text : String) (b : Build) : m Result :=
  match b.schema.parse path.display text with
  | (schema, .error e) => pure (.error e, { b with schema := schema })
  | (schema, .ok head) =>
    let b : Build := { b with schema := schema }
    let b := b.note .debug ("Parsed " ++ path.display ++ " (" ++ toString head.includes.length
      ++ " includes, " ++ toString head.attributes.length ++ " attributes)")
    follow lib dirs visit path head.includes b

/-- Records a file and goes on with it, unless it is recorded already. -/
def once (lib : Library m) (path : Path) (b : Build) (body : Build → m Result) : m Result := do
  let key ← lib.key path
  if b.schema.hasFile key then
    pure (.ok (), b.note .debug ("Skipping " ++ path.display ++ " (already parsed)"))
  else body { b with schema := b.schema.markFile key }

/-- Reads a file and its includes, `depth` files deep. -/
def visit (lib : Library m) (dirs : List Path) : (depth : Nat) → Path → Build → m Result
  | 0, path, b => pure (.error (.includeDepth path.display), b)
  | depth + 1, path, b =>
    once lib path b fun b => do
      match ← lib.read path with
      | .ok text => addText lib dirs (visit lib dirs depth) path text b
      | .error e => pure (.error (.file e), b)

def addFile (lib : Library m) (options : Options) (path : Path) (b : Build) : m Result :=
  visit lib options.includeDirs lib.depth path b

/-- Reads a text that did not come from the library; `path` names it and anchors its includes. -/
def addSource (lib : Library m) (options : Options) (text : String) (path : Path) (b : Build) :
    m Result :=
  once lib path b fun b =>
    addText lib options.includeDirs (visit lib options.includeDirs lib.depth) path text b

/-- Reads files one after the other until one fails. -/
def addFiles (lib : Library m) (options : Options) : List Path → Build → m Result
  | [], b => pure (.ok (), b)
  | p :: ps, b => do
    match ← addFile lib options p b with
    | (.ok _, b) => addFiles lib options ps b
    | (.error e, b) => pure (.error e, b)

/-! ## Finishing -/

/-- Resolves what was read. -/
def finish (b : Build) : Result :=
  match b.schema.resolve with
  | (schema, some e) => (.error (.schema e), { b with schema := schema })
  | (schema, none) =>
    let b : Build := { b with schema := schema }
    (.ok (), b.note .info ("Resolved " ++ toString schema.files.length ++ " files into "
      ++ toString schema.namespaces.length ++ " namespaces"))

def compileFiles (lib : Library m) (options : Options) (paths : List Path) : m Result := do
  match ← addFiles lib options paths (start options) with
  | (.ok _, b) => pure b.finish
  | (.error e, b) => pure (.error e, b)

end Build

/-- Compiles one text, in which an include leads nowhere. -/
def compileText (text : String) : Except CompileError Schema :=
  let lib := Store.empty.library
  match Id.run (Build.addSource lib .default text ⟨"schema.fbs"⟩ (.start .default)) with
  | (.error e, _) => .error e
  | (.ok _, b) =>
    match b.finish with
    | (.error e, _) => .error e
    | (.ok _, b) => .ok b.schema

end FlatSchema
