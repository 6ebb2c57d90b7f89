import FlatSchema.Schema.Basic
import FlatSchema.Script.Line
import FlatSchema.Text.Split

/-!
# Accessor scripts

The script of a schema defines a class for every table and struct, with a getter for each field,
and an object for every enum.  Namespaces become nested objects, made before their first use.  A
getter throws where the reader has no call for the field's type.
-/

namespace FlatSchema

/-- How a field is read from a buffer. -/
inductive Access where
  | scalar (p : Primitive)
  | table (id : TypeId)
  | struct (id : TypeId) (size : ByteCount)
  | unsupported
  deriving DecidableEq, Repr

/-- The typed array that views a vector of `p`. -/
def Primitive.typedArray? : Primitive → Option String
  | .int8 => some "Int8Array"
  | .uint8 => some "Uint8Array"
  | .int16 => some "Int16Array"
  | .uint16 => some "Uint16Array"
  | .int32 => some "Int32Array"
  | .uint32 => some "Uint32Array"
  | .float32 => some "Float32Array"
  | .float64 => some "Float64Array"
  | _ => none

/-- The offset as it is written in a getter; a field without one is read at the start. -/
def Field.offsetText (f : Field) : String :=
  toString (f.offset.getD 0).toNat

namespace Schema

/-! ## Getters -/

/-- An enum is read as its base. -/
def access (s : Schema) (f : Field) : Access :=
  match f.type with
  | .primitive p => .scalar p
  | .declared id =>
    match s.kind? id with
    | some (.enum (.primitive p) _ _) => .scalar p
    | some (.table _) => .table id
    | some (.struct _ size) => .struct id (size.getD 0)
    | _ => .unsupported
  | .unresolved _ => .unsupported

def classPath (s : Schema) (id : TypeId) : String :=
  "$root." ++ s.qualifiedName id

def unsupported (f : Field) : Script :=
  [.top ("throw new Error(\"'" ++ f.name ++ "' is not supported.\");")]

/-- Looks up the slot of a field, which is zero where the buffer leaves it out. -/
def readSlot (f : Field) : Line :=
  .top ("const offset = this._reader.offset(this._offset, " ++ f.offsetText ++ ");")

/-- Collects the elements of a vector one by one. -/
def vectorLoop (element : String) : Script :=
  [.top "const length = offset ? this._reader.length(this._offset + offset) : 0;",
    .top "const vector = [];"]
    ++ Script.block "for (let i = 0; i < length; i++)"
      [.top ("vector.push(new " ++ element ++ ");")] ""
    ++ [.top "return vector;"]

def vectorGetter (s : Schema) (f : Field) : Script :=
  match s.access f with
  | .scalar p =>
    match p.typedArray? with
    | some array =>
      [readSlot f, .top ("return offset ? new " ++ array ++ "(this._reader.buffer.buffer, "
        ++ "this._reader.buffer.byteOffset + this._reader.vector(this._offset + offset), "
        ++ "this._reader.length(this._offset + offset)) : null;")]
    | none => unsupported f
  | .table id =>
    readSlot f :: vectorLoop (s.classPath id ++ "(this._reader, "
      ++ "this._reader.indirect(this._reader.vector(this._offset + offset) + i * 4))")
  | .struct id size =>
    readSlot f :: vectorLoop (s.classPath id ++ "(this._reader, "
      ++ "this._reader.vector(this._offset + offset) + i * " ++ toString size.toNat ++ ")")
  | .unsupported => unsupported f

def singleGetter (s : Schema) (f : Field) : Script :=
  match s.access f with
  | .scalar p =>
    if p.isWide then unsupported f
    else
      [readSlot f, .top ("return offset ? this._reader." ++ p.name ++ "(this._offset + offset) : "
        ++ (f.default.map Value.script).getD "null" ++ ";")]
  | .table id =>
    [readSlot f, .top ("return offset ? new " ++ s.classPath id
      ++ "(this._reader, this._reader.indirect(this._offset + offset)) : null;")]
  | .struct id _ =>
    [readSlot f, .top ("return offset ? new " ++ s.classPath id
      ++ "(this._reader, this._offset + offset) : null;")]
  | .unsupported => unsupported f

def tableGetter (s : Schema) (f : Field) : Script :=
  if f.repeated then s.vectorGetter f else s.singleGetter f

def structGetter (s : Schema) (f : Field) : Script :=
  match s.access f with
  | .scalar p =>
    if p.isWide then unsupported f
    else [.top ("return this._reader." ++ p.name ++ "(this._offset + " ++ f.offsetText ++ ");")]
  | .struct id _ =>
    [.top ("return new " ++ s.classPath id ++ "(this._reader, this._offset + " ++ f.offsetText
      ++ ");")]
  | _ => unsupported f

/-! ## Definitions -/

/-- A member of a class, after an empty line. -/
def member (head : String) (body : Script) : Script :=
  .blank :: Script.block head body ""

def constructorMember : Script :=
  member "constructor(reader, offset)"
    [.top "this._reader = reader;", .top "this._offset = offset;"]

def getter (body : Field → Script) (f : Field) : Script :=
  member ("get " ++ f.name ++ "()") (body f)

/-- The root table can be created from a reader, and tests for the file identifier. -/
def rootMembers (s : Schema) (id : TypeId) : Script :=
  if s.rootType = some id then
    member "static create(reader)"
      [.top ("return new " ++ s.classPath id
        ++ "(reader, reader.int32(reader.position) + reader.position);")]
      ++ match s.fileIdentifier with
        | some text =>
          member "static identifier(reader)" [.top ("return reader.identifier('" ++ text ++ "');")]
        | none => []
  else []

def classBlock (s : Schema) (id : TypeId) (name : String) (members : Script) : Script :=
  Script.block (s.classPath id ++ " = class " ++ name) (constructorMember ++ members) ";"

def entryText (e : Entry) : String :=
  e.name ++ ": " ++ (e.value.map fun n => toString n.toInt).getD "undefined"

/-- One line for each entry, with a comma on all but the last. -/
def entryLines : List Entry → Script
  | [] => []
  | [e] => [.top (entryText e)]
  | e :: e' :: es => .top (entryText e ++ ",") :: entryLines (e' :: es)

/-- Unions are not part of a script. -/
def definition (s : Schema) (id : TypeId) (t : TypeDecl) : Script :=
  match t.kind with
  | .table fields =>
    .blank :: s.classBlock id t.name
      (s.rootMembers id ++ fields.flatMap (getter s.tableGetter))
  | .struct fields _ =>
    .blank :: s.classBlock id t.name (fields.flatMap (getter s.structGetter))
  | .enum _ values _ =>
    .blank :: Script.block (s.classPath id ++ " =") (entryLines values) ";"
  | .union _ => []

/-! ## Namespaces -/

/-- The paths of the objects that a namespace is made of, the outermost first. -/
def objectPaths (name : String) : List String :=
  (Text.pieces '.' name).foldl
    (fun (paths, path) piece =>
      let path := if path = "" then piece else path ++ "." ++ piece
      (paths ++ [path], path))
    (([] : List String), "")
    |>.1

def objectLine (path : String) : Line :=
  .top ("$root." ++ path ++ " = $root." ++ path ++ " || \x7b\x7d;")

/-- The paths not made yet, each once. -/
def newPaths : List String → List String → List String
  | _, [] => []
  | made, p :: ps => if p ∈ made then newPaths made ps else p :: newPaths (p :: made) ps

def typesOf (s : Schema) (ns : NamespaceId) : Script :=
  (s.children ns).flatMap fun id =>
    match s.types[id]? with
    | some t => s.definition id t
    | none => []

/-- The namespaces from index `ns` on, where the objects at `made` exist already. -/
def namespaceLines (s : Schema) (made : List String) (ns : NamespaceId) :
    List Namespace → Script
  | [] => []
  | n :: rest =>
    if n.name = "" then s.typesOf ns ++ s.namespaceLines made (ns + 1) rest
    else
      let new := newPaths made (objectPaths n.name)
      .blank :: new.map objectLine ++ s.typesOf ns
        ++ s.namespaceLines (made ++ new) (ns + 1) rest

def script (s : Schema) : Script :=
  .top ("const $root = flatbuffers.get('" ++ s.name ++ "');")
    :: s.namespaceLines [] 0 s.namespaces

end Schema

end FlatSchema
