import FlatSchema.Json
import FlatSchema.Schema.Basic

/-!
# The dump of a schema

A schema as JSON.  Types refer to each other by index; a member that is absent is `null`, and
metadata is left out where there is none.
-/

namespace FlatSchema

def TypeRef.json : TypeRef → Json
  | .unresolved w =>
    .object [("Unresolved", .object [("name", .string w.name), ("repeated", .bool w.repeated)])]
  | .primitive p => .object [("Primitive", .string p.name)]
  | .declared id => .object [("Declared", .nat id)]

/-- A key and its value. -/
def Metadata.entryJson (e : String × Option Value) : Json :=
  .array [.string e.1, .ofOption Value.json e.2]

def Metadata.json (m : Metadata) : Json :=
  .object [("entries", .array (m.entries.map entryJson))]

/-- The member for metadata, if there is any. -/
def Metadata.member : Option Metadata → List (String × Json)
  | some m => [("metadata", m.json)]
  | none => []

def ByteCount.json (n : ByteCount) : Json :=
  .nat n.toNat

def Field.json (f : Field) : Json :=
  .object ([("name", .string f.name), ("type", f.type.json), ("repeated", .bool f.repeated),
    ("default", .ofOption Value.json f.default), ("offset", .ofOption ByteCount.json f.offset)]
    ++ Metadata.member f.metadata)

def Entry.json (e : Entry) : Json :=
  .object [("name", .string e.name),
    ("value", .ofOption (fun n => .number (toString n.toInt)) e.value)]

def Kind.members : Kind → List (String × Json)
  | .enum base values default =>
    [("base", base.json), ("values", .array (values.map Entry.json)),
      ("default", .ofOption Value.json default)]
  | .union values => [("values", .array (values.map Entry.json))]
  | .table fields => [("fields", .array (fields.map Field.json))]
  | .struct fields size =>
    [("fields", .array (fields.map Field.json)), ("size", .ofOption ByteCount.json size)]

def TypeDecl.json (t : TypeDecl) : Json :=
  .object ([("name", .string t.name), ("namespace", .nat t.home)] ++ Metadata.member t.metadata
    ++ ("kind", .string t.kind.keyword) :: t.kind.members)

namespace Schema

def namespaceJson (s : Schema) (ns : NamespaceId) (n : Namespace) : Json :=
  .object [("name", .string n.name), ("children", .array ((s.children ns).map .nat)),
    ("root_type", .ofOption .string n.rootName)]

def json (s : Schema) : Json :=
  .object [("name", .string s.name),
    ("namespaces", .array (s.namespaces.mapIdx s.namespaceJson)),
    ("types", .array (s.types.map TypeDecl.json)),
    ("metadata", .object [("root_type", .ofOption .nat s.rootType),
      ("file_identifier", .ofOption .string s.fileIdentifier),
      ("file_extension", .ofOption .string s.fileExtension)]),
    ("attributes", .array (s.attributes.map .string)),
    ("files", .array (s.files.map .string))]

def dump (s : Schema) : String :=
  s.json.pretty 0

end Schema

end FlatSchema
