import FlatSchema.Metadata
import FlatSchema.Primitive
import FlatSchema.Schema.NameMap

/-!
# Schemas

A schema holds its namespaces and its types in the order in which they were declared, and refers
to both by index.  A type names its namespace, and the namespace lists its types, in order and by name;
the names of namespaces and the files that were read are kept twice in the same way.  Each operation
updates both sides (`Schema.Registry`).  A type reference is a written name until resolution replaces it.
-/

namespace FlatSchema

abbrev NamespaceId := Nat

abbrev TypeId := Nat

/-- A type as written: `Name`, or `[Name]` for a vector. -/
structure TypeName where
  name : String
  repeated : Bool
  deriving DecidableEq, Repr

inductive TypeRef where
  | unresolved (written : TypeName)
  | primitive (p : Primitive)
  | declared (id : TypeId)
  deriving DecidableEq, Repr

namespace TypeRef

def isResolved : TypeRef → Bool
  | unresolved _ => false
  | _ => true

def primitive? : TypeRef → Option Primitive
  | primitive p => some p
  | _ => none

def declared? : TypeRef → Option TypeId
  | declared id => some id
  | _ => none

end TypeRef

/-- `offset` is the slot of a table field and the byte offset of a struct field. -/
structure Field where
  name : String
  type : TypeRef
  repeated : Bool
  default : Option Value
  offset : Option ByteCount
  metadata : Option Metadata
  deriving DecidableEq, Repr

/-- A field as declared, before resolution. -/
def Field.declare (name : String) (written : TypeName) (literal : Option Value)
    (metadata : Option Metadata) : Field where
  name := name
  type := .unresolved written
  repeated := written.repeated
  default := literal
  offset := none
  metadata := metadata

/-- One `name = value` of an enum or union; the value may be left out. -/
structure Entry where
  name : String
  value : Option Int64
  deriving DecidableEq, Repr

inductive Kind where
  | enum (base : TypeRef) (values : List Entry) (default : Option Value)
  | union (values : List Entry)
  | table (fields : List Field)
  | struct (fields : List Field) (size : Option ByteCount)
  deriving DecidableEq, Repr

namespace Kind

def newEnum (base : TypeName) : Kind :=
  enum (.unresolved base) [] none

def newUnion : Kind :=
  union []

def newTable : Kind :=
  table []

def newStruct : Kind :=
  struct [] none

def keyword : Kind → String
  | enum .. => "enum"
  | union .. => "union"
  | table .. => "table"
  | struct .. => "struct"

/-- The fields of a table or struct. -/
def fields : Kind → List Field
  | table fields => fields
  | struct fields _ => fields
  | _ => []

/-- The entries of an enum or union. -/
def values : Kind → List Entry
  | enum _ values _ => values
  | union values => values
  | _ => []

/-- The value of the entry called `name`, once it has one. -/
def value? (k : Kind) (name : String) : Option Int64 :=
  (k.values.find? (·.name = name)).bind (·.value)

def size? : Kind → Option ByteCount
  | struct _ size => size
  | _ => none

def isEnum : Kind → Bool
  | enum .. => true
  | _ => false

def isUnion : Kind → Bool
  | union .. => true
  | _ => false

def isTable : Kind → Bool
  | table .. => true
  | _ => false

def isStruct : Kind → Bool
  | struct .. => true
  | _ => false

/-- The primitive that a resolved enum is stored as. -/
def base? : Kind → Option Primitive
  | enum base _ _ => base.primitive?
  | _ => none

def enumDefault : Kind → Option Value
  | enum _ _ default => default
  | _ => none

def mapFields (f : List Field → List Field) : Kind → Kind
  | table fields => table (f fields)
  | struct fields size => struct (f fields) size
  | k => k

def mapValues (f : List Entry → List Entry) : Kind → Kind
  | enum base values default => enum base (f values) default
  | union values => union (f values)
  | k => k

end Kind

structure TypeDecl where
  name : String
  home : NamespaceId
  metadata : Option Metadata
  kind : Kind
  deriving DecidableEq, Repr

namespace TypeDecl

def fields (t : TypeDecl) : List Field :=
  t.kind.fields

def field? (t : TypeDecl) (name : String) : Option Field :=
  t.fields.find? (·.name = name)

def mapKind (f : Kind → Kind) (t : TypeDecl) : TypeDecl :=
  { t with kind := f t.kind }

end TypeDecl

/-- The types of a namespace stand in `children` in order of declaration and in `byName` under their
names.  `rootName` is the `root_type` last declared in the namespace. -/
structure Namespace where
  name : String
  children : List TypeId
  byName : NameMap TypeId
  rootName : Option String
  deriving DecidableEq, Repr

namespace Namespace

def new (name : String) : Namespace where
  name := name
  children := []
  byName := .empty
  rootName := none

/-- Lists a type in the namespace. -/
def list (n : Namespace) (name : String) (id : TypeId) : Namespace :=
  { n with children := n.children ++ [id], byName := n.byName.insert name id }

end Namespace

/-- `namespaceIds` finds a namespace by its name, and `seenFiles` has the names in `files`. -/
structure Schema where
  name : String
  namespaces : List Namespace
  namespaceIds : NameMap NamespaceId
  types : List TypeDecl
  rootType : Option TypeId
  fileIdentifier : Option String
  fileExtension : Option String
  attributes : List String
  files : List String
  seenFiles : NameMap Unit
  deriving DecidableEq, Repr

namespace Schema

def empty (name : String) : Schema where
  name := name
  namespaces := []
  namespaceIds := .empty
  types := []
  rootType := none
  fileIdentifier := none
  fileExtension := none
  attributes := []
  files := []
  seenFiles := .empty

def kind? (s : Schema) (id : TypeId) : Option Kind :=
  s.types[id]?.map (·.kind)

/-- The ids of the types declared in a namespace, in order of declaration. -/
def children (s : Schema) (ns : NamespaceId) : List TypeId :=
  (s.namespaces[ns]?.map (·.children)).getD []

def namespaceId? (s : Schema) (name : String) : Option NamespaceId :=
  s.namespaceIds.get? name

def namespaceName (s : Schema) (ns : NamespaceId) : String :=
  (s.namespaces[ns]?.map (·.name)).getD ""

/-- The type called `name` in a namespace. -/
def child? (s : Schema) (ns : NamespaceId) (name : String) : Option TypeId :=
  s.namespaces[ns]?.bind (·.byName.get? name)

/-- `namespace.Name`, or the bare name in the default namespace. -/
def qualify (space name : String) : String :=
  if space = "" then name else space ++ "." ++ name

def qualifiedName (s : Schema) (id : TypeId) : String :=
  match s.types[id]? with
  | some t => qualify (s.namespaceName t.home) t.name
  | none => ""

def updateType (s : Schema) (id : TypeId) (f : TypeDecl → TypeDecl) : Schema :=
  { s with types := s.types.modify id f }

def updateField (s : Schema) (id : TypeId) (i : Nat) (f : Field → Field) : Schema :=
  s.updateType id (·.mapKind (·.mapFields (·.modify i f)))

end Schema

end FlatSchema
