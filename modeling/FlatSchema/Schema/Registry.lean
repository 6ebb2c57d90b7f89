import FlatSchema.Schema.Basic
import FlatSchema.Schema.Error

/-!
# Registering declarations

Each operation either adds to the schema or fails and leaves it as it was.  Names are unique among
the types of a namespace, the fields of a type and the values of a type.
-/

namespace FlatSchema

namespace Kind

def addField (owner : String) (k : Kind) (f : Field) : Except SchemaError Kind :=
  if k.isTable ∨ k.isStruct then
    if k.fields.any (·.name = f.name) then .error (.duplicateIdentifier f.name)
    else .ok (k.mapFields (· ++ [f]))
  else .error (.invalidStructField owner f.name)

/-- Tables and structs have no values, and report any as a duplicate. -/
def addValue (k : Kind) (e : Entry) : Except SchemaError Kind :=
  if k.isEnum ∨ k.isUnion then
    if k.values.any (·.name = e.name) then .error (.duplicateIdentifier e.name)
    else .ok (k.mapValues (· ++ [e]))
  else .error (.duplicateIdentifier e.name)

variable {k k' : Kind}

theorem addField_eq_ok_iff {owner : String} {f : Field} :
    k.addField owner f = .ok k' ↔
      (k.isTable ∨ k.isStruct) ∧ f.name ∉ k.fields.map (·.name) ∧ k' = k.mapFields (· ++ [f]) := by
  unfold addField
  split
  · next hk =>
    split
    · next hold => exact iff_of_false nofun fun h => h.2.1 (by simpa using hold)
    · next hnew =>
      rw [Except.ok.injEq, eq_comm]
      exact ⟨fun h => ⟨hk, by simpa using hnew, h⟩, fun h => h.2.2⟩
  · next hk => exact iff_of_false nofun fun h => hk h.1

theorem addValue_eq_ok_iff {e : Entry} :
    k.addValue e = .ok k' ↔
      (k.isEnum ∨ k.isUnion) ∧ e.name ∉ k.values.map (·.name) ∧ k' = k.mapValues (· ++ [e]) := by
  unfold addValue
  split
  · next hk =>
    split
    · next hold => exact iff_of_false nofun fun h => h.2.1 (by simpa using hold)
    · next hnew =>
      rw [Except.ok.injEq, eq_comm]
      exact ⟨fun h => ⟨hk, by simpa using hnew, h⟩, fun h => h.2.2⟩
  · next hk => exact iff_of_false nofun fun h => hk h.1

end Kind

namespace Schema

/-- The namespace called `name`, created at the first use of the name. -/
def defineNamespace (s : Schema) (name : String) : NamespaceId × Schema :=
  match s.namespaceId? name with
  | some ns => (ns, s)
  | none =>
    (s.namespaces.length,
      { s with
        namespaces := s.namespaces ++ [.new name]
        namespaceIds := s.namespaceIds.insert name s.namespaces.length })

/-- The schema with a type more, listed in its namespace. -/
def declare (s : Schema) (t : TypeDecl) : Schema :=
  { s with
    namespaces := s.namespaces.modify t.home (·.list t.name s.types.length)
    types := s.types ++ [t] }

def addType (s : Schema) (ns : NamespaceId) (name : String) (kind : Kind) :
    Except SchemaError (TypeId × Schema) :=
  if (s.child? ns name).isSome then .error (.duplicateIdentifier name)
  else .ok (s.types.length, s.declare ⟨name, ns, none, kind⟩)

def addField (s : Schema) (id : TypeId) (f : Field) : Except SchemaError Schema :=
  match s.types[id]? with
  | some t => (t.kind.addField t.name f).map fun k => s.updateType id (·.mapKind fun _ => k)
  | none => .ok s

def addValue (s : Schema) (id : TypeId) (e : Entry) : Except SchemaError Schema :=
  match s.types[id]? with
  | some t => (t.kind.addValue e).map fun k => s.updateType id (·.mapKind fun _ => k)
  | none => .ok s

def setMetadata (s : Schema) (id : TypeId) (m : Option Metadata) : Schema :=
  s.updateType id fun t => { t with metadata := m }

def setRootName (s : Schema) (ns : NamespaceId) (name : String) : Schema :=
  { s with namespaces := s.namespaces.modify ns fun n => { n with rootName := some name } }

/-- A file identifier has four characters. -/
def setFileIdentifier (s : Schema) (text : String) : Except SchemaError Schema :=
  if text.length = 4 then .ok { s with fileIdentifier := some text }
  else .error (.invalidFileIdentifier text)

def setFileExtension (s : Schema) (text : String) : Schema :=
  { s with fileExtension := some text }

def addAttribute (s : Schema) (name : String) : Schema :=
  { s with attributes := s.attributes ++ [name] }

def hasFile (s : Schema) (key : String) : Bool :=
  s.seenFiles.contains key

/-- Records a file as visited. -/
def markFile (s : Schema) (key : String) : Schema :=
  if s.hasFile key then s
  else { s with files := s.files ++ [key], seenFiles := s.seenFiles.insert key () }

end Schema

end FlatSchema
