import FlatSchema.Error
import FlatSchema.Schema.Registry

/-!
# What a file does to a schema

Reading a file yields actions, in the order of the text.  Each one is carried out whole or fails
and changes nothing; the first that fails ends the file.  Fields, values and metadata belong to the
type declared last.
-/

namespace FlatSchema

inductive Action where
  | includeFile (written : String)
  | enterNamespace (name : String)
  | declareType (name : String) (kind : Kind) (position : Position)
  | declareEnum (name : String) (base : TypeName) (position : Position)
  | attachMetadata (metadata : Metadata)
  | addField (field : Field) (position : Position)
  | addValue (entry : Entry) (position : Position)
  | setRootType (name : String)
  | setFileExtension (text : String)
  | setFileIdentifier (text : String) (position : Position)
  | addAttribute (name : String)
  deriving DecidableEq, Repr

/-- What a file says besides its declarations. -/
structure FileHead where
  includes : List String
  attributes : List String
  deriving DecidableEq, Repr

/-- A schema while a file is read into it: the namespace in force and the type declared last. -/
structure Session where
  schema : Schema
  space : NamespaceId
  owner : TypeId
  head : FileHead
  deriving DecidableEq, Repr

namespace Session

/-- A file starts in the default namespace, which every file defines. -/
def start (s : Schema) : Session :=
  let (space, schema) := s.defineNamespace ""
  ⟨schema, space, 0, ⟨[], []⟩⟩

/-- A refused declaration, and where it stands. -/
abbrev Refusal := SchemaError × Position

def declare (s : Session) (name : String) (kind : Kind) (place : Position) :
    Except Refusal Session :=
  match s.schema.addType s.space name kind with
  | .ok (id, schema) => .ok { s with schema := schema, owner := id }
  | .error e => .error (e, place)

def update (s : Session) (place : Position) : Except SchemaError Schema → Except Refusal Session
  | .ok schema => .ok { s with schema := schema }
  | .error e => .error (e, place)

/-- The base of an enum is not written as a vector. -/
def perform (s : Session) : Action → Except Refusal Session
  | .includeFile written => .ok { s with head.includes := s.head.includes ++ [written] }
  | .enterNamespace name =>
    let (space, schema) := s.schema.defineNamespace name
    .ok { s with schema := schema, space := space }
  | .declareType name kind p => s.declare name kind p
  | .declareEnum name base p =>
    if base.repeated then .error (.nonIntegralEnum name, p)
    else s.declare name (.newEnum base) p
  | .attachMetadata m => .ok { s with schema := s.schema.setMetadata s.owner (some m) }
  | .addField f p => s.update p (s.schema.addField s.owner f)
  | .addValue e p => s.update p (s.schema.addValue s.owner e)
  | .setRootType name => .ok { s with schema := s.schema.setRootName s.space name }
  | .setFileExtension text => .ok { s with schema := s.schema.setFileExtension text }
  | .setFileIdentifier text p => s.update p (s.schema.setFileIdentifier text)
  | .addAttribute name =>
    .ok { s with
      schema := s.schema.addAttribute name
      head.attributes := s.head.attributes ++ [name] }

/-- Carries out actions until one is refused. -/
def performAll (s : Session) : List Action → Session × Option Refusal
  | [] => (s, none)
  | a :: as =>
    match s.perform a with
    | .ok s' => s'.performAll as
    | .error e => (s, some e)

end Session

end FlatSchema
