import FlatSchema.Schema.Action

/-!
# What the grammar waits for

The grammar of a schema file has no nesting beyond metadata inside a body, so reading is a walk
through finitely many kinds of states, one token at a time:

    file      = ("include" STRING ";")* declaration*
    namespace = "namespace" ID ";"
    record    = ("table" | "struct") ID metadata? "{" (field ";")* "}"
    field     = ID ":" type ("=" scalar)? metadata?
    enum      = "enum" ID ":" type metadata? "{" value* "}"
    union     = "union" ID metadata? "{" value* "}"
    value     = ID ("=" INTEGER)? ","?
    setting   = ("root_type" ID | "file_extension" STRING | "file_identifier" STRING) ";"?
    attribute = "attribute" (STRING | ID) ";"
    type      = ID | "[" ID "]"
    scalar    = BOOLEAN | INTEGER | FLOAT | ID
    metadata  = "(" (ID (":" (STRING | BOOLEAN | INTEGER | FLOAT))? ","?)* ")"

A state remembers what has been read of the construct it stands in.
-/

namespace FlatSchema.Grammar

/-- What a body consists of. -/
inductive Body where
  | fields
  | values
  deriving DecidableEq, Repr

/-- A field up to its metadata. -/
structure Draft where
  name : String
  place : Position
  type : TypeName
  literal : Option Value
  deriving DecidableEq, Repr

def Draft.field (d : Draft) (metadata : Option Metadata) : Field :=
  .declare d.name d.type d.literal metadata

/-- What metadata is for: the type whose body follows, or a field. -/
inductive Bearer where
  | type (body : Body)
  | field (draft : Draft)
  deriving DecidableEq, Repr

inductive State where
  /-- The start of a declaration; `head` as long as includes may come. -/
  | declaration (head : Bool)
  | includePath
  | includeEnd (written : String)
  | namespaceName
  | namespaceEnd (name : String)
  | typeName (kind : Kind) (body : Body)
  | enumName
  | enumColon (name : String) (place : Position)
  | enumBase (name : String) (place : Position)
  | enumElement (name : String) (place : Position)
  | enumBracket (name : String) (place : Position) (base : String)
  | bodyOrMetadata (body : Body)
  | bodyOpen (body : Body)
  | inBody (body : Body)
  | fieldColon (name : String) (place : Position)
  | fieldType (name : String) (place : Position)
  | fieldElement (name : String) (place : Position)
  | fieldBracket (name : String) (place : Position) (element : String)
  | fieldRest (draft : Draft)
  | fieldLiteral (draft : Draft)
  | fieldMetadata (draft : Draft)
  | fieldEnd
  | valueRest (name : String) (place : Position)
  | valueNumber (name : String) (place : Position)
  | valueComma
  | metadataKey (bearer : Bearer) (metadata : Metadata)
  | metadataRest (bearer : Bearer) (metadata : Metadata) (key : String)
  | metadataValue (bearer : Bearer) (metadata : Metadata) (key : String)
  | metadataComma (bearer : Bearer) (metadata : Metadata)
  | rootTypeName
  | fileExtension
  | fileIdentifier
  | settingEnd
  | attributeName
  | attributeEnd (name : String)
  /-- The end of the text, where a declaration could start. -/
  | finished
  deriving DecidableEq, Repr

end FlatSchema.Grammar
