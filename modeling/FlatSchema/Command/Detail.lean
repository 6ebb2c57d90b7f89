import FlatSchema.Error
import FlatSchema.Text.Quoted

/-!
# Detailed reports

A failure written out with all its parts: each construction spread over lines, its parts four
spaces deeper and a comma after each.
-/

namespace FlatSchema

inductive Detail where
  | word (text : String)
  | quoted (text : String)
  | tuple (name : String) (parts : List Detail)
  | record (name : String) (parts : List (String × Detail))

namespace Detail

def margin (depth : Nat) : String :=
  String.ofList (List.replicate (4 * depth) ' ')

mutual

def write (depth : Nat) : Detail → String
  | word text => text
  | quoted text => Text.quoteDetail text
  | tuple name parts =>
    name ++ "(\n" ++ writeParts (depth + 1) parts ++ margin depth ++ ")"
  | record name parts =>
    name ++ " \x7b\n" ++ writeFields (depth + 1) parts ++ margin depth ++ "\x7d"

def writeParts (depth : Nat) : List Detail → String
  | [] => ""
  | d :: ds => margin depth ++ write depth d ++ ",\n" ++ writeParts depth ds

def writeFields (depth : Nat) : List (String × Detail) → String
  | [] => ""
  | (name, d) :: ds =>
    margin depth ++ name ++ ": " ++ write depth d ++ ",\n" ++ writeFields depth ds

end

end Detail

/-! ## Failures -/

/-- The name of the cause in reports. -/
def SchemaError.label : SchemaError → String
  | duplicateIdentifier _ => "DuplicateIdentifier"
  | unresolvedType _ => "UnresolvedType"
  | unresolvedRootType _ => "UnresolvedRootType"
  | unknownEnumValue _ => "UnknownEnumValue"
  | invalidStructField _ _ => "InvalidStructField"
  | recursiveStruct _ => "RecursiveStruct"
  | enumValueOutOfRange _ => "EnumValueOutOfRange"
  | nonIntegralEnum _ => "NonIntegralEnum"
  | invalidFileIdentifier _ => "InvalidFileIdentifier"

/-- The texts that the cause carries. -/
def SchemaError.arguments : SchemaError → List String
  | duplicateIdentifier name => [name]
  | unresolvedType name => [name]
  | unresolvedRootType name => [name]
  | unknownEnumValue literal => [literal]
  | invalidStructField struct field => [struct, field]
  | recursiveStruct name => [name]
  | enumValueOutOfRange name => [name]
  | nonIntegralEnum name => [name]
  | invalidFileIdentifier text => [text]

def SchemaError.detail : SchemaError → Detail
  | invalidStructField struct field =>
    .record "InvalidStructField" [("structure", .quoted struct), ("field", .quoted field)]
  | e => .tuple e.label (e.arguments.map .quoted)

def Location.detail (l : Location) : Detail :=
  .record "Location" [("file", .quoted l.file), ("line", .word (toString l.position.line)),
    ("column", .word (toString l.position.column))]

def FileError.detail : FileError → Detail
  | .os e =>
    .record "Os" [("code", .word (toString e.code)), ("kind", .word e.kind),
      ("message", .quoted e.message)]
  | .nulInPath =>
    .record "Error" [("kind", .word "InvalidInput"),
      ("message", .quoted FileError.nulInPath.message)]
  | .invalidUtf8 =>
    .record "Error" [("kind", .word "InvalidData"),
      ("message", .quoted FileError.invalidUtf8.message)]
  | .notFound path =>
    .record "Custom" [("kind", .word "NotFound"),
      ("error", .quoted (FileError.notFound path).message)]

namespace CompileError

def label : CompileError → String
  | file _ => "Io"
  | parse _ _ => "Parse"
  | declaration _ _ => "Declaration"
  | schema _ => "Schema"
  | unsupported _ _ => "Unsupported"
  | includeNotFound _ => "IncludeNotFound"
  | includeDepth _ => "IncludeDepth"

def detail (e : CompileError) : Detail :=
  match e with
  | file cause => .tuple e.label [cause.detail]
  | parse fault location =>
    .record e.label [("msg", .quoted fault.message), ("location", location.detail)]
  | declaration cause location =>
    .record e.label [("source", cause.detail), ("location", location.detail)]
  | schema cause => .tuple e.label [cause.detail]
  | unsupported feature location =>
    .record e.label [("feature", .quoted feature.name), ("location", location.detail)]
  | includeNotFound written => .tuple e.label [.quoted written]
  | includeDepth path => .tuple e.label [.quoted path]

/-- The causes behind a failure, the nearest first. -/
def causes : CompileError → List String
  | file cause => [cause.message]
  | declaration cause _ => [cause.message]
  | _ => []

/-- What is printed for a failure: its message, or in full the details and the causes. -/
def report (full : Bool) (e : CompileError) : String :=
  if full then
    e.detail.write 0 ++ "\n" ++ String.join (e.causes.map fun c => "caused by: " ++ c ++ "\n")
  else e.message ++ "\n"

end CompileError

end FlatSchema
