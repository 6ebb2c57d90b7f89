/-!
# What can be wrong with a schema

The causes that registering and resolving declarations can fail with, and the sentence that
reports each.
-/

namespace FlatSchema

inductive SchemaError where
  | duplicateIdentifier (name : String)
  | unresolvedType (name : String)
  | unresolvedRootType (name : String)
  | unknownEnumValue (literal : String)
  | invalidStructField (struct field : String)
  | recursiveStruct (name : String)
  | enumValueOutOfRange (name : String)
  | nonIntegralEnum (name : String)
  | invalidFileIdentifier (text : String)
  deriving DecidableEq, Repr

namespace SchemaError

def message : SchemaError → String
  | duplicateIdentifier name => "Duplicate identifier '" ++ name ++ "'."
  | unresolvedType name => "Failed to resolve type '" ++ name ++ "'."
  | unresolvedRootType name => "Failed to resolve root type '" ++ name ++ "'."
  | unknownEnumValue literal => "Unknown enum value '" ++ literal ++ "'."
  | invalidStructField _ _ => "Structs may contain only scalar or struct fields."
  | recursiveStruct name => "Recursive nesting of struct '" ++ name ++ "' is not allowed."
  | enumValueOutOfRange name => "Enum value '" ++ name ++ "' is out of range."
  | nonIntegralEnum _ => "Underlying enum type must be integral."
  | invalidFileIdentifier _ => "'file_identifier' must be exactly 4 characters."

end SchemaError

end FlatSchema
