import FlatSchema.Source.Location
import FlatSchema.Value

/-!
# Tokens

A lexeme carries what it means: a string its contents, a number its value.  Numbers keep their
spelling too, so that the text of a lexeme is exactly the part of the source it was read from.
-/

namespace FlatSchema

inductive Lexeme where
  | eof
  | id (name : String)
  | string (quote : Char) (contents : String)
  | boolean (b : Bool)
  | integer (spelling : String) (n : Int64)
  | float (spelling : String) (x : Binary64)
  | punct (c : Char)
  deriving DecidableEq, Repr

inductive TokenKind where
  | eof
  | id
  | string
  | boolean
  | integer
  | float
  | punct (c : Char)
  deriving DecidableEq, Repr

/-- The kind as error messages name it. -/
def TokenKind.name : TokenKind → String
  | eof => "eof"
  | id => "id"
  | string => "string"
  | boolean => "boolean"
  | integer => "integer"
  | float => "float"
  | punct c => c.toString

namespace Lexeme

def kind : Lexeme → TokenKind
  | eof => .eof
  | id _ => .id
  | string _ _ => .string
  | boolean _ => .boolean
  | integer _ _ => .integer
  | float _ _ => .float
  | punct c => .punct c

/-- The characters of the source that make up the lexeme. -/
def text : Lexeme → String
  | eof => ""
  | id name => name
  | string quote contents => quote.toString ++ contents ++ quote.toString
  | boolean b => Value.boolText b
  | integer spelling _ => spelling
  | float spelling _ => spelling
  | punct c => c.toString

/-- The value of a literal; identifiers and punctuation have none. -/
def value? : Lexeme → Option Value
  | string _ contents => some (.string contents)
  | boolean b => some (.bool b)
  | integer _ n => some (.integer n)
  | float _ x => some (.float x)
  | _ => none

/-- How an error message names the lexeme. -/
def describe : Lexeme → String
  | eof => "end of file"
  | l => l.text

end Lexeme

structure Token where
  lexeme : Lexeme
  position : Position
  deriving DecidableEq, Repr

end FlatSchema
