import FlatSchema.Source.Token

/-!
# What can be wrong with a text

A text is at fault at one place: with a character or number that is no token, with a token that the
grammar does not allow there, or with a construct that is recognised and not supported.
-/

namespace FlatSchema

inductive ParseFault where
  | unknownCharacter (c : Char)
  | invalidInteger (spelling : String)
  | insteadOf (found wanted : String)
  | expected (what found : String)
  | unexpected (text : String)
  | other (message : String)
  deriving DecidableEq, Repr

namespace ParseFault

def message : ParseFault → String
  | unknownCharacter c => "Unknown character '" ++ c.toString ++ "'"
  | invalidInteger spelling => "Invalid integer '" ++ spelling ++ "'"
  | insteadOf found wanted => "Unexpected '" ++ found ++ "' instead of '" ++ wanted ++ "'"
  | expected what found => "Expected " ++ what ++ " instead of '" ++ found ++ "'"
  | unexpected text => "Unexpected token '" ++ text ++ "'"
  | other message => message

end ParseFault

/-- Constructs that are recognised only to be refused. -/
inductive Feature where
  | blockComment
  | hexFloat
  | hexInteger
  deriving DecidableEq, Repr

def Feature.name : Feature → String
  | blockComment => "Block comments"
  | hexFloat => "Hexadecimal float literals"
  | hexInteger => "Hexadecimal integer literals"

/-- Why a text has no token at a place. -/
inductive ScanFault where
  | parse (fault : ParseFault)
  | unsupported (feature : Feature)
  deriving DecidableEq, Repr

end FlatSchema
