/-!
# Places in source texts

Lines and columns count from one, columns in characters.
-/

namespace FlatSchema

structure Position where
  line : Nat
  column : Nat
  deriving DecidableEq, Repr

structure Location where
  file : String
  position : Position
  deriving DecidableEq, Repr

def Location.text (l : Location) : String :=
  l.file ++ ":" ++ toString l.position.line ++ ":" ++ toString l.position.column

end FlatSchema
