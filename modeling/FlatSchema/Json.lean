import FlatSchema.Text.Quoted
import FlatSchema.Value

/-!
# JSON texts

A number is kept as its text.  `pretty` writes each member of a bracketed value on its own line, two
spaces deeper than the value it belongs to; an empty one stays on its line.
-/

namespace FlatSchema

inductive Json where
  | null
  | bool (b : Bool)
  | number (text : String)
  | string (s : String)
  | array (items : List Json)
  | object (members : List (String × Json))

namespace Json

def nat (n : Nat) : Json :=
  number (toString n)

def ofOption {α : Type} (f : α → Json) : Option α → Json
  | none => null
  | some a => f a

def atomText : Json → String
  | null => "null"
  | bool b => if b then "true" else "false"
  | number t => t
  | string s => Text.quoteData s
  | _ => ""

def margin (depth : Nat) : String :=
  String.ofList (List.replicate (2 * depth) ' ')

/-- The parts of a bracketed value, each on its own line. -/
def spread (depth : Nat) (left right : String) (parts : List String) : String :=
  if parts.isEmpty then left ++ right
  else
    let lines := parts.map (margin (depth + 1) ++ ·)
    left ++ "\n" ++ String.intercalate ",\n" lines ++ "\n" ++ margin depth ++ right

mutual

def pretty (depth : Nat) : Json → String
  | array items => spread depth "[" "]" (prettyItems (depth + 1) items)
  | object members => spread depth "\x7b" "\x7d" (prettyMembers (depth + 1) members)
  | j => atomText j

def prettyItems (depth : Nat) : List Json → List String
  | [] => []
  | j :: js => pretty depth j :: prettyItems depth js

def prettyMembers (depth : Nat) : List (String × Json) → List String
  | [] => []
  | (k, j) :: ms => (Text.quoteData k ++ ": " ++ pretty depth j) :: prettyMembers depth ms

end

end Json

/-- Strings and identifiers are written alike. -/
def Value.json : Value → Json
  | .null => .null
  | .bool b => .bool b
  | .integer n => .number (toString n.toInt)
  | .float x => .number (Value.dumpNumber.write x)
  | .string s => .string s
  | .ident s => .string s

end FlatSchema
