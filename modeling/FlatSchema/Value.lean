import FlatSchema.Binary64.Layout
import FlatSchema.Binary64.Rounding
import FlatSchema.Text.Quoted

/-!
# Literals and default values

A literal is kept as written until the schema is resolved.  An identifier stands for an enum value
by its name, and resolution puts that value's integer in its place.
-/

namespace FlatSchema

inductive Value where
  | null
  | bool (b : Bool)
  | integer (n : Int64)
  | float (x : Binary64)
  | string (s : String)
  | ident (name : String)
  deriving DecidableEq, Repr

namespace Value

def integer? : Value → Option Int64
  | integer n => some n
  | _ => none

/-- The text of a string or an identifier. -/
def text? : Value → Option String
  | string s => some s
  | ident s => some s
  | _ => none

def isNull : Value → Bool
  | null => true
  | _ => false

def boolText (b : Bool) : String :=
  if b then "true" else "false"

/-- Numbers in a script have no exponent, and a half goes up. -/
def scriptNumber : Binary64.Style where
  positional := fun _ => true
  keepPoint := false
  plus := false
  tie := .up
  nan := "NaN"
  infinity := "Infinity"
  negativeInfinity := "-Infinity"

/-- Numbers in a report are positional from `10 ^ -4` to below `10 ^ 16`. -/
def reportNumber : Binary64.Style where
  positional := fun e => -4 ≤ e ∧ e < 16
  keepPoint := true
  plus := false
  tie := .up
  nan := "NaN"
  infinity := "inf"
  negativeInfinity := "-inf"

/-- Numbers in a dump are positional from `10 ^ -5` to below `10 ^ 16`; a half goes to the even
digit, and what is not finite has no form of its own. -/
def dumpNumber : Binary64.Style where
  positional := fun e => -5 ≤ e ∧ e < 16
  keepPoint := true
  plus := true
  tie := .even
  nan := "null"
  infinity := "null"
  negativeInfinity := "null"

/-- The value as a script spells it. -/
def script : Value → String
  | null => "null"
  | bool b => boolText b
  | integer n => toString n.toInt
  | float x => scriptNumber.write x
  | string s => "'" ++ s ++ "'"
  | ident s => s

/-- The value as a report spells it. -/
def report : Value → String
  | null => "null"
  | bool b => boolText b
  | integer n => toString n.toInt
  | float x => reportNumber.write x
  | string s => Text.quoteDetail s
  | ident s => s

end Value

end FlatSchema
