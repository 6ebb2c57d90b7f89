import FlatSchema.Binary64.Rounding

/-!
# Number literals

A decimal number is an optional sign, digits with an optional point among them, and an optional
exponent; at least one digit stands before the exponent.  `Numeral.read?` takes the longest such
number at the front of a text.  Hexadecimal numbers are only recognised.
-/

namespace FlatSchema

def isHexDigit (c : Char) : Bool :=
  c.isDigit || ('a' ≤ c && c ≤ 'f') || ('A' ≤ c && c ≤ 'F')

def isSign (c : Char) : Bool :=
  c = '+' || c = '-'

/-- The sign at the front, if there is one, and the rest. -/
def splitSign : List Char → List Char × List Char
  | c :: cs => if isSign c then ([c], cs) else ([], c :: cs)
  | [] => ([], [])

/-- The number that decimal digits denote. -/
def digitsValue (ds : List Char) : Nat :=
  ds.foldl (fun n d => 10 * n + (d.toNat - '0'.toNat)) 0

/-- `exponent` has a mark, a sign and digits. -/
structure Numeral where
  sign : List Char
  whole : List Char
  fraction : Option (List Char)
  exponent : Option (Char × List Char × List Char)
  deriving DecidableEq, Repr

namespace Numeral

/-! ## Algorithm -/

def readExponent : List Char → Option (Char × List Char × List Char)
  | c :: cs =>
    if c = 'e' ∨ c = 'E' then
      let (sign, rest) := splitSign cs
      let digits := rest.takeWhile Char.isDigit
      if digits.isEmpty then none else some (c, sign, digits)
    else none
  | [] => none

def read? (cs : List Char) : Option Numeral :=
  let (sign, rest) := splitSign cs
  let whole := rest.takeWhile Char.isDigit
  match rest.dropWhile Char.isDigit with
  | '.' :: after =>
    let fraction := after.takeWhile Char.isDigit
    if whole.isEmpty ∧ fraction.isEmpty then none
    else some ⟨sign, whole, some fraction, readExponent (after.dropWhile Char.isDigit)⟩
  | after => if whole.isEmpty then none else some ⟨sign, whole, none, readExponent after⟩

def spelling (n : Numeral) : List Char :=
  n.sign ++ n.whole
    ++ (match n.fraction with | some ds => '.' :: ds | none => [])
    ++ (match n.exponent with | some (mark, sign, ds) => mark :: sign ++ ds | none => [])

def negative (n : Numeral) : Bool :=
  n.sign = ['-']

/-- A point or an exponent makes a number a float. -/
def isFloat (n : Numeral) : Bool :=
  n.fraction.isSome || n.exponent.isSome

/-- The integer that sign and whole part denote. -/
def integer (n : Numeral) : Int :=
  if n.negative then -(digitsValue n.whole : Int) else digitsValue n.whole

/-- The power of ten that the exponent denotes. -/
def power (n : Numeral) : Int :=
  match n.exponent with
  | some (_, sign, ds) => if sign = ['-'] then -(digitsValue ds : Int) else digitsValue ds
  | none => 0

def float (n : Numeral) : Binary64 :=
  let fraction := n.fraction.getD []
  Binary64.ofDecimal n.negative (digitsValue (n.whole ++ fraction)) (n.power - fraction.length)

end Numeral

/-- The 64-bit integer of this value, if there is one. -/
def int64? (n : Int) : Option Int64 :=
  if Int64.minValue.toInt ≤ n ∧ n ≤ Int64.maxValue.toInt then some (Int64.ofInt n) else none

/-! ## Hexadecimal numbers -/

/-- The text behind `0x` and an optional sign. -/
def hexBody? (cs : List Char) : Option (List Char) :=
  match (splitSign cs).2 with
  | '0' :: x :: rest => if x = 'x' ∨ x = 'X' then some rest else none
  | _ => none

def startsWithPower : List Char → Bool
  | c :: cs => (c = 'p' || c = 'P') && (splitSign cs).2.head?.any Char.isDigit
  | [] => false

/-- A hexadecimal float has digits, perhaps with a point, and a binary exponent. -/
def startsWithHexFloat (cs : List Char) : Bool :=
  match hexBody? cs with
  | some body =>
    let whole := body.takeWhile isHexDigit
    match body.dropWhile isHexDigit with
    | '.' :: after =>
      !(whole.isEmpty && (after.takeWhile isHexDigit).isEmpty)
        && startsWithPower (after.dropWhile isHexDigit)
    | after => !whole.isEmpty && startsWithPower after
  | none => false

def startsWithHexInteger (cs : List Char) : Bool :=
  (hexBody? cs).any fun body => body.head?.any isHexDigit

end FlatSchema
