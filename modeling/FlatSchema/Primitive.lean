import FlatSchema.Value

/-!
# Primitive types

Twelve primitive types with a canonical name each, and for all but `bool` and `string` one alias.
Names are told apart by case.
-/

namespace FlatSchema

/-- A number of bytes, as a 64-bit word: what does not fit wraps around. -/
abbrev ByteCount := UInt64

inductive Primitive where
  | bool
  | int8
  | uint8
  | int16
  | uint16
  | int32
  | uint32
  | int64
  | uint64
  | float32
  | float64
  | string
  deriving DecidableEq, Repr

namespace Primitive

def all : List Primitive :=
  [bool, int8, uint8, int16, uint16, int32, uint32, int64, uint64, float32, float64, string]

def name : Primitive → String
  | bool => "bool"
  | int8 => "int8"
  | uint8 => "uint8"
  | int16 => "int16"
  | uint16 => "uint16"
  | int32 => "int32"
  | uint32 => "uint32"
  | int64 => "int64"
  | uint64 => "uint64"
  | float32 => "float32"
  | float64 => "float64"
  | string => "string"

def alias? : Primitive → Option String
  | bool => none
  | int8 => some "byte"
  | uint8 => some "ubyte"
  | int16 => some "short"
  | uint16 => some "ushort"
  | int32 => some "int"
  | uint32 => some "uint"
  | int64 => some "long"
  | uint64 => some "ulong"
  | float32 => some "float"
  | float64 => some "double"
  | string => none

/-- Every name that denotes the type. -/
def names (p : Primitive) : List String :=
  p.name :: p.alias?.toList

def ofName? (name : String) : Option Primitive :=
  all.find? fun p => name ∈ p.names

/-- Bytes taken in a struct; a string has no place there. -/
def size? : Primitive → Option ByteCount
  | bool => some 1
  | int8 => some 1
  | uint8 => some 1
  | int16 => some 2
  | uint16 => some 2
  | int32 => some 4
  | uint32 => some 4
  | int64 => some 8
  | uint64 => some 8
  | float32 => some 4
  | float64 => some 4
  | string => none

/-- The default of a field with no literal. -/
def default : Primitive → Value
  | bool => .bool false
  | float32 => .float .zero
  | float64 => .float .zero
  | string => .null
  | _ => .integer 0

def isIntegral : Primitive → Bool
  | bool => false
  | float32 => false
  | float64 => false
  | string => false
  | _ => true

def isScalar (p : Primitive) : Bool :=
  p.size?.isSome

/-- 64-bit integers, for which scripts have no accessor. -/
def isWide : Primitive → Bool
  | int64 => true
  | uint64 => true
  | _ => false

theorem mem_all (p : Primitive) : p ∈ all := by
  cases p <;> decide

/-- No name denotes two types, so `ofName?` finds the type of each of its names. -/
theorem ofName?_of_mem_names (p : Primitive) (n : String) (h : n ∈ p.names) :
    ofName? n = some p := by
  have distinct : ∀ p ∈ all, ∀ n ∈ p.names, ofName? n = some p := by decide
  exact distinct p (mem_all p) n h

theorem mem_names_of_ofName? {p : Primitive} {n : String} (h : ofName? n = some p) :
    n ∈ p.names := by
  simpa using List.find?_some h

end Primitive

end FlatSchema
