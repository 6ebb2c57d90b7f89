/-!
# Double precision numbers

A number is its 64 bits: a sign, eleven bits of exponent and 52 of fraction.  A finite number is
`± m · 2 ^ q`.  Two numbers are equal iff their bits are, so `0` and `-0` differ and a NaN equals
itself.
-/

namespace FlatSchema

structure Binary64 where
  bits : UInt64
  deriving DecidableEq, Repr

namespace Binary64

/-- What stands behind the sign; `finite m q` is the number `m · 2 ^ q`. -/
inductive Magnitude where
  | nan
  | infinite
  | finite (m : Nat) (q : Int)
  deriving DecidableEq, Repr

/-- The number of fractions, which is the place of the exponent. -/
def fractions : Nat := Nat.pow 2 52

/-- The place of the sign. -/
def signBit : Nat := Nat.pow 2 63

/-- `b ^ e`, and `1` below that: `n · b ^ e` is `n * power b e` over `power b (-e)`. -/
def power (b : Nat) (e : Int) : Nat := Nat.pow b e.toNat

def fraction (x : Binary64) : Nat :=
  x.bits.toNat % fractions

def exponent (x : Binary64) : Nat :=
  x.bits.toNat / fractions % 2048

def negative (x : Binary64) : Bool :=
  signBit ≤ x.bits.toNat

def magnitude (x : Binary64) : Magnitude :=
  if x.exponent = 2047 then
    if x.fraction = 0 then .infinite else .nan
  else if x.exponent = 0 then .finite x.fraction (-1074)
  else .finite (fractions + x.fraction) (x.exponent - 1075)

/-- The number with the given sign whose other bits are `pattern`. -/
def ofPattern (negative : Bool) (pattern : Nat) : Binary64 :=
  ⟨UInt64.ofNat (pattern + if negative then signBit else 0)⟩

/-- The pattern of infinity; finite numbers have smaller ones. -/
def infinitePattern : Nat :=
  2047 * fractions

def zero : Binary64 := ⟨0⟩

example : zero.magnitude = .finite 0 (-1074) := by decide
example : (ofPattern true infinitePattern).magnitude = .infinite := by decide

end Binary64

end FlatSchema
