import FlatSchema.Binary64.Basic

/-!
# Rounding to the nearest double

`ofRatio s a b` is the number nearest to `± a / b`, a half going to the even neighbour, and
infinity from the middle above the largest number upward.  With `q` the exponent of the last place,
the numbers around `a / b` are the multiples of `2 ^ q`, and the pattern of `n · 2 ^ q` is
`(q + 1074) · 2 ^ 52 + n`, where a carry out of the fraction lands in the exponent.
-/

namespace FlatSchema.Binary64

/-- The integer nearest to `a / b`, a half going to the even one. -/
def roundHalfEven (a b : Nat) : Nat :=
  let n := a / b
  let r := a % b
  if 2 * r < b then n else if b < 2 * r then n + 1 else n + n % 2

/-- The greatest `k` with `2 ^ k ≤ a / b`. -/
def floorLog2 (a b : Nat) : Int :=
  let k : Int := a.log2 - b.log2
  if b * power 2 k ≤ a * power 2 (-k) then k else k - 1

/-- The exponent of the last place of the numbers around `a / b`. -/
def lastPlace (a b : Nat) : Int :=
  max (-1074) (floorLog2 a b - 52)

def ofRatio (negative : Bool) (a b : Nat) : Binary64 :=
  if a = 0 then ofPattern negative 0
  else
    let q := lastPlace a b
    let n := roundHalfEven (a * power 2 (-q)) (b * power 2 q)
    ofPattern negative (min infinitePattern ((q + 1074).toNat * fractions + n))

/-- The number nearest to `± n · 10 ^ e`.  From `10 ^ 310` up that is infinity and below
`10 ^ -330` it is zero, whatever the digits. -/
def ofDecimal (negative : Bool) (n : Nat) (e : Int) : Binary64 :=
  let top : Int := (Nat.toDigits 10 n).length + e
  if n = 0 ∨ top < -330 then ofPattern negative 0
  else if 310 < top then ofPattern negative infinitePattern
  else ofRatio negative (n * power 10 e) (power 10 (-e))

example : ofDecimal false 15 (-1) = ⟨0x3ff8000000000000⟩ := by decide +kernel
example : ofDecimal true 1 400 = ⟨0xfff0000000000000⟩ := by decide +kernel
example : ofDecimal false 5 (-324) = ⟨1⟩ := by decide +kernel
example : ofDecimal false 1 (-1) = ⟨0x3fb999999999999a⟩ := by decide +kernel

end FlatSchema.Binary64
