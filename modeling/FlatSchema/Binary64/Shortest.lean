import FlatSchema.Binary64.Basic

/-!
# The fewest digits that read back

Every decimal strictly between the middles to the two neighbours of `m · 2 ^ q` rounds to it, and
the middles do too if `m` is even.  `shortest` looks at the grids `10 ^ g` from coarse to fine
and takes the first that has a point there: of the two grid points around the number the nearer.
Only where both are equally near does the caller's `Tie` decide.
-/

namespace FlatSchema.Binary64

/-- `digits · 10 ^ exponent`. -/
structure Decimal where
  digits : Nat
  exponent : Int
  deriving DecidableEq, Repr

/-- Which of two equally near decimals is taken: the larger, or the one with the even last digit. -/
inductive Tie where
  | up
  | even
  deriving DecidableEq, Repr

/-! ## Algorithm -/

/-- The greatest `k` with `10 ^ k ≤ a / b`. -/
def floorLog10 (a b : Nat) : Int :=
  let k : Int := (Nat.toDigits 10 a).length - (Nat.toDigits 10 b).length
  if b * power 10 k ≤ a * power 10 (-k) then k else k - 1

/-- The position of the leading digit of `m · 2 ^ q`. -/
def leading (m : Nat) (q : Int) : Int :=
  floorLog10 (m * power 2 q) (power 2 (-q))

/-- The middle to the neighbour below, as a multiple of `2 ^ (q - 2)`.  Below a power of two the
neighbour is only half as far. -/
def lowerMiddle (m : Nat) (q : Int) : Nat :=
  if m = fractions ∧ -1074 < q then 4 * m - 1 else 4 * m - 2

/-- The middle to the neighbour above, as a multiple of `2 ^ (q - 2)`. -/
def upperMiddle (m : Nat) : Nat :=
  4 * m + 2

/-- The nearest point of the grid `10 ^ g` if it reads back as `m · 2 ^ q`.  A point `d` stands for
`d * w` and a multiple `n` of `2 ^ (q - 2)` for `n * v`, in one common unit. -/
def onGrid (tie : Tie) (m : Nat) (q g : Int) : Option Nat :=
  let s := q - 2
  let w := power 10 g * power 2 (-s)
  let v := power 2 s * power 10 (-g)
  let low := 4 * m * v / w
  let readsBack (d : Nat) : Bool :=
    if m % 2 = 0 then lowerMiddle m q * v ≤ d * w ∧ d * w ≤ upperMiddle m * v
    else lowerMiddle m q * v < d * w ∧ d * w < upperMiddle m * v
  let below := 4 * m * v - low * w
  let above := (low + 1) * w - 4 * m * v
  let nearer :=
    if below < above then low
    else if above < below then low + 1
    else match tie with
      | .up => low + 1
      | .even => low + low % 2
  let further := if nearer = low then low + 1 else low
  if readsBack nearer then some nearer
  else if readsBack further then some further
  else none

/-- Seventeen digits always suffice. -/
def shortest (tie : Tie) (m : Nat) (q : Int) : Decimal :=
  let p := leading m q
  let found := (List.range 17).findSome? fun n : Nat =>
    (onGrid tie m q (p - n)).map fun d => (⟨d, p - n⟩ : Decimal)
  match found with
  | some d => if d.digits % 10 = 0 then ⟨d.digits / 10, d.exponent + 1⟩ else d
  | none => ⟨m * power 2 q, 0⟩

example : shortest .up fractions (-77) = ⟨29802322387695313, -24⟩ := by decide +kernel
example : shortest .even fractions (-77) = ⟨29802322387695312, -24⟩ := by decide +kernel
example : shortest .up 1 (-1074) = ⟨5, -324⟩ := by decide +kernel
example : shortest .up 0x1999999999999a (-56) = ⟨1, -1⟩ := by decide +kernel

end FlatSchema.Binary64
