import FlatSchema.Schema.Basic

/-!
# Numbering enum values

An entry without a value takes the value after the one before it, the first takes zero.  Nothing
comes after the largest 64-bit integer: an entry that would need it stops the numbering, and keeps
itself and all after it as they were.
-/

namespace FlatSchema

/-! ## Algorithm -/

/-- The integer after `n`, if there is one. -/
def successor? (n : Int64) : Option Int64 :=
  if n = Int64.maxValue then none else some (n + 1)

/-- Numbers the entries from `next` on; the name is that of the entry that could not be numbered. -/
def numberFrom (next : Option Int64) : List Entry → List Entry × Option String
  | [] => ([], none)
  | e :: es =>
    match e.value, next with
    | some v, _ =>
      let (rest, stop) := numberFrom (successor? v) es
      (e :: rest, stop)
    | none, some v =>
      let (rest, stop) := numberFrom (successor? v) es
      ({ e with value := some v } :: rest, stop)
    | none, none => (e :: es, some e.name)

def numberValues (es : List Entry) : List Entry × Option String :=
  numberFrom (some 0) es

/-! ## Lemmas -/

theorem toInt_successor? {n m : Int64} (h : successor? n = some m) : m.toInt = n.toInt + 1 := by
  unfold successor? at h
  split at h
  · cases h
  · rename_i hn
    cases h
    have hlt : n.toInt < 2 ^ 63 - 1 := by
      have := Int64.toInt_lt n
      have : n.toInt ≠ Int64.maxValue.toInt := fun h => hn (Int64.toInt_inj.1 h)
      have : Int64.maxValue.toInt = 2 ^ 63 - 1 := by decide
      omega
    have := Int64.le_toInt n
    rw [Int64.toInt_add, show (1 : Int64).toInt = 1 by decide]
    rw [Int.bmod_eq_of_le (by omega) (by omega)]

end FlatSchema
