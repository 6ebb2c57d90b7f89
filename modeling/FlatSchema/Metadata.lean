import FlatSchema.Value

/-!
# Metadata of a type or field

The list between parentheses, as in `(id: 3, deprecated)`.  Keys are distinct and keep the place of
their first entry; a key given again takes the later value, and a bare key has none.
-/

namespace FlatSchema

structure Metadata where
  entries : List (String × Option Value)
  deriving DecidableEq, Repr

namespace Metadata

/-! ## Algorithm -/

def empty : Metadata := ⟨[]⟩

def put (key : String) (value : Option Value) :
    List (String × Option Value) → List (String × Option Value)
  | [] => [(key, value)]
  | e :: es => if e.1 = key then (key, value) :: es else e :: put key value es

def insert (m : Metadata) (key : String) (value : Option Value) : Metadata :=
  ⟨put key value m.entries⟩

/-- `some none` is a bare key. -/
def get? (m : Metadata) (key : String) : Option (Option Value) :=
  (m.entries.find? (·.1 = key)).map (·.2)

def contains (m : Metadata) (key : String) : Bool :=
  m.entries.any (·.1 = key)

def size (m : Metadata) : Nat :=
  m.entries.length

def isEmpty (m : Metadata) : Bool :=
  m.entries.isEmpty

def keys (m : Metadata) : List String :=
  m.entries.map (·.1)

/-! ## Lemmas -/

theorem find?_put (key k : String) (value : Option Value) (es : List (String × Option Value)) :
    (put key value es).find? (·.1 = k) =
      if key = k then some (key, value) else es.find? (·.1 = k) := by
  induction es with
  | nil => by_cases h : key = k <;> simp [put, h]
  | cons e es ih =>
    unfold put
    split
    · rename_i h
      by_cases hk : key = k <;> simp_all
    · rename_i h
      by_cases hk : e.1 = k
      · have : key ≠ k := fun hkk => h (hk.trans hkk.symm)
        simp [hk, this]
      · simp [hk, ih]

theorem get?_insert (m : Metadata) (key k : String) (value : Option Value) :
    (m.insert key value).get? k = if key = k then some value else m.get? k := by
  simp only [get?, insert, find?_put]
  split <;> simp

theorem keys_put (key : String) (value : Option Value) (es : List (String × Option Value)) :
    (put key value es).map (·.1) =
      if key ∈ es.map (·.1) then es.map (·.1) else es.map (·.1) ++ [key] := by
  induction es with
  | nil => simp [put]
  | cons e es ih =>
    unfold put
    by_cases h : e.1 = key
    · simp [h]
    · have h' : key ≠ e.1 := fun hk => h hk.symm
      simp only [h, if_false, List.map_cons, ih, List.mem_cons, h', false_or]
      split <;> simp_all

/-- A key keeps its place, and a new one goes to the end. -/
theorem keys_insert (m : Metadata) (key : String) (value : Option Value) :
    (m.insert key value).keys = if key ∈ m.keys then m.keys else m.keys ++ [key] :=
  keys_put key value m.entries

end Metadata

end FlatSchema
