/-!
# Finite maps from names

A map holds each name once, with the value it was given last.  A set of names is a map to `Unit`.
-/

namespace FlatSchema

structure NameMap (α : Type) where
  entries : List (String × α)
  deriving DecidableEq, Repr

namespace NameMap

variable {α : Type}

/-! ## Algorithm -/

def empty : NameMap α :=
  ⟨[]⟩

def get? (m : NameMap α) (name : String) : Option α :=
  (m.entries.find? (·.1 = name)).map (·.2)

def contains (m : NameMap α) (name : String) : Bool :=
  (m.get? name).isSome

def names (m : NameMap α) : List String :=
  m.entries.map (·.1)

/-- Gives a name a value, in place of the one it had. -/
def insert (m : NameMap α) (name : String) (a : α) : NameMap α :=
  ⟨m.entries.filter (·.1 ≠ name) ++ [(name, a)]⟩

/-- The set of some names. -/
def ofNames (names : List String) : NameMap Unit :=
  ⟨names.map (·, ())⟩

/-! ## Lemmas -/

theorem contains_iff (m : NameMap α) (name : String) : m.contains name = true ↔ name ∈ m.names := by
  rw [contains, get?, Option.isSome_map, List.find?_isSome, names, List.mem_map]
  simp only [decide_eq_true_eq]

/-- A new name comes last. -/
theorem names_insert {m : NameMap α} {name : String} (h : m.contains name = false) (a : α) :
    (m.insert name a).names = m.names ++ [name] := by
  have hfilter : m.entries.filter (·.1 ≠ name) = m.entries := by
    rw [List.filter_eq_self]
    intro e he
    have hne : e.1 ≠ name := by
      rintro rfl
      rw [(contains_iff m e.1).2 (List.mem_map_of_mem he)] at h
      cases h
    simpa using hne
  rw [insert, hfilter, names, List.map_append]
  rfl

@[simp] theorem names_ofNames (names : List String) : (ofNames names).names = names := by
  rw [ofNames, NameMap.names, List.map_map]
  exact List.map_id _

/-- A set is known by its names. -/
theorem eq_ofNames (m : NameMap Unit) : m = ofNames m.names := by
  obtain ⟨entries⟩ := m
  simp only [ofNames, names, List.map_map, mk.injEq]
  exact (List.map_id entries).symm

variable (m : NameMap α) (name : String) (a : α)

@[simp] theorem get?_empty : (empty : NameMap α).get? name = none :=
  rfl

@[simp] theorem get?_insert_self : (m.insert name a).get? name = some a := by
  have hfilter : (m.entries.filter (·.1 ≠ name)).find? (·.1 = name) = none := by
    simp [List.find?_eq_none]
  simp only [get?, insert, List.find?_append, hfilter]
  simp

theorem get?_insert_of_ne {other : String} (h : other ≠ name) :
    (m.insert name a).get? other = m.get? other := by
  have hfilter : (m.entries.filter (·.1 ≠ name)).find? (·.1 = other) =
      m.entries.find? (·.1 = other) := by
    rw [List.find?_filter]
    congr 1
    funext e
    by_cases he : e.1 = other
    · simp [he, h]
    · simp [he]
  simp only [get?, insert, List.find?_append, hfilter]
  simp [Ne.symm h]

theorem get?_insert (other : String) :
    (m.insert name a).get? other = if other = name then some a else m.get? other := by
  split
  · next h => rw [h, get?_insert_self]
  · next h => exact m.get?_insert_of_ne name a h

end NameMap

end FlatSchema
