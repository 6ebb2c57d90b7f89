import FlatSchema.Proofs.Numbering
import FlatSchema.Proofs.Resolution.Settled
import Mathlib.Logic.Relation

/-!
# Well-formed schemas

What a schema that was never resolved has to satisfy so that it can be (`WellFormed`), and for each
error of the resolver what is wrong with a schema for which it is reported (`Fault`).  A schema with
a fault is not well-formed (`Fault.not_wellFormed`).
-/

namespace FlatSchema

open Relation

/-- No name is shared by two primitives. -/
theorem Primitive.eq_of_mem_names {p q : Primitive} {name : String} (hp : name ∈ p.names)
    (hq : name ∈ q.names) : p = q := by
  have hpq := ofName?_of_mem_names p name hp
  rw [ofName?_of_mem_names q name hq] at hpq
  exact (Option.some.inj hpq).symm

namespace Schema

/-! ## Conditions -/

/-- What a written name denotes in a namespace; the names of primitives come first. -/
inductive Denotes (s : Schema) (ns : NamespaceId) (name : String) : TypeRef → Prop where
  | primitive {p : Primitive} (h : name ∈ p.names) : Denotes s ns name (.primitive p)
  | declared {id : TypeId} (h : ∀ p : Primitive, name ∉ p.names)
      (hf : s.findType? ns name = some id) : Denotes s ns name (.declared id)

/-- The type `id` is `t`, and its field `i` is `f`, with the type written `w`. -/
structure Writes (s : Schema) (id : TypeId) (i : Nat) (t : TypeDecl) (f : Field) (w : TypeName) :
    Prop where
  type : s.types[id]? = some t
  field : t.fields[i]? = some f
  name : f.type = .unresolved w

/-- The struct `a` has a field of the struct type `b`. -/
def Holds (s : Schema) (a b : TypeId) : Prop :=
  s.IsStruct a ∧ s.IsStruct b ∧
    ∃ i t f w, s.Writes a i t f w ∧ s.Denotes t.home w.name (.declared b)

/-- The struct `a` has a field of the struct type `b` that is no vector. -/
def Nests (s : Schema) (a b : TypeId) : Prop :=
  s.IsStruct a ∧ s.IsStruct b ∧ ∃ i t f w, s.Writes a i t f w ∧ f.repeated = false ∧
    w.repeated = false ∧ s.Denotes t.home w.name (.declared b)

/-- Sized primitives, enums with such a base, and structs. -/
inductive Flat (s : Schema) : TypeRef → Prop where
  | primitive {p : Primitive} (h : p.size?.isSome = true) : Flat s (.primitive p)
  | enum {id : TypeId} {t : TypeDecl} {w : TypeName} {vs : List Entry} {d : Option Value}
      {p : Primitive} (ht : s.types[id]? = some t) (hk : t.kind = .enum (.unresolved w) vs d)
      (hp : w.name ∈ p.names) (h : p.size?.isSome = true) : Flat s (.declared id)
  | struct {id : TypeId} (h : s.IsStruct id) : Flat s (.declared id)

/-- A field of the type `t`, written with the name `w`, may stand in a struct. -/
def FitsStruct (s : Schema) (t : TypeDecl) (f : Field) (w : TypeName) : Prop :=
  f.repeated = false ∧ w.repeated = false ∧ ∃ r, s.Denotes t.home w.name r ∧ s.Flat r

/-- The `root_type` of a namespace. -/
def rootName? (s : Schema) (ns : NamespaceId) : Option String :=
  s.namespaces[ns]?.bind (·.rootName)

structure WellFormed (s : Schema) : Prop where
  base : ∀ {id : TypeId} {t w vs d}, s.types[id]? = some t → t.kind = .enum (.unresolved w) vs d →
    ∃ p : Primitive, w.name ∈ p.names
  values : ∀ {id : TypeId} {t b vs d}, s.types[id]? = some t → t.kind = .enum b vs d → Numberable vs
  type : ∀ {id i t f w}, s.Writes id i t f w → ∃ r, s.Denotes t.home w.name r
  /-- A literal for an enum names one of its values. -/
  literal : ∀ {id i t f w v} {x : TypeId} {e b vs d}, s.Writes id i t f w → f.default = some v →
    s.Denotes t.home w.name (.declared x) → s.types[x]? = some e → e.kind = .enum b vs d →
      ∃ n ∈ vs.map (·.name), v.text? = some n
  inline : ∀ {id i t f w}, s.Writes id i t f w → t.kind.isStruct = true → s.FitsStruct t f w
  acyclic : ∀ id, ¬ TransGen s.Holds id id
  root : ∀ {ns name}, s.rootName? ns = some name → ∃ id, s.findType? ns name = some id

/-- What is wrong when an error is reported. -/
inductive Fault (s : Schema) : SchemaError → Prop where
  | unknownBase {id : TypeId} {t w vs d} (ht : s.types[id]? = some t)
      (hk : t.kind = .enum (.unresolved w) vs d) (h : ∀ r, ¬ s.Denotes t.home w.name r) :
      Fault s (.unresolvedType w.name)
  | declaredBase {id x : TypeId} {t w vs d} (ht : s.types[id]? = some t)
      (hk : t.kind = .enum (.unresolved w) vs d) (h : s.Denotes t.home w.name (.declared x)) :
      Fault s (.nonIntegralEnum t.name)
  | values {id : TypeId} {t b vs d i} {e : Entry} (ht : s.types[id]? = some t)
      (hk : t.kind = .enum b vs d) (he : vs[i + 1]? = some e) (hv : e.value = none)
      (h : (counted 0 vs)[i]? = some greatest) : Fault s (.enumValueOutOfRange e.name)
  | type {id i t f w} (hw : s.Writes id i t f w) (h : ∀ r, ¬ s.Denotes t.home w.name r) :
      Fault s (.unresolvedType w.name)
  | literal {id i t f w v} {x : TypeId} {e b vs d} (hw : s.Writes id i t f w)
      (hv : f.default = some v) (hx : s.Denotes t.home w.name (.declared x))
      (he : s.types[x]? = some e) (hk : e.kind = .enum b vs d)
      (h : ∀ n ∈ vs.map (·.name), v.text? ≠ some n) : Fault s (.unknownEnumValue v.script)
  | inline {id i t f w} (hw : s.Writes id i t f w) (hk : t.kind.isStruct = true)
      (h : ¬ s.FitsStruct t f w) : Fault s (.invalidStructField t.name f.name)
  | cycle {id : TypeId} {t} (ht : s.types[id]? = some t) (h : TransGen s.Nests id id) :
      Fault s (.recursiveStruct t.name)
  | root {ns name} (hn : s.rootName? ns = some name) (h : s.findType? ns name = none) :
      Fault s (.unresolvedRootType name)

/-! ## Names -/

variable {s : Schema} {ns : NamespaceId} {name : String} {r : TypeRef}

theorem refer_eq_ok_iff : s.refer ns name = .ok r ↔ s.Denotes ns name r := by
  unfold refer
  constructor
  · intro h
    split at h
    · next p hp =>
      cases h
      exact .primitive (Primitive.mem_names_of_ofName? hp)
    · next hp =>
      split at h
      · next id hf =>
        cases h
        refine .declared (fun p hn => ?_) hf
        rw [Primitive.ofName?_of_mem_names p name hn] at hp
        cases hp
      · cases h
  · rintro (⟨hp⟩ | ⟨hp, hf⟩)
    · rw [Primitive.ofName?_of_mem_names _ name hp]
    · cases hn : Primitive.ofName? name with
      | some p => exact absurd (Primitive.mem_names_of_ofName? hn) (hp p)
      | none => simp only [hf]

theorem Denotes.unique {r' : TypeRef} (h : s.Denotes ns name r) (h' : s.Denotes ns name r') :
    r = r' := by
  rw [← refer_eq_ok_iff] at h h'
  exact Except.ok.inj (h.symm.trans h')

theorem refer_eq_error {e : SchemaError} (h : s.refer ns name = .error e) :
    e = .unresolvedType name ∧ ∀ r, ¬ s.Denotes ns name r := by
  constructor
  · unfold refer at h
    split at h
    · cases h
    · split at h
      · cases h
      · cases h
        rfl
  · intro r hr
    rw [refer_eq_ok_iff.2 hr] at h
    cases h

theorem Denotes.isResolved (h : s.Denotes ns name r) : r.isResolved = true := by
  cases h <;> rfl

/-! ## Top theorem -/

theorem Nests.holds {a b : TypeId} (h : s.Nests a b) : s.Holds a b := by
  obtain ⟨ha, hb, i, t, f, w, hw, -, -, hd⟩ := h
  exact ⟨ha, hb, i, t, f, w, hw, hd⟩

theorem Fault.not_wellFormed {e : SchemaError} (h : s.Fault e) : ¬ s.WellFormed := by
  intro hs
  cases h with
  | unknownBase ht hk h =>
    obtain ⟨p, hp⟩ := hs.base ht hk
    exact h _ (.primitive hp)
  | declaredBase ht hk h =>
    obtain ⟨p, hp⟩ := hs.base ht hk
    cases h.unique (.primitive hp)
  | values ht hk he hv h => exact hs.values ht hk _ _ he hv h
  | type hw h =>
    obtain ⟨r, hr⟩ := hs.type hw
    exact h r hr
  | literal hw hv hx he hk h =>
    obtain ⟨n, hn, hv'⟩ := hs.literal hw hv hx he hk
    exact h n hn hv'
  | inline hw hk h => exact h (hs.inline hw hk)
  | cycle _ h => exact hs.acyclic _ (TransGen.mono (fun _ _ => Nests.holds) _ _ h)
  | root hn h =>
    obtain ⟨id, hid⟩ := hs.root hn
    rw [hid] at h
    cases h

end Schema

end FlatSchema
