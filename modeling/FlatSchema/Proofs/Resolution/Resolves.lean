import FlatSchema.Proofs.Registration
import FlatSchema.Proofs.Resolution.WellFormed

/-!
# What a resolved schema is

`s.Resolves s'` says of a schema and its resolution, one rule for each part, what every enum, field,
struct and the root type have become.  The layout of a struct is an inductive rule (`Laid`): nested
structs are laid out before the struct around them, so a layout is also a proof that the struct does
not contain itself.  Hence a schema that has a resolution is well-formed (`Resolves.wellFormed`).
-/

namespace FlatSchema

open Relation

/-! ## Rules -/

/-- Entries keep their names and take their counted values. -/
def Numbers (vs vs' : List Entry) : Prop :=
  vs'.map (·.name) = vs.map (·.name) ∧
    vs'.map (·.value.map Int64.toInt) = (counted 0 vs).map some

/-- An enum gets the primitive base that its written base denotes, and that primitive's default. -/
def EnumResolves (k k' : Kind) : Prop :=
  ∃ (w : TypeName) (p : Primitive) (vs vs' : List Entry) (d : Option Value),
    k = .enum (.unresolved w) vs d ∧ k' = .enum (.primitive p) vs' (some p.default) ∧
      w.name ∈ p.names ∧ Numbers vs vs'

theorem EnumResolves.names {k k' : Kind} (h : EnumResolves k k') :
    k'.values.map (·.name) = k.values.map (·.name) := by
  obtain ⟨w, p, vs, vs', d, rfl, rfl, -, hvs⟩ := h
  exact hvs.1

theorem entries_ext {vs ws : List Entry} (hn : vs.map (·.name) = ws.map (·.name))
    (hv : vs.map (·.value.map Int64.toInt) = ws.map (·.value.map Int64.toInt)) : vs = ws := by
  induction vs generalizing ws with
  | nil =>
    cases ws with
    | nil => rfl
    | cons w ws => cases hn
  | cons v vs ih =>
    cases ws with
    | nil => cases hn
    | cons w ws =>
      obtain ⟨name, value⟩ := v
      obtain ⟨name', value'⟩ := w
      simp only [List.map_cons, List.cons.injEq] at hn hv
      obtain rfl : value = value' :=
        Option.map_injective (fun a b hab => Int64.toInt_inj.1 hab) hv.1
      rw [hn.1, ih hn.2 hv.2]

/-- The rule for enums leaves no choice. -/
theorem EnumResolves.unique {k k₁ k₂ : Kind} (h₁ : EnumResolves k k₁) (h₂ : EnumResolves k k₂) :
    k₁ = k₂ := by
  obtain ⟨w, p, vs, vs₁, d, rfl, rfl, hp, hvs₁⟩ := h₁
  obtain ⟨w', q, vs', vs₂, d', hk, rfl, hq, hvs₂⟩ := h₂
  obtain ⟨rfl, rfl, -⟩ : w = w' ∧ vs = vs' ∧ d = d' := by simpa using hk
  obtain rfl : p = q := Primitive.eq_of_mem_names hp hq
  rw [entries_ext (hvs₁.1.trans hvs₂.1.symm) (hvs₁.2.trans hvs₂.2.symm)]

theorem EnumResolves.isEnum {k k' : Kind} (h : EnumResolves k k') : k'.isEnum = true := by
  obtain ⟨w, p, vs, vs', d, -, rfl, -⟩ := h
  rfl

theorem Kind.mem_names_of_value? {k : Kind} {n : String} {v : Int64} (h : k.value? n = some v) :
    n ∈ k.values.map (·.name) := by
  obtain ⟨e, he, -⟩ := Option.bind_eq_some_iff.1 h
  have hn := List.find?_some he
  rw [← of_decide_eq_true hn]
  exact List.mem_map_of_mem (List.mem_of_find?_eq_some he)

namespace Schema

/-- The default of a field, by its type and its literal. -/
inductive DefaultsTo (s : Schema) : TypeRef → Option Value → Option Value → Prop where
  | primitive (p : Primitive) : DefaultsTo s (.primitive p) none (some p.default)
  | literal (p : Primitive) (v : Value) : DefaultsTo s (.primitive p) (some v) (some v)
  | enum {x : TypeId} {t : TypeDecl} {p : Primitive} (ht : s.types[x]? = some t)
      (hp : t.kind.base? = some p) : DefaultsTo s (.declared x) none (some p.default)
  | named {x : TypeId} {t : TypeDecl} {v : Value} {n : String} {k : Int64}
      (ht : s.types[x]? = some t) (hk : t.kind.isEnum = true) (hv : v.text? = some n)
      (hn : t.kind.value? n = some k) : DefaultsTo s (.declared x) (some v) (some (.integer k))
  | other {x : TypeId} (literal : Option Value)
      (h : ∀ t, s.types[x]? = some t → t.kind.isEnum = false) :
      DefaultsTo s (.declared x) literal literal

/-- A field of a type in the namespace `ns` gets the type that its written name denotes in `s`. -/
structure FieldResolves (s s' : Schema) (ns : NamespaceId) (f f' : Field) : Prop where
  type : ∃ w, f.type = .unresolved w ∧ s.Denotes ns w.name f'.type ∧
    f'.repeated = (f.repeated || w.repeated)
  default : s'.DefaultsTo f'.type f.default f'.default

/-- The first `i` fields of the struct `id` end at `e`. -/
inductive Laid (s : Schema) : TypeId → Nat → ByteCount → Prop where
  | nil (id : TypeId) : Laid s id 0 0
  | scalar {id : TypeId} {i : Nat} {e n : ByteCount} {f : Field} (h : Laid s id i e)
      (hf : s.field? id i = some f) (hi : s.inline? f = some (.scalar n))
      (ho : f.offset = some (align e n)) : Laid s id (i + 1) (align e n + n)
  | nested {id x : TypeId} {i : Nat} {e n : ByteCount} {f : Field} {t : TypeDecl}
      (h : Laid s id i e) (hf : s.field? id i = some f) (hi : s.inline? f = some (.nested x))
      (ho : f.offset = some e) (ht : s.types[x]? = some t) (hn : t.kind.size? = some n)
      (hx : Laid s x t.fields.length n) : Laid s id (i + 1) (e + n)

/-- The `root_type` of each of the first `n` namespaces is found, and `root` is that of the last. -/
structure Roots (s : Schema) (n : Nat) (root : Option TypeId) : Prop where
  found : ∀ {ns name}, ns < n → s.rootName? ns = some name → ∃ id, s.findType? ns name = some id ∧
    ((∀ m, ns < m → m < n → s.rootName? m = none) → root = some id)
  none : (∀ ns < n, s.rootName? ns = none) → root = none

/-- `s'` is what resolution makes of `s`. -/
structure Resolves (s s' : Schema) : Prop where
  later : s.Later idle s'
  enum : ∀ {id : TypeId} {t'}, s'.types[id]? = some t' → t'.kind.isEnum = true →
    ∃ t, s.types[id]? = some t ∧ EnumResolves t.kind t'.kind
  field : ∀ {id i f'}, s'.field? id i = some f' →
    ∃ t f, s.types[id]? = some t ∧ t.fields[i]? = some f ∧ s.FieldResolves s' t.home f f'
  offset : ∀ {id i f'}, s'.field? id i = some f' → f'.offset.isSome = true
  slot : ∀ {id i f'}, s'.IsTable id → s'.field? id i = some f' → f'.offset = some (.ofNat (4 + 2 * i))
  size : ∀ {id : TypeId} {t'}, s'.types[id]? = some t' → t'.kind.isStruct = true →
    ∃ n, t'.kind.size? = some n ∧ s'.Laid id t'.fields.length n
  root : s.Roots s.namespaces.length s'.rootType

/-! ## Layouts -/

variable {busy : TypeId → Prop} {s s' : Schema} {id : TypeId} {i : Nat} {e : ByteCount}

/-- Nested structs have their sizes, so a layout stays if the fields laid out do. -/
theorem Laid.later (h : s.Laid id i e) (hl : s.Later busy s')
    (hsame : ∀ j < i, s'.field? id j = s.field? id j) : s'.Laid id i e := by
  induction h with
  | nil id => exact .nil id
  | @scalar id i e n f h hf hi ho ih =>
    exact .scalar (ih fun j hj => hsame j (by omega)) ((hsame i (by omega)).trans hf)
      (hl.inline? hi) ho
  | @nested id x i e n f t h hf hi ho ht hn hx ih ihx =>
    have ht' := hl.sized_eq ht hn
    refine .nested (ih fun j hj => hsame j (by omega)) ((hsame i (by omega)).trans hf)
      (hl.inline? hi) ho ht' hn (ihx fun j _ => ?_)
    rw [field?, field?, ht', ht]

theorem Laid.field (h : s.Laid id i e) : ∀ j < i, ∃ f l, s.field? id j = some f ∧
    s.inline? f = some l ∧ f.offset.isSome = true := by
  induction h with
  | nil id => exact fun j hj => absurd hj (Nat.not_lt_zero j)
  | @scalar id i e n f h hf hi ho ih =>
    intro j hj
    rcases Nat.lt_succ_iff_lt_or_eq.1 hj with hj | rfl
    · exact ih j hj
    · exact ⟨f, _, hf, hi, by rw [ho]; rfl⟩
  | @nested id x i e n f t h hf hi ho ht hn hx ih ihx =>
    intro j hj
    rcases Nat.lt_succ_iff_lt_or_eq.1 hj with hj | rfl
    · exact ih j hj
    · exact ⟨f, _, hf, hi, by rw [ho]; rfl⟩

/-- The next field is a scalar and takes its place. -/
theorem Laid.place_scalar {f : Field} {n : ByteCount} (h : s.Laid id i e)
    (hf : s.field? id i = some f) (hi : s.inline? f = some (.scalar n))
    (hl : s.Later busy (s.updateField id i fun f => { f with offset := some (align e n) })) :
    (s.updateField id i fun f => { f with offset := some (align e n) }).Laid id (i + 1)
      (align e n + n) := by
  refine .scalar (f := { f with offset := some (align e n) }) (h.later hl fun j hj => ?_) ?_
    (hl.inline? hi) rfl
  · rw [field?_updateField, if_neg (by omega)]
  · rw [field?_updateField, if_pos rfl, hf]
    rfl

/-- The next field is a struct that has its layout. -/
theorem Laid.place_nested {f : Field} {x : TypeId} {t : TypeDecl} {n : ByteCount}
    (h : s.Laid id i e) (hf : s.field? id i = some f) (hi : s.inline? f = some (.nested x))
    (ht : s.types[x]? = some t) (hn : t.kind.size? = some n) (hx : s.Laid x t.fields.length n)
    (hl : s.Later busy (s.updateField id i fun f => { f with offset := some e })) :
    (s.updateField id i fun f => { f with offset := some e }).Laid id (i + 1) (e + n) := by
  have ht' := hl.sized_eq ht hn
  refine .nested (f := { f with offset := some e }) (h.later hl fun j hj => ?_) ?_ (hl.inline? hi) rfl
    ht' hn (hx.later hl fun j _ => ?_)
  · rw [field?_updateField, if_neg (by omega)]
  · rw [field?_updateField, if_pos rfl, hf]
    rfl
  · rw [Schema.field?, Schema.field?, ht', ht]

/-! ## A schema that has a resolution is well-formed -/

theorem lt_length_of_writes {t : TypeDecl} {f : Field} {w : TypeName} (h : s.Writes id i t f w) :
    i < t.fields.length :=
  (List.getElem?_eq_some_iff.1 h.field).1

theorem Writes.field? {t : TypeDecl} {f : Field} {w : TypeName} (h : s.Writes id i t f w) :
    s.field? id i = some f := by
  rw [Schema.field?, h.type]
  exact h.field

/-- In a schema that was never resolved every field is written with a name. -/
theorem Fresh.exists_writes {f : Field} (h : s.Fresh) (hf : s.field? id i = some f) :
    ∃ t w, s.Writes id i t f w := by
  obtain ⟨t, ht, hft⟩ := Option.bind_eq_some_iff.1 hf
  obtain ⟨w, hw⟩ := TypeRef.eq_unresolved ((h.kind id t ht).fields f (List.mem_of_getElem? hft))
  exact ⟨t, w, ht, hft, hw⟩

namespace Resolves

variable {t : TypeDecl} {f : Field} {w : TypeName}

/-- A written field, its resolution, and the type that both names denote. -/
theorem exists_field (h : s.Resolves s') (hw : s.Writes id i t f w) :
    ∃ f', s'.field? id i = some f' ∧ s.Denotes t.home w.name f'.type ∧
      f'.repeated = (f.repeated || w.repeated) ∧ s'.DefaultsTo f'.type f.default f'.default := by
  obtain ⟨f', hf', -⟩ := h.later.field? hw.field?
  obtain ⟨t', f₀, ht', hf₀, ⟨w', hw', hd, hr⟩, hdef⟩ := h.field hf'
  obtain rfl := Option.some.inj (hw.type.symm.trans ht')
  obtain rfl := Option.some.inj (hw.field.symm.trans hf₀)
  obtain rfl := TypeRef.unresolved.inj (hw.name.symm.trans hw')
  exact ⟨f', hf', hd, hr, hdef⟩

theorem exists_enum (h : s.Resolves s') (ht : s.types[id]? = some t) (hk : t.kind.isEnum = true) :
    ∃ t', s'.types[id]? = some t' ∧ EnumResolves t.kind t'.kind := by
  obtain ⟨t', ht', hl⟩ := h.later.next ht
  obtain ⟨t₀, ht₀, hres⟩ := h.enum ht' (by rw [hl.kind.isEnum]; exact hk)
  obtain rfl := Option.some.inj (ht.symm.trans ht₀)
  exact ⟨t', ht', hres⟩

/-- In a struct every field lies inline. -/
theorem exists_inline (h : s.Resolves s') (hw : s.Writes id i t f w) (hk : t.kind.isStruct = true) :
    ∃ f' l, s'.field? id i = some f' ∧ s'.inline? f' = some l := by
  obtain ⟨t', ht', hl⟩ := h.later.next hw.type
  obtain ⟨n, -, hlaid⟩ := h.size ht' (by rw [hl.kind.isStruct]; exact hk)
  have hlen : t'.fields.length = t.fields.length := hl.kind.fields.1
  obtain ⟨f', l, hf', hi, -⟩ := hlaid.field i (by rw [hlen]; exact lt_length_of_writes hw)
  exact ⟨f', l, hf', hi⟩

theorem fitsStruct (h : s.Resolves s') (hw : s.Writes id i t f w) (hk : t.kind.isStruct = true) :
    s.FitsStruct t f w := by
  obtain ⟨f', hf', hd, hr, -⟩ := h.exists_field hw
  obtain ⟨f'', l, hf'', hi⟩ := h.exists_inline hw hk
  obtain rfl := Option.some.inj (hf'.symm.trans hf'')
  have hrep : f'.repeated = false → f.repeated = false ∧ w.repeated = false := by
    rw [hr]
    exact Bool.or_eq_false_iff.1
  cases l with
  | scalar n =>
    obtain ⟨hf, p, hn, ht | ⟨x, t', hx, ht', hb⟩⟩ := inline?_eq_scalar_iff.1 hi
    · refine ⟨(hrep hf).1, (hrep hf).2, _, hd, ?_⟩
      rw [ht]
      exact .primitive (by rw [hn]; rfl)
    · refine ⟨(hrep hf).1, (hrep hf).2, _, hd, ?_⟩
      obtain ⟨t₀, ht₀, w₀, q, vs, vs', d, hk₀, hk', hq, -⟩ := h.enum ht' (Kind.isEnum_of_base? hb)
      rw [hk'] at hb
      obtain rfl : q = p := Option.some.inj hb
      rw [hx]
      exact .enum ht₀ hk₀ hq (by rw [hn]; rfl)
  | nested x =>
    obtain ⟨hf, hx, hs⟩ := inline?_eq_nested_iff.1 hi
    refine ⟨(hrep hf).1, (hrep hf).2, _, hd, ?_⟩
    rw [hx]
    exact .struct (hs.prev h.later)

/-- A struct is accessible if the structs in its fields are. -/
theorem acc_of_fields {x : TypeId} {t₀ : TypeDecl} (ht : s.types[x]? = some t₀)
    (h : ∀ j < t₀.fields.length, ∀ y,
      (∃ t f w, s.Writes x j t f w ∧ s.Denotes t.home w.name (.declared y)) → s.IsStruct y →
        Acc (fun b a => s.Holds a b) y) : Acc (fun b a => s.Holds a b) x := by
  refine .intro x fun y hy => ?_
  obtain ⟨-, hy, j, t, f, w, hw, hd⟩ := hy
  obtain rfl := Option.some.inj (ht.symm.trans hw.type)
  exact h j (lt_length_of_writes hw) y ⟨_, f, w, hw, hd⟩ hy

/-- The structs in the fields laid out are accessible, as they are laid out before. -/
theorem acc_of_laid (h : s.Resolves s') (hl : s'.Laid id i e) :
    ∀ j < i, ∀ y, (∃ t f w, s.Writes id j t f w ∧ s.Denotes t.home w.name (.declared y)) →
      s.IsStruct y → Acc (fun b a => s.Holds a b) y := by
  -- What the field resolves to lies inline as a nested struct.
  have hnest : ∀ {id j f l y}, s'.field? id j = some f → s'.inline? f = some l →
      (∃ t f w, s.Writes id j t f w ∧ s.Denotes t.home w.name (.declared y)) → s.IsStruct y →
        l = .nested y := by
    rintro id j f l y hf hi ⟨t, f₀, w, hw, hd⟩ hy
    obtain ⟨f', hf', hd', -, -⟩ := h.exists_field hw
    obtain rfl := Option.some.inj (hf.symm.trans hf')
    exact inline?_eq_nested (hd'.unique hd) (hy.later h.later) hi
  induction hl with
  | nil id => exact fun j hj => absurd hj (Nat.not_lt_zero j)
  | @scalar id i e n f _ hf hi _ ih =>
    intro j hj y hw hy
    rcases Nat.lt_succ_iff_lt_or_eq.1 hj with hj | rfl
    · exact ih j hj y hw hy
    · cases hnest hf hi hw hy
  | @nested id x i e n f t _ hf hi _ ht _ _ ih ihx =>
    intro j hj y hw hy
    rcases Nat.lt_succ_iff_lt_or_eq.1 hj with hj | rfl
    · exact ih j hj y hw hy
    · obtain rfl := Inline.nested.inj (hnest hf hi hw hy)
      obtain ⟨t₀, ht₀, hl⟩ := h.later.prev ht
      have hlen : t.fields.length = t₀.fields.length := hl.kind.fields.1
      rw [hlen] at ihx
      exact acc_of_fields ht₀ ihx

theorem acc (h : s.Resolves s') (hs : s.IsStruct id) : Acc (fun b a => s.Holds a b) id := by
  obtain ⟨t, ht, hk⟩ := hs
  obtain ⟨t', ht', hl⟩ := h.later.next ht
  obtain ⟨n, -, hlaid⟩ := h.size ht' (by rw [hl.kind.isStruct]; exact hk)
  have hlen : t'.fields.length = t.fields.length := hl.kind.fields.1
  rw [hlen] at hlaid
  exact acc_of_fields ht (h.acc_of_laid hlaid)

end Resolves

theorem not_transGen_of_acc {α : Type} {r : α → α → Prop} {a : α} (h : Acc (fun y x => r x y) a) :
    ¬ TransGen r a a := by
  induction h with
  | intro a _ ih =>
    intro hc
    obtain ⟨b, hab, hba⟩ := TransGen.head'_iff.1 hc
    exact ih b hab (TransGen.tail' hba hab)

/-- Resolution is possible only for well-formed schemas. -/
theorem Resolves.wellFormed (h : s.Resolves s') : s.WellFormed where
  base := by
    intro id t w vs d ht hk
    obtain ⟨t', -, w', p, vs₀, vs', d', hk₀, -, hp, -⟩ := h.exists_enum ht (by rw [hk]; rfl)
    obtain ⟨rfl, -, -⟩ : w = w' ∧ vs = vs₀ ∧ d = d' := by simpa using hk.symm.trans hk₀
    exact ⟨p, hp⟩
  values := by
    intro id t b vs d ht hk
    obtain ⟨t', -, w, p, vs₀, vs', d', hk₀, -, -, hvs⟩ := h.exists_enum ht (by rw [hk]; rfl)
    obtain ⟨-, rfl, -⟩ : b = .unresolved w ∧ vs = vs₀ ∧ d = d' := by simpa using hk.symm.trans hk₀
    exact numberable_of_counted hvs.2
  type := by
    intro id i t f w hw
    obtain ⟨f', -, hd, -, -⟩ := h.exists_field hw
    exact ⟨_, hd⟩
  literal := by
    intro id i t f w v x e b vs d hw hv hx he hk
    obtain ⟨f', -, hd, -, hdef⟩ := h.exists_field hw
    obtain ⟨e', he', hr⟩ := h.exists_enum he (by rw [hk]; rfl)
    rw [← hx.unique hd, hv] at hdef
    generalize f'.default = d' at hdef
    cases hdef with
    | other _ hne =>
      have hfalse := hne e' he'
      rw [hr.isEnum] at hfalse
      cases hfalse
    | @named _ t' _ n k ht' _ htext hval =>
      obtain rfl := Option.some.inj (he'.symm.trans ht')
      refine ⟨n, ?_, htext⟩
      have hmem := Kind.mem_names_of_value? hval
      rwa [hr.names, hk] at hmem
  inline := fun hw hk => h.fitsStruct hw hk
  acyclic := by
    intro id hc
    obtain ⟨b, hab, -⟩ := TransGen.head'_iff.1 hc
    exact not_transGen_of_acc (h.acc hab.1) hc
  root := by
    intro ns name hn
    have hlt : ns < s.namespaces.length := by
      obtain ⟨x, hx, -⟩ := Option.bind_eq_some_iff.1 hn
      exact (List.getElem?_eq_some_iff.1 hx).1
    obtain ⟨id, hid, -⟩ := h.root.found hlt hn
    exact ⟨id, hid⟩

end Schema

end FlatSchema
