import FlatSchema.Proofs.Script.Getters
import FlatSchema.Proofs.Script.Paths

/-!
# Identifiers as defaults

A default that is written as an identifier is looked up where the field is of an enum type, and the
integer of the value with that name takes its place (`DefaultsTo.exists_value`).  Everywhere else the
identifier stays (`DefaultsTo.ident_iff`).  The getter of such a field answers with a name that the
script does not define, if it is a single scalar that the reader has a call for
(`Reads.fallback_ident_iff`).  So an identifier can survive in a text that compiles, and show in its
script (`compileText_stray`).
-/

namespace FlatSchema

theorem Primitive.default_ne_ident (p : Primitive) (n : String) : p.default ≠ .ident n := by
  cases p <;> nofun

namespace Schema

/-- The type is an enum. -/
def OfEnum (s : Schema) (r : TypeRef) : Prop :=
  ∃ x t, r = .declared x ∧ s.types[x]? = some t ∧ t.kind.isEnum = true

variable {s : Schema} {r : TypeRef} {d d' : Option Value} {n : String}

theorem not_ofEnum_primitive (s : Schema) (p : Primitive) : ¬ s.OfEnum (.primitive p) := by
  rintro ⟨x, t, hx, -⟩
  cases hx

/-- An identifier stays exactly where the type is no enum. -/
theorem DefaultsTo.ident_iff (h : s.DefaultsTo r d d') :
    d' = some (.ident n) ↔ d = some (.ident n) ∧ ¬ s.OfEnum r := by
  cases h with
  | primitive p =>
    constructor
    · intro hd
      exact absurd (Option.some.inj hd) (p.default_ne_ident n)
    · rintro ⟨hd, -⟩
      cases hd
  | literal p v => exact (and_iff_left (not_ofEnum_primitive s p)).symm
  | @enum x t p ht hp =>
    constructor
    · intro hd
      exact absurd (Option.some.inj hd) (p.default_ne_ident n)
    · rintro ⟨hd, -⟩
      cases hd
  | @named x t v m k ht hk hv hm =>
    constructor
    · intro hd
      cases hd
    · rintro ⟨-, henum⟩
      exact absurd ⟨x, t, rfl, ht, hk⟩ henum
  | @other x literal h =>
    refine (and_iff_left ?_).symm
    rintro ⟨y, t, hy, ht, hk⟩
    cases hy
    rw [h t ht] at hk
    cases hk

/-- Where the type is an enum, the identifier names one of its values. -/
theorem DefaultsTo.exists_value {x : TypeId} {t : TypeDecl}
    (h : s.DefaultsTo (.declared x) (some (.ident n)) d') (ht : s.types[x]? = some t)
    (hk : t.kind.isEnum = true) : ∃ v, t.kind.value? n = some v ∧ d' = some (.integer v) := by
  cases h with
  | @named _ t' _ m k ht' hk' hv hm =>
    obtain rfl := Option.some.inj (ht.symm.trans ht')
    obtain rfl : n = m := Option.some.inj hv
    exact ⟨k, hm, rfl⟩
  | other _ h =>
    rw [h t ht] at hk
    cases hk

variable {slot slot' : Nat} {f : Field} {c : Content} {g : Getter} {p : Primitive}

/-- The getter of a field with an identifier as its default answers with that name. -/
theorem Reads.fallback_ident_iff (h : s.Reads slot f c g) (hc : s.Carries f.type c)
    (hd : f.default = some (.ident n)) (henum : ¬ s.OfEnum f.type) :
    g = .scalar slot' p n ↔ slot' = slot ∧ f.repeated = false ∧ f.type = .primitive p ∧
      p ∉ [Primitive.int64, .uint64] := by
  constructor
  · intro hg
    cases h with
    | @scalar q v hf hp hv =>
      cases hg
      refine ⟨rfl, hf, ?_, hp⟩
      generalize f.type = r at hc henum
      cases hc with
      | primitive p => rfl
      | enum hk =>
        obtain ⟨t, ht, hk⟩ := Option.map_eq_some_iff.1 hk
        exact absurd ⟨_, t, rfl, ht, by rw [hk]; rfl⟩ henum
    | _ => cases hg
  · rintro ⟨rfl, hf, hp, hwide⟩
    rw [hp] at hc
    cases hc
    cases h with
    | unread hunread =>
      rw [hf] at hunread
      exact absurd hunread hwide
    | @scalar _ v _ _ hv =>
      obtain rfl : v = .ident n := Option.some.inj (hv.symm.trans hd)
      rfl
    | array hf' _ =>
      rw [hf] at hf'
      cases hf'

variable {text : String} {id : TypeId} {i : Nat}

/-- What becomes of an identifier that is written as a default. -/
theorem ident_default (h : compileText text = .ok s) (hf : s.field? id i = some f) (n : String) :
    ∃ f₀, (blankSheet.parse "schema.fbs" text).1.field? id i = some f₀ ∧
      (f.default = some (.ident n) ↔ f₀.default = some (.ident n) ∧ ¬ s.OfEnum f.type) ∧
      (f₀.default = some (.ident n) → ∀ x t, f.type = .declared x → s.types[x]? = some t →
        t.kind.isEnum = true → ∃ v, t.kind.value? n = some v ∧ f.default = some (.integer v)) ∧
      (f.default = some (.ident n) → s.IsTable id → ∃ gs, s.getters? id = some gs ∧
        ∀ slot p, gs[i]? = some (f.name, some (.scalar slot p n)) ↔
          slot = (4 + 2 * i) % 2 ^ 64 ∧ f.repeated = false ∧ f.type = .primitive p ∧
            p ∉ [Primitive.int64, .uint64]) := by
  have hresolves := compileText_resolves h
  obtain ⟨hspelled, hnumbered, hkept, -⟩ := compileText_spelled h
  obtain ⟨t₀, f₀, ht₀, hf₀, -, hdefault⟩ := hresolves.field hf
  refine ⟨f₀, (field?_of_types ht₀ i).trans hf₀, hdefault.ident_iff, ?_, ?_⟩
  · intro hd x t hx ht hk
    rw [hd, hx] at hdefault
    exact hdefault.exists_value ht hk
  · rintro hd ⟨t, ht, hk⟩
    have hfield : t.fields[i]? = some f := (field?_of_types ht i).symm.trans hf
    obtain ⟨c, g, hc, hg, hlines⟩ := hresolves.exists_reads hspelled hkept ht hk hfield
    refine ⟨_, getters?_eq_some hspelled hnumbered hkept ht (.inl hk), fun slot p => ?_⟩
    rw [List.getElem?_map, hfield, Option.map_some, hlines,
      ← hg.fallback_ident_iff hc hd (hdefault.ident_iff.1 hd).2]
    simp only [Option.some.injEq, Prod.mk.injEq, true_and]

/-- A default that names a value of an enum. -/
def tint : String :=
  "enum Hue : byte \x7b Red = 3, Green \x7d table Tint \x7b hue : Hue = Green; \x7d"

theorem ident_default_tint : ∃ s f t v, compileText tint = .ok s ∧ s.field? 1 0 = some f ∧
    f.type = .declared 0 ∧ s.types[0]? = some t ∧ t.kind.isEnum = true ∧
      t.kind.value? "Green" = some v ∧ f.default = some (.integer v) := by
  have htint : (compileText tint).toOption.bind (fun s => (s.field? 1 0).bind fun f =>
      s.types[0]?.map fun t => (f.type, t.kind.isEnum)) = some (.declared 0, true) := by
    decide +kernel
  have hwritten : ((blankSheet.parse "schema.fbs" tint).1.field? 1 0).map (·.default) =
      some (some (.ident "Green")) := by
    decide +kernel
  obtain ⟨s, hs, hfield⟩ := exists_of_compileText htint
  obtain ⟨f, hf, hfield⟩ := Option.bind_eq_some_iff.1 hfield
  obtain ⟨t, ht, hfield⟩ := Option.map_eq_some_iff.1 hfield
  obtain ⟨htype, hk⟩ := Prod.mk.inj hfield
  obtain ⟨f₀, hf₀, -, henum, -⟩ := ident_default hs hf "Green"
  rw [hf₀] at hwritten
  obtain ⟨v, hv, hd⟩ := henum (Option.some.inj hwritten) 0 t htype ht hk
  exact ⟨s, f, t, v, hs, hf, htype, ht, hk, hv, hd⟩

/-- A default that names nothing. -/
def stray : String :=
  "table T \x7b x : int = foo; \x7d"

/-- The text compiles, the identifier stays, and the getter answers with it. -/
theorem compileText_stray : ∃ s f gs, compileText stray = .ok s ∧ s.field? 0 0 = some f ∧
    f.default = some (.ident "foo") ∧ s.getters? 0 = some gs ∧
      gs[0]? = some ("x", some (.scalar 4 .int32 "foo")) := by
  have hstray : (compileText stray).toOption.bind (fun s => s.types[0]?.bind fun t =>
      t.fields[0]?.map fun f => (t.kind.isTable, f.name, f.type, f.repeated, f.default)) =
        some (true, "x", .primitive .int32, false, some (.ident "foo")) := by
    decide +kernel
  obtain ⟨s, hs, hfield⟩ := exists_of_compileText hstray
  obtain ⟨t, ht, hfield⟩ := Option.bind_eq_some_iff.1 hfield
  obtain ⟨f, hf, hfield⟩ := Option.map_eq_some_iff.1 hfield
  simp only [Prod.mk.injEq] at hfield
  obtain ⟨hk, hname, htype, hrepeated, hd⟩ := hfield
  obtain ⟨hspelled, hnumbered, hkept, -⟩ := compileText_spelled hs
  obtain ⟨c, g, hc, hg, hlines⟩ := (compileText_resolves hs).exists_reads hspelled hkept ht hk hf
  have henum : ¬ s.OfEnum f.type := by
    rw [htype]
    exact not_ofEnum_primitive s .int32
  obtain rfl : g = .scalar 4 .int32 "foo" :=
    (hg.fallback_ident_iff hc hd henum).2 ⟨rfl, hrepeated, htype, by decide⟩
  refine ⟨s, f, _, hs, (field?_of_types ht 0).trans hf, hd,
    getters?_eq_some hspelled hnumbered hkept ht (.inl hk), ?_⟩
  rw [List.getElem?_map, hf, Option.map_some, hlines, hname]

end Schema

end FlatSchema
