import FlatSchema.Proofs.Resolution.Outcome
import Mathlib.Data.List.Forall2

/-!
# The names of a primitive are interchangeable

Two schemas are respellings of each other if they differ in nothing but which of its names is written for a
primitive (`Respelled`).  They resolve to the same schema, or fail for the same reason (`resolve_respelled`).

Schemas are respellings of each other exactly if they have the same canonical spelling (`respelled_iff`).
Every step of the resolver does to the canonical spelling of a schema what it does to the schema, and ends
the same way (`Commutes`):

    s.canonical.resolve = (s.resolve.1.canonical, s.resolve.2)        (resolve_canonical)

In a resolved schema no names are left, so it is its own canonical spelling (`Resolves.canonical`).
-/

namespace FlatSchema

/-! ## Spellings -/

inductive TypeRef.Respelled : TypeRef → TypeRef → Prop where
  | same (r : TypeRef) : Respelled r r
  | renamed {p : Primitive} {a b : String} (ha : a ∈ p.names) (hb : b ∈ p.names) (repeated : Bool) :
    Respelled (.unresolved ⟨a, repeated⟩) (.unresolved ⟨b, repeated⟩)

structure Field.Respelled (f g : Field) : Prop where
  rest : g = { f with type := g.type }
  type : f.type.Respelled g.type

inductive Kind.Respelled : Kind → Kind → Prop where
  | enum {b b' : TypeRef} (h : b.Respelled b') (vs : List Entry) (d : Option Value) :
    Respelled (.enum b vs d) (.enum b' vs d)
  | union (vs : List Entry) : Respelled (.union vs) (.union vs)
  | table {fs gs : List Field} (h : List.Forall₂ Field.Respelled fs gs) : Respelled (.table fs) (.table gs)
  | struct {fs gs : List Field} (h : List.Forall₂ Field.Respelled fs gs) (n : Option ByteCount) :
    Respelled (.struct fs n) (.struct gs n)

structure TypeDecl.Respelled (t u : TypeDecl) : Prop where
  rest : u = { t with kind := u.kind }
  kind : t.kind.Respelled u.kind

/-- Some types of fields and bases of enums are written with other names of the same primitive. -/
structure Schema.Respelled (s t : Schema) : Prop where
  rest : t = { s with types := t.types }
  types : List.Forall₂ TypeDecl.Respelled s.types t.types

/-! ## Canonical spelling -/

/-- A name of a primitive is replaced by its first one. -/
def canonicalName (name : String) : String :=
  (Primitive.ofName? name).elim name Primitive.name

def TypeRef.canonical : TypeRef → TypeRef
  | .unresolved w => .unresolved { w with name := canonicalName w.name }
  | r => r

def Field.canonical (f : Field) : Field :=
  { f with type := f.type.canonical }

def Kind.canonical : Kind → Kind
  | .enum base values default => .enum base.canonical values default
  | .union values => .union values
  | .table fields => .table (fields.map (·.canonical))
  | .struct fields size => .struct (fields.map (·.canonical)) size

def TypeDecl.canonical (t : TypeDecl) : TypeDecl :=
  { t with kind := t.kind.canonical }

def Schema.canonical (s : Schema) : Schema :=
  { s with types := s.types.map (·.canonical) }

/-- A name and its canonical one are names of the same primitive, or of none. -/
theorem ofName?_canonicalName (name : String) :
    Primitive.ofName? (canonicalName name) = Primitive.ofName? name := by
  unfold canonicalName
  cases h : Primitive.ofName? name with
  | none => exact h
  | some p => exact Primitive.ofName?_of_mem_names p p.name List.mem_cons_self

theorem canonicalName_eq_iff {a b : String} :
    canonicalName a = canonicalName b ↔ a = b ∨ ∃ p : Primitive, a ∈ p.names ∧ b ∈ p.names := by
  constructor
  · intro h
    have hsame : Primitive.ofName? a = Primitive.ofName? b := by
      rw [← ofName?_canonicalName a, h, ofName?_canonicalName]
    cases ha : Primitive.ofName? a with
    | none =>
      rw [canonicalName, canonicalName, ← hsame, ha] at h
      exact .inl h
    | some p =>
      exact .inr ⟨p, Primitive.mem_names_of_ofName? ha, Primitive.mem_names_of_ofName? (hsame ▸ ha)⟩
  · rintro (rfl | ⟨p, ha, hb⟩)
    · rfl
    · rw [canonicalName, canonicalName, Primitive.ofName?_of_mem_names p a ha,
        Primitive.ofName?_of_mem_names p b hb]
      rfl

theorem TypeRef.respelled_iff {r r' : TypeRef} : r.Respelled r' ↔ r.canonical = r'.canonical := by
  constructor
  · intro h
    cases h with
    | same => rfl
    | renamed ha hb repeated =>
      have hname := canonicalName_eq_iff.2 (.inr ⟨_, ha, hb⟩)
      simp only [TypeRef.canonical, hname]
  · intro h
    cases r with
    | unresolved w =>
      cases r' with
      | unresolved w' =>
        obtain ⟨a, repeated⟩ := w
        obtain ⟨b, repeated'⟩ := w'
        obtain ⟨hname, rfl⟩ : canonicalName a = canonicalName b ∧ repeated = repeated' := by
          simpa [TypeRef.canonical] using h
        rcases canonicalName_eq_iff.1 hname with rfl | ⟨p, ha, hb⟩
        · exact .same _
        · exact .renamed ha hb repeated
      | primitive p => cases h
      | declared x => cases h
    | primitive p =>
      cases r' <;> cases h
      exact .same _
    | declared x =>
      cases r' <;> cases h
      exact .same _

theorem Field.respelled_iff {f g : Field} : f.Respelled g ↔ f.canonical = g.canonical := by
  obtain ⟨name, type, repeated, default, offset, metadata⟩ := f
  obtain ⟨name', type', repeated', default', offset', metadata'⟩ := g
  constructor
  · rintro ⟨hrest, htype⟩
    cases hrest
    simp only [Field.canonical, TypeRef.respelled_iff.1 htype]
  · intro h
    simp only [Field.canonical, Field.mk.injEq] at h
    obtain ⟨rfl, htype, rfl, rfl, rfl, rfl⟩ := h
    exact ⟨rfl, TypeRef.respelled_iff.2 htype⟩

/-- Lists are alike under `f` if their elements are. -/
theorem map_eq_map_iff_forall₂ {α β : Type} {f : α → β} {xs ys : List α} :
    xs.map f = ys.map f ↔ List.Forall₂ (fun x y => f x = f y) xs ys := by
  rw [← List.forall₂_eq_eq_eq, List.forall₂_map_left_iff, List.forall₂_map_right_iff]

theorem Field.forall₂_respelled_iff {fs gs : List Field} :
    List.Forall₂ Field.Respelled fs gs ↔ fs.map (·.canonical) = gs.map (·.canonical) := by
  rw [map_eq_map_iff_forall₂]
  simp only [← Field.respelled_iff]

theorem Kind.respelled_iff {k k' : Kind} : k.Respelled k' ↔ k.canonical = k'.canonical := by
  constructor
  · intro h
    cases h with
    | enum h vs d => simp only [Kind.canonical, TypeRef.respelled_iff.1 h]
    | union vs => rfl
    | table h => simp only [Kind.canonical, Field.forall₂_respelled_iff.1 h]
    | struct h n => simp only [Kind.canonical, Field.forall₂_respelled_iff.1 h]
  · intro h
    cases k with
    | enum b vs d =>
      cases k' <;> simp only [Kind.canonical, Kind.enum.injEq, reduceCtorEq] at h
      obtain ⟨hbase, rfl, rfl⟩ := h
      exact .enum (TypeRef.respelled_iff.2 hbase) vs d
    | union vs =>
      cases k' <;> cases h
      exact .union vs
    | table fs =>
      cases k' <;> simp only [Kind.canonical, Kind.table.injEq, reduceCtorEq] at h
      exact .table (Field.forall₂_respelled_iff.2 h)
    | struct fs n =>
      cases k' <;> simp only [Kind.canonical, Kind.struct.injEq, reduceCtorEq] at h
      obtain ⟨hfields, rfl⟩ := h
      exact .struct (Field.forall₂_respelled_iff.2 hfields) n

theorem TypeDecl.respelled_iff {t u : TypeDecl} : t.Respelled u ↔ t.canonical = u.canonical := by
  obtain ⟨name, home, metadata, kind⟩ := t
  obtain ⟨name', home', metadata', kind'⟩ := u
  constructor
  · rintro ⟨hrest, hkind⟩
    cases hrest
    simp only [TypeDecl.canonical, Kind.respelled_iff.1 hkind]
  · intro h
    simp only [TypeDecl.canonical, TypeDecl.mk.injEq] at h
    obtain ⟨rfl, rfl, rfl, hkind⟩ := h
    exact ⟨rfl, Kind.respelled_iff.2 hkind⟩

theorem Schema.respelled_iff {s t : Schema} : s.Respelled t ↔ s.canonical = t.canonical := by
  have htypes : List.Forall₂ TypeDecl.Respelled s.types t.types ↔
      s.types.map (·.canonical) = t.types.map (·.canonical) := by
    rw [map_eq_map_iff_forall₂]
    simp only [← TypeDecl.respelled_iff]
  obtain ⟨name, namespaces, ids, types, rootType, identifier, extension, attributes, files, seen⟩ := s
  obtain ⟨name', namespaces', ids', types', rootType', identifier', extension', attributes', files',
    seen'⟩ := t
  constructor
  · rintro ⟨hrest, h⟩
    cases hrest
    simp only [Schema.canonical, htypes.1 h]
  · intro h
    simp only [Schema.canonical, Schema.mk.injEq] at h
    obtain ⟨rfl, rfl, rfl, h, rfl, rfl, rfl, rfl, rfl, rfl⟩ := h
    exact ⟨rfl, htypes.2 h⟩

/-! ## What a canonical schema has in common with the schema -/

theorem TypeRef.canonical_of_isResolved {r : TypeRef} (h : r.isResolved = true) : r.canonical = r := by
  cases r with
  | unresolved w => cases h
  | primitive p => rfl
  | declared x => rfl

@[simp] theorem TypeRef.isResolved_canonical (r : TypeRef) : r.canonical.isResolved = r.isResolved := by
  cases r <;> rfl

@[simp] theorem Kind.isEnum_canonical (k : Kind) : k.canonical.isEnum = k.isEnum := by
  cases k <;> rfl

@[simp] theorem Kind.isStruct_canonical (k : Kind) : k.canonical.isStruct = k.isStruct := by
  cases k <;> rfl

@[simp] theorem Kind.size?_canonical (k : Kind) : k.canonical.size? = k.size? := by
  cases k <;> rfl

@[simp] theorem Kind.fields_canonical (k : Kind) : k.canonical.fields = k.fields.map (·.canonical) := by
  cases k <;> rfl

@[simp] theorem Kind.base?_canonical (k : Kind) : k.canonical.base? = k.base? := by
  cases k with
  | enum b vs d => cases b <;> rfl
  | union vs => rfl
  | table fs => rfl
  | struct fs n => rfl

@[simp] theorem enumDefault_canonical (k : Kind) (literal : Option Value) :
    Resolving.enumDefault k.canonical literal = Resolving.enumDefault k literal := by
  cases k <;> cases literal <;> rfl

@[simp] theorem TypeDecl.fields_canonical (t : TypeDecl) :
    t.canonical.fields = t.fields.map (·.canonical) :=
  Kind.fields_canonical t.kind

namespace Schema

@[simp] theorem types_canonical (s : Schema) (id : TypeId) :
    s.canonical.types[id]? = s.types[id]?.map (·.canonical) := by
  simp [canonical]

theorem types_canonical_eq {s : Schema} {id : TypeId} {t : TypeDecl} (ht : s.types[id]? = some t) :
    s.canonical.types[id]? = some t.canonical := by
  rw [types_canonical, ht, Option.map_some]

theorem not_enum_canonical {s : Schema} {id : TypeId}
    (h : ∀ t, s.types[id]? = some t → t.kind.isEnum = false) (t' : TypeDecl)
    (ht' : s.canonical.types[id]? = some t') : t'.kind.isEnum = false := by
  rw [types_canonical] at ht'
  obtain ⟨t, ht, rfl⟩ := Option.map_eq_some_iff.1 ht'
  exact (Kind.isEnum_canonical t.kind).trans (h t ht)

@[simp] theorem field?_canonical (s : Schema) (id : TypeId) (i : Nat) :
    s.canonical.field? id i = (s.field? id i).map (·.canonical) := by
  unfold field?
  rw [types_canonical]
  cases s.types[id]? with
  | none => rfl
  | some t => simp

@[simp] theorem findType?_canonical (s : Schema) (ns : NamespaceId) (name : String) :
    s.canonical.findType? ns name = s.findType? ns name :=
  findType?_congr rfl rfl ns name

@[simp] theorem children_canonical (s : Schema) (ns : NamespaceId) :
    s.canonical.children ns = s.children ns :=
  rfl

/-- A name that is no primitive's is its own canonical one, and is looked up among the same types. -/
theorem refer_canonical (s : Schema) (ns : NamespaceId) (name : String) :
    s.canonical.refer ns (canonicalName name) = s.refer ns name := by
  unfold refer
  rw [ofName?_canonicalName]
  cases h : Primitive.ofName? name with
  | some p => rfl
  | none =>
    have hname : canonicalName name = name := by rw [canonicalName, h]; rfl
    rw [hname, findType?_canonical]

@[simp] theorem inline?_canonical (s : Schema) (f : Field) :
    s.canonical.inline? f.canonical = s.inline? f := by
  obtain ⟨name, type, repeated, default, offset, metadata⟩ := f
  cases type with
  | unresolved w => rfl
  | primitive p => rfl
  | declared x =>
    simp only [inline?, Field.canonical, TypeRef.canonical, types_canonical]
    cases s.types[x]? with
    | none => rfl
    | some t => simp [TypeDecl.canonical]

/-- An element may be changed before or after all are mapped. -/
theorem map_modify_comm {α : Type} {c f g : α → α} (h : ∀ x, c (f x) = g (c x)) (xs : List α) (i : Nat) :
    (xs.modify i f).map c = (xs.map c).modify i g := by
  refine List.ext_getElem? fun j => ?_
  rw [List.getElem?_map, List.getElem?_modify, List.getElem?_modify, List.getElem?_map]
  cases xs[j]? with
  | none => rfl
  | some x => split <;> simp [h]

theorem canonical_updateType {f g : TypeDecl → TypeDecl} (s : Schema) (id : TypeId)
    (h : ∀ t, (f t).canonical = g t.canonical) :
    (s.updateType id f).canonical = s.canonical.updateType id g := by
  simp only [updateType, canonical, map_modify_comm h]

theorem canonical_updateField {f g : Field → Field} (s : Schema) (id : TypeId) (i : Nat)
    (h : ∀ x, (f x).canonical = g x.canonical) :
    (s.updateField id i f).canonical = s.canonical.updateField id i g := by
  refine canonical_updateType s id fun t => ?_
  obtain ⟨name, home, metadata, kind⟩ := t
  simp only [TypeDecl.canonical, TypeDecl.mapKind]
  cases kind with
  | enum b vs d => rfl
  | union vs => rfl
  | table fs => simp only [Kind.mapFields, Kind.canonical, map_modify_comm h]
  | struct fs n => simp only [Kind.mapFields, Kind.canonical, map_modify_comm h]

theorem canonical_updateField_offset (s : Schema) (id : TypeId) (i : Nat) (o : ByteCount) :
    (s.updateField id i fun f => { f with offset := some o }).canonical =
      s.canonical.updateField id i fun f => { f with offset := some o } :=
  canonical_updateField s id i fun _ => rfl

end Schema

/-! ## Steps -/

namespace Resolving

open Schema

/-- The end of a run, with the schema spelled canonically. -/
def canonicalEnd {α : Type} : EStateM.Result SchemaError Schema α → EStateM.Result SchemaError Schema α
  | .ok a s => .ok a s.canonical
  | .error e s => .error e s.canonical

/-- Run on the canonical spelling, `m` ends the same way and in the canonical spelling. -/
def Commutes {α : Type} (m : Resolving α) : Prop :=
  ∀ s : Schema, m.run s.canonical = canonicalEnd (m.run s)

section Rules

variable {α β : Type}

theorem Commutes.bind {m : Resolving α} {f : α → Resolving β} (hm : Commutes m)
    (hf : ∀ a, Commutes (f a)) : Commutes (m >>= f) := by
  intro s
  rw [EStateM.run_bind, EStateM.run_bind, hm s]
  cases m.run s with
  | ok a s' => exact hf a s'
  | error e s' => rfl

theorem Commutes.forM {f : α → Resolving Unit} (hf : ∀ a, Commutes (f a)) (xs : List α) :
    Commutes (xs.forM f) := by
  induction xs with
  | nil => exact fun s => rfl
  | cons x xs ih => exact (hf x).bind fun _ => ih

theorem Commutes.foldlM {f : β → α → Resolving β} (hf : ∀ b a, Commutes (f b a)) (xs : List α)
    (b : β) : Commutes (xs.foldlM f b) := by
  induction xs generalizing b with
  | nil => exact fun s => rfl
  | cons x xs ih =>
    rw [List.foldlM_cons]
    exact (hf b x).bind ih

end Rules

theorem settleBase_canonical (s : Schema) (t : TypeDecl) (b : TypeRef) (d : Option Value) :
    settleBase s.canonical t.canonical b.canonical d = settleBase s t b d := by
  cases b with
  | primitive p => rfl
  | declared x => rfl
  | unresolved w =>
    simp only [settleBase, TypeRef.canonical, TypeDecl.canonical, refer_canonical]

theorem canonical_putEnum (s : Schema) (id : TypeId) {b : TypeRef} (vs : List Entry)
    (d : Option Value) (hb : b.isResolved = true) :
    (putEnum s id b vs d).canonical = putEnum s.canonical id b vs d := by
  refine canonical_updateType s id fun t => ?_
  simp only [TypeDecl.canonical, TypeDecl.mapKind, Kind.canonical, TypeRef.canonical_of_isResolved hb]

theorem commutes_resolveEnum (id : TypeId) : Commutes (resolveEnum id) := by
  intro s
  by_cases hne : ∀ t, s.types[id]? = some t → t.kind.isEnum = false
  · rw [run_resolveEnum_of_not_enum hne, run_resolveEnum_of_not_enum (not_enum_canonical hne)]
    rfl
  · obtain ⟨t, ht, hk⟩ : ∃ t, s.types[id]? = some t ∧ t.kind.isEnum = true := by simpa using hne
    obtain ⟨b, vs, d, hke⟩ := Kind.eq_enum_of_isEnum hk
    have hke' : t.canonical.kind = .enum b.canonical vs d := by rw [TypeDecl.canonical, hke]; rfl
    rw [run_resolveEnum ht hke, run_resolveEnum (types_canonical_eq ht) hke', settleBase_canonical]
    cases hb : settleBase s t b d with
    | error e => rfl
    | ok bd =>
      obtain ⟨b', d'⟩ := bd
      have hput := canonical_putEnum s id (numberValues vs).1 d' (settleBase_ok hb).1
      dsimp only
      cases (numberValues vs).2 with
      | some name => simp only [canonicalEnd, hput]
      | none => simp only [canonicalEnd, hput]

theorem commutes_fieldDefault (r : TypeRef) (literal : Option Value) :
    Commutes (fieldDefault r literal) := by
  intro s
  cases r with
  | unresolved w => rfl
  | primitive p => rfl
  | declared x =>
    by_cases hne : ∀ t, s.types[x]? = some t → t.kind.isEnum = false
    · rw [run_fieldDefault_of_not_enum literal hne,
        run_fieldDefault_of_not_enum literal (not_enum_canonical hne)]
      rfl
    · obtain ⟨t, ht, hk⟩ : ∃ t, s.types[x]? = some t ∧ t.kind.isEnum = true := by simpa using hne
      have hk' : t.canonical.kind.isEnum = true := (Kind.isEnum_canonical t.kind).trans hk
      rw [run_fieldDefault_of_enum literal ht hk,
        run_fieldDefault_of_enum literal (types_canonical_eq ht) hk', commutes_resolveEnum x s]
      cases (resolveEnum x).run s with
      | error e s' => rfl
      | ok a s' =>
        simp only [canonicalEnd, types_canonical]
        cases s'.types[x]? with
        | none => rfl
        | some t' =>
          simp only [Option.map_some, TypeDecl.canonical, enumDefault_canonical]
          cases enumDefault t'.kind literal <;> rfl

theorem commutes_resolveField (owner : TypeId) (i : Nat) : Commutes (resolveField owner i) := by
  intro s
  by_cases hres : s.FieldSettled owner i
  · have hres' : s.canonical.FieldSettled owner i := by
      intro f' hf'
      rw [field?_canonical] at hf'
      obtain ⟨f, hf, rfl⟩ := Option.map_eq_some_iff.1 hf'
      exact (TypeRef.isResolved_canonical f.type).trans (hres f hf)
    rw [run_resolveField_of_resolved hres, run_resolveField_of_resolved hres']
    rfl
  · obtain ⟨f, hf, hu⟩ : ∃ f, s.field? owner i = some f ∧ f.type.isResolved = false := by
      simpa [FieldSettled] using hres
    obtain ⟨t, ht, hft⟩ := Option.bind_eq_some_iff.1 hf
    obtain ⟨w, hw⟩ := TypeRef.eq_unresolved hu
    have hft' : t.canonical.fields[i]? = some f.canonical := by
      rw [TypeDecl.fields_canonical, List.getElem?_map, hft, Option.map_some]
    have hw' : f.canonical.type = .unresolved { w with name := canonicalName w.name } := by
      rw [Field.canonical, hw]
      rfl
    rw [run_resolveField ht hft hw, run_resolveField (types_canonical_eq ht) hft' hw']
    simp only [TypeDecl.canonical, Field.canonical, refer_canonical]
    cases hr : s.refer t.home w.name with
    | error e => rfl
    | ok r =>
      dsimp only
      rw [commutes_fieldDefault r f.default s]
      cases (fieldDefault r f.default).run s with
      | error e s' => rfl
      | ok d s' =>
        simp only [canonicalEnd]
        -- What the name denotes is resolved, so it has no other spelling.
        have hr' := TypeRef.canonical_of_isResolved (isResolved_of_refer hr)
        rw [canonical_updateField (g := settle r w d) s' owner i fun x => ?_]
        · rfl
        · simp only [settle, Field.canonical, hr']

theorem commutes_resolveTable (id : TypeId) (count : Nat) : Commutes (resolveTable id count) := by
  refine .forM (fun i => (commutes_resolveField id i).bind fun _ s => ?_) _
  simp only [Resolver.updateField, EStateM.run_modify, canonicalEnd, canonical_updateField_offset]

theorem commutes_placeField {layout : TypeId → Resolving Unit} (hl : ∀ x, Commutes (layout x))
    (owner : TypeId) (name : String) (offset : ByteCount) (i : Nat) :
    Commutes (placeField layout owner name offset i) := by
  intro s
  rw [run_placeField, run_placeField, commutes_resolveField owner i s]
  cases (resolveField owner i).run s with
  | error e s₁ => rfl
  | ok a s₁ =>
    simp only [canonicalEnd, field?_canonical]
    cases s₁.field? owner i with
    | none => rfl
    | some f =>
      simp only [Option.map_some, inline?_canonical]
      cases s₁.inline? f with
      | none => rfl
      | some l =>
        cases l with
        | scalar n => simp only [canonical_updateField_offset]
        | nested x =>
          dsimp only
          rw [hl x s₁]
          cases (layout x).run s₁ with
          | error e s₂ => rfl
          | ok a s₂ =>
            have hsize : s₂.canonical.types[x]?.bind (·.kind.size?) =
                s₂.types[x]?.bind (·.kind.size?) := by
              rw [types_canonical]
              cases s₂.types[x]? <;> simp [TypeDecl.canonical]
            simp only [canonicalEnd, canonical_updateField_offset, hsize]

theorem commutes_setSize (id : TypeId) (n : ByteCount) : Commutes (setSize id n) := by
  intro s
  simp only [Resolver.setSize, EStateM.run_modify, canonicalEnd]
  congr 1
  refine (canonical_updateType s id fun t => ?_).symm
  obtain ⟨name, home, metadata, kind⟩ := t
  cases kind <;> rfl

theorem commutes_layoutStruct (free : List TypeId) (id : TypeId) :
    Commutes (layoutStruct free id) := by
  induction free, id using Resolver.layoutStruct.induct with
  | case1 free id ih =>
    intro s
    cases ht : s.types[id]? with
    | none =>
      have ht' : s.canonical.types[id]? = none := by rw [types_canonical, ht, Option.map_none]
      rw [layoutStruct, Resolver.layoutStruct]
      simp only [EStateM.run_bind, EStateM.run_get, ht, ht']
      rfl
    | some t =>
      rw [run_layoutStruct free ht, run_layoutStruct free (types_canonical_eq ht)]
      simp only [TypeDecl.canonical, TypeDecl.fields, Kind.size?_canonical, Kind.fields_canonical,
        List.length_map]
      split
      · rfl
      · split
        · next hid =>
          refine (Commutes.foldlM ?_ _ 0).bind (commutes_setSize id) s
          exact commutes_placeField (ih hid) id t.name
        · rfl

theorem commutes_resolveType (id : TypeId) : Commutes (resolveType id) := by
  intro s
  cases ht : s.types[id]? with
  | none =>
    have ht' : s.canonical.types[id]? = none := by rw [types_canonical, ht, Option.map_none]
    rw [run_resolveType_of_none ht, run_resolveType_of_none ht']
    rfl
  | some t =>
    rw [run_resolveType ht, run_resolveType (types_canonical_eq ht), TypeDecl.canonical]
    cases t.kind with
    | enum b vs d => exact commutes_resolveEnum id s
    | union vs => rfl
    | table fs =>
      simp only [Kind.canonical, List.length_map]
      exact commutes_resolveTable id fs.length s
    | struct fs n =>
      have hlength : s.canonical.types.length = s.types.length := List.length_map _
      simp only [Kind.canonical, hlength]
      exact commutes_layoutStruct _ id s

theorem commutes_resolveRoot (ns : NamespaceId) : Commutes (resolveRoot ns) := by
  intro s
  have hns : s.canonical.namespaces = s.namespaces := rfl
  rw [run_resolveRoot, run_resolveRoot, hns]
  cases s.namespaces[ns]?.bind (·.rootName) with
  | none => rfl
  | some name =>
    simp only [findType?_canonical]
    cases s.findType? ns name <;> rfl

theorem commutes_resolveNamespace (ns : NamespaceId) : Commutes (resolveNamespace ns) := by
  intro s
  have hrun : ∀ s : Schema, (resolveNamespace ns).run s =
      ((s.children ns).forM resolveType >>= fun _ => resolveRoot ns).run s := fun _ => rfl
  rw [hrun, hrun, children_canonical]
  exact (Commutes.forM commutes_resolveType _).bind (fun _ => commutes_resolveRoot ns) s

theorem commutes_resolveAll : Commutes resolveAll := by
  intro s
  exact Commutes.forM commutes_resolveNamespace (List.range s.namespaces.length) s

end Resolving

/-! ## Runs -/

namespace Schema

theorem resolve_canonical (s : Schema) : s.canonical.resolve = (s.resolve.1.canonical, s.resolve.2) := by
  unfold resolve
  rw [Resolving.commutes_resolveAll s]
  cases Resolving.resolveAll.run s <;> rfl

variable {s s' t : Schema}

/-- In a resolved schema every name is replaced by what it denotes. -/
theorem Resolves.canonical (h : s.Resolves s') : s'.canonical = s' := by
  refine ext_types rfl fun id => ?_
  rw [types_canonical]
  cases ht' : s'.types[id]? with
  | none => rfl
  | some t' =>
    have hfields : t'.fields.map (·.canonical) = t'.fields := by
      refine (List.map_congr_left fun f' hf' => ?_).trans (List.map_id _)
      obtain ⟨i, hi⟩ := List.getElem?_of_mem hf'
      obtain ⟨t, f, -, -, hf⟩ := h.field (show s'.field? id i = some f' by rw [field?, ht']; exact hi)
      obtain ⟨w, -, hw, -⟩ := hf.type
      rw [Field.canonical, TypeRef.canonical_of_isResolved hw.isResolved]
      rfl
    obtain ⟨name, home, metadata, kind⟩ := t'
    simp only [Option.map_some, TypeDecl.canonical]
    cases kind with
    | enum b vs d =>
      obtain ⟨t, -, w, p, vs₀, vs', d₀, -, hk, -⟩ := h.enum ht' rfl
      cases hk
      rfl
    | union vs => rfl
    | table fs => rw [Kind.canonical, show fs.map (·.canonical) = fs from hfields]
    | struct fs n => rw [Kind.canonical, show fs.map (·.canonical) = fs from hfields]

/-! ## Top theorem -/

/-- Respellings resolve to the same schema, or fail for the same reason and are respellings still. -/
theorem resolve_respelled (hs : s.Registered) (ht : t.Registered) (h : s.Respelled t) :
    (s.resolve.2 = none ∧ t.resolve.2 = none ∧ s.resolve.1 = t.resolve.1) ∨
      ∃ e, s.resolve.2 = some e ∧ t.resolve.2 = some e ∧ s.resolve.1.Respelled t.resolve.1 := by
  have hres : (s.resolve.1.canonical, s.resolve.2) = (t.resolve.1.canonical, t.resolve.2) := by
    rw [← resolve_canonical, ← resolve_canonical, respelled_iff.1 h]
  obtain ⟨hschema, hend⟩ := Prod.mk.inj hres
  cases he : s.resolve.2 with
  | some e => exact .inr ⟨e, rfl, hend ▸ he, respelled_iff.2 hschema⟩
  | none =>
    have he' : t.resolve.2 = none := hend ▸ he
    refine .inl ⟨rfl, he', ?_⟩
    rwa [(hs.fresh.resolves he).canonical, (ht.fresh.resolves he').canonical] at hschema

/-- An enum, a struct and a table, with the names of the primitives left open. -/
def gauge (base scalar element : String) : Schema :=
  let types : List TypeDecl := [
    ⟨"Unit", 0, none, .enum (.unresolved ⟨base, false⟩) [⟨"Bar", none⟩] none⟩,
    ⟨"Mark", 0, none, .struct [⟨"at", .unresolved ⟨scalar, false⟩, false, none, none, none⟩,
      ⟨"unit", .unresolved ⟨"Unit", false⟩, false, none, none, none⟩] none⟩,
    ⟨"Dial", 0, none, .table [⟨"max", .unresolved ⟨"Mark", false⟩, false, none, none, none⟩,
      ⟨"log", .unresolved ⟨element, true⟩, true, none, none, none⟩,
      ⟨"unit", .unresolved ⟨"Unit", false⟩, false, some (.ident "Bar"), none, none⟩]⟩]
  types.foldl declare ((empty "gauge").defineNamespace "").2

/-- The text of `gauge`. -/
def gaugeText (base scalar element : String) : String :=
  "enum Unit : " ++ base ++ " \x7b Bar \x7d struct Mark \x7b at : " ++ scalar ++ "; unit : Unit; \x7d " ++
    "table Dial \x7b max : Mark; log : [" ++ element ++ "]; unit : Unit = Bar; \x7d"

theorem registered_gauge :
    (gauge "byte" "int" "ulong").Registered ∧ (gauge "int8" "int32" "uint64").Registered := by
  have haliases : ((empty "gauge").parse "gauge.fbs" (gaugeText "byte" "int" "ulong")).1 =
      gauge "byte" "int" "ulong" := by decide +kernel
  have hnames : ((empty "gauge").parse "gauge.fbs" (gaugeText "int8" "int32" "uint64")).1 =
      gauge "int8" "int32" "uint64" := by decide +kernel
  rw [← haliases, ← hnames]
  exact ⟨.parse (.empty "gauge") _ _, .parse (.empty "gauge") _ _⟩

theorem resolve_respelled_gauge :
    (gauge "byte" "int" "ulong").Respelled (gauge "int8" "int32" "uint64") ∧
      (gauge "byte" "int" "ulong").resolve.2 = none ∧ (gauge "int8" "int32" "uint64").resolve.2 = none ∧
        (gauge "byte" "int" "ulong").resolve.1 = (gauge "int8" "int32" "uint64").resolve.1 := by
  have hspelled : (gauge "byte" "int" "ulong").Respelled (gauge "int8" "int32" "uint64") :=
    respelled_iff.2 (by decide +kernel)
  have hok : (gauge "byte" "int" "ulong").resolve.2 = none := by decide +kernel
  refine ⟨hspelled, hok, ?_⟩
  rcases resolve_respelled registered_gauge.1 registered_gauge.2 hspelled with h | ⟨e, he, -⟩
  · exact h.2
  · rw [hok] at he
    cases he

end Schema

end FlatSchema
