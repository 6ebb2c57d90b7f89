import FlatSchema.Schema.Registry
import FlatSchema.Proofs.Resolution.Steps

/-!
# Resolution never disturbs names

The resolver writes to the schema many times, and may stop after any of the writes.  Its code is over
an arbitrary monad with a schema to read and write.  Over `Resolving` it resolves a schema; over
`Recording`, where a write adds a version to a `History`, it tells what the schema is at every moment of
the run.

`Schema.Keeps s v` says that `v` has the naming structure of `s`, and all that was settled in it.
Both runs end alike, and every version is kept from the first one:

    (s.record.1.current, s.record.2) = s.resolve,    v ∈ s.record.1.versions → s.Keeps v

Lookup depends on what is kept only, so it answers the same at every moment (`Keeps.findType?`).
-/

namespace FlatSchema

/-! ## What is kept -/

/-- Of an enum and of the fields, what is settled; a union altogether. -/
inductive Kind.Keeps : Kind → Kind → Prop where
  | enum {b b' : TypeRef} {vs vs' : List Entry} (d d' : Option Value)
      (base : b.isResolved = true → b' = b) (values : Along (fun _ => Entry.Later) vs vs') :
    Keeps (.enum b vs d) (.enum b' vs' d')
  | union (vs : List Entry) : Keeps (.union vs) (.union vs)
  | table {fs fs' : List Field} (fields : Along (fun _ => Field.Later) fs fs') :
    Keeps (.table fs) (.table fs')
  | struct {fs fs' : List Field} (n n' : Option ByteCount)
      (fields : Along (fun _ => Field.Later) fs fs') : Keeps (.struct fs n) (.struct fs' n')

structure TypeDecl.Keeps (t t' : TypeDecl) : Prop where
  name : t'.name = t.name
  home : t'.home = t.home
  metadata : t'.metadata = t.metadata
  kind : t.kind.Keeps t'.kind

/-- All but the types and the root type is the same, and the types are kept one by one. -/
structure Schema.Keeps (s s' : Schema) : Prop where
  rest : s' = { s with types := s'.types, rootType := s'.rootType }
  types : Along (fun _ => TypeDecl.Keeps) s.types s'.types

namespace Kind.Keeps

theorem refl (k : Kind) : k.Keeps k := by
  cases k with
  | enum b vs d => exact .enum d d (fun _ => rfl) (.refl (fun _ => Entry.Later.refl) vs)
  | union vs => exact .union vs
  | table fs => exact .table (.refl (fun _ => Field.Later.refl) fs)
  | struct fs n => exact .struct n n (.refl (fun _ => Field.Later.refl) fs)

theorem trans {k k' k'' : Kind} (h : k.Keeps k') (h' : k'.Keeps k'') : k.Keeps k'' := by
  cases h with
  | union vs => exact h'
  | enum d _ hb hv =>
    cases h' with
    | enum _ d'' hb' hv' =>
      refine .enum d d'' (fun hr => ?_) (hv.trans (fun _ _ _ _ => Entry.Later.trans) hv')
      obtain rfl := hb hr
      exact hb' hr
  | table hf =>
    cases h' with
    | table hf' => exact .table (hf.trans (fun _ _ _ _ => Field.Later.trans) hf')
  | struct n _ hf =>
    cases h' with
    | struct _ n'' hf' => exact .struct n n'' (hf.trans (fun _ _ _ _ => Field.Later.trans) hf')

/-- A change to one field. -/
theorem mapFields {k : Kind} {i : Nat} {g : Field → Field}
    (h : ∀ f, k.fields[i]? = some f → f.Later (g f)) : k.Keeps (k.mapFields (·.modify i g)) := by
  cases k with
  | enum b vs d => exact refl _
  | union vs => exact refl _
  | table fs => exact .table (.modify (fun _ => Field.Later.refl) g h)
  | struct fs n => exact .struct n n (.modify (fun _ => Field.Later.refl) g h)

end Kind.Keeps

namespace Schema.Keeps

variable {s s' s'' : Schema}

theorem refl (s : Schema) : s.Keeps s :=
  ⟨rfl, .refl (fun _ t => ⟨rfl, rfl, rfl, .refl t.kind⟩) s.types⟩

theorem trans (h : s.Keeps s') (h' : s'.Keeps s'') : s.Keeps s'' := by
  refine ⟨?_, h.types.trans (fun _ t t' t'' ht ht' => ?_) h'.types⟩
  · have := h'.rest
    rw [h.rest] at this
    exact this
  · exact ⟨ht'.name.trans ht.name, ht'.home.trans ht.home, ht'.metadata.trans ht.metadata,
      ht.kind.trans ht'.kind⟩

/-- The root type may be any. -/
theorem withRoot (s : Schema) (root : Option TypeId) : s.Keeps { s with rootType := root } :=
  ⟨rfl, (refl s).types⟩

theorem mapKind (s : Schema) {id : TypeId} {f : Kind → Kind}
    (h : ∀ t, s.types[id]? = some t → t.kind.Keeps (f t.kind)) :
    s.Keeps (s.updateType id (·.mapKind f)) :=
  ⟨rfl, .modify (fun _ t => ⟨rfl, rfl, rfl, .refl t.kind⟩) _ fun t ht => ⟨rfl, rfl, rfl, h t ht⟩⟩

theorem updateField (s : Schema) {id : TypeId} {i : Nat} {g : Field → Field}
    (h : ∀ f, s.field? id i = some f → f.Later (g f)) : s.Keeps (s.updateField id i g) :=
  mapKind s fun t ht => .mapFields fun f hf => h f (by rw [Schema.field?, ht]; exact hf)

theorem setOffset (s : Schema) (id : TypeId) (i : Nat) (o : Option ByteCount) :
    s.Keeps (s.updateField id i fun f => { f with offset := o }) :=
  updateField s fun f _ => .offset f o

/-! ### Lookup -/

theorem namespaces (h : s.Keeps s') : s'.namespaces = s.namespaces := by
  rw [h.rest]

theorem namespaceId? (h : s.Keeps s') (name : String) : s'.namespaceId? name = s.namespaceId? name := by
  rw [h.rest]
  rfl

theorem children (h : s.Keeps s') (ns : NamespaceId) : s'.children ns = s.children ns := by
  rw [Schema.children, Schema.children, h.namespaces]

theorem child? (h : s.Keeps s') (ns : NamespaceId) (name : String) :
    s'.child? ns name = s.child? ns name := by
  rw [Schema.child?, Schema.child?, h.namespaces]

theorem findType? (h : s.Keeps s') (ns : NamespaceId) (name : String) :
    s'.findType? ns name = s.findType? ns name :=
  findType?_congr h.namespaces (by rw [h.rest]) ns name

end Schema.Keeps

/-! ## Recording -/

/-- A schema with the versions it had before, the latest first. -/
structure History where
  current : Schema
  earlier : List Schema

namespace History

def start (s : Schema) : History :=
  ⟨s, []⟩

def versions (h : History) : List Schema :=
  h.current :: h.earlier

def write (h : History) (s : Schema) : History :=
  ⟨s, h.versions⟩

/-- `s` is the first version, and every version is kept from it. -/
structure KeptFrom (s : Schema) (h : History) : Prop where
  first : h.versions.getLast? = some s
  keeps : ∀ v ∈ h.versions, s.Keeps v

theorem keptFrom_start (s : Schema) : (start s).KeptFrom s := by
  refine ⟨rfl, fun v hv => ?_⟩
  obtain rfl := List.mem_singleton.1 hv
  exact .refl v

theorem KeptFrom.write {s s' : Schema} {h : History} (hk : h.KeptFrom s)
    (hs : h.current.Keeps s') : (h.write s').KeptFrom s := by
  refine ⟨hk.first, fun v hv => ?_⟩
  rcases List.mem_cons.1 hv with rfl | hv
  · exact (hk.keeps h.current List.mem_cons_self).trans hs
  · exact hk.keeps v hv

end History

/-- A computation that keeps every version of the schema. -/
abbrev Recording := EStateM SchemaError History

instance : MonadStateOf Schema Recording where
  get := fun h => .ok h.current h
  set s := fun h => .ok ⟨⟩ (h.write s)
  modifyGet f := fun h => .ok (f h.current).1 (h.write (f h.current).2)

/-- Every version of the schema in its resolution, with the failure that ended it early if there was
one. -/
def Schema.record (s : Schema) : History × Option SchemaError :=
  match (Resolver.resolveAll (m := Recording)).run (.start s) with
  | .ok _ h => (h, none)
  | .error e h => (h, some e)

/-! ## A recorded run ends as the run does -/

namespace Recording

open Schema

variable {α β : Type} {s : Schema} {h : History}

/-- From `h`, the run of `r` ends as that of `m` does, with the same answer or failure and the same
schema; every version is kept from `s`. -/
inductive Records (s : Schema) (h : History) (r : Recording α) (m : Resolving α) : Prop where
  | ok {a : α} {h' : History} (hr : r.run h = .ok a h') (hm : m.run h.current = .ok a h'.current)
      (hk : h'.KeptFrom s)
  | error {e : SchemaError} {h' : History} (hr : r.run h = .error e h')
      (hm : m.run h.current = .error e h'.current) (hk : h'.KeptFrom s)

/-- Whatever was recorded before. -/
def Tracks (s : Schema) (r : Recording α) (m : Resolving α) : Prop :=
  ∀ h : History, h.KeptFrom s → Records s h r m

/-! ### Rules -/

/-- What follows may rest on how the run of `m` ended. -/
theorem Records.bind {r : Recording α} {m : Resolving α} {f : α → Recording β} {g : α → Resolving β}
    (hr : Records s h r m)
    (hf : ∀ a h', m.run h.current = .ok a h'.current → h'.KeptFrom s → Records s h' (f a) (g a)) :
    Records s h (r >>= f) (m >>= g) := by
  have hrun : (r >>= f).run h = _ := EStateM.run_bind r f
  have hmun : (m >>= g).run h.current = _ := EStateM.run_bind m g
  cases hr with
  | error hr hm hk =>
    rw [hr] at hrun
    rw [hm] at hmun
    exact .error hrun hmun hk
  | ok hr hm hk =>
    rw [hr] at hrun
    rw [hm] at hmun
    cases hf _ _ hm hk with
    | ok hr' hm' hk' => exact .ok (hrun.trans hr') (hmun.trans hm') hk'
    | error hr' hm' hk' => exact .error (hrun.trans hr') (hmun.trans hm') hk'

theorem Records.get_bind {f : Schema → Recording β} {g : Schema → Resolving β}
    (hf : Records s h (f h.current) (g h.current)) :
    Records s h (getThe Schema >>= f) (get >>= g) := by
  cases hf with
  | ok hr hm hk => exact .ok hr hm hk
  | error hr hm hk => exact .error hr hm hk

theorem Records.modify {f : Schema → Schema} (hk : h.KeptFrom s) (hf : h.current.Keeps (f h.current)) :
    Records s h (modifyThe Schema f) (modify f) :=
  .ok rfl rfl (hk.write hf)

theorem Tracks.pure (a : α) : Tracks s (Pure.pure a) (Pure.pure a) :=
  fun _ hk => .ok rfl rfl hk

theorem Tracks.throw (e : SchemaError) :
    Tracks s (throwThe SchemaError e : Recording α) (throw e : Resolving α) :=
  fun _ hk => .error rfl rfl hk

theorem Tracks.bind {r : Recording α} {m : Resolving α} {f : α → Recording β} {g : α → Resolving β}
    (hr : Tracks s r m) (hf : ∀ a, Tracks s (f a) (g a)) : Tracks s (r >>= f) (m >>= g) :=
  fun h hk => (hr h hk).bind fun a h' _ hk' => hf a h' hk'

theorem Tracks.get_bind {f : Schema → Recording β} {g : Schema → Resolving β}
    (hf : ∀ v, Tracks s (f v) (g v)) : Tracks s (getThe Schema >>= f) (get >>= g) :=
  fun h hk => .get_bind (hf h.current h hk)

theorem Tracks.modify {f : Schema → Schema} (hf : ∀ v : Schema, v.Keeps (f v)) :
    Tracks s (modifyThe Schema f) (modify f) :=
  fun h hk => .modify hk (hf h.current)

theorem Tracks.forM {f : α → Recording Unit} {g : α → Resolving Unit} (hf : ∀ a, Tracks s (f a) (g a))
    (xs : List α) : Tracks s (xs.forM f) (xs.forM g) := by
  induction xs with
  | nil => exact .pure ()
  | cons x xs ih => exact (hf x).bind fun _ => ih

theorem Tracks.foldlM {f : β → α → Recording β} {g : β → α → Resolving β}
    (hf : ∀ b a, Tracks s (f b a) (g b a)) (xs : List α) (b : β) :
    Tracks s (xs.foldlM f b) (xs.foldlM g b) := by
  induction xs generalizing b with
  | nil => exact .pure b
  | cons x xs ih => exact (hf b x).bind fun b' => ih b'

theorem tracks_ofExcept (x : Except SchemaError α) :
    Tracks s (Resolver.ofExcept x) (Resolver.ofExcept x) := by
  cases x with
  | ok a => exact .pure a
  | error e => exact .throw e

theorem eq_of_run_ofExcept {x : Except SchemaError α} {a : α} {v v' : Schema}
    (hx : (Resolver.ofExcept x : Resolving α).run v = .ok a v') : x = .ok a ∧ v' = v := by
  cases x with
  | ok b =>
    cases hx
    exact ⟨rfl, rfl⟩
  | error e => cases hx

/-! ### Enums -/

/-- The values are numbered as they stand in the schema. -/
theorem records_number {id : TypeId} {t : TypeDecl} {b : TypeRef} {vs : List Entry} {d : Option Value}
    (hk : h.KeptFrom s) (ht : h.current.types[id]? = some t) (he : t.kind = .enum b vs d) :
    Records s h (Resolver.number id vs) (Resolving.number id vs) := by
  unfold Resolving.number Resolver.number
  have hkeep : Along (fun _ => Entry.Later) vs (numberValues vs).1 := numberFrom_keeps (some 0) vs
  rcases hn : numberValues vs with ⟨numbered, stop⟩
  rw [hn] at hkeep
  refine Records.bind (.modify hk (Keeps.mapKind h.current fun t' ht' => ?_)) fun _ h' _ hk' => ?_
  · obtain rfl := Option.some.inj (ht.symm.trans ht')
    rw [he]
    exact .enum d d (fun _ => rfl) hkeep
  · cases stop with
    | some name => exact Tracks.throw _ h' hk'
    | none => exact Tracks.pure () h' hk'

/-- The base of an enum is set while it is only a name. -/
theorem records_setBase {id : TypeId} {t : TypeDecl} {w : TypeName} {vs : List Entry}
    {d : Option Value} (hk : h.KeptFrom s) (ht : h.current.types[id]? = some t)
    (he : t.kind = .enum (.unresolved w) vs d) (p : Primitive) :
    Records s h (Resolver.setBase id p) (Resolving.setBase id p) := by
  refine .modify hk (Keeps.mapKind h.current fun t' ht' => ?_)
  obtain rfl := Option.some.inj (ht.symm.trans ht')
  rw [he]
  exact .enum d _ (fun hr => by cases hr) (.refl (fun _ => Entry.Later.refl) vs)

theorem tracks_resolveEnum (id : TypeId) :
    Tracks s (Resolver.resolveEnum id) (Resolving.resolveEnum id) := by
  intro h hk
  refine Records.get_bind ?_
  cases ht : h.current.types[id]? with
  | none => exact Tracks.pure () h hk
  | some t =>
    obtain ⟨name, home, data, k⟩ := t
    cases k with
    | union vs => exact Tracks.pure () h hk
    | table fs => exact Tracks.pure () h hk
    | struct fs n => exact Tracks.pure () h hk
    | enum b vs d =>
      cases b with
      | primitive p => exact records_number hk ht rfl
      | declared x => exact records_number hk ht rfl
      | unresolved w =>
        refine (tracks_ofExcept _ h hk).bind fun r h₁ hrun hk₁ => ?_
        obtain ⟨-, hcur⟩ := eq_of_run_ofExcept hrun
        rw [← hcur] at ht
        cases r with
        | declared x => exact (Tracks.throw _ h₁ hk₁).bind fun _ _ hrun' _ => by cases hrun'
        | unresolved w' => exact (Tracks.throw _ h₁ hk₁).bind fun _ _ hrun' _ => by cases hrun'
        | primitive p =>
          refine (records_setBase hk₁ ht rfl p).bind fun _ h₂ hrun' hk₂ => ?_
          rw [Resolving.run_setBase ht rfl p] at hrun'
          injection hrun' with _ hcur'
          have ht₂ : h₂.current.types[id]? =
              some ⟨name, home, data, .enum (.primitive p) vs (some p.default)⟩ := by
            rw [← hcur', Resolving.putEnum, types_updateType_self, ht]
            rfl
          exact records_number hk₂ ht₂ rfl

/-! ### Fields -/

theorem tracks_fieldDefault (type : TypeRef) (literal : Option Value) :
    Tracks s (Resolver.fieldDefault type literal) (Resolving.fieldDefault type literal) := by
  cases type with
  | unresolved w => exact .pure _
  | primitive p => exact .pure _
  | declared x =>
    refine Tracks.get_bind fun v => ?_
    split
    · refine (tracks_resolveEnum x).bind fun _ => .get_bind fun v' => ?_
      cases v'.types[x]? with
      | none => exact .pure _
      | some t => exact tracks_ofExcept _
    · exact .pure _

/-- A field is settled while its type is only a name: giving it a default changes enums only. -/
theorem tracks_resolveField (owner : TypeId) (i : Nat) :
    Tracks s (Resolver.resolveField owner i) (Resolving.resolveField owner i) := by
  intro h hk
  refine Records.get_bind ?_
  cases ht : h.current.types[owner]? with
  | none => exact Tracks.pure () h hk
  | some t =>
    cases hf : t.fields[i]? with
    | none =>
      simp only [hf]
      exact Tracks.pure () h hk
    | some f =>
      obtain ⟨name, type, repeated, literal, offset, data⟩ := f
      simp only [hf]
      cases type with
      | primitive p => exact Tracks.pure () h hk
      | declared x => exact Tracks.pure () h hk
      | unresolved w =>
        refine (tracks_ofExcept _ h hk).bind fun r h₁ hrun hk₁ => ?_
        obtain ⟨hr, hcur⟩ := eq_of_run_ofExcept hrun
        rw [← hcur] at ht
        refine (tracks_fieldDefault r literal h₁ hk₁).bind fun d h₂ hrun' hk₂ => ?_
        have hends := Resolving.fieldDefault_ends idle r literal h₁.current
        rw [hrun'] at hends
        have ht₂ := hends.2 owner t ht (Resolving.isEnum_of_field hf)
        refine .modify hk₂ (Keeps.updateField h₂.current fun f hf₂ => ?_)
        rw [field?, ht₂, Option.bind_some, hf] at hf₂
        cases hf₂
        exact ⟨⟨rfl, rfl⟩, .inr ⟨rfl, isResolved_of_refer hr⟩⟩

theorem tracks_setOffset (owner : TypeId) (i : Nat) (o : ByteCount) :
    Tracks s (Resolver.updateField owner i fun f => { f with offset := some o })
      (Resolver.updateField owner i fun f => { f with offset := some o }) :=
  .modify fun v => .setOffset v owner i (some o)

/-! ### Tables and structs -/

theorem tracks_resolveTable (id : TypeId) (count : Nat) :
    Tracks s (Resolver.resolveTable id count) (Resolving.resolveTable id count) :=
  .forM (fun i => (tracks_resolveField id i).bind fun _ => tracks_setOffset id i _) _

theorem tracks_placeField {layout : TypeId → Recording Unit} {layout' : TypeId → Resolving Unit}
    (hl : ∀ x, Tracks s (layout x) (layout' x)) (owner : TypeId) (name : String) (offset : ByteCount)
    (i : Nat) :
    Tracks s (Resolver.placeField layout owner name offset i)
      (Resolving.placeField layout' owner name offset i) := by
  refine (tracks_resolveField owner i).bind fun _ => ?_
  refine Tracks.bind (.get_bind fun v => .pure _) fun field? => ?_
  cases field? with
  | none => exact .pure _
  | some field =>
    refine Tracks.get_bind fun v => ?_
    cases v.inline? field with
    | none => exact .throw _
    | some place =>
      cases place with
      | scalar size => exact (tracks_setOffset owner i _).bind fun _ => .pure _
      | nested inner =>
        refine (hl inner).bind fun _ => ?_
        refine Tracks.bind (.get_bind fun v => .pure _) fun size? => ?_
        exact (tracks_setOffset owner i _).bind fun _ => .pure _

theorem tracks_setSize (id : TypeId) (size : ByteCount) :
    Tracks s (Resolver.setSize id size) (Resolving.setSize id size) := by
  refine .modify fun v => .mapKind v fun t _ => ?_
  cases t.kind with
  | enum b vs d => exact .refl _
  | union vs => exact .refl _
  | table fs => exact .refl _
  | struct fs n => exact .struct n _ (.refl (fun _ => Field.Later.refl) fs)

theorem tracks_layoutStruct (free : List TypeId) (id : TypeId) :
    Tracks s (Resolver.layoutStruct free id) (Resolving.layoutStruct free id) := by
  induction free, id using Resolver.layoutStruct.induct with
  | case1 free id ih =>
    rw [Resolving.layoutStruct, Resolver.layoutStruct, Resolver.layoutStruct]
    refine Tracks.get_bind fun v => ?_
    cases v.types[id]? with
    | none => exact .pure ()
    | some t =>
      dsimp only
      split
      · exact .pure ()
      · split
        · next hid =>
          refine Tracks.bind (.foldlM (fun offset i => ?_) _ 0) fun size => tracks_setSize id size
          exact tracks_placeField (ih hid) id t.name offset i
        · exact .throw _

/-! ### Schemas -/

theorem tracks_resolveType (id : TypeId) :
    Tracks s (Resolver.resolveType id) (Resolving.resolveType id) := by
  refine Tracks.get_bind fun v => ?_
  cases v.types[id]? with
  | none => exact .pure ()
  | some t =>
    obtain ⟨name, home, data, k⟩ := t
    cases k with
    | enum b vs d => exact tracks_resolveEnum id
    | union vs => exact .pure ()
    | table fs => exact tracks_resolveTable id fs.length
    | struct fs n => exact tracks_layoutStruct _ id

theorem tracks_resolveRoot (ns : NamespaceId) :
    Tracks s (Resolver.resolveRoot ns) (Resolving.resolveRoot ns) := by
  intro h hk
  refine Records.get_bind ?_
  cases h.current.namespaces[ns]?.bind (·.rootName) with
  | none => exact Tracks.pure () h hk
  | some name =>
    dsimp only
    cases h.current.findType? ns name with
    | none => exact Tracks.throw _ h hk
    | some id => exact .ok rfl rfl (hk.write (.withRoot h.current (some id)))

theorem tracks_resolveAll : Tracks s Resolver.resolveAll Resolving.resolveAll := by
  refine Tracks.get_bind fun v => .forM (fun ns => ?_) _
  exact Tracks.get_bind fun v => (Tracks.forM tracks_resolveType _).bind fun _ => tracks_resolveRoot ns

end Recording

/-! ## Top theorem -/

namespace Schema

/-- The recorded run ends in the resolved schema, after versions that are kept from the first one. -/
theorem record_eq (s : Schema) :
    (s.record.1.current, s.record.2) = s.resolve ∧ s.record.1.KeptFrom s := by
  unfold record resolve
  cases Recording.tracks_resolveAll (.start s) (History.keptFrom_start s) with
  | ok hr hm hk =>
    rw [hr, show Resolving.resolveAll.run s = _ from hm]
    exact ⟨rfl, hk⟩
  | error hr hm hk =>
    rw [hr, show Resolving.resolveAll.run s = _ from hm]
    exact ⟨rfl, hk⟩

/-- Whether resolution succeeds or fails, every version of the schema on the way has the naming
structure of the first one, and finds the same type for every name. -/
theorem keeps_of_mem_versions (s : Schema) :
    Resolver.resolveAll = Resolving.resolveAll ∧
      (s.record.1.current, s.record.2) = s.resolve ∧
      s.record.1.versions.getLast? = some s ∧
      ∀ v ∈ s.record.1.versions, s.Keeps v ∧
        (∀ ns, v.children ns = s.children ns) ∧ (∀ ns name, v.child? ns name = s.child? ns name) ∧
        (∀ name, v.namespaceId? name = s.namespaceId? name) ∧
        ∀ ns name, v.findType? ns name = s.findType? ns name := by
  obtain ⟨hend, hk⟩ := s.record_eq
  refine ⟨rfl, hend, hk.first, fun v hv => ?_⟩
  have h := hk.keeps v hv
  exact ⟨h, h.children, h.child?, h.namespaceId?, h.findType?⟩

/-- An enum that a table refers to, in a resolution that fails at the next field. -/
def interrupted (base : TypeRef) (default : Option Value) : Schema :=
  let types : List TypeDecl := [
    ⟨"T", 0, none, .table [.declare "color" ⟨"Color", false⟩ (some (.ident "Green")) none,
      .declare "shade" ⟨"Shade", false⟩ none none]⟩,
    ⟨"Color", 0, none, .enum base [⟨"Red", none⟩, ⟨"Green", some 5⟩, ⟨"Blue", none⟩] default⟩]
  types.foldl declare (((empty "").defineNamespace "a").2.setRootName 0 "T")

theorem keeps_of_mem_versions_interrupted :
    let s := interrupted (.unresolved ⟨"ubyte", false⟩) none
    let v := interrupted (.primitive .uint8) (some (.integer 0))
    v ∈ s.record.1.versions ∧ v ≠ s ∧ s.resolve.2 = some (.unresolvedType "Shade") ∧
      s.record.1.versions.length = 5 ∧ s.Keeps v ∧ v.findType? 0 "Color" = some 1 := by
  intro s v
  have hv : v ∈ s.record.1.versions := by decide +kernel
  obtain ⟨hk, -, -, -, hfind⟩ := (keeps_of_mem_versions s).2.2.2 v hv
  refine ⟨hv, by decide +kernel, by decide +kernel, by decide +kernel, hk, ?_⟩
  rw [hfind]
  decide +kernel

end Schema

end FlatSchema
