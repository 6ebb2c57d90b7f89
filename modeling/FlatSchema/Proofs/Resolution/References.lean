import FlatSchema.Proofs.Resolution.Steps

/-!
# Resolution refers to types of the schema

Whatever schema the resolver is run on, and whether it succeeds or fails, a schema in which every
reference leads to one of its types stays so (`Refers.resolve`).
-/

namespace FlatSchema

/-- The fields, and the base of an enum, refer to types below `n`. -/
structure Kind.Refers (n : Nat) (k : Kind) : Prop where
  field : ∀ {f : Field} {id : TypeId}, f ∈ k.fields → f.type = .declared id → id < n
  base : ∀ {id : TypeId} {vs : List Entry} {d : Option Value}, k = .enum (.declared id) vs d → id < n

/-- Every reference leads to a type, those in the maps of the namespaces among them. -/
structure Schema.Refers (s : Schema) : Prop where
  child : ∀ {ns : NamespaceId} {name : String} {id : TypeId},
    s.child? ns name = some id → id < s.types.length
  kind : ∀ {id : TypeId} {t : TypeDecl}, s.types[id]? = some t → t.kind.Refers s.types.length
  rootType : ∀ {id : TypeId}, s.rootType = some id → id < s.types.length

namespace Schema

variable {s : Schema}

theorem Refers.findType? {ns : NamespaceId} {name : String} {id : TypeId} (hs : s.Refers)
    (h : s.findType? ns name = some id) : id < s.types.length := by
  obtain ⟨space, -, hspace⟩ := List.exists_of_findSome?_eq_some h
  obtain ⟨ns', -, hc⟩ := Option.bind_eq_some_iff.1 hspace
  exact hs.child hc

theorem Refers.refer {ns : NamespaceId} {name : String} {id : TypeId} (hs : s.Refers)
    (h : s.refer ns name = .ok (.declared id)) : id < s.types.length := by
  unfold Schema.refer at h
  split at h
  · cases h
  · split at h
    · next hf =>
      cases h
      exact hs.findType? hf
    · cases h

theorem length_updateType (s : Schema) (id : TypeId) (f : TypeDecl → TypeDecl) :
    (s.updateType id f).types.length = s.types.length := by
  simp [updateType]

theorem Refers.updateType {id : TypeId} {f : TypeDecl → TypeDecl} (hs : s.Refers)
    (hf : ∀ t, s.types[id]? = some t → (f t).kind.Refers s.types.length) :
    (s.updateType id f).Refers := by
  refine ⟨fun h => ?_, fun {j t'} h => ?_, fun h => ?_⟩
  · rw [length_updateType]
    exact hs.child h
  · rw [length_updateType]
    rw [types_updateType] at h
    split at h
    · next hj =>
      subst hj
      obtain ⟨t, ht, rfl⟩ := Option.map_eq_some_iff.1 h
      exact hf t ht
    · exact hs.kind h
  · rw [length_updateType]
    exact hs.rootType h

end Schema

theorem Kind.Refers.mapFields {n i : Nat} {k : Kind} {g : Field → Field} (h : k.Refers n)
    (hg : ∀ f, k.fields[i]? = some f → ∀ id, (g f).type = .declared id → id < n) :
    (k.mapFields (·.modify i g)).Refers n := by
  refine ⟨fun {f' id} hf' hid => ?_, fun {id vs d} hb => ?_⟩
  · rw [Schema.fields_mapFields] at hf'
    obtain ⟨j, hj⟩ := List.mem_iff_getElem?.1 hf'
    rw [List.getElem?_modify] at hj
    by_cases hij : i = j
    · subst hij
      obtain ⟨f, hf, rfl⟩ := Option.map_eq_some_iff.1 hj
      exact hg f hf id (by simpa using hid)
    · obtain ⟨f, hf, rfl⟩ := Option.map_eq_some_iff.1 hj
      exact h.field (List.mem_of_getElem? hf) (by simpa [hij] using hid)
  · cases k with
    | enum b' vs' d' => cases hb; exact h.base rfl
    | union vs' => cases hb
    | table fs => cases hb
    | struct fs m => cases hb

namespace Schema

variable {s : Schema} {owner : TypeId} {i : Nat}

theorem Refers.updateField {g : Field → Field} (hs : s.Refers)
    (hg : ∀ f, s.field? owner i = some f → ∀ id, (g f).type = .declared id → id < s.types.length) :
    (s.updateField owner i g).Refers :=
  hs.updateType fun t ht => (hs.kind ht).mapFields fun f hf =>
    hg f (by rw [field?, ht]; exact hf)

/-- Setting an offset leaves references alone. -/
theorem Refers.offset (hs : s.Refers) (o : Option ByteCount) :
    (s.updateField owner i fun f => { f with offset := o }).Refers := by
  refine hs.updateField fun f hf id hid => ?_
  obtain ⟨t, ht, hft⟩ := Option.bind_eq_some_iff.1 hf
  exact (hs.kind ht).field (List.mem_of_getElem? hft) hid

end Schema

namespace Resolving

open Schema

/-- The run keeps every reference leading to a type. -/
def KeepsRefers {α : Type} (m : Resolving α) : Prop :=
  ∀ s : Schema, s.Refers → Ends (m.run s) (fun _ => Refers) (fun _ => Refers)

/-- A base is settled as a primitive, or was settled before. -/
theorem eq_declared_of_settleBase {s : Schema} {t : TypeDecl} {b : TypeRef} {d d' : Option Value}
    {x : TypeId} (h : settleBase s t b d = .ok (.declared x, d')) : b = .declared x := by
  unfold settleBase at h
  split at h
  · split at h <;> cases h
  · cases h
    rfl

theorem keepsRefers_resolveEnum (id : TypeId) : KeepsRefers (resolveEnum id) := by
  intro s hs
  by_cases hne : ∀ t, s.types[id]? = some t → t.kind.isEnum = false
  · rw [run_resolveEnum_of_not_enum hne]
    exact hs
  · obtain ⟨t, ht, hk⟩ : ∃ t, s.types[id]? = some t ∧ t.kind.isEnum = true := by simpa using hne
    obtain ⟨b, vs, d, hke⟩ := Kind.eq_enum_of_isEnum hk
    rw [run_resolveEnum ht hke]
    have hput : ∀ b' vs' d', settleBase s t b d = .ok (b', d') → (putEnum s id b' vs' d').Refers := by
      intro b' vs' d' hb
      refine hs.updateType fun t' ht' => ⟨fun hf _ => absurd hf List.not_mem_nil, fun he => ?_⟩
      cases he
      obtain rfl := eq_declared_of_settleBase hb
      exact (hs.kind ht).base hke
    cases hb : settleBase s t b d with
    | error e => exact hs
    | ok bd =>
      obtain ⟨b', d'⟩ := bd
      dsimp only
      cases (numberValues vs).2 with
      | some name => exact hput _ _ _ hb
      | none => exact hput _ _ _ hb

theorem keepsRefers_fieldDefault (r : TypeRef) (literal : Option Value) :
    KeepsRefers (fieldDefault r literal) := by
  intro s hs
  cases r with
  | unresolved w => exact hs
  | primitive p => exact hs
  | declared x =>
    by_cases hne : ∀ t, s.types[x]? = some t → t.kind.isEnum = false
    · rw [run_fieldDefault_of_not_enum literal hne]
      exact hs
    · obtain ⟨t, ht, hk⟩ : ∃ t, s.types[x]? = some t ∧ t.kind.isEnum = true := by simpa using hne
      rw [run_fieldDefault_of_enum literal ht hk]
      have he := keepsRefers_resolveEnum x s hs
      cases hr : (resolveEnum x).run s with
      | error e s' => rw [hr] at he; exact he
      | ok a s' =>
        rw [hr] at he
        dsimp only
        cases s'.types[x]? with
        | none => exact he
        | some t' =>
          dsimp only
          cases enumDefault t'.kind literal with
          | error e => exact he
          | ok d => exact he

theorem keepsRefers_resolveField (owner : TypeId) (i : Nat) :
    KeepsRefers (resolveField owner i) := by
  intro s hs
  by_cases hres : s.FieldSettled owner i
  · rw [run_resolveField_of_resolved hres]
    exact hs
  · obtain ⟨f, hf, hu⟩ : ∃ f, s.field? owner i = some f ∧ f.type.isResolved = false := by
      simpa [FieldSettled] using hres
    obtain ⟨t, ht, hft⟩ := Option.bind_eq_some_iff.1 hf
    obtain ⟨w, hw⟩ := TypeRef.eq_unresolved hu
    rw [run_resolveField ht hft hw]
    cases hr : s.refer t.home w.name with
    | error e => exact hs
    | ok r =>
      have hd := (keepsRefers_fieldDefault r f.default s hs).and (fieldDefault_ends idle r f.default s)
      dsimp only
      cases hrun : (fieldDefault r f.default).run s with
      | error e s' => rw [hrun] at hd; exact hd.1
      | ok d s' =>
        rw [hrun] at hd
        obtain ⟨hs', hg, -⟩ := hd
        refine hs'.updateField fun f' _ id hid => ?_
        -- The type is the one that was found before its enum was settled.
        rw [hg.toLater.length]
        obtain rfl : r = .declared id := hid
        exact hs.refer hr

theorem keepsRefers_resolveTable (id : TypeId) (count : Nat) :
    KeepsRefers (resolveTable id count) := by
  intro s hs
  refine Ends.forM_range (I := fun _ => Refers) count (fun i _ s₁ h₁ => ?_) s hs
  exact (keepsRefers_resolveField id i s₁ h₁).bind fun _ s₂ h₂ => h₂.offset _

theorem keepsRefers_placeField {layout : TypeId → Resolving Unit} (hl : ∀ x, KeepsRefers (layout x))
    (owner : TypeId) (name : String) (offset : ByteCount) (i : Nat) :
    KeepsRefers (placeField layout owner name offset i) := by
  intro s hs
  rw [run_placeField]
  have hres := keepsRefers_resolveField owner i s hs
  cases hr : (resolveField owner i).run s with
  | error e s₁ => rw [hr] at hres; exact hres
  | ok a s₁ =>
    rw [hr] at hres
    dsimp only
    cases s₁.field? owner i with
    | none => exact hres
    | some f =>
      dsimp only
      cases s₁.inline? f with
      | none => exact hres
      | some l =>
        cases l with
        | scalar n => exact Refers.offset hres _
        | nested x =>
          have hlay := hl x s₁ hres
          dsimp only
          cases hrun : (layout x).run s₁ with
          | error e s₂ => rw [hrun] at hlay; exact hlay
          | ok a s₂ => rw [hrun] at hlay; exact Refers.offset hlay _

theorem keepsRefers_setSize (id : TypeId) (n : ByteCount) : KeepsRefers (setSize id n) := by
  intro s hs
  refine hs.updateType fun t ht => ?_
  have hk := hs.kind ht
  obtain ⟨name, home, m, k⟩ := t
  cases k with
  | enum b vs d => exact hk
  | union vs => exact hk
  | table fs => exact hk
  | struct fs m => exact ⟨hk.field, fun hb => by cases hb⟩

theorem keepsRefers_layoutStruct (free : List TypeId) (id : TypeId) :
    KeepsRefers (layoutStruct free id) := by
  induction free, id using Resolver.layoutStruct.induct with
  | case1 free id ih =>
    intro s hs
    cases ht : s.types[id]? with
    | none =>
      rw [layoutStruct, Resolver.layoutStruct]
      simp only [EStateM.run_bind, EStateM.run_get, ht]
      exact hs
    | some t =>
      rw [run_layoutStruct free ht]
      split
      · exact hs
      · split
        · next hid =>
          refine (Ends.foldlM_range (I := fun _ _ => Refers) t.fields.length ?_ 0 s hs).bind ?_
          · exact fun i _ offset s₁ h₁ => keepsRefers_placeField (ih hid) id t.name offset i s₁ h₁
          · exact fun n s₁ h₁ => keepsRefers_setSize id n s₁ h₁
        · exact hs

theorem keepsRefers_resolveType (id : TypeId) : KeepsRefers (resolveType id) := by
  intro s hs
  cases ht : s.types[id]? with
  | none => rw [run_resolveType_of_none ht]; exact hs
  | some t =>
    rw [run_resolveType ht]
    cases t.kind with
    | enum b vs d => exact keepsRefers_resolveEnum id s hs
    | union vs => exact hs
    | table fs => exact keepsRefers_resolveTable id fs.length s hs
    | struct fs n => exact keepsRefers_layoutStruct _ id s hs

theorem keepsRefers_resolveRoot (ns : NamespaceId) : KeepsRefers (resolveRoot ns) := by
  intro s hs
  rw [run_resolveRoot]
  cases s.namespaces[ns]?.bind (·.rootName) with
  | none => exact hs
  | some name =>
    dsimp only
    cases hf : s.findType? ns name with
    | none => exact hs
    | some id =>
      refine ⟨hs.child, hs.kind, fun h => ?_⟩
      cases h
      exact hs.findType? hf

theorem keepsRefers_resolveNamespace (ns : NamespaceId) : KeepsRefers (resolveNamespace ns) := by
  intro s hs
  show Ends (((s.children ns).forM resolveType >>= fun _ => resolveRoot ns).run s) _ _
  refine (Ends.forM (I := Refers) (D := fun _ _ => True) (s.children ns) ?_ s hs).bind ?_
  · intro id _ s₁ h₁
    exact (keepsRefers_resolveType id s₁ h₁).imp (fun _ _ h => ⟨h, trivial, fun _ _ => trivial⟩)
      fun _ _ h => h
  · exact fun _ s₁ h₁ => keepsRefers_resolveRoot ns s₁ h₁.1

theorem keepsRefers_resolveAll : KeepsRefers resolveAll := by
  intro s hs
  exact Ends.forM_range (I := fun _ => Refers) s.namespaces.length
    (fun ns _ s₁ h₁ => keepsRefers_resolveNamespace ns s₁ h₁) s hs

end Resolving

theorem Schema.Refers.resolve {s : Schema} (h : s.Refers) : s.resolve.1.Refers := by
  have hends := Resolving.keepsRefers_resolveAll s h
  unfold Schema.resolve
  cases hrun : Resolving.resolveAll.run s with
  | ok a s' => rw [hrun] at hends; exact hends
  | error e s' => rw [hrun] at hends; exact hends

end FlatSchema
