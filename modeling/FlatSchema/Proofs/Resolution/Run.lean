import FlatSchema.Schema.Resolution

/-!
# Runs of the resolver

`Ends r Q E` says of the end `r` of a run that it is a success with `Q` or a failure with `E`.
The rules of this module carry it through sequences and loops, so that every property of a run is
proved one step of the resolver at a time.  Next to them stand what an update does to the types of
a schema, and the run of each small step as one equation.
-/

namespace FlatSchema

/-! ## Updates -/

namespace Schema

theorem types_updateType (s : Schema) (id j : TypeId) (f : TypeDecl → TypeDecl) :
    (s.updateType id f).types[j]? = if id = j then s.types[j]?.map f else s.types[j]? := by
  simp only [updateType, List.getElem?_modify]
  split <;> simp

@[simp] theorem types_updateType_self (s : Schema) (id : TypeId) (f : TypeDecl → TypeDecl) :
    (s.updateType id f).types[id]? = s.types[id]?.map f := by
  rw [types_updateType, if_pos rfl]

theorem types_updateType_of_ne (s : Schema) {id j : TypeId} (f : TypeDecl → TypeDecl)
    (h : id ≠ j) : (s.updateType id f).types[j]? = s.types[j]? := by
  rw [types_updateType, if_neg h]

theorem ext_types {s s' : Schema} (h : s' = { s with types := s'.types })
    (ht : ∀ id : TypeId, s'.types[id]? = s.types[id]?) : s' = s := by
  rw [h, List.ext_getElem? ht]

theorem updateType_congr {s : Schema} {id : TypeId} {f g : TypeDecl → TypeDecl}
    (h : ∀ t, s.types[id]? = some t → f t = g t) : s.updateType id f = s.updateType id g := by
  refine ext_types rfl fun j => ?_
  rw [types_updateType, types_updateType]
  split
  · next hj =>
    subst hj
    cases ht : s.types[id]? with
    | none => rfl
    | some t => simp [h t ht]
  · rfl

theorem updateType_updateType (s : Schema) (id : TypeId) (f g : TypeDecl → TypeDecl) :
    (s.updateType id f).updateType id g = s.updateType id fun t => g (f t) := by
  refine ext_types rfl fun j => ?_
  rw [types_updateType, types_updateType, types_updateType]
  split <;> simp [Function.comp_def]

/-- An update that puts what is there already changes nothing. -/
theorem updateType_eq_self {s : Schema} {id : TypeId} {f : TypeDecl → TypeDecl}
    (h : ∀ t, s.types[id]? = some t → f t = t) : s.updateType id f = s := by
  refine ext_types rfl fun j => ?_
  rw [types_updateType]
  split
  · next hj =>
    subst hj
    cases ht : s.types[id]? with
    | none => rfl
    | some t => simp [h t ht]
  · rfl

/-- Field `i` of the type `id`. -/
def field? (s : Schema) (id : TypeId) (i : Nat) : Option Field :=
  s.types[id]?.bind (·.fields[i]?)

theorem fields_mapFields (k : Kind) (i : Nat) (f : Field → Field) :
    (k.mapFields (·.modify i f)).fields = k.fields.modify i f := by
  cases k <;> simp [Kind.mapFields, Kind.fields]

theorem field?_updateField (s : Schema) (id : TypeId) (i j : Nat) (f : Field → Field) :
    (s.updateField id i f).field? id j =
      if i = j then (s.field? id j).map f else s.field? id j := by
  unfold field? updateField
  rw [types_updateType_self]
  cases s.types[id]? with
  | none => simp
  | some t =>
    simp only [Option.map_some, Option.bind_some, TypeDecl.fields, TypeDecl.mapKind,
      fields_mapFields, List.getElem?_modify]
    split <;> simp

/-- A field that has already what is put into it stays, and so does the schema. -/
theorem updateField_eq_self {s : Schema} {id : TypeId} {i : Nat} {f : Field → Field}
    (h : ∀ x, s.field? id i = some x → f x = x) : s.updateField id i f = s := by
  refine updateType_eq_self fun t ht => ?_
  have hm : ∀ fs : List Field, fs = t.fields → fs.modify i f = fs := by
    intro fs hfs
    refine List.ext_getElem? fun j => ?_
    rw [List.getElem?_modify]
    by_cases hj : i = j
    · subst hj
      cases hx : fs[i]? with
      | none => rfl
      | some x => simp [h x (by simp [field?, ht, ← hfs, hx])]
    · simp [hj]
  obtain ⟨name, home, m, k⟩ := t
  cases k with
  | enum b vs d => rfl
  | union vs => rfl
  | table fs => simp [TypeDecl.mapKind, Kind.mapFields, hm fs rfl]
  | struct fs n => simp [TypeDecl.mapKind, Kind.mapFields, hm fs rfl]

theorem updateField_offset_eq_self {s : Schema} {id : TypeId} {i : Nat} {o : ByteCount}
    (h : ∀ f, s.field? id i = some f → f.offset = some o) :
    s.updateField id i (fun f => { f with offset := some o }) = s := by
  refine updateField_eq_self fun f hf => ?_
  rw [← h f hf]

end Schema

namespace Resolving

/-! ## The end of a run -/

/-- `Q` holds of the answer and the schema after a success, `E` of the error and the schema after a
failure. -/
def Ends {α : Type} (r : EStateM.Result SchemaError Schema α) (Q : α → Schema → Prop)
    (E : SchemaError → Schema → Prop) : Prop :=
  match r with
  | .ok a s => Q a s
  | .error e s => E e s

variable {α β : Type}

theorem Ends.imp {r : EStateM.Result SchemaError Schema α} {Q Q' : α → Schema → Prop}
    {E E' : SchemaError → Schema → Prop} (h : Ends r Q E) (hQ : ∀ a s, Q a s → Q' a s)
    (hE : ∀ e s, E e s → E' e s) : Ends r Q' E' := by
  cases r with
  | ok a s => exact hQ a s h
  | error e s => exact hE e s h

theorem Ends.and {r : EStateM.Result SchemaError Schema α} {Q Q' : α → Schema → Prop}
    {E E' : SchemaError → Schema → Prop} (h : Ends r Q E) (h' : Ends r Q' E') :
    Ends r (fun a s => Q a s ∧ Q' a s) (fun e s => E e s ∧ E' e s) := by
  cases r with
  | ok a s => exact ⟨h, h'⟩
  | error e s => exact ⟨h, h'⟩

theorem Ends.bind {m : Resolving α} {f : α → Resolving β} {s : Schema}
    {R : α → Schema → Prop} {Q : β → Schema → Prop} {E : SchemaError → Schema → Prop}
    (h : Ends (m.run s) R E) (hf : ∀ a s', R a s' → Ends ((f a).run s') Q E) :
    Ends ((m >>= f).run s) Q E := by
  rw [EStateM.run_bind]
  cases hm : m.run s with
  | ok a s' => rw [hm] at h; exact hf a s' h
  | error e s' => rw [hm] at h; exact h

/-- A loop whose steps keep `I`, each settling its element and unsettling none. -/
theorem Ends.forM {f : α → Resolving Unit} {I : Schema → Prop} {D : α → Schema → Prop}
    {E : SchemaError → Schema → Prop} (xs : List α)
    (step : ∀ a ∈ xs, ∀ s, I s →
      Ends ((f a).run s) (fun _ s' => I s' ∧ D a s' ∧ ∀ b, D b s → D b s') E) :
    ∀ s, I s → Ends ((xs.forM f).run s)
      (fun _ s' => I s' ∧ (∀ a ∈ xs, D a s') ∧ ∀ b, D b s → D b s') E := by
  induction xs with
  | nil => exact fun s hs => ⟨hs, by simp, fun _ h => h⟩
  | cons a xs ih =>
    intro s hs
    show Ends ((f a >>= fun _ => xs.forM f).run s) _ _
    refine (step a (by simp) s hs).bind ?_
    rintro _ s' ⟨hs', ha, hk⟩
    refine (ih (fun b hb => step b (by simp [hb])) s' hs').imp ?_ fun _ _ h => h
    rintro _ s'' ⟨hs'', hxs, hk'⟩
    refine ⟨hs'', fun b hb => ?_, fun b hb => hk' b (hk b hb)⟩
    rcases List.mem_cons.1 hb with rfl | hb
    · exact hk' b ha
    · exact hxs b hb

/-- A loop over the numbers below `n`, with an invariant for each of them. -/
theorem Ends.foldlM_range {f : β → Nat → Resolving β} {I : Nat → β → Schema → Prop}
    {E : SchemaError → Schema → Prop} (n : Nat)
    (step : ∀ i, i < n → ∀ b s, I i b s → Ends ((f b i).run s) (I (i + 1)) E) (b : β) (s : Schema)
    (h : I 0 b s) : Ends (((List.range n).foldlM f b).run s) (I n) E := by
  induction n with
  | zero => exact h
  | succ n ih =>
    rw [List.range_succ, List.foldlM_append]
    refine (ih fun i hi => step i (by omega)).bind fun b' s' h' => ?_
    rw [List.foldlM_cons]
    exact (step n (by omega) b' s' h').bind fun b'' s'' h'' => h''

theorem Ends.forM_range {f : Nat → Resolving Unit} {I : Nat → Schema → Prop}
    {E : SchemaError → Schema → Prop} (n : Nat)
    (step : ∀ i, i < n → ∀ s, I i s → Ends ((f i).run s) (fun _ => I (i + 1)) E) (s : Schema)
    (h : I 0 s) : Ends (((List.range n).forM f).run s) (fun _ => I n) E := by
  induction n with
  | zero => exact h
  | succ n ih =>
    rw [List.range_succ]
    have happ : (List.range n ++ [n]).forM f = (List.range n).forM f >>= fun _ => [n].forM f :=
      List.forM_append
    rw [happ]
    refine (ih fun i hi => step i (by omega)).bind fun _ s' h' => ?_
    exact (step n (by omega) s' h').bind fun _ s'' h'' => h''

/-! ## Enums -/

/-- The base and the default that an enum has after its base is settled. -/
def settleBase (s : Schema) (t : TypeDecl) (base : TypeRef) (default : Option Value) :
    Except SchemaError (TypeRef × Option Value) :=
  match base with
  | .unresolved written =>
    match s.refer t.home written.name with
    | .ok (.primitive p) => .ok (.primitive p, some p.default)
    | .ok _ => .error (.nonIntegralEnum t.name)
    | .error e => .error e
  | base => .ok (base, default)

/-- The schema with an enum's base, values and default put in place. -/
def putEnum (s : Schema) (id : TypeId) (base : TypeRef) (values : List Entry)
    (default : Option Value) : Schema :=
  s.updateType id (·.mapKind fun _ => .enum base values default)

theorem run_setBase {s : Schema} {id : TypeId} {t : TypeDecl} {b : TypeRef} {vs : List Entry}
    {d : Option Value} (ht : s.types[id]? = some t) (hk : t.kind = .enum b vs d) (p : Primitive) :
    (setBase id p).run s = .ok () (putEnum s id (.primitive p) vs (some p.default)) := by
  simp only [Resolver.setBase, EStateM.run_modify, putEnum]
  congr 1
  refine Schema.updateType_congr fun t' ht' => ?_
  obtain rfl := Option.some.inj (ht.symm.trans ht')
  simp [TypeDecl.mapKind, hk]

theorem run_number {s : Schema} {id : TypeId} {t : TypeDecl} {b : TypeRef} {vs ws : List Entry}
    {d : Option Value} (ht : s.types[id]? = some t) (hk : t.kind = .enum b ws d) :
    (number id vs).run s =
      match (numberValues vs).2 with
      | some name => .error (.enumValueOutOfRange name) (putEnum s id b (numberValues vs).1 d)
      | none => .ok () (putEnum s id b (numberValues vs).1 d) := by
  have hput : s.updateType id (·.mapKind (·.mapValues fun _ => (numberValues vs).1)) =
      putEnum s id b (numberValues vs).1 d := by
    refine Schema.updateType_congr fun t' ht' => ?_
    obtain rfl := Option.some.inj (ht.symm.trans ht')
    simp [TypeDecl.mapKind, hk, Kind.mapValues]
  simp only [Resolver.number, EStateM.run_bind, EStateM.run_modify, hput]
  cases (numberValues vs).2 <;> rfl

theorem putEnum_putEnum (s : Schema) (id : TypeId) (b b' : TypeRef) (vs vs' : List Entry)
    (d d' : Option Value) : putEnum (putEnum s id b vs d) id b' vs' d' = putEnum s id b' vs' d' := by
  simp only [putEnum, Schema.updateType_updateType]
  rfl

theorem run_resolveEnum {s : Schema} {id : TypeId} {t : TypeDecl} {b : TypeRef} {vs : List Entry}
    {d : Option Value} (ht : s.types[id]? = some t) (hk : t.kind = .enum b vs d) :
    (resolveEnum id).run s =
      match settleBase s t b d with
      | .error e => .error e s
      | .ok (b', d') =>
        match (numberValues vs).2 with
        | some name => .error (.enumValueOutOfRange name) (putEnum s id b' (numberValues vs).1 d')
        | none => .ok () (putEnum s id b' (numberValues vs).1 d') := by
  obtain ⟨name, home, m, k⟩ := t
  subst hk
  simp only [Resolver.resolveEnum, EStateM.run_bind, EStateM.run_get, ht]
  cases b with
  | primitive p => exact run_number ht rfl
  | declared x => exact run_number ht rfl
  | unresolved w =>
    simp only [settleBase]
    cases hr : s.refer home w.name with
    | error e => rfl
    | ok r =>
      cases r with
      | primitive p =>
        simp only [EStateM.run_bind, Resolver.ofExcept, EStateM.run_pure, run_setBase ht rfl]
        have ht' : (putEnum s id (.primitive p) vs (some p.default)).types[id]? =
            some ⟨name, home, m, .enum (.primitive p) vs (some p.default)⟩ := by
          rw [putEnum, Schema.types_updateType_self, ht]
          rfl
        rw [run_number ht' rfl, putEnum_putEnum]
      | declared x => rfl
      | unresolved w => rfl

theorem run_resolveEnum_of_not_enum {s : Schema} {id : TypeId}
    (h : ∀ t, s.types[id]? = some t → t.kind.isEnum = false) :
    (resolveEnum id).run s = .ok () s := by
  simp only [Resolver.resolveEnum, EStateM.run_bind, EStateM.run_get]
  split
  · next ht => cases h _ ht
  · rfl

/-! ## Fields -/

theorem run_fieldDefault_of_enum {s : Schema} {x : TypeId} {t : TypeDecl} (literal : Option Value)
    (ht : s.types[x]? = some t) (hk : t.kind.isEnum = true) :
    (fieldDefault (.declared x) literal).run s =
      match (resolveEnum x).run s with
      | .error e s' => .error e s'
      | .ok _ s' =>
        match s'.types[x]? with
        | some t' =>
          match enumDefault t'.kind literal with
          | .ok d => .ok d s'
          | .error e => .error e s'
        | none => .ok literal s' := by
  simp only [Resolver.fieldDefault, EStateM.run_bind, EStateM.run_get, ht, Option.any_some, hk, if_true]
  cases (resolveEnum x).run s with
  | error e s' => rfl
  | ok a s' =>
    cases ht' : s'.types[x]? with
    | none => simp [ht']
    | some t' =>
      simp only [ht']
      cases enumDefault t'.kind literal <;> rfl

theorem run_fieldDefault_of_not_enum {s : Schema} {x : TypeId} (literal : Option Value)
    (h : ∀ t, s.types[x]? = some t → t.kind.isEnum = false) :
    (fieldDefault (.declared x) literal).run s = .ok literal s := by
  have hx : s.types[x]?.any (·.kind.isEnum) = false := by
    cases ht : s.types[x]? with
    | none => rfl
    | some t => exact h t ht
  simp [Resolver.fieldDefault, hx]

/-- What a field is when its type is found. -/
def settle (type : TypeRef) (written : TypeName) (default : Option Value) (f : Field) : Field :=
  { f with type := type, repeated := f.repeated || written.repeated, default := default }

theorem run_resolveField {s : Schema} {owner : TypeId} {i : Nat} {t : TypeDecl} {f : Field}
    {w : TypeName} (ht : s.types[owner]? = some t) (hf : t.fields[i]? = some f)
    (hw : f.type = .unresolved w) :
    (resolveField owner i).run s =
      match s.refer t.home w.name with
      | .error e => .error e s
      | .ok type =>
        match (fieldDefault type f.default).run s with
        | .error e s' => .error e s'
        | .ok d s' => .ok () (s'.updateField owner i (settle type w d)) := by
  obtain ⟨name, type, repeated, default, offset, m⟩ := f
  subst hw
  simp only [Resolver.resolveField, EStateM.run_bind, EStateM.run_get, ht, hf]
  cases s.refer t.home w.name with
  | error e => rfl
  | ok r =>
    simp only [Resolver.ofExcept, EStateM.run_pure]
    cases (fieldDefault r default).run s <;> rfl

theorem run_resolveField_of_resolved {s : Schema} {owner : TypeId} {i : Nat}
    (h : ∀ f, s.field? owner i = some f → f.type.isResolved = true) :
    (resolveField owner i).run s = .ok () s := by
  simp only [Resolver.resolveField, EStateM.run_bind, EStateM.run_get]
  split
  · next t ht =>
    split
    · next hf =>
      have := h _ (show s.field? owner i = some _ by rw [Schema.field?, ht]; exact hf)
      cases this
    · rfl
  · rfl

/-! ## Structs -/

theorem run_placeField (layout : TypeId → Resolving Unit) (owner : TypeId) (name : String)
    (offset : ByteCount) (i : Nat) (s : Schema) :
    (placeField layout owner name offset i).run s =
      match (resolveField owner i).run s with
      | .error e s₁ => .error e s₁
      | .ok _ s₁ =>
        match s₁.field? owner i with
        | none => .ok offset s₁
        | some f =>
          match s₁.inline? f with
          | none => .error (.invalidStructField name f.name) s₁
          | some (.scalar size) =>
            .ok (Schema.align offset size + size)
              (s₁.updateField owner i fun f => { f with offset := some (Schema.align offset size) })
          | some (.nested inner) =>
            match (layout inner).run s₁ with
            | .error e s₂ => .error e s₂
            | .ok _ s₂ =>
              .ok (offset + (s₂.types[inner]?.bind (·.kind.size?)).getD 0)
                (s₂.updateField owner i fun f => { f with offset := some offset }) := by
  simp only [Resolver.placeField, EStateM.run_bind]
  cases (resolveField owner i).run s with
  | error e s₁ => rfl
  | ok a s₁ =>
    simp only [Resolver.fieldAt, EStateM.run_bind, EStateM.run_get, EStateM.run_pure, Schema.field?]
    cases s₁.types[owner]?.bind (·.fields[i]?) with
    | none => rfl
    | some f =>
      simp only [EStateM.run_bind, EStateM.run_get]
      cases s₁.inline? f with
      | none => rfl
      | some l =>
        cases l with
        | scalar n => rfl
        | nested inner =>
          simp only [EStateM.run_bind]
          cases (layout inner).run s₁ <;> rfl

theorem run_setSize {s : Schema} {id : TypeId} {t : TypeDecl} {fs : List Field}
    {m : Option ByteCount} (ht : s.types[id]? = some t) (hk : t.kind = .struct fs m) (n : ByteCount) :
    (setSize id n).run s = .ok () (s.updateType id (·.mapKind fun _ => .struct fs (some n))) := by
  simp only [Resolver.setSize, EStateM.run_modify]
  congr 1
  refine Schema.updateType_congr fun t' ht' => ?_
  obtain rfl := Option.some.inj (ht.symm.trans ht')
  simp [TypeDecl.mapKind, hk]

theorem run_layoutStruct {s : Schema} {id : TypeId} {t : TypeDecl} (free : List TypeId)
    (ht : s.types[id]? = some t) :
    (layoutStruct free id).run s =
      if t.kind.size?.isSome then .ok () s
      else if id ∈ free then
        ((List.range t.fields.length).foldlM
          (placeField (layoutStruct (free.erase id)) id t.name) 0 >>= setSize id).run s
      else .error (.recursiveStruct t.name) s := by
  rw [layoutStruct, Resolver.layoutStruct]
  simp only [EStateM.run_bind, EStateM.run_get, ht]
  split
  · rfl
  · split <;> rfl

end Resolving

end FlatSchema
