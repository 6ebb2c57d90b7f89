import FlatSchema.Proofs.Resolution.Later

/-!
# What resolution settles

An enum is settled when it has its base and all values, a field when its type is found, a struct
when it has its size.  What is settled in a schema is settled, and the same, in every later one.
-/

namespace FlatSchema

theorem Kind.eq_enum_of_isEnum {k : Kind} (h : k.isEnum = true) : ∃ b vs d, k = .enum b vs d := by
  cases k with
  | enum b vs d => exact ⟨b, vs, d, rfl⟩
  | union _ => cases h
  | table _ => cases h
  | struct _ _ => cases h

theorem Kind.isEnum_of_base? {k : Kind} {p : Primitive} (h : k.base? = some p) : k.isEnum = true := by
  cases k with
  | enum _ _ _ => rfl
  | union _ => cases h
  | table _ => cases h
  | struct _ _ => cases h

theorem Kind.eq_struct_of_isStruct {k : Kind} (h : k.isStruct = true) : ∃ fs n, k = .struct fs n := by
  cases k with
  | enum _ _ _ => cases h
  | union _ => cases h
  | table _ => cases h
  | struct fs n => exact ⟨fs, n, rfl⟩

theorem TypeRef.eq_unresolved {r : TypeRef} (h : r.isResolved = false) : ∃ w, r = .unresolved w := by
  cases r with
  | unresolved w => exact ⟨w, rfl⟩
  | primitive _ => cases h
  | declared _ => cases h

/-! ## What the steps settle -/

namespace Schema

/-- An enum has its base, and all of its entries have values. -/
def EnumSettled (s : Schema) (id : TypeId) : Prop :=
  ∀ t, s.types[id]? = some t → t.kind.isEnum = true →
    ∃ b vs d, t.kind = .enum b vs d ∧ b.isResolved = true ∧ ∀ e ∈ vs, e.value ≠ none

def FieldSettled (s : Schema) (id : TypeId) (i : Nat) : Prop :=
  ∀ f, s.field? id i = some f → f.type.isResolved = true

/-- The type is no struct that has its size. -/
def Unsized (s : Schema) (id : TypeId) : Prop :=
  ∀ t, s.types[id]? = some t → t.kind.size? = none

def Sized (s : Schema) (id : TypeId) : Prop :=
  ∃ t, s.types[id]? = some t ∧ t.kind.size?.isSome = true

def IsStruct (s : Schema) (id : TypeId) : Prop :=
  ∃ t, s.types[id]? = some t ∧ t.kind.isStruct = true

def IsTable (s : Schema) (id : TypeId) : Prop :=
  ∃ t, s.types[id]? = some t ∧ t.kind.isTable = true

/-- A field is resolved and has the offset of a table field. -/
def Slotted (s : Schema) (id : TypeId) (i : Nat) : Prop :=
  ∀ f, s.field? id i = some f → f.type.isResolved = true ∧ f.offset = some (slot i)

/-- Nothing is left to do for the type. -/
structure Settled (s : Schema) (id : TypeId) : Prop where
  enum : s.EnumSettled id
  table : s.IsTable id → ∀ i, s.Slotted id i
  struct : s.IsStruct id → s.Sized id

/-- Types that are not enums are the same. -/
def OnlyEnums (s s' : Schema) : Prop :=
  ∀ (id : TypeId) (t : TypeDecl), s.types[id]? = some t → t.kind.isEnum = false →
    s'.types[id]? = some t

/-- The type `id` is the same but for its field `i`. -/
def AtField (id : TypeId) (i : Nat) (s s' : Schema) : Prop :=
  ∃ g : Field → Field,
    s'.types[id]? = s.types[id]?.map (·.mapKind (·.mapFields (·.modify i g)))

end Schema

/-! ## What lies inline -/

namespace Schema

variable {s : Schema} {f : Field}

theorem inline?_eq_nested_iff {x : TypeId} :
    s.inline? f = some (.nested x) ↔ f.repeated = false ∧ f.type = .declared x ∧ s.IsStruct x := by
  unfold inline?
  cases hr : f.repeated with
  | true => simp
  | false =>
    cases ht : f.type with
    | unresolved w => simp
    | primitive p => simp
    | declared id =>
      simp only [Bool.false_eq_true, if_false, true_and, TypeRef.declared.injEq]
      cases hid : s.types[id]? with
      | none =>
        simp only [reduceCtorEq, false_iff]
        rintro ⟨rfl, t, ht, -⟩
        rw [hid] at ht
        cases ht
      | some t =>
        dsimp only
        split
        · next hk =>
          simp only [Option.some.injEq, Inline.nested.injEq]
          exact ⟨fun h => ⟨h, h ▸ ⟨t, hid, hk⟩⟩, fun h => h.1⟩
        · next hk =>
          simp only [Option.map_eq_some_iff, reduceCtorEq, and_false, exists_false, false_iff]
          rintro ⟨rfl, t', ht', hk'⟩
          rw [hid] at ht'
          cases ht'
          exact hk hk'

/-- A scalar is a primitive with a size, or an enum whose base is one. -/
theorem inline?_eq_scalar_iff {n : ByteCount} :
    s.inline? f = some (.scalar n) ↔ f.repeated = false ∧ ∃ p : Primitive, p.size? = some n ∧
      (f.type = .primitive p ∨
        ∃ x t, f.type = .declared x ∧ s.types[x]? = some t ∧ t.kind.base? = some p) := by
  unfold inline?
  cases hr : f.repeated with
  | true => simp
  | false =>
    cases ht : f.type with
    | unresolved w => simp
    | primitive p => simp
    | declared id =>
      simp only [Bool.false_eq_true, if_false, true_and, reduceCtorEq, false_or,
        TypeRef.declared.injEq]
      cases hid : s.types[id]? with
      | none =>
        simp only [reduceCtorEq, false_iff]
        rintro ⟨p, -, x, t, rfl, ht, -⟩
        rw [hid] at ht
        cases ht
      | some t =>
        dsimp only
        split
        · next hk =>
          obtain ⟨fs, m, hks⟩ := Kind.eq_struct_of_isStruct hk
          simp only [Option.some.injEq, reduceCtorEq, false_iff]
          rintro ⟨p, -, x, t', rfl, ht', hp⟩
          rw [hid] at ht'
          cases ht'
          rw [hks] at hp
          cases hp
        · simp only [Option.map_eq_some_iff, Inline.scalar.injEq, exists_eq_right,
            Option.bind_eq_some_iff]
          constructor
          · rintro ⟨p, hp, hn⟩
            exact ⟨p, hn, id, t, rfl, hid, hp⟩
          · rintro ⟨p, hn, x, t', rfl, ht', hp⟩
            rw [hid] at ht'
            cases ht'
            exact ⟨p, hp, hn⟩

theorem isResolved_of_inline? {l : Inline} (h : s.inline? f = some l) :
    f.type.isResolved = true := by
  cases l with
  | scalar n =>
    obtain ⟨-, p, -, hp | ⟨x, t, hx, -⟩⟩ := inline?_eq_scalar_iff.1 h
    · rw [hp]; rfl
    · rw [hx]; rfl
  | nested x =>
    obtain ⟨-, hx, -⟩ := inline?_eq_nested_iff.1 h
    rw [hx]; rfl

/-- A struct lies inline only as a nested one. -/
theorem inline?_eq_nested {x : TypeId} {l : Inline} (hf : f.type = .declared x) (hx : s.IsStruct x)
    (h : s.inline? f = some l) : l = .nested x := by
  cases l with
  | scalar n =>
    obtain ⟨-, p, -, hp | ⟨y, t, hy, ht, hb⟩⟩ := inline?_eq_scalar_iff.1 h
    · rw [hf] at hp
      cases hp
    · obtain rfl : x = y := TypeRef.declared.inj (hf.symm.trans hy)
      obtain ⟨t', ht', hk⟩ := hx
      obtain rfl := Option.some.inj (ht.symm.trans ht')
      obtain ⟨fs, n, hks⟩ := Kind.eq_struct_of_isStruct hk
      rw [hks] at hb
      cases hb
  | nested y =>
    obtain ⟨-, hy, -⟩ := inline?_eq_nested_iff.1 h
    rw [TypeRef.declared.inj (hf.symm.trans hy)]

end Schema

/-! ## Settled things stay settled -/

namespace Schema

variable {busy : TypeId → Prop} {s s' s'' : Schema} {id : TypeId} {i : Nat}

theorem EnumSettled.later (he : s.EnumSettled id) (h : Later busy s s') :
    ∀ t, s.types[id]? = some t → t.kind.isEnum = true → s'.types[id]? = some t := by
  intro t ht hk
  obtain ⟨b, vs, d, hke, hb, hvs⟩ := he t ht hk
  obtain ⟨t', ht', hl⟩ := h.next ht
  have hkl := hl.kind
  rw [ht']
  congr 1
  refine hl.eq_of_kind ?_
  rw [hke] at hkl ⊢
  generalize t'.kind = k' at hkl
  cases hkl with
  | enum hbase hvals =>
    rename_i b' vs' d'
    obtain ⟨rfl, rfl⟩ : b' = b ∧ d' = d := by
      rcases hbase with h | ⟨hu, -⟩
      · exact h
      · rw [hb] at hu; cases hu
    have hvs' : vs' = vs := by
      refine List.ext_getElem? fun j => ?_
      cases hj : vs[j]? with
      | none =>
        exact List.getElem?_eq_none (by rw [hvals.1]; exact List.getElem?_eq_none_iff.1 hj)
      | some e =>
        obtain ⟨e', he', hee⟩ := hvals.next hj
        rw [he', hee.eq (hvs e (List.mem_of_getElem? hj))]
    rw [hvs']

theorem EnumSettled.stays (he : s.EnumSettled id) (h : Later busy s s') : s'.EnumSettled id := by
  intro t' ht' hk'
  obtain ⟨t, ht, hl⟩ := h.prev ht'
  have hk : t.kind.isEnum = true := by rw [← hl.kind.isEnum, hk']
  obtain rfl := Option.some.inj ((he.later h t ht hk).symm.trans ht')
  exact he t ht hk

theorem FieldSettled.later (hf : s.FieldSettled id i) (h : Later busy s s') :
    s'.FieldSettled id i := by
  intro f' hf'
  obtain ⟨f, hff, hl⟩ := h.field?_prev hf'
  rw [(hl.resolved (hf f hff)).1]
  exact hf f hff

theorem Sized.later (hz : s.Sized id) (h : Later busy s s') :
    s'.Sized id ∧ s'.types[id]? = s.types[id]? := by
  obtain ⟨t, ht, hn⟩ := hz
  obtain ⟨n, hn'⟩ := Option.isSome_iff_exists.1 hn
  have he := h.sized_eq ht hn'
  exact ⟨⟨t, he, hn⟩, by rw [he, ht]⟩

theorem IsStruct.later (hs : s.IsStruct id) (h : Later busy s s') : s'.IsStruct id := by
  obtain ⟨t, ht, hk⟩ := hs
  obtain ⟨t', ht', hl⟩ := h.next ht
  exact ⟨t', ht', by rw [hl.kind.isStruct, hk]⟩

theorem IsStruct.prev (hs : s'.IsStruct id) (h : Later busy s s') : s.IsStruct id := by
  obtain ⟨t', ht', hk⟩ := hs
  obtain ⟨t, ht, hl⟩ := h.prev ht'
  exact ⟨t, ht, by rw [← hl.kind.isStruct, hk]⟩

theorem IsTable.later (hs : s.IsTable id) (h : Later busy s s') : s'.IsTable id := by
  obtain ⟨t, ht, hk⟩ := hs
  obtain ⟨t', ht', hl⟩ := h.next ht
  exact ⟨t', ht', by rw [hl.kind.isTable, hk]⟩

theorem IsTable.unsized (hs : s.IsTable id) : s.Unsized id := by
  obtain ⟨t, ht, hk⟩ := hs
  intro t' ht'
  obtain rfl := Option.some.inj (ht.symm.trans ht')
  cases hk' : t.kind with
  | table fs => rfl
  | enum _ _ _ => rfl
  | union _ => rfl
  | struct _ _ => rw [hk'] at hk; cases hk

theorem Slotted.later (hf : s.Slotted id i) (hs : s.IsTable id) (h : Later busy s s') :
    s'.Slotted id i := by
  intro f' hf'
  obtain ⟨t', ht', hft'⟩ := Option.bind_eq_some_iff.1 hf'
  obtain ⟨t, ht, hl⟩ := h.prev ht'
  obtain ⟨t₂, ht₂, hk⟩ := hs
  obtain rfl := Option.some.inj (ht.symm.trans ht₂)
  have hkl := hl.kind
  simp only [TypeDecl.fields] at hft'
  generalize t'.kind = k' at hkl hft'
  have hf₂ : ∀ f, t.kind.fields[i]? = some f → f.type.isResolved = true ∧ f.offset = some (slot i) :=
    fun f h => hf f (by rw [field?, ht]; exact h)
  generalize t.kind = k at hkl hk hf₂
  cases hkl with
  | enum _ _ => cases hk
  | union _ => cases hk
  | struct _ => cases hk
  | sized _ _ => cases hk
  | table hfs =>
    obtain ⟨f, hff, hl', ho⟩ := hfs.prev hft'
    obtain ⟨hr, hs⟩ := hf₂ f hff
    refine ⟨by rw [(hl'.resolved hr).1]; exact hr, ?_⟩
    rcases ho with ho | ho
    · rw [ho, hs]
    · exact ho

theorem Settled.of_type {t : TypeDecl} (ht : s.types[id]? = some t)
    (enum : t.kind.isEnum = true → s.EnumSettled id)
    (table : t.kind.isTable = true → ∀ i, s.Slotted id i)
    (struct : t.kind.isStruct = true → s.Sized id) : s.Settled id := by
  refine ⟨fun t' ht' hk => ?_, ?_, ?_⟩
  · obtain rfl := Option.some.inj (ht.symm.trans ht')
    exact enum hk t ht hk
  · rintro ⟨t', ht', hk⟩
    obtain rfl := Option.some.inj (ht.symm.trans ht')
    exact table hk
  · rintro ⟨t', ht', hk⟩
    obtain rfl := Option.some.inj (ht.symm.trans ht')
    exact struct hk

theorem Settled.of_none (ht : s.types[id]? = none) : s.Settled id := by
  refine ⟨fun t ht' => ?_, ?_, ?_⟩
  · rw [ht] at ht'
    cases ht'
  · rintro ⟨t, ht', -⟩
    rw [ht] at ht'
    cases ht'
  · rintro ⟨t, ht', -⟩
    rw [ht] at ht'
    cases ht'

theorem Settled.later (hs : s.Settled id) (h : Later busy s s') : s'.Settled id := by
  refine ⟨hs.enum.stays h, fun ht i => ?_, fun ht => ?_⟩
  · obtain ⟨t', ht', hk'⟩ := ht
    obtain ⟨t, ht, hl⟩ := h.prev ht'
    have hk : s.IsTable id := ⟨t, ht, by rw [← hl.kind.isTable, hk']⟩
    exact (hs.table hk i).later hk h
  · exact ((hs.struct (ht.prev h)).later h).1

theorem AtField.field?_of_ne (h : AtField id i s s') {j : Nat} (hj : i ≠ j) :
    s'.field? id j = s.field? id j := by
  obtain ⟨g, hg⟩ := h
  unfold Schema.field?
  rw [hg]
  cases s.types[id]? with
  | none => rfl
  | some t =>
    simp only [Option.map_some, Option.bind_some, TypeDecl.fields, TypeDecl.mapKind,
      fields_mapFields]
    exact List.getElem?_modify_ne g _ hj

theorem size?_mapFields (k : Kind) (g : List Field → List Field) :
    (k.mapFields g).size? = k.size? := by
  cases k <;> rfl

theorem AtField.unsized (h : AtField id i s s') (hz : s.Unsized id) : s'.Unsized id := by
  obtain ⟨g, hg⟩ := h
  intro t' ht'
  rw [hg] at ht'
  obtain ⟨t, ht, rfl⟩ := Option.map_eq_some_iff.1 ht'
  exact (size?_mapFields t.kind _).trans (hz t ht)

/-- Two changes at one field are one. -/
theorem AtField.trans (h : AtField id i s s') (h' : AtField id i s' s'') : AtField id i s s'' := by
  obtain ⟨g, hg⟩ := h
  obtain ⟨g', hg'⟩ := h'
  refine ⟨g' ∘ g, ?_⟩
  rw [hg', hg, Option.map_map]
  congr 1
  funext t
  obtain ⟨name, home, m, k⟩ := t
  cases k <;> simp [TypeDecl.mapKind, Kind.mapFields, List.modify_modify_eq]

theorem AtField.of_eq (h : s'.types[id]? = s.types[id]?) : AtField id i s s' := by
  refine ⟨fun f => f, ?_⟩
  rw [h]
  cases s.types[id]? with
  | none => rfl
  | some t =>
    obtain ⟨name, home, m, k⟩ := t
    have hid : ∀ fs : List Field, fs.modify i (fun f => f) = fs := fun fs => List.modify_id i fs
    cases k <;> simp [TypeDecl.mapKind, Kind.mapFields, hid]

theorem AtField.updateField (s : Schema) (id : TypeId) (i : Nat) (g : Field → Field) :
    AtField id i s (s.updateField id i g) :=
  ⟨g, types_updateType_self s id _⟩

/-- What a change to a field may be, in a table and in a struct without a size. -/
theorem Grows.updateField {g : Field → Field} (hb : ¬ busy id) (hz : s.Unsized id)
    (hf : ∀ f, s.field? id i = some f → f.Later (g f))
    (ho : ∀ t f, s.types[id]? = some t → t.kind.isTable = true → s.field? id i = some f →
      (g f).offset = f.offset ∨ (g f).offset = some (slot i)) :
    Grows busy s (s.updateField id i g) := by
  refine Grows.updateType fun t ht => ⟨⟨rfl, rfl, rfl, ?_⟩, fun h => absurd h hb⟩
  have hz' := hz t ht
  have hf' : ∀ f, t.fields[i]? = some f → f.Later (g f) :=
    fun f h => hf f (by rw [Schema.field?, ht]; exact h)
  have ho' : t.kind.isTable = true → ∀ f, t.fields[i]? = some f →
      (g f).offset = f.offset ∨ (g f).offset = some (slot i) :=
    fun hk f h => ho t f ht hk (by rw [Schema.field?, ht]; exact h)
  obtain ⟨name, home, m, k⟩ := t
  cases k with
  | enum b vs d => exact .refl _
  | union vs => exact .refl _
  | table fs =>
    exact .table (.modify (fun _ f => ⟨Field.Later.refl f, .inl rfl⟩) g
      fun f h => ⟨hf' f h, ho' rfl f h⟩)
  | struct fs n =>
    obtain rfl : n = none := hz'
    exact .struct (.modify (fun _ => Field.Later.refl) g hf')

/-- Any offset may be set in a struct without a size. -/
theorem Grows.place (hb : ¬ busy id) (hs : s.IsStruct id) (hz : s.Unsized id) (i : Nat)
    (o : ByteCount) : Grows busy s (s.updateField id i fun f => { f with offset := some o }) := by
  refine .updateField hb hz (fun f _ => .offset f _) fun t _ ht hk => ?_
  obtain ⟨t', ht', hk'⟩ := hs
  obtain rfl := Option.some.inj (ht'.symm.trans ht)
  obtain ⟨fs, n, hks⟩ := Kind.eq_struct_of_isStruct hk'
  rw [hks] at hk
  cases hk

/-- A struct whose layout is under way is left alone. -/
theorem Grows.busy_eq (h : s.Grows busy s') (hb : busy id) (hs : s.IsStruct id) :
    s'.types[id]? = s.types[id]? := by
  obtain ⟨t, ht, hk⟩ := hs
  rw [h.toLater.busy_eq ht hb hk, ht]

/-- The slot of its field may be set in a table. -/
theorem Grows.slot (hb : ¬ busy id) (hs : s.IsTable id) (i : Nat) :
    Grows busy s (s.updateField id i fun f => { f with offset := some (slot i) }) :=
  .updateField hb hs.unsized (fun f _ => .offset f _) fun _ _ _ _ _ => .inr rfl

theorem OnlyEnums.refl (s : Schema) : s.OnlyEnums s :=
  fun _ _ ht _ => ht

theorem isResolved_of_refer {ns : NamespaceId} {name : String} {r : TypeRef}
    (h : s.refer ns name = .ok r) : r.isResolved = true := by
  unfold refer at h
  split at h
  · cases h; rfl
  · split at h
    · cases h; rfl
    · cases h

end Schema

end FlatSchema
