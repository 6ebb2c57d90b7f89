import FlatSchema.Proofs.Resolution.Settled

/-!
# Every step leads on

Each function of the resolver, run on any schema whatever, ends in a later one, after a success and
after a failure.  Beyond that a step touches little: an enum is settled without a change to
anything but enums, a field is resolved in its place, and laying out a struct leaves alone every
struct that is not free, which are those laid out around it.
-/

namespace FlatSchema

namespace Resolving

open Schema

/-! ## Enums -/

theorem settleBase_ok {s : Schema} {t : TypeDecl} {b b' : TypeRef} {d d' : Option Value}
    (h : settleBase s t b d = .ok (b', d')) :
    b'.isResolved = true ∧ (b' = b ∧ d' = d ∨ b.isResolved = false ∧ ∃ p, b' = .primitive p) := by
  unfold settleBase at h
  split at h
  · split at h
    · cases h
      exact ⟨rfl, .inr ⟨rfl, _, rfl⟩⟩
    · cases h
    · cases h
  · next hb =>
    cases h
    refine ⟨?_, .inl ⟨rfl, rfl⟩⟩
    cases b with
    | unresolved w => exact absurd rfl (hb w)
    | primitive p => rfl
    | declared x => rfl

theorem putEnum_grows (busy : TypeId → Prop) {s : Schema} {id : TypeId} {t : TypeDecl}
    {b b' : TypeRef} {vs : List Entry} {d d' : Option Value} (ht : s.types[id]? = some t)
    (hk : t.kind = .enum b vs d) (hb : b' = b ∧ d' = d ∨ b.isResolved = false ∧ ∃ p, b' = .primitive p) :
    s.Grows busy (putEnum s id b' (numberValues vs).1 d') ∧
      s.OnlyEnums (putEnum s id b' (numberValues vs).1 d') := by
  constructor
  · refine Grows.updateType fun t' ht' => ?_
    obtain rfl := Option.some.inj (ht.symm.trans ht')
    refine ⟨⟨rfl, rfl, rfl, ?_⟩, fun _ hs => by rw [hk] at hs; cases hs⟩
    show t.kind.Later (.enum b' (numberValues vs).1 d')
    rw [hk]
    exact .enum hb (numberFrom_keeps (some 0) vs)
  · intro j tj hj he
    have hne : id ≠ j := by
      rintro rfl
      obtain rfl := Option.some.inj (ht.symm.trans hj)
      rw [hk] at he
      cases he
    rw [putEnum, types_updateType_of_ne s _ hne, hj]

theorem resolveEnum_ends (busy : TypeId → Prop) (id : TypeId) (s : Schema) :
    Ends ((resolveEnum id).run s)
      (fun _ s' => s.Grows busy s' ∧ s.OnlyEnums s' ∧ s'.EnumSettled id)
      (fun _ s' => s.Grows busy s' ∧ s.OnlyEnums s') := by
  by_cases hne : ∀ t, s.types[id]? = some t → t.kind.isEnum = false
  · rw [run_resolveEnum_of_not_enum hne]
    refine ⟨.refl busy s, .refl s, fun t ht hk => ?_⟩
    rw [hne t ht] at hk
    cases hk
  · obtain ⟨t, ht, hk⟩ : ∃ t, s.types[id]? = some t ∧ t.kind.isEnum = true := by
      simpa using hne
    obtain ⟨b, vs, d, hke⟩ := Kind.eq_enum_of_isEnum hk
    rw [run_resolveEnum ht hke]
    cases hb : settleBase s t b d with
    | error e => exact ⟨.refl busy s, .refl s⟩
    | ok bd =>
      obtain ⟨b', d'⟩ := bd
      obtain ⟨hb', hbd⟩ := settleBase_ok hb
      obtain ⟨hg, ho⟩ := putEnum_grows busy ht hke hbd
      cases hs : (numberValues vs).2 with
      | some name => exact ⟨hg, ho⟩
      | none =>
        refine ⟨hg, ho, fun t' ht' _ => ?_⟩
        rw [putEnum, types_updateType_self, ht] at ht'
        cases ht'
        exact ⟨b', _, d', rfl, hb', value_ne_none_of_numberFrom _ vs hs⟩

theorem settleBase_of_resolved (s : Schema) (t : TypeDecl) {b : TypeRef} (d : Option Value)
    (h : b.isResolved = true) : settleBase s t b d = .ok (b, d) := by
  cases b with
  | unresolved w => cases h
  | primitive p => rfl
  | declared x => rfl

theorem putEnum_eq_self {s : Schema} {id : TypeId} {t : TypeDecl} {b : TypeRef} {vs : List Entry}
    {d : Option Value} (ht : s.types[id]? = some t) (hk : t.kind = .enum b vs d) :
    putEnum s id b vs d = s := by
  refine updateType_eq_self fun t' ht' => ?_
  obtain rfl := Option.some.inj (ht.symm.trans ht')
  rw [TypeDecl.mapKind, ← hk]

theorem run_resolveEnum_of_settled {s : Schema} {id : TypeId} (h : s.EnumSettled id) :
    (resolveEnum id).run s = .ok () s := by
  by_cases hne : ∀ t, s.types[id]? = some t → t.kind.isEnum = false
  · exact run_resolveEnum_of_not_enum hne
  · obtain ⟨t, ht, hk⟩ : ∃ t, s.types[id]? = some t ∧ t.kind.isEnum = true := by simpa using hne
    obtain ⟨b, vs, d, hke, hb, hvs⟩ := h t ht hk
    have hnum : numberValues vs = (vs, none) := numberFrom_eq_self _ vs hvs
    rw [run_resolveEnum ht hke, settleBase_of_resolved s t d hb]
    simp only [hnum, putEnum_eq_self ht hke]

/-! ## Fields -/

theorem fieldDefault_ends (busy : TypeId → Prop) (r : TypeRef) (literal : Option Value)
    (s : Schema) :
    Ends ((fieldDefault r literal).run s)
      (fun _ s' => s.Grows busy s' ∧ s.OnlyEnums s')
      (fun _ s' => s.Grows busy s' ∧ s.OnlyEnums s') := by
  cases r with
  | unresolved w => exact ⟨.refl busy s, .refl s⟩
  | primitive p => exact ⟨.refl busy s, .refl s⟩
  | declared x =>
    by_cases hne : ∀ t, s.types[x]? = some t → t.kind.isEnum = false
    · rw [run_fieldDefault_of_not_enum literal hne]
      exact ⟨.refl busy s, .refl s⟩
    · obtain ⟨t, ht, hk⟩ : ∃ t, s.types[x]? = some t ∧ t.kind.isEnum = true := by
        simpa using hne
      rw [run_fieldDefault_of_enum literal ht hk]
      have he := resolveEnum_ends busy x s
      cases hr : (resolveEnum x).run s with
      | error e s' => rw [hr] at he; exact he
      | ok a s' =>
        rw [hr] at he
        obtain ⟨hg, ho, -⟩ := he
        dsimp only
        cases s'.types[x]? with
        | none => exact ⟨hg, ho⟩
        | some t' =>
          dsimp only
          cases enumDefault t'.kind literal with
          | error e => exact ⟨hg, ho⟩
          | ok d => exact ⟨hg, ho⟩

theorem settle_later {r : TypeRef} {w : TypeName} {f : Field} (d : Option Value)
    (hf : f.type.isResolved = false) (hr : r.isResolved = true) : f.Later (settle r w d f) :=
  ⟨⟨rfl, rfl⟩, .inr ⟨hf, hr⟩⟩

theorem settle_grows {busy : TypeId → Prop} {s : Schema} {owner : TypeId} {i : Nat} {f : Field}
    {r : TypeRef} (w : TypeName) (d : Option Value) (hb : ¬ busy owner) (hz : s.Unsized owner)
    (hf : s.field? owner i = some f) (hu : f.type.isResolved = false) (hr : r.isResolved = true) :
    s.Grows busy (s.updateField owner i (settle r w d)) := by
  refine .updateField hb hz (fun f' hf' => ?_) fun _ _ _ _ _ => .inl rfl
  obtain rfl := Option.some.inj (hf.symm.trans hf')
  exact settle_later d hu hr

theorem isEnum_of_field {t : TypeDecl} {i : Nat} {f : Field} (h : t.fields[i]? = some f) :
    t.kind.isEnum = false := by
  obtain ⟨name, home, m, k⟩ := t
  cases k with
  | enum b vs d => simp [TypeDecl.fields, Kind.fields] at h
  | union _ => rfl
  | table _ => rfl
  | struct _ _ => rfl

/-- Resolving a field changes enums and, if it succeeds, that field. -/
theorem resolveField_ends (busy : TypeId → Prop) {owner : TypeId} (i : Nat) {s : Schema}
    (hb : ¬ busy owner) (hz : s.Unsized owner) :
    Ends ((resolveField owner i).run s)
      (fun _ s' => s.Grows busy s' ∧ AtField owner i s s' ∧ s'.FieldSettled owner i)
      (fun _ s' => s.Grows busy s' ∧ s'.types[owner]? = s.types[owner]?) := by
  by_cases hres : s.FieldSettled owner i
  · rw [run_resolveField_of_resolved hres]
    exact ⟨.refl busy s, .of_eq rfl, hres⟩
  · obtain ⟨f, hf, hu⟩ : ∃ f, s.field? owner i = some f ∧ f.type.isResolved = false := by
      simpa [FieldSettled] using hres
    obtain ⟨t, ht, hft⟩ := Option.bind_eq_some_iff.1 hf
    obtain ⟨w, hw⟩ := TypeRef.eq_unresolved hu
    rw [run_resolveField ht hft hw]
    cases hr : s.refer t.home w.name with
    | error e => exact ⟨.refl busy s, rfl⟩
    | ok r =>
      have hres' := isResolved_of_refer hr
      have hd := fieldDefault_ends busy r f.default s
      dsimp only
      cases hrun : (fieldDefault r f.default).run s with
      | error e s' =>
        rw [hrun] at hd
        exact ⟨hd.1, by rw [hd.2 owner t ht (isEnum_of_field hft), ht]⟩
      | ok d s' =>
        rw [hrun] at hd
        obtain ⟨hg, ho⟩ := hd
        have ht' := ho owner t ht (isEnum_of_field hft)
        have hf' : s'.field? owner i = some f := by rw [Schema.field?, ht']; exact hft
        have hz' : s'.Unsized owner := by
          intro t₂ ht₂
          rw [ht'] at ht₂
          cases ht₂
          exact hz t ht
        refine ⟨hg.trans (settle_grows w d hb hz' hf' hu hres'), ?_, ?_⟩
        · exact (AtField.of_eq (by rw [ht', ht])).trans (.updateField s' owner i _)
        · intro f' h
          rw [field?_updateField, if_pos rfl, hf'] at h
          cases h
          exact hres'

/-! ## Tables -/

theorem resolveTable_ends {id : TypeId} (count : Nat) {s : Schema} (hs : s.IsTable id) :
    Ends ((resolveTable id count).run s)
      (fun _ s' => s.Grows idle s' ∧ ∀ i < count, s'.Slotted id i)
      (fun _ s' => s.Grows idle s') := by
  refine (Ends.forM (I := s.Grows idle) (D := fun i s' => s'.Slotted id i) (List.range count) ?_ s
    (.refl idle s)).imp (fun _ s' h => ⟨h.1, fun i hi => h.2.1 i (List.mem_range.2 hi)⟩)
    fun _ _ h => h
  intro i _ s₁ h₁
  have hs₁ := hs.later h₁.toLater
  refine ((resolveField_ends idle i (fun h => h) hs₁.unsized).imp (fun _ _ h => h)
    fun _ _ h => h₁.trans h.1).bind ?_
  rintro _ s₂ ⟨h₂, -, hf⟩
  have hs₂ := hs₁.later h₂.toLater
  have hg := Grows.slot (fun h : idle id => h) hs₂ i
  refine ⟨h₁.trans (h₂.trans hg), ?_, fun j hj => hj.later hs₁ (h₂.trans hg).toLater⟩
  intro f' hf'
  rw [field?_updateField, if_pos rfl] at hf'
  obtain ⟨f, hf₂, rfl⟩ := Option.map_eq_some_iff.1 hf'
  exact ⟨hf f hf₂, rfl⟩

/-! ## Structs -/

/-- Placing a field changes that field of its struct, and of other structs only those that laying
out a nested one may change. -/
theorem placeField_ends {busy : TypeId → Prop} {layout : TypeId → Resolving Unit} {owner : TypeId}
    (hb : ¬ busy owner)
    (hlayout : ∀ x s, s.IsStruct x → Ends ((layout x).run s)
      (fun _ s' => s.Grows (fun j => busy j ∨ j = owner) s' ∧ s'.Sized x)
      (fun _ s' => s.Grows (fun j => busy j ∨ j = owner) s'))
    (name : String) (offset : ByteCount) (i : Nat) {s : Schema} (hs : s.IsStruct owner)
    (hz : s.Unsized owner) :
    Ends ((placeField layout owner name offset i).run s)
      (fun _ s' => s.Grows busy s' ∧ AtField owner i s s')
      (fun _ s' => s.Grows busy s' ∧ AtField owner i s s') := by
  rw [run_placeField]
  have hres := resolveField_ends busy i hb hz
  cases hr : (resolveField owner i).run s with
  | error e s₁ =>
    rw [hr] at hres
    exact ⟨hres.1, .of_eq hres.2⟩
  | ok a s₁ =>
    rw [hr] at hres
    obtain ⟨hg, hat, -⟩ := hres
    have hs₁ := hs.later hg.toLater
    -- Setting the offset in a schema that has `owner` as `s₁` has it.
    have place : ∀ s₂, s₁.Grows busy s₂ → s₂.types[owner]? = s₁.types[owner]? → ∀ o,
        s.Grows busy (s₂.updateField owner i fun f => { f with offset := some o }) ∧
          AtField owner i s (s₂.updateField owner i fun f => { f with offset := some o }) := by
      intro s₂ h₂ he o
      have hat₂ := hat.trans (.of_eq he)
      exact ⟨(hg.trans h₂).trans (.place hb (hs₁.later h₂.toLater) (hat₂.unsized hz) i o),
        hat₂.trans (.updateField s₂ owner i _)⟩
    dsimp only
    cases hf : s₁.field? owner i with
    | none => exact ⟨hg, hat⟩
    | some f =>
      dsimp only
      cases hl : s₁.inline? f with
      | none => exact ⟨hg, hat⟩
      | some l =>
        cases l with
        | scalar n => exact place s₁ (.refl busy s₁) rfl _
        | nested x =>
          obtain ⟨-, -, hx⟩ := inline?_eq_nested_iff.1 hl
          have hlay := hlayout x s₁ hx
          dsimp only
          cases hrun : (layout x).run s₁ with
          | error e s₂ =>
            rw [hrun] at hlay
            exact ⟨hg.trans (hlay.weaken fun _ h => .inl h),
              hat.trans (.of_eq (hlay.busy_eq (.inr rfl) hs₁))⟩
          | ok a s₂ =>
            rw [hrun] at hlay
            have he := hlay.1.busy_eq (.inr rfl) hs₁
            exact place s₂ (hlay.1.weaken fun _ h => .inl h) he offset

theorem setSize_grows {busy : TypeId → Prop} {id : TypeId} {s : Schema} (n : ByteCount)
    (hb : ¬ busy id) (hs : s.IsStruct id) (hz : s.Unsized id) :
    Ends ((setSize id n).run s) (fun _ s' => s.Grows busy s' ∧ s'.Sized id)
      (fun _ _ => False) := by
  obtain ⟨t, ht, hk⟩ := hs
  obtain ⟨fs, m, hks⟩ := Kind.eq_struct_of_isStruct hk
  have hm : m = none := by simpa [hks, Kind.size?] using hz t ht
  subst hm
  rw [run_setSize ht hks]
  refine ⟨Grows.updateType fun t' ht' => ⟨⟨rfl, rfl, rfl, ?_⟩, fun h => absurd h hb⟩, ?_⟩
  · obtain rfl := Option.some.inj (ht.symm.trans ht')
    show t.kind.Later (.struct fs (some n))
    rw [hks]
    exact .struct (.refl (fun _ => Field.Later.refl) fs)
  · exact ⟨_, (types_updateType_self s id _).trans (congrArg _ ht), rfl⟩

/-- Structs that are not free are left alone. -/
theorem layoutStruct_ends (free : List TypeId) (hn : free.Nodup) (id : TypeId) (s : Schema)
    (hs : s.IsStruct id) :
    Ends ((layoutStruct free id).run s)
      (fun _ s' => s.Grows (· ∉ free) s' ∧ s'.Sized id) (fun _ s' => s.Grows (· ∉ free) s') := by
  induction free, id using Resolver.layoutStruct.induct generalizing s with
  | case1 free id ih =>
    obtain ⟨t, ht, hk⟩ := hs
    rw [run_layoutStruct free ht]
    split
    · next hz => exact ⟨.refl _ s, t, ht, hz⟩
    · next hz =>
      split
      · next hid =>
        have hb : ¬ (id ∉ free) := fun h => h hid
        have hz₀ : s.Unsized id := by
          intro t' ht'
          obtain rfl := Option.some.inj (ht.symm.trans ht')
          simpa using hz
        have hlay : ∀ x s, s.IsStruct x → Ends ((layoutStruct (free.erase id) x).run s)
            (fun _ s' => s.Grows (fun j => j ∉ free ∨ j = id) s' ∧ s'.Sized x)
            (fun _ s' => s.Grows (fun j => j ∉ free ∨ j = id) s') := by
          intro x s hx
          have hsub : ∀ j, j ∉ free ∨ j = id → j ∉ free.erase id := by
            rintro j (h | rfl)
            · exact fun hj => h (List.mem_of_mem_erase hj)
            · exact hn.not_mem_erase
          exact (ih hid x (hn.erase id) s hx).imp (fun _ _ h => ⟨h.1.weaken hsub, h.2⟩)
            fun _ _ h => h.weaken hsub
        -- While the fields are placed, the struct stays without a size.
        refine (Ends.foldlM_range (I := fun _ _ s' => s.Grows (· ∉ free) s' ∧ s'.Unsized id)
          t.fields.length ?_ 0 s ⟨.refl _ s, hz₀⟩).bind ?_
        · rintro i - offset s₁ ⟨h₁, hz₁⟩
          exact (placeField_ends hb hlay t.name offset i (IsStruct.later ⟨t, ht, hk⟩ h₁.toLater)
            hz₁).imp (fun _ _ h => ⟨h₁.trans h.1, h.2.unsized hz₁⟩) fun _ _ h => h₁.trans h.1
        · rintro size s₁ ⟨h₁, hz₁⟩
          exact (setSize_grows size hb (IsStruct.later ⟨t, ht, hk⟩ h₁.toLater) hz₁).imp
            (fun _ _ h => ⟨h₁.trans h.1, h.2⟩) fun _ _ h => h.elim
      · exact .refl _ s

/-- Laying out a nested struct leaves alone the struct around it. -/
theorem layoutStruct_nested_ends {free : List TypeId} (hn : free.Nodup) (owner x : TypeId)
    (s : Schema) (hx : s.IsStruct x) :
    Ends ((layoutStruct (free.erase owner) x).run s)
      (fun _ s' => s.Grows (fun j => idle j ∨ j = owner) s' ∧ s'.Sized x)
      (fun _ s' => s.Grows (fun j => idle j ∨ j = owner) s') := by
  have hsub : ∀ j, idle j ∨ j = owner → j ∉ free.erase owner := by
    rintro j (h | rfl)
    · exact h.elim
    · exact hn.not_mem_erase
  exact (layoutStruct_ends _ (hn.erase owner) x s hx).imp (fun _ _ h => ⟨h.1.weaken hsub, h.2⟩)
    fun _ _ h => h.weaken hsub

/-! ## Types -/

theorem run_resolveType {id : TypeId} {s : Schema} {t : TypeDecl} (ht : s.types[id]? = some t) :
    (resolveType id).run s =
      match t.kind with
      | .enum .. => (resolveEnum id).run s
      | .union .. => .ok () s
      | .table fields => (resolveTable id fields.length).run s
      | .struct .. => (layoutStruct (List.range s.types.length) id).run s := by
  simp only [Resolver.resolveType, EStateM.run_bind, EStateM.run_get, ht]
  cases t.kind <;> rfl

theorem run_resolveType_of_none {id : TypeId} {s : Schema} (ht : s.types[id]? = none) :
    (resolveType id).run s = .ok () s := by
  simp only [Resolver.resolveType, EStateM.run_bind, EStateM.run_get, ht, EStateM.run_pure]

theorem resolveType_ends (id : TypeId) (s : Schema) :
    Ends ((resolveType id).run s) (fun _ s' => s.Grows idle s' ∧ s'.Settled id)
      (fun _ s' => s.Grows idle s') := by
  cases ht : s.types[id]? with
  | none =>
    rw [run_resolveType_of_none ht]
    exact ⟨.refl idle s, .of_none ht⟩
  | some t =>
    rw [run_resolveType ht]
    cases hk : t.kind with
    | enum b vs d =>
      refine (resolveEnum_ends idle id s).imp ?_ fun _ _ h => h.1
      rintro _ s' ⟨hg, -, he⟩
      obtain ⟨t', ht', hl⟩ := hg.toLater.next ht
      refine ⟨hg, .of_type ht' (fun _ => he) (fun h => ?_) fun h => ?_⟩
      · rw [hl.kind.isTable, hk] at h
        cases h
      · rw [hl.kind.isStruct, hk] at h
        cases h
    | union vs =>
      refine ⟨.refl idle s, .of_type ht (fun h => ?_) (fun h => ?_) fun h => ?_⟩
      all_goals
        rw [hk] at h
        cases h
    | table fs =>
      refine (resolveTable_ends fs.length ⟨t, ht, by rw [hk]; rfl⟩).imp ?_ fun _ _ h => h
      rintro _ s' ⟨hg, hs⟩
      obtain ⟨t', ht', hl⟩ := hg.toLater.next ht
      refine ⟨hg, .of_type ht' (fun h => ?_) (fun _ i => ?_) fun h => ?_⟩
      · rw [hl.kind.isEnum, hk] at h
        cases h
      · by_cases hi : i < fs.length
        · exact hs i hi
        -- There are no further fields.
        · intro f hf
          have hlen : t'.fields.length = fs.length := by
            rw [show t'.fields.length = t.fields.length from hl.kind.fields.1, TypeDecl.fields, hk]
            rfl
          rw [field?, ht', Option.bind_some, List.getElem?_eq_none (by omega)] at hf
          cases hf
      · rw [hl.kind.isStruct, hk] at h
        cases h
    | struct fs n =>
      refine (layoutStruct_ends _ List.nodup_range id s ⟨t, ht, by rw [hk]; rfl⟩).imp ?_
        fun _ _ h => h.weaken fun _ h => h.elim
      rintro _ s' ⟨hg, hz⟩
      obtain ⟨t', ht', hl⟩ := hg.toLater.next ht
      refine ⟨hg.weaken fun _ h => h.elim, .of_type ht' (fun h => ?_) (fun h => ?_) fun _ => hz⟩
      · rw [hl.kind.isEnum, hk] at h
        cases h
      · rw [hl.kind.isTable, hk] at h
        cases h

theorem resolveTypes_ends (ids : List TypeId) (s : Schema) :
    Ends ((ids.forM resolveType).run s)
      (fun _ s' => s.Grows idle s' ∧ ∀ id ∈ ids, s'.Settled id) (fun _ s' => s.Grows idle s') := by
  refine (Ends.forM (I := s.Grows idle) (D := fun id s' => s'.Settled id) ids ?_ s
    (.refl idle s)).imp (fun _ s' h => ⟨h.1, h.2.1⟩) fun _ _ h => h
  intro id _ s₁ h₁
  exact (resolveType_ends id s₁).imp
    (fun _ _ h => ⟨h₁.trans h.1, h.2, fun j hj => hj.later h.1.toLater⟩) fun _ _ h => h₁.trans h

/-! ## Root types -/

theorem run_resolveRoot (ns : NamespaceId) (s : Schema) :
    (resolveRoot ns).run s =
      match s.namespaces[ns]?.bind (·.rootName) with
      | none => .ok () s
      | some name =>
        match s.findType? ns name with
        | some id => .ok () { s with rootType := some id }
        | none => .error (.unresolvedRootType name) s := by
  simp only [Resolver.resolveRoot, EStateM.run_bind, EStateM.run_get]
  cases s.namespaces[ns]?.bind (·.rootName) with
  | none => rfl
  | some name =>
    dsimp only
    cases s.findType? ns name <;> rfl

end Resolving

end FlatSchema
