import FlatSchema.Proofs.Resolution.Steps

/-!
# Resolving again

A step that succeeded does nothing on every later schema, and a step that failed fails the same way
on the schema it left (`Replays`).  Both carry over to sequences and loops, whose earlier steps find
all they did still done.  Hence resolution, run on its own result, ends as before and changes
nothing, from any schema whatever:

    s.resolve.1.resolve = s.resolve      (resolve_resolve)
-/

namespace FlatSchema

namespace Resolving

open Schema

variable {α β : Type}

/-- After a success, every later schema gives the same answer and stays as it is; after a failure,
what is left gives the same failure and stays as it is.  The root type plays no part. -/
def Replays (m : Resolving α) (s : Schema) : Prop :=
  Ends (m.run s) (fun a s' => ∀ s'', s'.Later idle s'' → m.run s'' = .ok a s'')
    (fun e s' => ∀ root, m.run { s' with rootType := root } = .error e { s' with rootType := root })

theorem Replays.bind {m : Resolving α} {f : α → Resolving β} {s : Schema} (hm : Replays m s)
    (hf : ∀ a s', m.run s = .ok a s' → Replays (f a) s' ∧
      Ends ((f a).run s') (fun _ s'' => s'.Later idle s'') (fun _ s'' => s'.Later idle s'')) :
    Replays (m >>= f) s := by
  unfold Replays at hm ⊢
  simp only [EStateM.run_bind]
  cases hms : m.run s with
  | error e s₁ =>
    rw [hms] at hm
    intro root
    rw [hm root]
  | ok a s₁ =>
    rw [hms] at hm
    obtain ⟨hr, hl⟩ := hf a s₁ hms
    unfold Replays at hr
    dsimp only
    cases hfs : (f a).run s₁ with
    | error e s₂ =>
      rw [hfs] at hr hl
      intro root
      have h₂ : s₁.Later idle { s₂ with rootType := root } := Later.trans hl (.withRoot idle s₂ root)
      rw [hm _ h₂]
      exact hr root
    | ok b s₂ =>
      rw [hfs] at hr hl
      intro s₃ h₃
      rw [hm _ (Later.trans hl h₃)]
      exact hr s₃ h₃

/-- A loop replays if its steps do, from every schema later than the first. -/
theorem Replays.forM {f : α → Resolving Unit} {I : Schema → Prop}
    (keep : ∀ s s', I s → s.Later idle s' → I s')
    (leads : ∀ a s, I s → Ends ((f a).run s) (fun _ s' => s.Later idle s')
      (fun _ s' => s.Later idle s'))
    (step : ∀ a s, I s → Replays (f a) s) (xs : List α) :
    ∀ s, I s → Replays (xs.forM f) s ∧
      Ends ((xs.forM f).run s) (fun _ s' => s.Later idle s') (fun _ s' => s.Later idle s') := by
  induction xs with
  | nil => exact fun s _ => ⟨fun _ _ => rfl, .refl idle s⟩
  | cons a xs ih =>
    intro s hs
    have hl := leads a s hs
    constructor
    · refine (step a s hs).bind fun _ s' h => ?_
      rw [h] at hl
      exact ih s' (keep s s' hs hl)
    · refine Ends.bind hl fun _ s' h => ?_
      exact (ih s' (keep s s' hs h)).2.imp (fun _ _ h' => Later.trans h h')
        fun _ _ h' => Later.trans h h'

/-! ## Enums -/

theorem settleBase_later {busy : TypeId → Prop} {s s' : Schema} (h : s.Later busy s')
    (t : TypeDecl) (b : TypeRef) (d : Option Value) : settleBase s' t b d = settleBase s t b d := by
  cases b with
  | unresolved w => simp only [settleBase, h.refer]
  | primitive p => rfl
  | declared x => rfl

theorem resolveEnum_replays (id : TypeId) (s : Schema) : Replays (resolveEnum id) s := by
  have hends := resolveEnum_ends idle id s
  unfold Replays
  cases hrun : (resolveEnum id).run s with
  | ok a s' =>
    rw [hrun] at hends
    exact fun s'' h => run_resolveEnum_of_settled (hends.2.2.stays h)
  | error e s' =>
    intro root
    by_cases hne : ∀ t, s.types[id]? = some t → t.kind.isEnum = false
    · rw [run_resolveEnum_of_not_enum hne] at hrun
      cases hrun
    · obtain ⟨t, ht, hk⟩ : ∃ t, s.types[id]? = some t ∧ t.kind.isEnum = true := by simpa using hne
      obtain ⟨b, vs, d, hke⟩ := Kind.eq_enum_of_isEnum hk
      rw [run_resolveEnum ht hke] at hrun
      cases hb : settleBase s t b d with
      | error e' =>
        rw [hb] at hrun
        cases hrun
        have ht' : ({ s with rootType := root } : Schema).types[id]? = some t := ht
        rw [run_resolveEnum ht' hke, settleBase_later (.withRoot idle s root), hb]
      | ok bd =>
        obtain ⟨b', d'⟩ := bd
        obtain ⟨hb', -⟩ := settleBase_ok hb
        simp only [hb] at hrun
        cases hstop : (numberValues vs).2 with
        | none => rw [hstop] at hrun; cases hrun
        | some name =>
          rw [hstop] at hrun
          cases hrun
          have ht' : ({ putEnum s id b' (numberValues vs).1 d' with
              rootType := root } : Schema).types[id]? =
              some (t.mapKind fun _ => .enum b' (numberValues vs).1 d') := by
            show (putEnum s id b' (numberValues vs).1 d').types[id]? = _
            rw [putEnum, types_updateType_self, ht]
            rfl
          rw [run_resolveEnum ht' rfl, settleBase_of_resolved _ _ d' hb']
          simp only [numberValues_numberValues, hstop]
          rw [putEnum_eq_self ht' rfl]

/-! ## Fields -/

theorem fieldDefault_fails {r : TypeRef} {literal : Option Value} {s s' : Schema} {e : SchemaError}
    (h : (fieldDefault r literal).run s = .error e s') (root : Option TypeId) :
    (fieldDefault r literal).run { s' with rootType := root } =
      .error e { s' with rootType := root } := by
  cases r with
  | unresolved w => cases h
  | primitive p => cases h
  | declared x =>
    by_cases hne : ∀ t, s.types[x]? = some t → t.kind.isEnum = false
    · rw [run_fieldDefault_of_not_enum literal hne] at h
      cases h
    · obtain ⟨t, ht, hk⟩ : ∃ t, s.types[x]? = some t ∧ t.kind.isEnum = true := by simpa using hne
      have hends := resolveEnum_ends idle x s
      have hrep := resolveEnum_replays x s
      unfold Replays at hrep
      rw [run_fieldDefault_of_enum literal ht hk] at h
      -- The type is an enum in every later schema too.
      have enum : ∀ s₁, s.Later idle s₁ → ∃ t₁, s₁.types[x]? = some t₁ ∧ t₁.kind.isEnum = true := by
        intro s₁ h₁
        obtain ⟨t₁, ht₁, hl⟩ := h₁.next ht
        exact ⟨t₁, ht₁, by rw [hl.kind.isEnum, hk]⟩
      cases hrun : (resolveEnum x).run s with
      | error e' s₁ =>
        rw [hrun] at h hends hrep
        cases h
        obtain ⟨t₁, ht₁, hk₁⟩ := enum s' hends.1.toLater
        have ht₂ : ({ s' with rootType := root } : Schema).types[x]? = some t₁ := ht₁
        rw [run_fieldDefault_of_enum literal ht₂ hk₁, hrep root]
      | ok a s₁ =>
        rw [hrun] at h hends hrep
        obtain ⟨t₁, ht₁, hk₁⟩ := enum s₁ hends.1.toLater
        simp only [ht₁] at h
        cases hd : enumDefault t₁.kind literal with
        | ok d => rw [hd] at h; cases h
        | error e' =>
          rw [hd] at h
          cases h
          have ht₂ : ({ s' with rootType := root } : Schema).types[x]? = some t₁ := ht₁
          rw [run_fieldDefault_of_enum literal ht₂ hk₁, hrep _ (.withRoot idle s' root)]
          simp only [ht₁, hd]

theorem resolveField_replays {owner : TypeId} (i : Nat) {s : Schema} (hz : s.Unsized owner) :
    Replays (resolveField owner i) s := by
  have hends := resolveField_ends idle i (fun h => h) hz
  unfold Replays
  cases hrun : (resolveField owner i).run s with
  | ok a s' =>
    rw [hrun] at hends
    exact fun s'' h => run_resolveField_of_resolved (hends.2.2.later h)
  | error e s' =>
    rw [hrun] at hends
    intro root
    by_cases hres : s.FieldSettled owner i
    · rw [run_resolveField_of_resolved hres] at hrun
      cases hrun
    · obtain ⟨f, hf, hu⟩ : ∃ f, s.field? owner i = some f ∧ f.type.isResolved = false := by
        simpa [FieldSettled] using hres
      obtain ⟨t, ht, hft⟩ := Option.bind_eq_some_iff.1 hf
      obtain ⟨w, hw⟩ := TypeRef.eq_unresolved hu
      have ht' : ({ s' with rootType := root } : Schema).types[owner]? = some t := by
        rw [← ht, ← hends.2]
      have hrefer := (hends.1.toLater.trans (.withRoot idle s' root)).refer t.home w.name
      rw [run_resolveField ht hft hw] at hrun
      rw [run_resolveField ht' hft hw, hrefer]
      cases hr : s.refer t.home w.name with
      | error e' =>
        rw [hr] at hrun
        cases hrun
        rfl
      | ok r =>
        rw [hr] at hrun
        dsimp only at hrun ⊢
        cases hd : (fieldDefault r f.default).run s with
        | ok d s₁ => rw [hd] at hrun; cases hrun
        | error e' s₁ =>
          rw [hd] at hrun
          cases hrun
          rw [fieldDefault_fails hd root]

/-! ## Tables -/

theorem resolveTable_replays {id : TypeId} (count : Nat) {s : Schema} (hs : s.IsTable id) :
    Replays (resolveTable id count) s := by
  -- The loop's step, from any schema in which `id` is a table.
  have leads : ∀ (i : Nat) s, s.IsTable id →
      Ends ((resolveField id i >>= fun _ => Resolver.updateField id i fun f =>
          { f with offset := some (firstSlot + slotSize * .ofNat i) }).run s)
        (fun _ s' => s.Later idle s') (fun _ s' => s.Later idle s') := by
    intro i s hs
    refine ((resolveField_ends idle i (fun h => h) hs.unsized).imp (fun _ _ h => h.1)
      fun _ _ h => h.1.toLater).bind fun _ s₁ h₁ => ?_
    exact h₁.toLater.trans (Grows.slot (fun h => h) (hs.later h₁.toLater) i).toLater
  refine (Replays.forM (I := fun s => s.IsTable id) (fun s s' hs h => hs.later h) leads ?_
    (List.range count) s hs).1
  intro i s hs
  refine (resolveField_replays i hs.unsized).bind fun _ s₁ hrun => ?_
  have h₁ := resolveField_ends idle i (fun h => h) hs.unsized
  rw [hrun] at h₁
  obtain ⟨hg, -, hf⟩ := h₁
  have hs₁ := hs.later hg.toLater
  have hg₂ : s₁.Grows idle _ := .slot (fun h => h) hs₁ i
  refine ⟨fun s₃ h₃ => ?_, hg₂.toLater⟩
  have hslot : (s₁.updateField id i fun f => { f with offset := some (slot i) }).Slotted id i := by
    intro f' hf'
    rw [field?_updateField, if_pos rfl] at hf'
    obtain ⟨f, hf₂, rfl⟩ := Option.map_eq_some_iff.1 hf'
    exact ⟨hf f hf₂, rfl⟩
  have hslot₃ := hslot.later (hs₁.later hg₂.toLater) h₃
  show EStateM.Result.ok () (s₃.updateField id i fun f => { f with offset := some (slot i) }) = _
  rw [updateField_offset_eq_self fun f hf => (hslot₃ f hf).2]

/-! ## Structs -/

/-- What placing the fields of `owner` asks of the layout of nested structs. -/
structure Lays (owner : TypeId) (layout : TypeId → Resolving Unit) : Prop where
  ends : ∀ x s, s.IsStruct x → Ends ((layout x).run s)
    (fun _ s' => s.Grows (fun j => idle j ∨ j = owner) s' ∧ s'.Sized x)
    (fun _ s' => s.Grows (fun j => idle j ∨ j = owner) s')
  sized : ∀ x s, s.Sized x → (layout x).run s = .ok () s
  fails : ∀ x s e s', s.IsStruct x → (layout x).run s = .error e s' → ∀ root,
    (layout x).run { s' with rootType := root } = .error e { s' with rootType := root }

variable {layout : TypeId → Resolving Unit} {owner : TypeId}

/-- The layout of a nested struct leaves the struct around it as it was. -/
theorem Lays.owner_eq (hlay : Lays owner layout) {x : TypeId} {s : Schema} (hx : s.IsStruct x)
    (hs : s.IsStruct owner) : Ends ((layout x).run s)
      (fun _ s' => s'.types[owner]? = s.types[owner]?)
      (fun _ s' => s'.types[owner]? = s.types[owner]?) := by
  refine (hlay.ends x s hx).imp (fun _ s' h => ?_) fun _ s' h => ?_
  · exact h.1.busy_eq (.inr rfl) hs
  · exact h.busy_eq (.inr rfl) hs

theorem run_resolveField_of_inline? {i : Nat} {s : Schema} {f : Field} {l : Inline}
    (hf : s.field? owner i = some f) (hi : s.inline? f = some l) :
    (resolveField owner i).run s = .ok () s := by
  refine run_resolveField_of_resolved fun f' hf' => ?_
  obtain rfl := Option.some.inj (hf.symm.trans hf')
  exact isResolved_of_inline? hi

/-- A scalar field in its place stays there. -/
theorem run_placeField_scalar (layout : TypeId → Resolving Unit) (name : String) {offset m : ByteCount}
    {i : Nat} {s : Schema} {f : Field} (hf : s.field? owner i = some f)
    (hi : s.inline? f = some (.scalar m)) (ho : f.offset = some (Schema.align offset m)) :
    (placeField layout owner name offset i).run s = .ok (Schema.align offset m + m) s := by
  have ho' : ∀ f', s.field? owner i = some f' → f'.offset = some (Schema.align offset m) := by
    intro f' hf'
    obtain rfl := Option.some.inj (hf.symm.trans hf')
    exact ho
  rw [run_placeField, run_resolveField_of_inline? hf hi]
  simp only [hf, hi, updateField_offset_eq_self ho']

/-- A nested struct in its place stays there. -/
theorem run_placeField_nested (name : String) {offset : ByteCount} {x : TypeId} {i : Nat} {s : Schema}
    {f : Field} (hf : s.field? owner i = some f) (hi : s.inline? f = some (.nested x))
    (ho : f.offset = some offset) (hx : (layout x).run s = .ok () s) :
    (placeField layout owner name offset i).run s =
      .ok (offset + (s.types[x]?.bind (·.kind.size?)).getD 0) s := by
  have ho' : ∀ f', s.field? owner i = some f' → f'.offset = some offset := by
    intro f' hf'
    obtain rfl := Option.some.inj (hf.symm.trans hf')
    exact ho
  rw [run_placeField, run_resolveField_of_inline? hf hi]
  simp only [hf, hi, hx, updateField_offset_eq_self ho']

/-- A field that has been placed is placed again as it is. -/
theorem placeField_again (hlay : Lays owner layout) (name : String) (offset : ByteCount) (i : Nat)
    {s s' s'' : Schema} {n : ByteCount} (hs : s.IsStruct owner) (hz : s.Unsized owner)
    (h : (placeField layout owner name offset i).run s = .ok n s') (hl : s'.Later idle s'')
    (hf'' : s''.field? owner i = s'.field? owner i) :
    (placeField layout owner name offset i).run s'' = .ok n s'' := by
  have hres := resolveField_ends idle i (fun h => h) hz
  rw [run_placeField] at h
  cases hr : (resolveField owner i).run s with
  | error e s₁ => rw [hr] at h; cases h
  | ok a s₁ =>
    rw [hr] at h hres
    obtain ⟨hg, hat, hset⟩ := hres
    have hs₁ := hs.later hg.toLater
    dsimp only at h
    cases hf : s₁.field? owner i with
    | none =>
      rw [hf] at h
      cases h
      have hset'' : s''.FieldSettled owner i := hset.later hl
      rw [run_placeField, run_resolveField_of_resolved hset'']
      simp only [hf'', hf]
    | some f =>
      rw [hf] at h
      dsimp only at h
      -- Either way the field, now with its offset, lies inline as it did without.
      cases hi : s₁.inline? f with
      | none => rw [hi] at h; cases h
      | some l =>
        rw [hi] at h
        cases l with
        | scalar m =>
          cases h
          rw [field?_updateField, if_pos rfl, hf, Option.map_some] at hf''
          have hg₂ : s₁.Grows idle _ :=
            .place (fun h => h) hs₁ (hat.unsized hz) i (Schema.align offset m)
          have hi'' : s''.inline? { f with offset := some (Schema.align offset m) } =
              some (.scalar m) := (hg₂.toLater.trans hl).inline? hi
          exact run_placeField_scalar layout name hf'' hi'' rfl
        | nested x =>
          obtain ⟨-, -, hx⟩ := inline?_eq_nested_iff.1 hi
          have hends := hlay.ends x s₁ hx
          have hown := hlay.owner_eq hx hs₁
          dsimp only at h
          cases hrun : (layout x).run s₁ with
          | error e s₂ => rw [hrun] at h; cases h
          | ok a s₂ =>
            rw [hrun] at h hends hown
            cases h
            obtain ⟨hg₂, hsx⟩ := hends
            have hf₂ : s₂.field? owner i = some f := by rw [field?, hown]; exact hf
            rw [field?_updateField, if_pos rfl, hf₂, Option.map_some] at hf''
            have hz₂ : s₂.Unsized owner := fun t ht => hat.unsized hz t (by rw [← hown]; exact ht)
            have hg₃ : s₂.Grows idle _ := .place (fun h => h) (hs₁.later hg₂.toLater) hz₂ i offset
            have hl₂ := hg₃.toLater.trans hl
            obtain ⟨hsx'', hsize⟩ := hsx.later hl₂
            have hi'' : s''.inline? { f with offset := some offset } = some (.nested x) :=
              (hg₂.toLater.toIdle.trans hl₂).inline? hi
            rw [run_placeField_nested name hf'' hi'' rfl (hlay.sized x s'' hsx''), hsize]

/-- A field that could not be placed cannot be placed in what the attempt left. -/
theorem placeField_fails (hlay : Lays owner layout) (name : String) (offset : ByteCount) (i : Nat)
    {s s' : Schema} {e : SchemaError} (hs : s.IsStruct owner) (hz : s.Unsized owner)
    (h : (placeField layout owner name offset i).run s = .error e s') (root : Option TypeId) :
    (placeField layout owner name offset i).run { s' with rootType := root } =
      .error e { s' with rootType := root } := by
  have hres := resolveField_ends idle i (fun h => h) hz
  have hrep := resolveField_replays i hz
  unfold Replays at hrep
  rw [run_placeField] at h
  cases hr : (resolveField owner i).run s with
  | error e' s₁ =>
    rw [hr] at h hrep
    cases h
    rw [run_placeField, hrep root]
  | ok a s₁ =>
    rw [hr] at h hres hrep
    obtain ⟨hg, -, -⟩ := hres
    dsimp only at h
    cases hf : s₁.field? owner i with
    | none => rw [hf] at h; cases h
    | some f =>
      rw [hf] at h
      dsimp only at h
      cases hi : s₁.inline? f with
      | none =>
        rw [hi] at h
        cases h
        have hf' : ({ s' with rootType := root } : Schema).field? owner i = some f := hf
        have hi' : ({ s' with rootType := root } : Schema).inline? f = none := hi
        rw [run_placeField, hrep _ (.withRoot idle s' root)]
        simp only [hf', hi']
      | some l =>
        rw [hi] at h
        cases l with
        | scalar m => cases h
        | nested x =>
          obtain ⟨-, -, hx⟩ := inline?_eq_nested_iff.1 hi
          have hends := hlay.ends x s₁ hx
          have hown := hlay.owner_eq hx (hs.later hg.toLater)
          dsimp only at h
          cases hrun : (layout x).run s₁ with
          | ok a s₂ => rw [hrun] at h; cases h
          | error e' s₂ =>
            rw [hrun] at h hends hown
            cases h
            have hl : s₁.Later idle { s' with rootType := root } :=
              hends.toLater.toIdle.trans (.withRoot idle s' root)
            have hf' : ({ s' with rootType := root } : Schema).field? owner i = some f := by
              show s'.field? owner i = some f
              rw [field?, hown]
              exact hf
            rw [run_placeField, hrep _ hl]
            simp only [hf', hl.inline? hi, hlay.fails x s₁ e s' hx hrun root]

/-- The fields before the failing one are found placed, whatever the later ones did. -/
theorem placeFields_fail (hlay : Lays owner layout) (name : String) (count : Nat) :
    ∀ (first : Nat) (offset : ByteCount) (s : Schema), s.IsStruct owner → s.Unsized owner →
      ∀ e s', ((List.range' first count).foldlM (placeField layout owner name) offset).run s =
        .error e s' →
      s.Later idle s' ∧ s'.Unsized owner ∧ (∀ j < first, s'.field? owner j = s.field? owner j) ∧
        ∀ root, ((List.range' first count).foldlM (placeField layout owner name) offset).run
          { s' with rootType := root } = .error e { s' with rootType := root } := by
  induction count with
  | zero =>
    intro first offset s _ _ e s' h
    cases h
  | succ count ih =>
    intro first offset s hs hz e s' h
    have hends := placeField_ends (fun h : idle owner => h) hlay.ends name offset first hs hz
    rw [List.range'_succ, List.foldlM_cons, EStateM.run_bind] at h
    cases hp : (placeField layout owner name offset first).run s with
    | error e' s₁ =>
      rw [hp] at h hends
      cases h
      obtain ⟨hg, hat⟩ := hends
      refine ⟨hg.toLater, hat.unsized hz, fun j hj => hat.field?_of_ne (by omega), fun root => ?_⟩
      rw [List.range'_succ, List.foldlM_cons, EStateM.run_bind,
        placeField_fails hlay name offset first hs hz hp root]
    | ok n s₁ =>
      rw [hp] at h hends
      obtain ⟨hg, hat⟩ := hends
      obtain ⟨hl, hz', hkeep, hfail⟩ := ih (first + 1) n s₁ (hs.later hg.toLater) (hat.unsized hz) e s' h
      refine ⟨hg.toLater.trans hl, hz', fun j hj => ?_, fun root => ?_⟩
      · rw [hkeep j (by omega), hat.field?_of_ne (by omega)]
      · have hagain := placeField_again hlay name offset first hs hz hp
          (hl.trans (.withRoot idle s' root)) (hkeep first (by omega))
        rw [List.range'_succ, List.foldlM_cons, EStateM.run_bind, hagain]
        exact hfail root

theorem run_layoutStruct_of_sized {s : Schema} {id : TypeId} (free : List TypeId)
    (h : s.Sized id) : (layoutStruct free id).run s = .ok () s := by
  obtain ⟨t, ht, hz⟩ := h
  rw [run_layoutStruct free ht, if_pos hz]

theorem layoutStruct_fails (free : List TypeId) (hn : free.Nodup) (id : TypeId) (s : Schema)
    (e : SchemaError) (s' : Schema) (hs : s.IsStruct id)
    (h : (layoutStruct free id).run s = .error e s') :
    ∀ root, (layoutStruct free id).run { s' with rootType := root } =
      .error e { s' with rootType := root } := by
  induction free, id using Resolver.layoutStruct.induct generalizing s e s' with
  | case1 free id ih =>
    intro root
    obtain ⟨t, ht, hk⟩ := hs
    rw [run_layoutStruct free ht] at h
    split at h
    · cases h
    · next hz =>
      split at h
      · next hid =>
        have hz₀ : s.Unsized id := by
          intro t' ht'
          obtain rfl := Option.some.inj (ht.symm.trans ht')
          simpa using hz
        have hlay : Lays id (layoutStruct (free.erase id)) := by
          refine ⟨layoutStruct_nested_ends hn id, fun x s hx => run_layoutStruct_of_sized _ hx, ?_⟩
          exact fun x s e s' hx hrun => ih hid x (hn.erase id) s e s' hx hrun
        rw [EStateM.run_bind, List.range_eq_range'] at h
        cases hp : ((List.range' 0 t.fields.length).foldlM
            (placeField (layoutStruct (free.erase id)) id t.name) 0).run s with
        | ok n s₁ => rw [hp] at h; cases h
        | error e' s₁ =>
          rw [hp] at h
          cases h
          obtain ⟨hl, hz', -, hfail⟩ := placeFields_fail hlay t.name t.fields.length 0 0 s
            ⟨t, ht, hk⟩ hz₀ e s' hp
          obtain ⟨t', ht', htl⟩ := hl.next ht
          have hz₂ : ¬ t'.kind.size?.isSome = true := by rw [hz' t' ht']; simp
          have hlen : t'.fields.length = t.fields.length := htl.kind.fields.1
          have ht₂ : ({ s' with rootType := root } : Schema).types[id]? = some t' := ht'
          rw [run_layoutStruct free ht₂, if_neg hz₂, if_pos hid, htl.name, hlen, EStateM.run_bind,
            List.range_eq_range', hfail root]
      · next hid =>
        cases h
        have ht₂ : ({ s with rootType := root } : Schema).types[id]? = some t := ht
        rw [run_layoutStruct free ht₂, if_neg hz, if_neg hid]

theorem layoutStruct_replays (free : List TypeId) (hn : free.Nodup) {id : TypeId} {s : Schema}
    (hs : s.IsStruct id) : Replays (layoutStruct free id) s := by
  have hends := layoutStruct_ends free hn id s hs
  unfold Replays
  cases hrun : (layoutStruct free id).run s with
  | ok a s' =>
    rw [hrun] at hends
    exact fun s'' h => run_layoutStruct_of_sized free (hends.2.later h).1
  | error e s' => exact layoutStruct_fails free hn id s e s' hs hrun

/-! ## Types -/

/-- A step that runs as another one on all later schemas replays with it. -/
theorem Replays.congr {m m' : Resolving α} {s : Schema}
    (h : ∀ s', s.Later idle s' → m.run s' = m'.run s') (hm : Replays m' s)
    (hl : Ends (m'.run s) (fun _ s' => s.Later idle s') (fun _ s' => s.Later idle s')) :
    Replays m s := by
  unfold Replays at hm ⊢
  rw [h s (.refl idle s)]
  cases hrun : m'.run s with
  | ok a s₁ =>
    rw [hrun] at hm hl
    intro s₂ h₂
    rw [h s₂ (Later.trans hl h₂)]
    exact hm s₂ h₂
  | error e s₁ =>
    rw [hrun] at hm hl
    intro root
    rw [h _ (Later.trans hl (.withRoot idle s₁ root))]
    exact hm root

/-- On later schemas the step branches as before. -/
theorem run_resolveType_later {id : TypeId} {s s' : Schema} {t : TypeDecl}
    (ht : s.types[id]? = some t) (h : s.Later idle s') :
    (resolveType id).run s' =
      match t.kind with
      | .enum .. => (resolveEnum id).run s'
      | .union .. => .ok () s'
      | .table fields => (resolveTable id fields.length).run s'
      | .struct .. => (layoutStruct (List.range s.types.length) id).run s' := by
  obtain ⟨t', ht', hl⟩ := h.next ht
  rw [run_resolveType ht', h.length]
  obtain ⟨-, -, -, hk⟩ := hl
  generalize t.kind = k at hk ⊢
  generalize t'.kind = k' at hk ⊢
  cases hk with
  | enum _ _ => rfl
  | union _ => rfl
  | table hf => simp only [hf.1]
  | struct _ => rfl
  | sized _ _ => rfl

theorem resolveType_replays (id : TypeId) (s : Schema) : Replays (resolveType id) s := by
  have hlead : ∀ {m : Resolving Unit},
      (∀ s', s.Later idle s' → (resolveType id).run s' = m.run s') → Replays m s →
        Replays (resolveType id) s := by
    intro m h hm
    refine .congr h hm ?_
    rw [← h s (.refl idle s)]
    exact (resolveType_ends id s).imp (fun _ _ h => h.1.toLater) fun _ _ h => h.toLater
  cases ht : s.types[id]? with
  | none =>
    refine hlead (m := pure ()) (fun s' h => ?_) fun _ _ => rfl
    have ht' : s'.types[id]? = none := by
      rw [List.getElem?_eq_none_iff] at ht ⊢
      rw [h.length]
      exact ht
    exact run_resolveType_of_none ht'
  | some t =>
    have hrun := fun (s' : Schema) (h : s.Later idle s') => run_resolveType_later ht h
    cases hk : t.kind with
    | enum b vs d =>
      rw [hk] at hrun
      exact hlead hrun (resolveEnum_replays id s)
    | union vs =>
      rw [hk] at hrun
      exact hlead (m := pure ()) hrun fun _ _ => rfl
    | table fs =>
      rw [hk] at hrun
      exact hlead hrun (resolveTable_replays fs.length ⟨t, ht, by rw [hk]; rfl⟩)
    | struct fs n =>
      rw [hk] at hrun
      exact hlead hrun (layoutStruct_replays _ List.nodup_range ⟨t, ht, by rw [hk]; rfl⟩)

/-! ## Root types -/

/-- What is done to the types replays, and `root`, if there is one, becomes the root type. -/
def Restamps (m : Resolving Unit) (s : Schema) : Prop :=
  ∃ root : Option TypeId, Ends (m.run s)
    (fun _ s' => s.Later idle s' ∧ s'.rootType = root.or s.rootType ∧ ∀ s'', s'.Later idle s'' →
      m.run s'' = .ok () { s'' with rootType := root.or s''.rootType })
    (fun e s' => s.Later idle s' ∧ s'.rootType = root.or s.rootType ∧ ∀ r,
      m.run { s' with rootType := r } = .error e { s' with rootType := root.or r })

theorem Replays.restamps {m : Resolving Unit} {s : Schema} (h : Replays m s)
    (hg : Ends (m.run s) (fun _ s' => s.Grows idle s') (fun _ s' => s.Grows idle s')) :
    Restamps m s :=
  ⟨none, (Ends.and h hg).imp (fun _ _ h => ⟨h.2.toLater, h.2.rootType, h.1⟩)
    fun _ _ h => ⟨h.2.toLater, h.2.rootType, h.1⟩⟩

theorem Restamps.congr {m m' : Resolving Unit} {s : Schema}
    (h : ∀ s', s.Later idle s' → m.run s' = m'.run s') (hm : Restamps m' s) : Restamps m s := by
  obtain ⟨root, hm⟩ := hm
  refine ⟨root, ?_⟩
  rw [h s (.refl idle s)]
  refine hm.imp (fun _ s₁ h₁ => ⟨h₁.1, h₁.2.1, fun s₂ h₂ => ?_⟩)
    fun _ s₁ h₁ => ⟨h₁.1, h₁.2.1, fun r => ?_⟩
  · rw [h s₂ (h₁.1.trans h₂)]
    exact h₁.2.2 s₂ h₂
  · rw [h _ (h₁.1.trans (.withRoot idle s₁ r))]
    exact h₁.2.2 r

/-- In a sequence the later root type prevails. -/
theorem Restamps.bind {m m' : Resolving Unit} {s : Schema} (hm : Restamps m s)
    (hm' : ∀ s', s.Later idle s' → Restamps m' s') : Restamps (m >>= fun _ => m') s := by
  obtain ⟨root, hm⟩ := hm
  cases hrun : m.run s with
  | error e s₁ =>
    rw [hrun] at hm
    obtain ⟨hl, hr, hfail⟩ := hm
    refine ⟨root, ?_⟩
    simp only [EStateM.run_bind, hrun]
    exact ⟨hl, hr, fun r => by rw [hfail r]⟩
  | ok a s₁ =>
    rw [hrun] at hm
    obtain ⟨hl, hr, hok⟩ := hm
    obtain ⟨root', hm'⟩ := hm' s₁ hl
    refine ⟨root'.or root, ?_⟩
    simp only [EStateM.run_bind, hrun, Option.or_assoc]
    refine hm'.imp (fun _ s₂ h₂ => ⟨hl.trans h₂.1, by rw [h₂.2.1, hr], fun s₃ h₃ => ?_⟩)
      fun e s₂ h₂ => ⟨hl.trans h₂.1, by rw [h₂.2.1, hr], fun r => ?_⟩
    · rw [hok s₃ (h₂.1.trans h₃)]
      exact h₂.2.2 _ (h₃.trans (.withRoot idle s₃ _))
    · rw [hok _ (h₂.1.trans (.withRoot idle s₂ r))]
      exact h₂.2.2 (root.or r)

theorem Restamps.forM {f : α → Resolving Unit} (step : ∀ a s, Restamps (f a) s) (xs : List α) :
    ∀ s, Restamps (xs.forM f) s := by
  induction xs with
  | nil => exact fun s => ⟨none, .refl idle s, rfl, fun _ _ => rfl⟩
  | cons a xs ih => exact fun s => (step a s).bind fun s' _ => ih s'

theorem resolveRoot_restamps (ns : NamespaceId) (s : Schema) : Restamps (resolveRoot ns) s := by
  have hsame : ∀ s', s.Later idle s' →
      s'.namespaces[ns]?.bind (·.rootName) = s.namespaces[ns]?.bind (·.rootName) :=
    fun s' h => by rw [h.namespaces]
  unfold Restamps
  rw [run_resolveRoot]
  cases hname : s.namespaces[ns]?.bind (·.rootName) with
  | none =>
    refine ⟨none, .refl idle s, rfl, fun s' h => ?_⟩
    simp only [run_resolveRoot, hsame s' h, hname, Option.none_or]
  | some name =>
    dsimp only
    cases hfind : s.findType? ns name with
    | none =>
      refine ⟨none, .refl idle s, rfl, fun r => ?_⟩
      have h : s.Later idle _ := .withRoot idle s r
      simp only [run_resolveRoot, hname, h.findType?, hfind, Option.none_or]
    | some id =>
      refine ⟨some id, .withRoot idle s (some id), rfl, fun s' h => ?_⟩
      have h : s.Later idle s' := Later.trans (.withRoot idle s (some id)) h
      simp only [run_resolveRoot, hsame s' h, hname, h.findType?, hfind, Option.some_or]

theorem resolveNamespace_restamps (ns : NamespaceId) (s : Schema) :
    Restamps (resolveNamespace ns) s := by
  have hrun : ∀ s', s.Later idle s' → (resolveNamespace ns).run s' =
      ((s.children ns).forM resolveType >>= fun _ => resolveRoot ns).run s' := by
    intro s' h
    rw [← h.children]
    rfl
  have htypes : Replays ((s.children ns).forM resolveType) s :=
    (Replays.forM (I := fun _ => True) (fun _ _ _ _ => trivial)
      (fun id s _ => (resolveType_ends id s).imp (fun _ _ h => h.1.toLater) fun _ _ h => h.toLater)
      (fun id s _ => resolveType_replays id s) _ s trivial).1
  refine .congr hrun (.bind (htypes.restamps ?_) fun s' _ => resolveRoot_restamps ns s')
  exact (resolveTypes_ends _ s).imp (fun _ _ h => h.1) fun _ _ h => h

theorem resolveAll_restamps (s : Schema) : Restamps resolveAll s := by
  have hrun : ∀ s', s.Later idle s' → resolveAll.run s' =
      ((List.range s.namespaces.length).forM resolveNamespace).run s' := by
    intro s' h
    rw [← h.namespaces]
    rfl
  exact .congr hrun (.forM resolveNamespace_restamps _ s)

end Resolving

/-! ## Top theorem -/

/-- Resolving what resolution left ends the same way, with the same error if there was one, and
leaves it as it is. -/
theorem Schema.resolve_resolve (s : Schema) : s.resolve.1.resolve = s.resolve := by
  obtain ⟨root, h⟩ := Resolving.resolveAll_restamps s
  unfold resolve
  cases hrun : Resolving.resolveAll.run s with
  | ok a s' =>
    rw [hrun] at h
    obtain ⟨-, hroot, hok⟩ := h
    have hsame : root.or s'.rootType = s'.rootType := by
      rw [hroot, ← Option.or_assoc, Option.or_self]
    dsimp only
    rw [hok s' (.refl idle s'), hsame]
  | error e s' =>
    rw [hrun] at h
    obtain ⟨-, hroot, hfail⟩ := h
    have hsame : root.or s'.rootType = s'.rootType := by
      rw [hroot, ← Option.or_assoc, Option.or_self]
    have hagain := hfail s'.rootType
    rw [hsame] at hagain
    dsimp only
    rw [hagain]

end FlatSchema
