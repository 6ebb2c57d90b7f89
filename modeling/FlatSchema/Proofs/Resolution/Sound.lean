import FlatSchema.Proofs.Resolution.Resolves
import FlatSchema.Proofs.Resolution.Steps

/-!
# The resolver is right

From a schema `s₀` that was never resolved, every step of the resolver keeps what is resolved right
(`Sound`), and a step that fails reports a fault of `s₀` (`Fault`).  While a struct is laid out, the
structs around it are those that reach it by nesting, so a struct that is met again contains itself.
-/

namespace FlatSchema

open Relation

theorem names_of_along {vs vs' : List Entry} (h : Along (fun _ => Entry.Later) vs vs') :
    vs'.map (·.name) = vs.map (·.name) :=
  h.map_eq fun _ _ _ h => h.1

/-- If all entries have values, every name has one. -/
theorem Kind.exists_value? {k : Kind} {n : String} (hk : ∀ e ∈ k.values, e.value ≠ none)
    (hn : n ∈ k.values.map (·.name)) : ∃ v, k.value? n = some v := by
  obtain ⟨e, he, rfl⟩ := List.mem_map.1 hn
  have hfind : (k.values.find? (·.name = e.name)).isSome = true := by
    rw [List.find?_isSome]
    exact ⟨e, he, by simp⟩
  obtain ⟨e', he'⟩ := Option.isSome_iff_exists.1 hfind
  obtain ⟨v, hv⟩ := Option.ne_none_iff_exists'.1 (hk e' (List.mem_of_find?_eq_some he'))
  exact ⟨v, by rw [value?, he', Option.bind_some, hv]⟩

namespace Schema

/-- What `s` has resolved of `s₀` is right. -/
structure Sound (s₀ s : Schema) : Prop where
  later : s₀.Later idle s
  enum : ∀ {id : TypeId} {t₀ t}, s₀.types[id]? = some t₀ → s.types[id]? = some t →
    t.kind.isEnum = true → t.kind = t₀.kind ∨ EnumResolves t₀.kind t.kind
  field : ∀ {id i t₀ f₀ w f}, s₀.Writes id i t₀ f₀ w → s.field? id i = some f →
    f.type.isResolved = true →
      s₀.FieldResolves s t₀.home f₀ f ∧ ∀ x, f.type = .declared x → s.EnumSettled x
  size : ∀ {id : TypeId} {t n}, s.types[id]? = some t → t.kind.size? = some n →
    s.Laid id t.fields.length n

variable {busy : TypeId → Prop} {s₀ s s' : Schema} {id : TypeId}

/-! ## What keeps a schema sound -/

theorem Fresh.sound (h : s₀.Fresh) : s₀.Sound s₀ := by
  refine ⟨.refl idle s₀, fun ht₀ ht _ => ?_, fun hw hf hr => ?_, fun {id t n} ht hn => ?_⟩
  · rw [Option.some.inj (ht₀.symm.trans ht)]
    exact .inl rfl
  · obtain rfl := Option.some.inj (hw.field?.symm.trans hf)
    rw [hw.name] at hr
    cases hr
  · have hk := h.kind id t ht
    cases hkind : t.kind with
    | enum _ _ _ => rw [hkind] at hn; cases hn
    | union _ => rw [hkind] at hn; cases hn
    | table _ => rw [hkind] at hn; cases hn
    | struct fs m =>
      rw [hkind] at hk hn
      rw [show m = none from hk.1] at hn
      cases hn

theorem DefaultsTo.later {r : TypeRef} {literal d : Option Value} (h : s.DefaultsTo r literal d)
    (hl : s.Later busy s') (he : ∀ x, r = .declared x → s.EnumSettled x) :
    s'.DefaultsTo r literal d := by
  cases h with
  | primitive p => exact .primitive p
  | literal p v => exact .literal p v
  | @enum x t p ht hp => exact .enum ((he x rfl).later hl t ht (Kind.isEnum_of_base? hp)) hp
  | @named x t v n k ht hk hv hn => exact .named ((he x rfl).later hl t ht hk) hk hv hn
  | @other x literal hne =>
    refine .other literal fun t' ht' => ?_
    obtain ⟨t, ht, htl⟩ := hl.prev ht'
    rw [htl.kind.isEnum]
    exact hne t ht

theorem FieldResolves.later {ns : NamespaceId} {f₀ f f' : Field}
    (h : s₀.FieldResolves s ns f₀ f) (hl : s.Later busy s') (hf : f.Later f')
    (hr : f.type.isResolved = true) (he : ∀ x, f.type = .declared x → s.EnumSettled x) :
    s₀.FieldResolves s' ns f₀ f' := by
  obtain ⟨ht, hrep, hd⟩ := hf.resolved hr
  exact ⟨by rw [ht, hrep]; exact h.type, by rw [ht, hd]; exact h.default.later hl he⟩

/-- Only what is new has to be looked at. -/
theorem Sound.step (h : s₀.Sound s) (hl : s.Later idle s')
    (enum : ∀ {j : TypeId} {t₀ t'}, s₀.types[j]? = some t₀ → s'.types[j]? = some t' →
      t'.kind.isEnum = true → s.types[j]? = some t' ∨ EnumResolves t₀.kind t'.kind)
    (field : ∀ {j k t₀ f₀ w f f'}, s₀.Writes j k t₀ f₀ w → s.field? j k = some f →
      s'.field? j k = some f' → f'.type.isResolved = true → f.type.isResolved = true ∨
        s₀.FieldResolves s' t₀.home f₀ f' ∧ ∀ x, f'.type = .declared x → s'.EnumSettled x)
    (size : ∀ {j : TypeId} {t' n}, s'.types[j]? = some t' → t'.kind.size? = some n →
      s.Sized j ∨ s'.Laid j t'.fields.length n) : s₀.Sound s' := by
  refine ⟨h.later.trans hl, fun ht₀ ht' hk => ?_, fun {j k t₀ f₀ w f'} hw hf' hr => ?_,
    fun {j t' n} ht' hn => ?_⟩
  · rcases enum ht₀ ht' hk with ht | he
    · exact h.enum ht₀ ht hk
    · exact .inr he
  · obtain ⟨f, hf, hfl⟩ := hl.field?_prev hf'
    rcases field hw hf hf' hr with hres | hnew
    · obtain ⟨hold, he⟩ := h.field hw hf hres
      refine ⟨hold.later hl hfl hres he, fun x hx => ?_⟩
      rw [(hfl.resolved hres).1] at hx
      exact (he x hx).stays hl
    · exact hnew
  · rcases size ht' hn with hz | hlaid
    · obtain ⟨-, hsame⟩ := hz.later hl
      rw [hsame] at ht'
      refine (h.size ht' hn).later hl fun k _ => ?_
      rw [field?, field?, hsame]
    · exact hlaid

theorem Sound.onlyEnums (h : s₀.Sound s) (hl : s.Later idle s') (ho : s.OnlyEnums s')
    (enum : ∀ {j : TypeId} {t₀ t'}, s₀.types[j]? = some t₀ → s'.types[j]? = some t' →
      t'.kind.isEnum = true → s.types[j]? = some t' ∨ EnumResolves t₀.kind t'.kind) :
    s₀.Sound s' := by
  refine h.step hl enum (fun {j k t₀ f₀ w f f'} _ hf hf' hr => .inl ?_)
    fun {j t' n} ht' hn => .inl ?_
  · obtain ⟨t, ht, hft⟩ := Option.bind_eq_some_iff.1 hf
    rw [field?, ho j t ht (Resolving.isEnum_of_field hft)] at hf'
    obtain rfl := Option.some.inj (hft.symm.trans hf')
    exact hr
  · obtain ⟨t, ht, htl⟩ := hl.prev ht'
    have hk : t.kind.isEnum = false := by
      rw [← htl.kind.isEnum]
      cases hkind : t'.kind with
      | enum _ _ _ => rw [hkind] at hn; cases hn
      | union _ => rfl
      | table _ => rfl
      | struct _ _ => rfl
    obtain rfl := Option.some.inj ((ho j t ht hk).symm.trans ht')
    exact ⟨t, ht, by rw [hn]; rfl⟩

theorem isEnum_mapFields (k : Kind) (g : List Field → List Field) :
    (k.mapFields g).isEnum = k.isEnum := by
  cases k <;> rfl

theorem Sound.updateField {i : Nat} {g : Field → Field} (h : s₀.Sound s)
    (hl : s.Later idle (s.updateField id i g))
    (field : ∀ {t₀ f₀ w f}, s₀.Writes id i t₀ f₀ w → s.field? id i = some f →
      (g f).type.isResolved = true → f.type.isResolved = true ∨
        s₀.FieldResolves (s.updateField id i g) t₀.home f₀ (g f) ∧
          ∀ x, (g f).type = .declared x → (s.updateField id i g).EnumSettled x) :
    s₀.Sound (s.updateField id i g) := by
  have hother : ∀ {j : TypeId}, id ≠ j → (s.updateField id i g).types[j]? = s.types[j]? :=
    fun hj => types_updateType_of_ne s _ hj
  refine h.step hl (fun {j t₀ t'} _ ht' hk => .inl ?_)
    (fun {j k t₀ f₀ w f f'} hw hf hf' hr => ?_) fun {j t' n} ht' hn => .inl ?_
  · by_cases hj : id = j
    · subst hj
      rw [Schema.updateField, types_updateType_self] at ht'
      obtain ⟨t, ht, rfl⟩ := Option.map_eq_some_iff.1 ht'
      have hk' : t.kind.isEnum = true := by rwa [TypeDecl.mapKind, isEnum_mapFields] at hk
      obtain ⟨b, vs, d, hke⟩ := Kind.eq_enum_of_isEnum hk'
      obtain ⟨name, home, m, kind⟩ := t
      subst hke
      exact ht
    · rwa [hother hj] at ht'
  · by_cases hj : id = j
    · subst hj
      rw [field?_updateField, hf] at hf'
      by_cases hk : i = k
      · subst hk
        rw [if_pos rfl, Option.map_some] at hf'
        obtain rfl := Option.some.inj hf'
        exact field hw hf hr
      · rw [if_neg hk] at hf'
        obtain rfl := Option.some.inj hf'
        exact .inl hr
    · rw [field?, hother hj] at hf'
      obtain rfl := Option.some.inj (hf.symm.trans hf')
      exact .inl hr
  · by_cases hj : id = j
    · subst hj
      rw [Schema.updateField, types_updateType_self] at ht'
      obtain ⟨t, ht, rfl⟩ := Option.map_eq_some_iff.1 ht'
      rw [TypeDecl.mapKind, size?_mapFields] at hn
      exact ⟨t, ht, by rw [hn]; rfl⟩
    · rw [hother hj] at ht'
      exact ⟨t', ht', by rw [hn]; rfl⟩

/-- An offset says nothing about types. -/
theorem Sound.offset {i : Nat} {o : Option ByteCount} (h : s₀.Sound s)
    (hl : s.Later idle (s.updateField id i fun f => { f with offset := o })) :
    s₀.Sound (s.updateField id i fun f => { f with offset := o }) :=
  h.updateField hl fun _ _ hr => .inl hr

/-- An enum that is settled is resolved. -/
theorem Sound.enumResolves (hf : s₀.Fresh) (h : s₀.Sound s) {t : TypeDecl}
    (ht : s.types[id]? = some t) (hk : t.kind.isEnum = true) (hs : s.EnumSettled id) :
    ∃ t₀, s₀.types[id]? = some t₀ ∧ EnumResolves t₀.kind t.kind := by
  obtain ⟨t₀, ht₀, -⟩ := h.later.prev ht
  refine ⟨t₀, ht₀, ?_⟩
  rcases h.enum ht₀ ht hk with he | he
  · obtain ⟨b, vs, d, hke, hb, -⟩ := hs t ht hk
    have hfresh := hf.kind id t₀ ht₀
    rw [← he, hke] at hfresh
    rw [show b.isResolved = false from hfresh] at hb
    cases hb
  · exact he

/-- What may stand in a struct lies inline once its type is found. -/
theorem Sound.inline?_of_flat (hfresh : s₀.Fresh) (h : s₀.Sound s) {f : Field}
    (hr : f.repeated = false) (he : ∀ x, f.type = .declared x → s.EnumSettled x)
    (hflat : s₀.Flat f.type) : ∃ l, s.inline? f = some l := by
  generalize hty : f.type = r at hflat
  cases hflat with
  | @primitive p hp =>
    obtain ⟨n, hn⟩ := Option.isSome_iff_exists.1 hp
    exact ⟨_, inline?_eq_scalar_iff.2 ⟨hr, p, hn, .inl hty⟩⟩
  | @struct x hx => exact ⟨_, inline?_eq_nested_iff.2 ⟨hr, hty, hx.later h.later⟩⟩
  | @enum x t₀ w vs d p ht₀ hk₀ hp hz =>
    obtain ⟨n, hn⟩ := Option.isSome_iff_exists.1 hz
    obtain ⟨t, ht, htl⟩ := h.later.next ht₀
    have hk : t.kind.isEnum = true := by rw [htl.kind.isEnum, hk₀]; rfl
    obtain ⟨t₁, ht₁, w₁, q, vs₁, vs', d₁, hk₁, hkq, hq, -⟩ :=
      h.enumResolves hfresh ht hk (he x hty)
    obtain rfl := Option.some.inj (ht₀.symm.trans ht₁)
    obtain ⟨rfl, -, -⟩ : w = w₁ ∧ vs = vs₁ ∧ d = d₁ := by simpa using hk₀.symm.trans hk₁
    obtain rfl : p = q := Primitive.eq_of_mem_names hp hq
    exact ⟨_, inline?_eq_scalar_iff.2 ⟨hr, p, hn, .inr ⟨x, t, hty, ht, by rw [hkq]; rfl⟩⟩⟩

end Schema

namespace Resolving

open Schema

variable {s₀ s : Schema}

/-! ## Enums -/

theorem resolveEnum_sound (hf : s₀.Fresh) (h : s₀.Sound s) (id : TypeId) :
    Ends ((resolveEnum id).run s) (fun _ s' => s₀.Sound s') (fun e _ => s₀.Fault e) := by
  by_cases hne : ∀ t, s.types[id]? = some t → t.kind.isEnum = false
  · rw [run_resolveEnum_of_not_enum hne]
    exact h
  · obtain ⟨t, ht, hk⟩ : ∃ t, s.types[id]? = some t ∧ t.kind.isEnum = true := by simpa using hne
    obtain ⟨t₀, ht₀, htl⟩ := h.later.prev ht
    rcases h.enum ht₀ ht hk with hsame | hres
    · obtain ⟨b, vs, d, hke⟩ := Kind.eq_enum_of_isEnum hk
      have hk₀ : t₀.kind = .enum b vs d := hsame.symm.trans hke
      have hb := hf.kind id t₀ ht₀
      rw [hk₀] at hb
      obtain ⟨w, rfl⟩ := TypeRef.eq_unresolved hb
      rw [run_resolveEnum ht hke]
      simp only [settleBase, h.later.refer, htl.home, htl.name]
      cases hr : s₀.refer t₀.home w.name with
      | error e =>
        obtain ⟨rfl, hnone⟩ := refer_eq_error hr
        exact .unknownBase ht₀ hk₀ hnone
      | ok r =>
        have hd := refer_eq_ok_iff.1 hr
        cases hd with
        | declared hp hx => exact .declaredBase ht₀ hk₀ (.declared hp hx)
        | @primitive p hp =>
          dsimp only
          obtain ⟨hg, ho⟩ : s.Grows idle
              (putEnum s id (.primitive p) (numberValues vs).1 (some p.default)) ∧ s.OnlyEnums _ :=
            putEnum_grows idle ht hke (.inr ⟨rfl, p, rfl⟩)
          cases hs : (numberValues vs).2 with
          | some name =>
            obtain ⟨i, e, he, hv, rfl, hc⟩ := numberValues_stops hs
            exact .values ht₀ hk₀ he hv hc
          | none =>
            refine h.onlyEnums hg.toLater ho fun {j t₁ t'} ht₁ ht' _ => ?_
            by_cases hj : id = j
            · subst hj
              obtain rfl := Option.some.inj (ht₀.symm.trans ht₁)
              rw [putEnum, types_updateType_self, ht] at ht'
              obtain rfl := Option.some.inj ht'
              refine .inr ?_
              exact ⟨w, p, vs, _, d, hk₀, rfl, hp, names_of_along (numberFrom_keeps (some 0) vs),
                numberValues_eq_counted (Prod.ext rfl hs)⟩
            · rw [putEnum, types_updateType_of_ne s _ hj] at ht'
              exact .inl ht'
    · have hset : s.EnumSettled id := by
        intro t' ht' _
        obtain rfl := Option.some.inj (ht.symm.trans ht')
        obtain ⟨w, p, vs, vs', d, -, hk', -, hvs⟩ := hres
        refine ⟨_, vs', _, hk', rfl, fun e he hv => ?_⟩
        have hmem : e.value.map Int64.toInt ∈ (counted 0 vs).map some := by
          rw [← hvs.2]
          exact List.mem_map_of_mem he
        rw [hv] at hmem
        simp at hmem
      rw [run_resolveEnum_of_settled hset]
      exact h

/-! ## Fields -/

theorem fieldDefault_sound (hf : s₀.Fresh) (h : s₀.Sound s) {owner : TypeId} {i : Nat}
    {t₀ : TypeDecl} {f₀ : Field} {w : TypeName} {r : TypeRef} (hw : s₀.Writes owner i t₀ f₀ w)
    (hd : s₀.Denotes t₀.home w.name r) :
    Ends ((fieldDefault r f₀.default).run s)
      (fun d s' => s₀.Sound s' ∧ s'.DefaultsTo r f₀.default d ∧ ∀ x, r = .declared x → s'.EnumSettled x)
      (fun e _ => s₀.Fault e) := by
  cases r with
  | unresolved w => cases hd
  | primitive p =>
    cases hv : f₀.default with
    | none => exact ⟨h, .primitive p, fun x hx => by cases hx⟩
    | some v => exact ⟨h, .literal p v, fun x hx => by cases hx⟩
  | declared x =>
    by_cases hne : ∀ t, s.types[x]? = some t → t.kind.isEnum = false
    · rw [run_fieldDefault_of_not_enum _ hne]
      refine ⟨h, .other _ hne, fun y hy t ht hk => ?_⟩
      obtain rfl := TypeRef.declared.inj hy
      rw [hne t ht] at hk
      cases hk
    · obtain ⟨t, ht, hk⟩ : ∃ t, s.types[x]? = some t ∧ t.kind.isEnum = true := by simpa using hne
      rw [run_fieldDefault_of_enum _ ht hk]
      have hends := (resolveEnum_sound hf h x).and (resolveEnum_ends idle x s)
      cases hrun : (resolveEnum x).run s with
      | error e s' => rw [hrun] at hends; exact hends.1
      | ok a s' =>
        rw [hrun] at hends
        obtain ⟨hs', hg, -, hset⟩ := hends
        obtain ⟨t', ht', htl⟩ := hg.toLater.next ht
        have hk' : t'.kind.isEnum = true := by rw [htl.kind.isEnum]; exact hk
        obtain ⟨t₁, ht₁, hres⟩ := hs'.enumResolves hf ht' hk' hset
        have hnames := hres.names
        obtain ⟨w₁, p, vs, vs', d, hk₁, hk₂, -, -⟩ := hres
        have hsettled : ∀ y, TypeRef.declared x = .declared y → s'.EnumSettled y := by
          intro y hy
          obtain rfl := TypeRef.declared.inj hy
          exact hset
        simp only [ht']
        cases hv : f₀.default with
        | none =>
          refine ⟨hs', ?_, hsettled⟩
          show s'.DefaultsTo _ none t'.kind.enumDefault
          rw [hk₂]
          exact .enum ht' (by rw [hk₂]; rfl)
        | some v =>
          simp only [enumDefault]
          cases hval : v.text?.bind t'.kind.value? with
          | some k =>
            obtain ⟨n, hn, hk⟩ := Option.bind_eq_some_iff.1 hval
            exact ⟨hs', .named ht' hk' hn hk, hsettled⟩
          | none =>
            refine Fault.literal hw hv hd ht₁ hk₁ fun n hn htext => ?_
            obtain ⟨b', vs₂, d', hk₃, -, hvs⟩ := hset t' ht' hk'
            obtain ⟨k, hk⟩ := Kind.exists_value? (k := t'.kind) (by rw [hk₃]; exact hvs)
              (by rw [hnames, hk₁]; exact hn)
            rw [htext, Option.bind_some, hk] at hval
            cases hval

/-- A field that is not resolved is as it was written. -/
theorem writes_of_field (h : s₀.Sound s) {owner : TypeId} {i : Nat} {t : TypeDecl} {f : Field}
    {w : TypeName} (ht : s.types[owner]? = some t) (hf : t.fields[i]? = some f)
    (hw : f.type = .unresolved w) :
    ∃ t₀ f₀, s₀.Writes owner i t₀ f₀ w ∧ t.home = t₀.home ∧ f.default = f₀.default ∧
      f.repeated = f₀.repeated := by
  obtain ⟨t₀, ht₀, htl⟩ := h.later.prev ht
  obtain ⟨f₀, hf₀, hfl⟩ := htl.kind.fields.prev hf
  rcases hfl.2 with ⟨hty, hrep, hd⟩ | ⟨-, hres⟩
  · exact ⟨t₀, f₀, ⟨ht₀, hf₀, hty.symm.trans hw⟩, htl.home, hd, hrep⟩
  · rw [hw] at hres
    cases hres

theorem resolveField_sound (hfresh : s₀.Fresh) (h : s₀.Sound s) {owner : TypeId} (i : Nat)
    (hz : s.Unsized owner) :
    Ends ((resolveField owner i).run s) (fun _ s' => s₀.Sound s') (fun e _ => s₀.Fault e) := by
  by_cases hres : s.FieldSettled owner i
  · rw [run_resolveField_of_resolved hres]
    exact h
  · obtain ⟨f, hf, hu⟩ : ∃ f, s.field? owner i = some f ∧ f.type.isResolved = false := by
      simpa [FieldSettled] using hres
    obtain ⟨t, ht, hft⟩ := Option.bind_eq_some_iff.1 hf
    obtain ⟨w, hw⟩ := TypeRef.eq_unresolved hu
    obtain ⟨t₀, f₀, hw₀, hhome, hdef, hrep⟩ := writes_of_field h ht hft hw
    rw [run_resolveField ht hft hw]
    simp only [h.later.refer, hhome, hdef]
    cases hr : s₀.refer t₀.home w.name with
    | error e =>
      obtain ⟨rfl, hnone⟩ := refer_eq_error hr
      exact .type hw₀ hnone
    | ok r =>
      have hd := refer_eq_ok_iff.1 hr
      have hends := (fieldDefault_sound hfresh h hw₀ hd).and (fieldDefault_ends idle r f₀.default s)
      dsimp only
      cases hrun : (fieldDefault r f₀.default).run s with
      | error e s' => rw [hrun] at hends; exact hends.1
      | ok d s' =>
        rw [hrun] at hends
        obtain ⟨⟨hs', hdt, hset⟩, -, ho⟩ := hends
        have ht' := ho owner t ht (isEnum_of_field hft)
        have hf' : s'.field? owner i = some f := by rw [Schema.field?, ht']; exact hft
        have hl : s'.Later idle (s'.updateField owner i (settle r w d)) := by
          refine (settle_grows w d (fun h => h) (fun t₂ ht₂ => ?_) hf' hu hd.isResolved).toLater
          rw [ht'] at ht₂
          obtain rfl := Option.some.inj ht₂
          exact hz t ht
        refine hs'.updateField hl fun {t₁ f₁ w₁ f₂} hw₁ hf₂ _ => .inr ?_
        obtain rfl := Option.some.inj (hf'.symm.trans hf₂)
        obtain rfl := Option.some.inj (hw₀.type.symm.trans hw₁.type)
        obtain rfl := Option.some.inj (hw₀.field.symm.trans hw₁.field)
        refine ⟨⟨⟨w, hw₀.name, hd, by rw [← hrep]; rfl⟩, hdt.later hl hset⟩, fun x hx => ?_⟩
        exact (hset x hx).stays hl

/-! ## Tables -/

theorem resolveTable_sound (hfresh : s₀.Fresh) (h : s₀.Sound s) {id : TypeId} (count : Nat)
    (hs : s.IsTable id) :
    Ends ((resolveTable id count).run s) (fun _ s' => s₀.Sound s') (fun e _ => s₀.Fault e) := by
  refine (Ends.forM (I := fun s' => s₀.Sound s' ∧ s'.IsTable id) (D := fun _ _ => True)
    (List.range count) ?_ s ⟨h, hs⟩).imp (fun _ s' h => h.1.1) fun _ _ h => h
  rintro i - s₁ ⟨h₁, hs₁⟩
  refine ((resolveField_sound hfresh h₁ i hs₁.unsized).and
    (resolveField_ends idle i (fun h => h) hs₁.unsized)).imp (fun _ _ h => h)
      (fun _ _ h => h.1) |>.bind ?_
  rintro _ s₂ ⟨h₂, hg, -, -⟩
  have hs₂ := hs₁.later hg.toLater
  have hslot := (Grows.slot (fun h : idle id => h) hs₂ i).toLater
  exact ⟨⟨h₂.offset hslot, hs₂.later hslot⟩, trivial, fun _ _ => trivial⟩

/-! ## Structs -/

theorem placeField_sound (hfresh : s₀.Fresh) {owner : TypeId} {layout : TypeId → Resolving Unit}
    (hends : ∀ x s, s.IsStruct x → Ends ((layout x).run s)
      (fun _ s' => s.Grows (fun j => idle j ∨ j = owner) s' ∧ s'.Sized x)
      (fun _ s' => s.Grows (fun j => idle j ∨ j = owner) s'))
    (hsound : ∀ x s, s.IsStruct x → s₀.Sound s → s₀.Nests owner x →
      Ends ((layout x).run s) (fun _ s' => s₀.Sound s') (fun e _ => s₀.Fault e))
    {t₀ : TypeDecl} (ht₀ : s₀.types[owner]? = some t₀) (hk₀ : t₀.kind.isStruct = true)
    {offset : ByteCount} {i : Nat} (hi : i < t₀.fields.length) (h : s₀.Sound s)
    (hz : s.Unsized owner) (hlaid : s.Laid owner i offset) :
    Ends ((placeField layout owner t₀.name offset i).run s)
      (fun e s' => s₀.Sound s' ∧ s'.Laid owner (i + 1) e) (fun e _ => s₀.Fault e) := by
  obtain ⟨f₀, hf₀⟩ : ∃ f₀, s₀.field? owner i = some f₀ := by
    rw [Schema.field?, ht₀, Option.bind_some]
    exact ⟨_, List.getElem?_eq_getElem hi⟩
  obtain ⟨t₁, w, hw₀⟩ := hfresh.exists_writes hf₀
  obtain rfl := Option.some.inj (ht₀.symm.trans hw₀.type)
  have hs : s₀.IsStruct owner := ⟨t₀, ht₀, hk₀⟩
  have hres := (resolveField_sound hfresh h i hz).and (resolveField_ends idle i (fun h => h) hz)
  rw [run_placeField]
  cases hr : (resolveField owner i).run s with
  | error e s₁ => rw [hr] at hres; exact hres.1
  | ok a s₁ =>
    rw [hr] at hres
    obtain ⟨h₁, hg, hat, hset⟩ := hres
    obtain ⟨f, hf, hfl⟩ := h₁.later.field? hf₀
    have hlaid₁ := hlaid.later hg.toLater fun j hj => hat.field?_of_ne (by omega)
    obtain ⟨⟨⟨w', hw', hd, hrep⟩, -⟩, henum⟩ := h₁.field hw₀ hf (hset f hf)
    obtain rfl := TypeRef.unresolved.inj (hw₀.name.symm.trans hw')
    simp only [hf]
    cases hl : s₁.inline? f with
    | none =>
      refine hfl.1.1 ▸ Fault.inline hw₀ hk₀ ?_
      rintro ⟨hf₁, hw₁, r, hr, hflat⟩
      obtain ⟨l, hl'⟩ := h₁.inline?_of_flat hfresh (by rw [hrep, hf₁, hw₁]; rfl) henum
        (hr.unique hd ▸ hflat)
      rw [hl] at hl'
      cases hl'
    | some l =>
      cases l with
      | scalar n =>
        have hplace : s₁.Later idle _ :=
          (Grows.place (fun h => h) (hs.later h₁.later) (hat.unsized hz) i (align offset n)).toLater
        exact ⟨h₁.offset hplace, hlaid₁.place_scalar hf hl hplace⟩
      | nested x =>
        obtain ⟨hrepeat, hx, hsx⟩ := inline?_eq_nested_iff.1 hl
        rw [hrep, Bool.or_eq_false_iff] at hrepeat
        have hnest : s₀.Nests owner x :=
          ⟨hs, hsx.prev h₁.later, i, t₀, f₀, w, hw₀, hrepeat.1, hrepeat.2, hx ▸ hd⟩
        have hrun := (hsound x s₁ hsx h₁ hnest).and (hends x s₁ hsx)
        dsimp only
        cases hx₂ : (layout x).run s₁ with
        | error e s₂ => rw [hx₂] at hrun; exact hrun.1
        | ok a s₂ =>
          rw [hx₂] at hrun
          obtain ⟨h₂, hg₂, tx, htx, hzx⟩ := hrun
          obtain ⟨n, hn⟩ := Option.isSome_iff_exists.1 hzx
          have hown := hg₂.busy_eq (.inr rfl) (hs.later h₁.later)
          have hfield : ∀ j, s₂.field? owner j = s₁.field? owner j :=
            fun j => by rw [Schema.field?, Schema.field?, hown]
          have hz₂ : s₂.Unsized owner :=
            fun t ht => hat.unsized hz t (by rw [← hown]; exact ht)
          have hplace : s₂.Later idle _ :=
            (Grows.place (fun h => h) (hs.later h₂.later) hz₂ i offset).toLater
          have hlaid₂ := hlaid₁.later hg₂.toLater fun j _ => hfield j
          simp only [htx, Option.bind_some, hn, Option.getD_some]
          exact ⟨h₂.offset hplace, hlaid₂.place_nested ((hfield i).trans hf)
            (hg₂.toLater.inline? hl) htx hn (h₂.size htx hn) hplace⟩

theorem setSize_sound (h : s₀.Sound s) {id : TypeId} {t : TypeDecl} {n : ByteCount}
    (ht : s.types[id]? = some t) (hk : t.kind.isStruct = true) (hz : s.Unsized id)
    (hlaid : s.Laid id t.fields.length n) :
    Ends ((setSize id n).run s) (fun _ s' => s₀.Sound s') (fun e _ => s₀.Fault e) := by
  have hgrow := setSize_grows n (fun h : idle id => h) ⟨t, ht, hk⟩ hz
  obtain ⟨fs, m, hks⟩ := Kind.eq_struct_of_isStruct hk
  rw [run_setSize ht hks] at hgrow ⊢
  obtain ⟨hg, -⟩ := hgrow
  have hself : (s.updateType id (·.mapKind fun _ => .struct fs (some n))).types[id]? =
      some { t with kind := .struct fs (some n) } := by
    rw [types_updateType_self, ht]
    rfl
  have hother : ∀ {j : TypeId}, id ≠ j →
      (s.updateType id (·.mapKind fun _ => .struct fs (some n))).types[j]? = s.types[j]? :=
    fun hj => types_updateType_of_ne s _ hj
  have hfield : ∀ j k, (s.updateType id (·.mapKind fun _ => .struct fs (some n))).field? j k =
      s.field? j k := by
    intro j k
    by_cases hj : id = j
    · subst hj
      rw [Schema.field?, Schema.field?, hself, ht]
      simp only [Option.bind_some, TypeDecl.fields, hks]
      rfl
    · rw [Schema.field?, Schema.field?, hother hj]
  refine h.step hg.toLater (fun {j t₀ t'} _ ht' hk' => .inl ?_)
    (fun {j k t₀ f₀ w f f'} _ hf hf' hr => .inl ?_) fun {j t' n'} ht' hn' => ?_
  · by_cases hj : id = j
    · subst hj
      rw [hself] at ht'
      obtain rfl := Option.some.inj ht'
      cases hk'
    · rwa [hother hj] at ht'
  · rw [hfield] at hf'
    obtain rfl := Option.some.inj (hf.symm.trans hf')
    exact hr
  · by_cases hj : id = j
    · subst hj
      rw [hself] at ht'
      obtain rfl := Option.some.inj ht'
      obtain rfl : n = n' := Option.some.inj hn'
      have hlen : t.fields.length = fs.length := by rw [TypeDecl.fields, hks]; rfl
      rw [hlen] at hlaid
      exact .inr (hlaid.later hg.toLater fun k _ => hfield id k)
    · rw [hother hj] at ht'
      exact .inl ⟨t', ht', by rw [hn']; rfl⟩

/-- The structs around this one reach it by nesting. -/
theorem layoutStruct_sound (hfresh : s₀.Fresh) (free : List TypeId) (hn : free.Nodup) (id : TypeId)
    (s : Schema) (hs : s.IsStruct id) (h : s₀.Sound s)
    (hbusy : ∀ x, x < s₀.types.length → x ∉ free → TransGen s₀.Nests x id) :
    Ends ((layoutStruct free id).run s) (fun _ s' => s₀.Sound s') (fun e _ => s₀.Fault e) := by
  induction free, id using Resolver.layoutStruct.induct generalizing s with
  | case1 free id ih =>
    obtain ⟨t, ht, hk⟩ := hs
    obtain ⟨t₀, ht₀, htl⟩ := h.later.prev ht
    have hk₀ : t₀.kind.isStruct = true := by rw [← htl.kind.isStruct]; exact hk
    have hlen : t.fields.length = t₀.fields.length := htl.kind.fields.1
    rw [run_layoutStruct free ht]
    split
    · exact h
    · next hz =>
      split
      · next hid =>
        have hz₀ : s.Unsized id := by
          intro t' ht'
          obtain rfl := Option.some.inj (ht.symm.trans ht')
          simpa using hz
        have hsound : ∀ x s, s.IsStruct x → s₀.Sound s → s₀.Nests id x →
            Ends ((layoutStruct (free.erase id) x).run s) (fun _ s' => s₀.Sound s')
              (fun e _ => s₀.Fault e) := by
          intro x s hx h hnest
          refine ih hid x (hn.erase id) s hx h fun y hy hfree => ?_
          by_cases hyid : y = id
          · rw [hyid]
            exact .single hnest
          · rw [List.mem_erase_of_ne hyid] at hfree
            exact (hbusy y hy hfree).tail hnest
        rw [hlen, htl.name]
        refine (Ends.foldlM_range (I := fun i e s' => s₀.Sound s' ∧ s'.Unsized id ∧ s'.Laid id i e)
          t₀.fields.length ?_ 0 s ⟨h, hz₀, .nil id⟩).bind ?_
        · rintro i hi offset s₁ ⟨h₁, hz₁, hlaid⟩
          have hs₁ : s₁.IsStruct id := IsStruct.later ⟨t₀, ht₀, hk₀⟩ h₁.later
          exact ((placeField_sound hfresh (layoutStruct_nested_ends hn id) hsound ht₀ hk₀ hi h₁ hz₁
            hlaid).and (placeField_ends (fun h => h) (layoutStruct_nested_ends hn id) t₀.name offset i
            hs₁ hz₁)).imp (fun _ _ h => ⟨h.1.1, h.2.2.unsized hz₁, h.1.2⟩) fun _ _ h => h.1
        · rintro n s₁ ⟨h₁, hz₁, hlaid⟩
          obtain ⟨t₁, ht₁, htl₁⟩ := h₁.later.next ht₀
          have hlen₁ : t₁.fields.length = t₀.fields.length := htl₁.kind.fields.1
          rw [← hlen₁] at hlaid
          exact setSize_sound h₁ ht₁ (by rw [htl₁.kind.isStruct]; exact hk₀) hz₁ hlaid
      · next hid =>
        rw [htl.name]
        exact .cycle ht₀ (hbusy id (List.getElem?_eq_some_iff.1 ht₀).1 hid)

/-! ## Types -/

theorem resolveType_sound (hfresh : s₀.Fresh) (h : s₀.Sound s) (id : TypeId) :
    Ends ((resolveType id).run s) (fun _ s' => s₀.Sound s') (fun e _ => s₀.Fault e) := by
  cases ht : s.types[id]? with
  | none =>
    rw [run_resolveType_of_none ht]
    exact h
  | some t =>
    rw [run_resolveType ht]
    cases hk : t.kind with
    | enum b vs d => exact resolveEnum_sound hfresh h id
    | union vs => exact h
    | table fs => exact resolveTable_sound hfresh h fs.length ⟨t, ht, by rw [hk]; rfl⟩
    | struct fs n =>
      refine layoutStruct_sound hfresh _ List.nodup_range id s ⟨t, ht, by rw [hk]; rfl⟩ h ?_
      intro x hx hfree
      rw [List.mem_range, h.later.length] at hfree
      exact absurd hx hfree

/-! ## Root types -/

theorem sound_withRoot (h : s₀.Sound s) (root : Option TypeId) :
    s₀.Sound { s with rootType := root } := by
  refine h.step (.withRoot idle s root) (fun _ ht' _ => .inl ht')
    (fun {j k t₀ f₀ w f f'} _ hf hf' hr => .inl ?_) fun {j t' n} ht' hn => .inl ⟨t', ht', by rw [hn]; rfl⟩
  obtain rfl := Option.some.inj (hf.symm.trans hf')
  exact hr

/-- The root type of one more namespace. -/
theorem resolveRoot_sound (h : s₀.Sound s) {ns : NamespaceId} (hr : s₀.Roots ns s.rootType) :
    Ends ((resolveRoot ns).run s)
      (fun _ s' => s.Later idle s' ∧ s₀.Sound s' ∧ s₀.Roots (ns + 1) s'.rootType)
      (fun e _ => s₀.Fault e) := by
  have hsame : s.namespaces[ns]?.bind (·.rootName) = s₀.rootName? ns := by
    rw [rootName?, h.later.namespaces]
  rw [run_resolveRoot, hsame]
  cases hn : s₀.rootName? ns with
  | none =>
    refine ⟨.refl idle s, h, fun {m name} hm hname => ?_, fun hnone => ?_⟩
    · rcases Nat.lt_succ_iff_lt_or_eq.1 hm with hm | rfl
      · obtain ⟨id, hid, hlast⟩ := hr.found hm hname
        exact ⟨id, hid, fun hnone => hlast fun k hk hk' => hnone k hk (by omega)⟩
      · rw [hn] at hname
        cases hname
    · exact hr.none fun m hm => hnone m (by omega)
  | some name =>
    simp only [h.later.findType?]
    cases hfind : s₀.findType? ns name with
    | none => exact .root hn hfind
    | some id =>
      refine ⟨.withRoot idle s _, sound_withRoot h _, fun {m name'} hm hname => ?_, fun hnone => ?_⟩
      · rcases Nat.lt_succ_iff_lt_or_eq.1 hm with hm | rfl
        · obtain ⟨id', hid', -⟩ := hr.found hm hname
          refine ⟨id', hid', fun hnone => ?_⟩
          rw [hnone ns hm (by omega)] at hn
          cases hn
        · rw [hn] at hname
          obtain rfl := Option.some.inj hname
          exact ⟨id, hfind, fun _ => rfl⟩
      · rw [hnone ns (by omega)] at hn
        cases hn

end Resolving

end FlatSchema
