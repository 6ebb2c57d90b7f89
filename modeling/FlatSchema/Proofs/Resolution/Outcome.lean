import FlatSchema.Proofs.Resolution.Sound

/-!
# When resolution succeeds, and with what

For a registered schema:

    s.resolve.2 = none ↔ s.WellFormed                       (resolve_snd_eq_none_iff)
    s.resolve.2 = none → s.Resolves s.resolve.1             (resolves_resolve)

A failure reports what is wrong with the schema (`Fresh.fault`).
-/

namespace FlatSchema

namespace Schema

variable {s₀ s : Schema} {n : Nat}

/-- The first `n` namespaces are done. -/
structure DoneBelow (s₀ s : Schema) (n : Nat) : Prop where
  sound : s₀.Sound s
  roots : s₀.Roots n s.rootType
  settled : ∀ {id : TypeId} {t}, s.types[id]? = some t → t.home < n → s.Settled id

theorem Fresh.doneBelow (h : s₀.Fresh) : s₀.DoneBelow s₀ 0 :=
  ⟨h.sound, ⟨fun hns => absurd hns (Nat.not_lt_zero _), fun _ => h.rootType⟩,
    fun _ hns => absurd hns (Nat.not_lt_zero _)⟩

theorem slot_eq (i : Nat) : slot i = .ofNat (4 + 2 * i) := by
  rw [UInt64.ofNat_add, UInt64.ofNat_mul]
  rfl

/-- When all namespaces are done, every type is. -/
theorem DoneBelow.resolves (hfresh : s₀.Fresh) (h : s₀.DoneBelow s s₀.namespaces.length) :
    s₀.Resolves s := by
  have hsettled : ∀ {id : TypeId} {t}, s.types[id]? = some t → s.Settled id := by
    intro id t ht
    obtain ⟨t₀, ht₀, hl⟩ := h.sound.later.prev ht
    exact h.settled ht (by rw [hl.home]; exact hfresh.home id t₀ ht₀)
  -- The type of a field is a table or a struct; both have their fields resolved and placed.
  have hfield : ∀ {id i f}, s.field? id i = some f →
      f.type.isResolved = true ∧ f.offset.isSome = true := by
    intro id i f hf
    obtain ⟨t, ht, hft⟩ := Option.bind_eq_some_iff.1 hf
    cases hk : t.kind with
    | enum _ _ _ => simp [TypeDecl.fields, hk, Kind.fields] at hft
    | union _ => simp [TypeDecl.fields, hk, Kind.fields] at hft
    | table fs =>
      obtain ⟨hr, ho⟩ := (hsettled ht).table ⟨t, ht, by rw [hk]; rfl⟩ i f hf
      exact ⟨hr, by rw [ho]; rfl⟩
    | struct fs m =>
      obtain ⟨t', ht', hz⟩ := (hsettled ht).struct ⟨t, ht, by rw [hk]; rfl⟩
      obtain rfl := Option.some.inj (ht.symm.trans ht')
      obtain ⟨n, hn⟩ := Option.isSome_iff_exists.1 hz
      obtain ⟨f', l, hf', hl, ho⟩ := (h.sound.size ht hn).field i (List.getElem?_eq_some_iff.1 hft).1
      obtain rfl := Option.some.inj (hf.symm.trans hf')
      exact ⟨isResolved_of_inline? hl, ho⟩
  refine ⟨h.sound.later, fun ht hk => h.sound.enumResolves hfresh ht hk (hsettled ht).enum,
    fun hf => ?_, fun hf => (hfield hf).2, fun {id i f} hs hf => ?_, fun {id t} ht hk => ?_, h.roots⟩
  · obtain ⟨f₀, hf₀, -⟩ := h.sound.later.field?_prev hf
    obtain ⟨t₀, w, hw⟩ := hfresh.exists_writes hf₀
    exact ⟨t₀, f₀, hw.type, hw.field, (h.sound.field hw hf (hfield hf).1).1⟩
  · obtain ⟨t, ht, hk⟩ := hs
    rw [((hsettled ht).table ⟨t, ht, hk⟩ i f hf).2, slot_eq]
  · obtain ⟨t', ht', hz⟩ := (hsettled ht).struct ⟨t, ht, hk⟩
    obtain rfl := Option.some.inj (ht.symm.trans ht')
    obtain ⟨n, hn⟩ := Option.isSome_iff_exists.1 hz
    exact ⟨n, hn, h.sound.size ht hn⟩

end Schema

namespace Resolving

open Schema

variable {s₀ s : Schema}

/-- One namespace. -/
theorem resolveNamespace_done (hfresh : s₀.Fresh) {ns : NamespaceId} (h : s₀.DoneBelow s ns) :
    Ends ((resolveNamespace ns).run s) (fun _ s' => s₀.DoneBelow s' (ns + 1))
      (fun e _ => s₀.Fault e) := by
  show Ends (((s.children ns).forM resolveType >>= fun _ => resolveRoot ns).run s) _ _
  refine (Ends.forM (I := fun s' => s₀.Sound s' ∧ s.Grows idle s') (D := fun id s' => s'.Settled id)
    (s.children ns) ?_ s ⟨h.sound, .refl idle s⟩).bind ?_
  · rintro id - s₁ ⟨h₁, hg⟩
    exact ((resolveType_sound hfresh h₁ id).and (resolveType_ends id s₁)).imp
      (fun _ s₂ h₂ => ⟨⟨h₂.1, hg.trans h₂.2.1⟩, h₂.2.2, fun _ hj => hj.later h₂.2.1.toLater⟩)
      fun _ _ h₂ => h₂.1
  · rintro _ s₁ ⟨⟨h₁, hg⟩, hnew, hold⟩
    have hroots : s₀.Roots ns s₁.rootType := by rw [hg.rootType]; exact h.roots
    refine (resolveRoot_sound h₁ hroots).imp ?_ fun _ _ h => h
    rintro _ s₂ ⟨hl, h₂, hr⟩
    refine ⟨h₂, hr, ?_⟩
    intro id t₂ ht₂ hlt
    obtain ⟨t, ht, htl⟩ := (hg.toLater.trans hl).prev ht₂
    rw [htl.home] at hlt
    rcases Nat.lt_succ_iff_lt_or_eq.1 hlt with hlt | heq
    · exact (hold id (h.settled ht hlt)).later hl
    · have hindexed := hfresh.indexed.later h.sound.later
      exact (hnew id (hindexed.mem_children.2 ⟨t, ht, heq⟩)).later hl

/-- All namespaces. -/
theorem resolveAll_ends (hfresh : s₀.Fresh) :
    Ends (resolveAll.run s₀) (fun _ s' => s₀.Resolves s') (fun e _ => s₀.Fault e) := by
  refine (Ends.forM_range (I := fun n s' => s₀.DoneBelow s' n) s₀.namespaces.length ?_ s₀
    hfresh.doneBelow).imp (fun _ _ h => h.resolves hfresh) fun _ _ h => h
  exact fun ns _ s₁ h₁ => resolveNamespace_done hfresh h₁

end Resolving

/-! ## Top theorems -/

namespace Schema

variable {s : Schema}

theorem Fresh.resolves (h : s.Fresh) (hok : s.resolve.2 = none) : s.Resolves s.resolve.1 := by
  have hends := Resolving.resolveAll_ends h
  unfold resolve at hok ⊢
  cases hrun : Resolving.resolveAll.run s with
  | ok a s' => rw [hrun] at hends; exact hends
  | error e s' => rw [hrun] at hok; cases hok

/-- Every error has its reason in the schema. -/
theorem Fresh.fault (h : s.Fresh) {e : SchemaError} (herr : s.resolve.2 = some e) :
    s.Fault e := by
  have hends := Resolving.resolveAll_ends h
  unfold resolve at herr
  cases hrun : Resolving.resolveAll.run s with
  | ok a s' => rw [hrun] at herr; cases herr
  | error e' s' =>
    rw [hrun] at herr hends
    obtain rfl := Option.some.inj herr
    exact hends

theorem Fresh.resolve_eq_none (h : s.Fresh) (hwf : s.WellFormed) : s.resolve.2 = none := by
  cases hres : s.resolve.2 with
  | none => rfl
  | some e => exact absurd hwf (h.fault hres).not_wellFormed

/-- An enum, two structs and a table, with a default by name and a root type. -/
def shapes : Schema :=
  ((empty "shapes").parse "shapes.fbs" ("namespace a; enum Color : byte \x7b Red = 1, Green \x7d " ++
    "struct Point \x7b x : int; color : Color; \x7d struct Line \x7b from : Point; y : long; \x7d " ++
    "table Shape \x7b color : Color = Green; line : Line; counts : [int]; \x7d root_type Shape;")).1

/-- A struct in itself, by way of another. -/
def knot : Schema :=
  ((empty "knot").parse "knot.fbs" ("struct Left \x7b right : Right; \x7d " ++
    "struct Right \x7b n : int; left : Left; \x7d")).1

-- The name is unfolded here, as the kernel would run the parse to compare it with its body.
theorem registered_shapes : shapes.Registered := by
  rw [shapes]
  exact .parse (.empty "shapes") _ _

theorem registered_knot : knot.Registered := by
  rw [knot]
  exact .parse (.empty "knot") _ _

theorem resolve_shapes : shapes.resolve.2 = none := by
  decide +kernel

/-- Resolution succeeds exactly on the well-formed schemas. -/
theorem resolve_snd_eq_none_iff (h : s.Registered) : s.resolve.2 = none ↔ s.WellFormed := by
  constructor
  · intro hok
    exact (h.fresh.resolves hok).wellFormed
  · exact h.fresh.resolve_eq_none

theorem wellFormed_shapes_not_knot : shapes.WellFormed ∧ ¬ knot.WellFormed := by
  constructor
  · exact (resolve_snd_eq_none_iff registered_shapes).1 resolve_shapes
  · intro h
    have hok := (resolve_snd_eq_none_iff registered_knot).2 h
    exact absurd hok (by decide +kernel)

/-- A resolution that succeeds leaves nothing unresolved. -/
theorem resolves_resolve (h : s.Registered) (hok : s.resolve.2 = none) : s.Resolves s.resolve.1 :=
  h.fresh.resolves hok

theorem resolves_resolve_shapes :
    shapes.Registered ∧ shapes.resolve.2 = none ∧ shapes.Resolves shapes.resolve.1 :=
  ⟨registered_shapes, resolve_shapes, resolves_resolve registered_shapes resolve_shapes⟩

end Schema

end FlatSchema
