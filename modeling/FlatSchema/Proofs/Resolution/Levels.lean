import FlatSchema.Proofs.Resolution.Outcome

/-!
# How deep structs are followed

`layoutLevels deeper n nesting` is the layout of structs cut off: a recursion that is handed the
structs around the one it lays out, and that goes `n` levels down and no further, where it hands
over to `deeper`.  A struct that is met inside itself ends the recursion, so a struct that is laid
out is none of those around it, and more levels than there are types are never needed:

    (resolveAllBy (layoutLevels deeper n [])).run s = resolveAll.run s    for s.types.length < n

whatever `deeper` does (`run_resolveAllBy_levels`).
-/

namespace FlatSchema

namespace Resolving

open Schema

/-! ## Algorithm -/

/-- Lays out a struct with the structs `nesting` around it, with `deeper` in place of all that comes
more than `n` levels below it. -/
def layoutLevels (deeper : List TypeId → TypeId → Resolving Unit) :
    Nat → List TypeId → TypeId → Resolving Unit
  | 0, nesting, id => deeper nesting id
  | n + 1, nesting, id => do
    match (← get).types[id]? with
    | some t =>
      if t.kind.size?.isSome then pure ()
      else if id ∈ nesting then throw (.recursiveStruct t.name)
      else
        let layout := layoutLevels deeper n (id :: nesting)
        let size ← (List.range t.fields.length).foldlM (placeField layout id t.name) 0
        setSize id size
    | none => pure ()

/-- Resolves a type, a struct by means of `layout`. -/
def resolveTypeBy (layout : TypeId → Resolving Unit) (id : TypeId) : Resolving Unit := do
  if (← get).types[id]?.any (·.kind.isStruct) then layout id else resolveType id

def resolveNamespaceBy (layout : TypeId → Resolving Unit) (ns : NamespaceId) : Resolving Unit := do
  ((← get).children ns).forM (resolveTypeBy layout)
  resolveRoot ns

/-- Resolves a schema, structs by means of `layout`. -/
def resolveAllBy (layout : TypeId → Resolving Unit) : Resolving Unit := do
  (List.range (← get).namespaces.length).forM (resolveNamespaceBy layout)

/-! ## Equal runs -/

variable {α β : Type}

/-- Loops run alike if their bodies do on the schemas that come up. -/
theorem run_foldlM_congr {f g : β → α → Resolving β} {I : Schema → Prop} (xs : List α)
    (same : ∀ a b s, I s → (f b a).run s = (g b a).run s)
    (keeps : ∀ a b s, I s → Ends ((g b a).run s) (fun _ => I) (fun _ _ => True)) :
    ∀ (b : β) (s : Schema), I s → (xs.foldlM f b).run s = (xs.foldlM g b).run s := by
  induction xs with
  | nil => exact fun b s _ => rfl
  | cons a xs ih =>
    intro b s hs
    have hends := keeps a b s hs
    rw [List.foldlM_cons, List.foldlM_cons, EStateM.run_bind, EStateM.run_bind, same a b s hs]
    cases hrun : (g b a).run s with
    | error e s' => rfl
    | ok b' s' =>
      rw [hrun] at hends
      exact ih b' s' hends

theorem run_forM_congr {f g : α → Resolving Unit} {I : Schema → Prop} (xs : List α)
    (same : ∀ a s, I s → (f a).run s = (g a).run s)
    (keeps : ∀ a s, I s → Ends ((g a).run s) (fun _ => I) (fun _ _ => True)) :
    ∀ s : Schema, I s → (xs.forM f).run s = (xs.forM g).run s := by
  induction xs with
  | nil => exact fun s _ => rfl
  | cons a xs ih =>
    intro s hs
    have hends := keeps a s hs
    show (f a >>= fun _ => xs.forM f).run s = (g a >>= fun _ => xs.forM g).run s
    rw [EStateM.run_bind, EStateM.run_bind, same a s hs]
    cases hrun : (g a).run s with
    | error e s' => rfl
    | ok _ s' =>
      rw [hrun] at hends
      exact ih s' hends

theorem run_placeField_congr {layout layout' : TypeId → Resolving Unit} {owner : TypeId} {s : Schema}
    (hz : s.Unsized owner) (same : ∀ x s', s'.IsStruct x → s'.types.length = s.types.length →
      (layout x).run s' = (layout' x).run s') (name : String) (offset : ByteCount) (i : Nat) :
    (placeField layout owner name offset i).run s = (placeField layout' owner name offset i).run s := by
  rw [run_placeField, run_placeField]
  have hres := resolveField_ends idle i (fun h => h) hz
  cases hr : (resolveField owner i).run s with
  | error e s₁ => rfl
  | ok a s₁ =>
    rw [hr] at hres
    dsimp only
    cases s₁.field? owner i with
    | none => rfl
    | some f =>
      dsimp only
      cases hl : s₁.inline? f with
      | none => rfl
      | some l =>
        cases l with
        | scalar n => rfl
        | nested x =>
          obtain ⟨-, -, hx⟩ := inline?_eq_nested_iff.1 hl
          dsimp only
          rw [same x s₁ hx hres.1.toLater.length]

/-! ## Enough levels -/

theorem run_layoutLevels {deeper : List TypeId → TypeId → Resolving Unit} {s : Schema} {id : TypeId}
    {t : TypeDecl} (n : Nat) (nesting : List TypeId) (ht : s.types[id]? = some t) :
    (layoutLevels deeper (n + 1) nesting id).run s =
      if t.kind.size?.isSome then .ok () s
      else if id ∈ nesting then .error (.recursiveStruct t.name) s
      else
        ((List.range t.fields.length).foldlM
          (placeField (layoutLevels deeper n (id :: nesting)) id t.name) 0 >>= setSize id).run s := by
  rw [layoutLevels]
  simp only [EStateM.run_bind, EStateM.run_get, ht]
  split
  · rfl
  · split <;> rfl

/-- The types are either free or around the struct.  One that is laid out leaves the free ones, so
one level for each of them, and one more to find a struct in itself, are enough. -/
theorem run_layoutLevels_eq (deeper : List TypeId → TypeId → Resolving Unit) (n : Nat) :
    ∀ {free nesting : List TypeId} {id : TypeId} {s : Schema}, free.Nodup → free.length < n →
      s.IsStruct id → (∀ x < s.types.length, x ∈ free ↔ x ∉ nesting) →
        (layoutLevels deeper n nesting id).run s = (layoutStruct free id).run s := by
  induction n with
  | zero => exact fun _ hlen => absurd hlen (Nat.not_lt_zero _)
  | succ n ih =>
    intro free nesting id s hn hlen hs hfree
    obtain ⟨t, ht, hk⟩ := hs
    have hid : id ∈ free ↔ id ∉ nesting := hfree id (List.getElem?_eq_some_iff.1 ht).1
    rw [run_layoutLevels n nesting ht, run_layoutStruct free ht]
    by_cases hz : t.kind.size?.isSome = true
    · rw [if_pos hz, if_pos hz]
    rw [if_neg hz, if_neg hz]
    by_cases hmem : id ∈ nesting
    · rw [if_pos hmem, if_neg fun h => hid.1 h hmem]
    rw [if_neg hmem, if_pos (hid.2 hmem), EStateM.run_bind, EStateM.run_bind]
    have hz₀ : s.Unsized id := by
      intro t' ht'
      obtain rfl := Option.some.inj (ht.symm.trans ht')
      simpa using hz
    have hnested : ∀ x s', s'.IsStruct x → s'.types.length = s.types.length →
        (layoutLevels deeper n (id :: nesting) x).run s' = (layoutStruct (free.erase id) x).run s' := by
      intro x s' hx hl
      refine ih (hn.erase id) ?_ hx fun y hy => ?_
      · have hpos := List.length_pos_of_mem (hid.2 hmem)
        rw [List.length_erase_of_mem (hid.2 hmem)]
        omega
      · rw [hn.mem_erase_iff, hfree y (by omega), List.mem_cons, not_or]
    -- Placing a field keeps the number of types, and that the struct has no size yet.
    rw [run_foldlM_congr (I := fun s' => s'.types.length = s.types.length ∧ s'.IsStruct id ∧
      s'.Unsized id) _ ?_ ?_ 0 s ⟨rfl, ⟨t, ht, hk⟩, hz₀⟩]
    · rintro i offset s' ⟨hl, -, hz'⟩
      exact run_placeField_congr hz' (fun x s'' hx hl' => hnested x s'' hx (hl'.trans hl)) _ _ _
    · rintro i offset s' ⟨hl, hs', hz'⟩
      refine (placeField_ends (fun h => h) (layoutStruct_nested_ends hn id) t.name offset i hs' hz').imp
        ?_ fun _ _ _ => trivial
      rintro _ s'' ⟨hg, hat⟩
      exact ⟨hg.toLater.length.trans hl, hs'.later hg.toLater, hat.unsized hz'⟩

theorem run_resolveTypeBy_levels (deeper : List TypeId → TypeId → Resolving Unit) {n : Nat}
    {s : Schema} (hn : s.types.length < n) (id : TypeId) :
    (resolveTypeBy (layoutLevels deeper n []) id).run s = (resolveType id).run s := by
  simp only [resolveTypeBy, EStateM.run_bind, EStateM.run_get]
  cases ht : s.types[id]? with
  | none => rfl
  | some t =>
    rw [Option.any_some]
    split
    · next hk =>
      obtain ⟨fs, m, hks⟩ := Kind.eq_struct_of_isStruct hk
      rw [run_resolveType ht, hks]
      refine run_layoutLevels_eq deeper n List.nodup_range (by rwa [List.length_range]) ⟨t, ht, hk⟩ ?_
      intro x hx
      simpa using hx
    · rfl

/-- The number of types stays the same. -/
theorem resolveNamespace_keeps {n : Nat} (ns : NamespaceId) {s : Schema} (hn : s.types.length < n) :
    Ends ((resolveNamespace ns).run s) (fun _ s' => s'.types.length < n) (fun _ _ => True) := by
  show Ends (((s.children ns).forM resolveType >>= fun _ => resolveRoot ns).run s) _ _
  refine ((resolveTypes_ends (s.children ns) s).imp (fun _ s₁ h => ?_) fun _ _ _ => trivial).bind
    (R := fun _ s₁ => s₁.types.length < n) fun _ s₁ h₁ => ?_
  · rwa [h.1.toLater.length]
  · rw [run_resolveRoot]
    cases s₁.namespaces[ns]?.bind (·.rootName) with
    | none => exact h₁
    | some name =>
      dsimp only
      cases s₁.findType? ns name with
      | none => trivial
      | some id => exact h₁

theorem run_resolveNamespaceBy_levels (deeper : List TypeId → TypeId → Resolving Unit) {n : Nat}
    {s : Schema} (hn : s.types.length < n) (ns : NamespaceId) :
    (resolveNamespaceBy (layoutLevels deeper n []) ns).run s = (resolveNamespace ns).run s := by
  show ((s.children ns).forM (resolveTypeBy (layoutLevels deeper n [])) >>= fun _ => resolveRoot ns).run s =
    ((s.children ns).forM resolveType >>= fun _ => resolveRoot ns).run s
  rw [EStateM.run_bind, EStateM.run_bind, run_forM_congr (I := fun s => s.types.length < n) _
    (fun id s₁ h₁ => run_resolveTypeBy_levels deeper h₁ id) (fun id s₁ h₁ => ?_) s hn]
  refine (resolveType_ends id s₁).imp (fun _ s₂ h => ?_) fun _ _ _ => trivial
  rwa [h.1.toLater.length]

/-- The whole resolution needs no more levels than one struct does. -/
theorem run_resolveAllBy_levels (deeper : List TypeId → TypeId → Resolving Unit) {n : Nat}
    {s : Schema} (hn : s.types.length < n) :
    (resolveAllBy (layoutLevels deeper n [])).run s = resolveAll.run s := by
  show ((List.range s.namespaces.length).forM (resolveNamespaceBy (layoutLevels deeper n []))).run s =
    ((List.range s.namespaces.length).forM resolveNamespace).run s
  exact run_forM_congr (I := fun s => s.types.length < n) _
    (fun ns s₁ h₁ => run_resolveNamespaceBy_levels deeper h₁ ns)
    (fun ns s₁ h₁ => resolveNamespace_keeps ns h₁) s hn

end Resolving

/-! ## Top theorem -/

namespace Schema

open Relation

variable {s : Schema}

/-- Resolution ends, and it rejects the structs that contain themselves and no others.

More levels than there are types are never followed.  A struct that is reported as recursive reaches
itself by fields that are no vectors; where no struct does, none is reported, however often a struct
is nested; and where one does, resolution fails. -/
theorem resolve_recursion (h : s.Registered) :
    (∀ deeper n, s.types.length < n →
      (Resolving.resolveAllBy (Resolving.layoutLevels deeper n [])).run s = Resolving.resolveAll.run s) ∧
    (∀ name, s.resolve.2 = some (.recursiveStruct name) →
      ∃ id t, s.types[id]? = some t ∧ t.name = name ∧ t.kind.isStruct = true ∧ TransGen s.Nests id id) ∧
    ((∀ id, ¬ TransGen s.Nests id id) → ∀ name, s.resolve.2 ≠ some (.recursiveStruct name)) ∧
    ((∃ id, TransGen s.Nests id id) → s.resolve.2 ≠ none) := by
  have hfound : ∀ name, s.resolve.2 = some (.recursiveStruct name) →
      ∃ id t, s.types[id]? = some t ∧ t.name = name ∧ t.kind.isStruct = true ∧ TransGen s.Nests id id := by
    intro name herr
    have hfault := h.fresh.fault herr
    cases hfault with
    | @cycle id t ht hcycle =>
      obtain ⟨x, ⟨⟨t', ht', hk⟩, -⟩, -⟩ := TransGen.head'_iff.1 hcycle
      obtain rfl := Option.some.inj (ht.symm.trans ht')
      exact ⟨id, t, ht, rfl, hk, hcycle⟩
  refine ⟨fun deeper n hn => Resolving.run_resolveAllBy_levels deeper hn, hfound, ?_, ?_⟩
  · intro hnone name herr
    obtain ⟨id, t, -, -, -, hcycle⟩ := hfound name herr
    exact hnone id hcycle
  · rintro ⟨id, hcycle⟩ hok
    refine (h.fresh.resolves hok).wellFormed.acyclic id ?_
    exact TransGen.mono (fun _ _ => Nests.holds) _ _ hcycle

/-- Two structs in each other. -/
theorem resolve_recursion_knot : knot.Registered ∧
    knot.resolve.2 = some (.recursiveStruct "Left") ∧ ∃ id t, knot.types[id]? = some t ∧
      t.name = "Left" ∧ t.kind.isStruct = true ∧ TransGen knot.Nests id id := by
  have herr : knot.resolve.2 = some (.recursiveStruct "Left") := by decide +kernel
  exact ⟨registered_knot, herr, (resolve_recursion registered_knot).2.1 "Left" herr⟩

end Schema

end FlatSchema
