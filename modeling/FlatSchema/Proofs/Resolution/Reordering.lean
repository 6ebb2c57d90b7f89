import FlatSchema.Proofs.Resolution.Outcome
import Mathlib.Logic.Equiv.Basic

/-!
# The order of declarations does not matter

Two registered schemas with the same namespaces and the same types, numbered differently
(`Reordered σ s t`), are well-formed together, and their resolutions are the same up to the numbers
of types, also in the references between them:

    t.resolve.1.types[σ id]? = s.resolve.1.types[id]?.map (·.rename σ)      (resolve_reordered)

Both resolutions obey the same rules (`Resolves`), and the rules leave no choice.
-/

namespace FlatSchema

open Relation

/-! ## Renaming -/

def TypeRef.rename (σ : TypeId → TypeId) : TypeRef → TypeRef
  | .declared id => .declared (σ id)
  | r => r

def Field.rename (σ : TypeId → TypeId) (f : Field) : Field :=
  { f with type := f.type.rename σ }

def Kind.rename (σ : TypeId → TypeId) : Kind → Kind
  | .enum base values default => .enum (base.rename σ) values default
  | .union values => .union values
  | .table fields => .table (fields.map (·.rename σ))
  | .struct fields size => .struct (fields.map (·.rename σ)) size

/-- The type with other numbers in its references. -/
def TypeDecl.rename (σ : TypeId → TypeId) (t : TypeDecl) : TypeDecl :=
  { t with kind := t.kind.rename σ }

namespace Schema

/-- The namespaces are called the same and ask for the same root types.  The types of `s` are those of
`t`, where type `id` has the number `σ id`. -/
structure Reordered (σ : Equiv.Perm TypeId) (s t : Schema) : Prop where
  namespaces : t.namespaces.map (fun n => (n.name, n.rootName)) =
    s.namespaces.map fun n => (n.name, n.rootName)
  types : ∀ id, t.types[σ id]? = s.types[id]?

def Inline.rename (σ : TypeId → TypeId) : Inline → Inline
  | .scalar n => .scalar n
  | .nested id => .nested (σ id)

/-! ## Names -/

theorem Reordered.symm {σ : Equiv.Perm TypeId} {s t : Schema} (h : Reordered σ s t) :
    Reordered σ.symm t s := by
  refine ⟨h.namespaces.symm, fun id => ?_⟩
  rw [← h.types (σ.symm id), σ.apply_symm_apply]

section

variable {σ : Equiv.Perm TypeId} {s t : Schema} {ns : NamespaceId} {name : String} {r : TypeRef}
  {id : TypeId} {i : Nat} {d : TypeDecl} {f : Field} {w : TypeName}

theorem Reordered.type (h : Reordered σ s t) (hd : s.types[id]? = some d) :
    t.types[σ id]? = some d :=
  (h.types id).trans hd

theorem Reordered.title (h : Reordered σ s t) (ns : NamespaceId) :
    t.namespaces[ns]?.map (fun n => (n.name, n.rootName)) =
      s.namespaces[ns]?.map fun n => (n.name, n.rootName) := by
  rw [← List.getElem?_map, ← List.getElem?_map, h.namespaces]

theorem Reordered.length_namespaces (h : Reordered σ s t) :
    t.namespaces.length = s.namespaces.length := by
  simpa using congrArg List.length h.namespaces

theorem Reordered.name? (h : Reordered σ s t) (ns : NamespaceId) :
    t.namespaces[ns]?.map (·.name) = s.namespaces[ns]?.map (·.name) := by
  simpa [Option.map_map, Function.comp_def] using congrArg (Option.map Prod.fst) (h.title ns)

theorem Reordered.rootName? (h : Reordered σ s t) (ns : NamespaceId) :
    t.rootName? ns = s.rootName? ns := by
  simpa [Schema.rootName?, Option.bind_map] using congrArg (Option.bind · Prod.snd) (h.title ns)

theorem Reordered.writes (h : Reordered σ s t) (hw : s.Writes id i d f w) :
    t.Writes (σ id) i d f w :=
  ⟨h.type hw.type, hw.field, hw.name⟩

theorem Reordered.isStruct (h : Reordered σ s t) (hs : s.IsStruct id) : t.IsStruct (σ id) := by
  obtain ⟨d, hd, hk⟩ := hs
  exact ⟨d, h.type hd, hk⟩

/-! ## Conditions -/

variable (h : Reordered σ s t) (hs : s.Fresh) (ht : t.Fresh)

include h hs ht

theorem Reordered.child? (ns : NamespaceId) (name : String) :
    t.child? ns name = (s.child? ns name).map σ := by
  refine Option.ext fun j => ?_
  rw [ht.indexed.child, Option.map_eq_some_iff]
  constructor
  · rintro ⟨d, hd, hkey⟩
    exact ⟨σ.symm j, hs.indexed.child.2 ⟨d, h.symm.type hd, hkey⟩, σ.apply_symm_apply j⟩
  · rintro ⟨id, hid, rfl⟩
    obtain ⟨d, hd, hkey⟩ := hs.indexed.child.1 hid
    exact ⟨d, h.type hd, hkey⟩

theorem Reordered.namespaceId? (name : String) : t.namespaceId? name = s.namespaceId? name := by
  refine Option.ext fun ns => ?_
  rw [ht.indexed.namespaceId, hs.indexed.namespaceId, h.name?]

theorem Reordered.findType? (ns : NamespaceId) (name : String) :
    t.findType? ns name = (s.findType? ns name).map σ := by
  have hchild : ∀ simple, (fun space => t.childOf? space simple) =
      fun space => (s.childOf? space simple).map σ := by
    intro simple
    funext space
    simp only [childOf?, h.namespaceId? hs ht]
    cases s.namespaceId? space with
    | none => rfl
    | some ns => exact h.child? hs ht ns simple
  simp only [Schema.findType?, namespaceName, h.name?, hchild, List.map_findSome?]
  rfl

theorem Reordered.denotes (hd : s.Denotes ns name r) : t.Denotes ns name (r.rename σ) := by
  cases hd with
  | primitive hp => exact .primitive hp
  | declared hp hf => exact .declared hp (by rw [h.findType? hs ht, hf]; rfl)

theorem Reordered.holds {a b : TypeId} (hh : s.Holds a b) : t.Holds (σ a) (σ b) := by
  obtain ⟨ha, hb, i, d, f, w, hw, hd⟩ := hh
  exact ⟨h.isStruct ha, h.isStruct hb, i, d, f, w, h.writes hw, h.denotes hs ht hd⟩

omit hs ht in
theorem Reordered.flat (hf : s.Flat r) : t.Flat (r.rename σ) := by
  cases hf with
  | primitive hp => exact .primitive hp
  | enum hd hk hp hz => exact .enum (h.type hd) hk hp hz
  | struct hx => exact .struct (h.isStruct hx)

theorem Reordered.fitsStruct (hf : s.FitsStruct d f w) : t.FitsStruct d f w := by
  obtain ⟨hr, hw, r, hd, hflat⟩ := hf
  exact ⟨hr, hw, _, h.denotes hs ht hd, h.flat hflat⟩

/-- Well-formed schemas stay so under another order. -/
theorem Reordered.wellFormed (hwf : s.WellFormed) : t.WellFormed where
  base := fun hd hk => hwf.base (h.symm.type hd) hk
  values := fun hd hk => hwf.values (h.symm.type hd) hk
  type := by
    intro id i d f w hw
    obtain ⟨r, hr⟩ := hwf.type (h.symm.writes hw)
    exact ⟨_, h.denotes hs ht hr⟩
  literal := fun hw hv hx he hk =>
    hwf.literal (h.symm.writes hw) hv (h.symm.denotes ht hs hx) (h.symm.type he) hk
  inline := fun hw hk => h.fitsStruct hs ht (hwf.inline (h.symm.writes hw) hk)
  acyclic := fun id hc =>
    hwf.acyclic _ (hc.lift σ.symm fun a b => h.symm.holds ht hs)
  root := by
    intro ns name hn
    obtain ⟨id, hid⟩ := hwf.root ((h.rootName? ns).symm.trans hn)
    exact ⟨σ id, by rw [h.findType? hs ht, hid]; rfl⟩

end

/-! ## Results -/

section

variable {σ : Equiv.Perm TypeId} {s s' t t' : Schema} {id x : TypeId} {i : Nat} {d e : TypeDecl}
  {f g : Field} {r : TypeRef}

variable (h : Reordered σ s t) (hs : s.Fresh) (ht : t.Fresh) (hrs : s.Resolves s')
  (hrt : t.Resolves t')

include h hrs hrt

/-- A type of `s'` and that of `t'`, both later than the one they come from. -/
theorem Reordered.exists_type (hd : s'.types[id]? = some d) :
    ∃ d₀ e, s.types[id]? = some d₀ ∧ t'.types[σ id]? = some e ∧ d₀.Later d ∧ d₀.Later e := by
  obtain ⟨d₀, hd₀, hl⟩ := hrs.later.prev hd
  obtain ⟨e, he, hl'⟩ := hrt.later.next (h.type hd₀)
  exact ⟨d₀, e, hd₀, he, hl, hl'⟩

/-- Enums are the same. -/
theorem Reordered.enum (hd : s'.types[x]? = some d) (hk : d.kind.isEnum = true) :
    t'.types[σ x]? = some d := by
  obtain ⟨d₀, e, hd₀, he, hl, hl'⟩ := h.exists_type hrs hrt hd
  have hk' : e.kind.isEnum = true := by rw [hl'.kind.isEnum, ← hl.kind.isEnum, hk]
  obtain ⟨d₁, hd₁, hres⟩ := hrs.enum hd hk
  obtain ⟨e₁, he₁, hres'⟩ := hrt.enum he hk'
  obtain rfl : d₁ = e₁ := Option.some.inj ((h.type hd₁).symm.trans he₁)
  have hkind := hres.unique hres'
  rw [he]
  obtain ⟨n₁, ns₁, m₁, k₁⟩ := d
  obtain ⟨n₂, ns₂, m₂, k₂⟩ := e
  obtain ⟨hn, hh, hm, -⟩ := hl
  obtain ⟨hn', hh', hm', -⟩ := hl'
  simp_all

theorem Reordered.struct (hx : s'.IsStruct x) : t'.IsStruct (σ x) :=
  (h.isStruct (hx.prev hrs.later)).later hrt.later

/-- So are defaults. -/
theorem Reordered.default {l a b : Option Value} (ha : s'.DefaultsTo r l a)
    (hb : t'.DefaultsTo (r.rename σ) l b) : b = a := by
  -- What is an enum on one side is the same enum on the other.
  have hback : ∀ {x e}, t'.types[σ x]? = some e → e.kind.isEnum = true → s'.types[x]? = some e := by
    intro x e he hk
    have hx := h.symm.enum hrt hrs he hk
    rwa [σ.symm_apply_apply] at hx
  cases ha with
  | primitive p =>
    cases hb with
    | primitive p => rfl
  | literal p v =>
    cases hb with
    | literal p v => rfl
  | @enum x d p hd hp =>
    have he := h.enum hrs hrt hd (Kind.isEnum_of_base? hp)
    cases hb with
    | enum he' hp' =>
      obtain rfl := Option.some.inj (he.symm.trans he')
      rw [Option.some.inj (hp.symm.trans hp')]
    | other _ hne =>
      have hfalse := hne d he
      rw [Kind.isEnum_of_base? hp] at hfalse
      cases hfalse
  | @named x d v n k hd hk hv hn =>
    have he := h.enum hrs hrt hd hk
    cases hb with
    | named he' _ hv' hn' =>
      obtain rfl := Option.some.inj (he.symm.trans he')
      obtain rfl := Option.some.inj (hv.symm.trans hv')
      rw [Option.some.inj (hn.symm.trans hn')]
    | other _ hne =>
      rw [hne d he] at hk
      cases hk
  | other l hne =>
    cases hb with
    | @enum _ e p he hp =>
      have hfalse := hne e (hback he (Kind.isEnum_of_base? hp))
      rw [Kind.isEnum_of_base? hp] at hfalse
      cases hfalse
    | @named _ e v n k he hk _ _ =>
      rw [hne e (hback he hk)] at hk
      cases hk
    | other l _ => rfl

include hs ht

/-- And all of a field but its offset. -/
theorem Reordered.field (hf : s'.field? id i = some f) (hg : t'.field? (σ id) i = some g) :
    g = { f.rename σ with offset := g.offset } := by
  obtain ⟨f₀, hf₀, hl⟩ := hrs.later.field?_prev hf
  obtain ⟨d, w, hw⟩ := hs.exists_writes hf₀
  obtain ⟨g', hg', hl'⟩ := hrt.later.field? (h.writes hw).field?
  obtain rfl := Option.some.inj (hg.symm.trans hg')
  obtain ⟨f', hf', hd, hrep, hdef⟩ := hrs.exists_field hw
  obtain rfl := Option.some.inj (hf.symm.trans hf')
  obtain ⟨g', hg', hd', hrep', hdef'⟩ := hrt.exists_field (h.writes hw)
  obtain rfl := Option.some.inj (hg.symm.trans hg')
  have htype : g.type = f.type.rename σ := hd'.unique (h.denotes hs ht hd)
  rw [htype] at hdef'
  have hdefault := h.default hrs hrt hdef hdef'
  obtain ⟨⟨hname, hmeta⟩, -⟩ := hl
  obtain ⟨⟨hname', hmeta'⟩, -⟩ := hl'
  obtain ⟨n₁, ty₁, rep₁, def₁, off₁, m₁⟩ := f
  obtain ⟨n₂, ty₂, rep₂, def₂, off₂, m₂⟩ := g
  simp_all [Field.rename]

theorem Reordered.inline? {l : Inline} (hf : s'.field? id i = some f)
    (hg : t'.field? (σ id) i = some g) (hl : s'.inline? f = some l) :
    t'.inline? g = some (l.rename σ) := by
  have hgf := h.field hs ht hrs hrt hf hg
  have htype : g.type = f.type.rename σ := by rw [hgf]; rfl
  have hrep : g.repeated = f.repeated := by rw [hgf]; rfl
  cases l with
  | scalar n =>
    obtain ⟨hr, p, hn, hp | ⟨x, d, hx, hd, hb⟩⟩ := inline?_eq_scalar_iff.1 hl
    · exact inline?_eq_scalar_iff.2 ⟨hrep.trans hr, p, hn, .inl (by rw [htype, hp]; rfl)⟩
    · refine inline?_eq_scalar_iff.2 ⟨hrep.trans hr, p, hn, .inr ⟨σ x, d, ?_, ?_, hb⟩⟩
      · rw [htype, hx]
        rfl
      · exact h.enum hrs hrt hd (Kind.isEnum_of_base? hb)
  | nested x =>
    obtain ⟨hr, hx, hs⟩ := inline?_eq_nested_iff.1 hl
    exact inline?_eq_nested_iff.2 ⟨hrep.trans hr, by rw [htype, hx]; rfl, h.struct hrs hrt hs⟩

/-- The rule for layouts leaves no choice either. -/
theorem Reordered.laid {a : ByteCount} (hl : s'.Laid id i a) :
    ∀ b, t'.Laid (σ id) i b → b = a ∧ ∀ j < i, ∀ f g, s'.field? id j = some f →
      t'.field? (σ id) j = some g → g.offset = f.offset := by
  induction hl with
  | nil id =>
    intro b hb
    cases hb
    exact ⟨rfl, fun j hj => absurd hj (Nat.not_lt_zero j)⟩
  | @scalar id i a n f _ hf hi ho ih =>
    intro b hb
    cases hb with
    | scalar hb hg hi' ho' =>
      obtain ⟨rfl, hoff⟩ := ih _ hb
      have hsame := (h.inline? hs ht hrs hrt hf hg hi).symm.trans hi'
      obtain rfl := Inline.scalar.inj (Option.some.inj hsame)
      refine ⟨rfl, fun j hj f₁ g₁ hf₁ hg₁ => ?_⟩
      rcases Nat.lt_succ_iff_lt_or_eq.1 hj with hj | rfl
      · exact hoff j hj f₁ g₁ hf₁ hg₁
      · obtain rfl := Option.some.inj (hf.symm.trans hf₁)
        obtain rfl := Option.some.inj (hg.symm.trans hg₁)
        rw [ho, ho']
    | nested hb hg hi' _ _ _ _ =>
      have hsame := (h.inline? hs ht hrs hrt hf hg hi).symm.trans hi'
      cases hsame
  | @nested id x i a n f d _ hf hi ho hd hn _ ih ihx =>
    intro b hb
    cases hb with
    | scalar hb hg hi' _ =>
      have hsame := (h.inline? hs ht hrs hrt hf hg hi).symm.trans hi'
      cases hsame
    | @nested _ y _ b' n' g e hb hg hi' ho' he hn' hy =>
      obtain ⟨rfl, hoff⟩ := ih _ hb
      have hsame := (h.inline? hs ht hrs hrt hf hg hi).symm.trans hi'
      obtain rfl := Inline.nested.inj (Option.some.inj hsame)
      obtain ⟨d₀, e', -, he', hl, hl'⟩ := h.exists_type hrs hrt hd
      obtain rfl := Option.some.inj (he.symm.trans he')
      have hlen : e.fields.length = d.fields.length := hl'.kind.fields.1.trans hl.kind.fields.1.symm
      rw [hlen] at hy
      obtain ⟨rfl, -⟩ := ihx _ hy
      refine ⟨rfl, fun j hj f₁ g₁ hf₁ hg₁ => ?_⟩
      rcases Nat.lt_succ_iff_lt_or_eq.1 hj with hj | rfl
      · exact hoff j hj f₁ g₁ hf₁ hg₁
      · obtain rfl := Option.some.inj (hf.symm.trans hf₁)
        obtain rfl := Option.some.inj (hg.symm.trans hg₁)
        rw [ho, ho']

theorem Reordered.offset (hf : s'.field? id i = some f) (hg : t'.field? (σ id) i = some g) :
    g.offset = f.offset := by
  obtain ⟨d, hd, hfd⟩ := Option.bind_eq_some_iff.1 hf
  obtain ⟨e, he, hge⟩ := Option.bind_eq_some_iff.1 hg
  obtain ⟨d₀, e', -, he', hl, hl'⟩ := h.exists_type hrs hrt hd
  obtain rfl := Option.some.inj (he.symm.trans he')
  cases hk : d.kind with
  | enum _ _ _ => simp [TypeDecl.fields, hk, Kind.fields] at hfd
  | union _ => simp [TypeDecl.fields, hk, Kind.fields] at hfd
  | table fs =>
    have hkd : d.kind.isTable = true := by rw [hk]; rfl
    have hke : e.kind.isTable = true := by rw [hl'.kind.isTable, ← hl.kind.isTable, hkd]
    rw [hrs.slot ⟨d, hd, hkd⟩ hf, hrt.slot ⟨e, he, hke⟩ hg]
  | struct fs n =>
    have hkd : d.kind.isStruct = true := by rw [hk]; rfl
    have hke : e.kind.isStruct = true := by rw [hl'.kind.isStruct, ← hl.kind.isStruct, hkd]
    obtain ⟨a, -, ha⟩ := hrs.size hd hkd
    obtain ⟨b, -, hb⟩ := hrt.size he hke
    have hlen : e.fields.length = d.fields.length := hl'.kind.fields.1.trans hl.kind.fields.1.symm
    rw [hlen] at hb
    exact (h.laid hs ht hrs hrt ha b hb).2 i (List.getElem?_eq_some_iff.1 hfd).1 f g hf hg

theorem Reordered.fields {d e : TypeDecl} (hd : s'.types[id]? = some d)
    (he : t'.types[σ id]? = some e) : e.fields = d.fields.map (·.rename σ) := by
  obtain ⟨d₀, e', -, he', hl, hl'⟩ := h.exists_type hrs hrt hd
  obtain rfl := Option.some.inj (he.symm.trans he')
  have hlen : e.fields.length = d.fields.length := hl'.kind.fields.1.trans hl.kind.fields.1.symm
  refine List.ext_getElem? fun i => ?_
  rw [List.getElem?_map]
  cases hfd : d.fields[i]? with
  | none =>
    exact List.getElem?_eq_none (by rw [hlen]; exact List.getElem?_eq_none_iff.1 hfd)
  | some f =>
    have hi : i < e.fields.length := by rw [hlen]; exact (List.getElem?_eq_some_iff.1 hfd).1
    have hge : e.fields[i]? = some e.fields[i] := List.getElem?_eq_getElem hi
    have hf : s'.field? id i = some f := by rw [Schema.field?, hd]; exact hfd
    have hg : t'.field? (σ id) i = some e.fields[i] := by rw [Schema.field?, he]; exact hge
    have hsame := h.field hs ht hrs hrt hf hg
    rw [h.offset hs ht hrs hrt hf hg] at hsame
    rw [hge, hsame]
    rfl

theorem Reordered.size {d e : TypeDecl} (hd : s'.types[id]? = some d)
    (he : t'.types[σ id]? = some e) : e.kind.size? = d.kind.size? := by
  obtain ⟨d₀, e', -, he', hl, hl'⟩ := h.exists_type hrs hrt hd
  obtain rfl := Option.some.inj (he.symm.trans he')
  have hlen : e.fields.length = d.fields.length := hl'.kind.fields.1.trans hl.kind.fields.1.symm
  have hsame : e.kind.isStruct = d.kind.isStruct := by rw [hl'.kind.isStruct, ← hl.kind.isStruct]
  cases hk : d.kind.isStruct with
  | true =>
    obtain ⟨a, hna, ha⟩ := hrs.size hd hk
    obtain ⟨b, hnb, hb⟩ := hrt.size he (hsame.trans hk)
    rw [hlen] at hb
    rw [hna, hnb, (h.laid hs ht hrs hrt ha b hb).1]
  | false =>
    have hnone : ∀ k : Kind, k.isStruct = false → k.size? = none := by
      intro k hk
      cases k with
      | enum _ _ _ => rfl
      | union _ => rfl
      | table _ => rfl
      | struct _ _ => cases hk
    rw [hnone _ hk, hnone _ (hsame.trans hk)]

/-- A type and what it has become in the other order. -/
theorem Reordered.rename {d e : TypeDecl} (hd : s'.types[id]? = some d)
    (he : t'.types[σ id]? = some e) : e = d.rename σ := by
  have hfields := h.fields hs ht hrs hrt hd he
  have hsize := h.size hs ht hrs hrt hd he
  obtain ⟨d₀, e', hd₀, he', hl, hl'⟩ := h.exists_type hrs hrt hd
  obtain rfl := Option.some.inj (he.symm.trans he')
  have hkind : e.kind = d.kind.rename σ := by
    cases hk : d.kind.isEnum with
    | true =>
      -- The base of a resolved enum is a primitive, and has no number in it.
      obtain rfl := Option.some.inj (he.symm.trans (h.enum hrs hrt hd hk))
      obtain ⟨d₁, -, w, p, vs, vs', v, -, hkd, -, -⟩ := hrs.enum hd hk
      rw [hkd]
      rfl
    | false =>
      have hkl := hl.kind
      have hkl' := hl'.kind
      unfold TypeDecl.fields at hfields
      generalize d.kind = k₁ at hkl hfields hsize hk
      generalize e.kind = k₂ at hkl' hfields hsize
      generalize d₀.kind = k₀ at hkl hkl'
      cases hkl with
      | enum _ _ => cases hk
      | union vs => cases hkl' with
        | union vs => rfl
      | table _ => cases hkl' with
        | table _ => exact congrArg Kind.table hfields
      | struct _ => cases hkl' with
        | struct _ => exact congr (congrArg Kind.struct hfields) hsize
      | sized fs n => cases hkl' with
        | sized fs n => exact congr (congrArg Kind.struct hfields) hsize
  obtain ⟨n₁, ns₁, m₁, k₁⟩ := d
  obtain ⟨n₂, ns₂, m₂, k₂⟩ := e
  obtain ⟨hn, hh, hm, -⟩ := hl
  obtain ⟨hn', hh', hm', -⟩ := hl'
  simp_all [TypeDecl.rename]

theorem Reordered.map_types (id : TypeId) :
    t'.types[σ id]? = s'.types[id]?.map (·.rename σ) := by
  cases hd : s'.types[id]? with
  | some d =>
    obtain ⟨d₀, e, -, he, -, -⟩ := h.exists_type hrs hrt hd
    rw [he, h.rename hs ht hrs hrt hd he]
    rfl
  | none =>
    cases he : t'.types[σ id]? with
    | none => rfl
    | some e =>
      obtain ⟨d₀, d, -, hd', -, -⟩ := h.symm.exists_type hrt hrs he
      rw [σ.symm_apply_apply, hd] at hd'
      cases hd'

end

/-! ## Top theorem -/

/-- There is no `root_type` below `n`, or there is a last one. -/
theorem exists_last_root (s : Schema) (n : Nat) : (∀ ns < n, s.rootName? ns = none) ∨
    ∃ ns < n, ∃ name, s.rootName? ns = some name ∧ ∀ m, ns < m → m < n → s.rootName? m = none := by
  induction n with
  | zero => exact .inl fun ns hns => absurd hns (Nat.not_lt_zero ns)
  | succ n ih =>
    cases hn : s.rootName? n with
    | some name => exact .inr ⟨n, Nat.lt_succ_self n, name, hn, fun m hm hm' => by omega⟩
    | none =>
      have hbelow : ∀ m, m < n + 1 → (m < n → s.rootName? m = none) → s.rootName? m = none := by
        intro m hm h
        rcases Nat.lt_succ_iff_lt_or_eq.1 hm with hm | rfl
        · exact h hm
        · exact hn
      rcases ih with hnone | ⟨ns, hns, name, hname, hlast⟩
      · exact .inl fun m hm => hbelow m hm (hnone m)
      · exact .inr ⟨ns, by omega, name, hname, fun m hm hm' => hbelow m hm' (hlast m hm)⟩

theorem Reordered.roots {σ : Equiv.Perm TypeId} {s t : Schema} {n : Nat} {root root' : Option TypeId}
    (h : Reordered σ s t) (hs : s.Fresh) (ht : t.Fresh) (hroot : s.Roots n root)
    (hroot' : t.Roots n root') : root' = root.map σ := by
  rcases s.exists_last_root n with hnone | ⟨ns, hns, name, hname, hlast⟩
  · rw [hroot.none hnone, hroot'.none fun ns hns => (h.rootName? ns).trans (hnone ns hns)]
    rfl
  · obtain ⟨id, hid, heq⟩ := hroot.found hns hname
    obtain ⟨id', hid', heq'⟩ := hroot'.found hns ((h.rootName? ns).trans hname)
    rw [heq hlast, heq' fun m hm hm' => (h.rootName? m).trans (hlast m hm hm')]
    rw [h.findType? hs ht, hid] at hid'
    exact hid'.symm

/-- Schemas that differ in the order of their types resolve together, to schemas that differ in the
order of their types. -/
theorem resolve_reordered {σ : Equiv.Perm TypeId} {s t : Schema} (hs : s.Registered)
    (ht : t.Registered) (h : Reordered σ s t) :
    (s.resolve.2 = none ↔ t.resolve.2 = none) ∧
      (s.resolve.2 = none →
        (∀ id, t.resolve.1.types[σ id]? = s.resolve.1.types[id]?.map (·.rename σ)) ∧
          t.resolve.1.rootType = s.resolve.1.rootType.map σ) := by
  have hiff : s.resolve.2 = none ↔ t.resolve.2 = none := by
    constructor
    · intro hok
      exact ht.fresh.resolve_eq_none (h.wellFormed hs.fresh ht.fresh (hs.fresh.resolves hok).wellFormed)
    · intro hok
      exact hs.fresh.resolve_eq_none
        (h.symm.wellFormed ht.fresh hs.fresh (ht.fresh.resolves hok).wellFormed)
  refine ⟨hiff, fun hok => ?_⟩
  have hrs := hs.fresh.resolves hok
  have hrt := ht.fresh.resolves (hiff.1 hok)
  have hroot := hrt.root
  rw [h.length_namespaces] at hroot
  exact ⟨h.map_types hs.fresh ht.fresh hrs hrt, h.roots hs.fresh ht.fresh hrs.root hroot⟩

/-- A struct before the table that holds it. -/
def innerFirst : Schema :=
  ((empty "nest").parse "nest.fbs" "struct In\x7bn:int;\x7dtable Out\x7bi:In;\x7droot_type Out;").1

/-- The table first. -/
def outerFirst : Schema :=
  ((empty "nest").parse "nest.fbs" "table Out\x7bi:In;\x7dstruct In\x7bn:int;\x7droot_type Out;").1

theorem reordered_innerFirst : Reordered (Equiv.swap 0 1) innerFirst outerFirst := by
  have hfacts : outerFirst.namespaces.map (fun n => (n.name, n.rootName)) =
        innerFirst.namespaces.map (fun n => (n.name, n.rootName)) ∧ innerFirst.types.length = 2 ∧
      outerFirst.types.length = 2 ∧ outerFirst.types[1]? = innerFirst.types[0]? ∧
        outerFirst.types[0]? = innerFirst.types[1]? := by
    decide +kernel
  obtain ⟨hns, hlen, hlen', h0, h1⟩ := hfacts
  refine ⟨hns, fun id => ?_⟩
  match id with
  | 0 => exact h0
  | 1 => exact h1
  | id + 2 =>
    rw [Equiv.swap_apply_of_ne_of_ne (by simp) (by simp), List.getElem?_eq_none (by omega),
      List.getElem?_eq_none (by omega)]

theorem resolve_reordered_innerFirst :
    innerFirst.resolve.2 = none ∧ outerFirst.resolve.2 = none ∧
      outerFirst.resolve.1.types[0]? =
        innerFirst.resolve.1.types[1]?.map (·.rename (Equiv.swap 0 1)) ∧
      outerFirst.resolve.1.rootType = innerFirst.resolve.1.rootType.map (Equiv.swap 0 1) := by
  obtain ⟨hiff, hsame⟩ := resolve_reordered (.parse (.empty "nest") _ _) (.parse (.empty "nest") _ _)
    reordered_innerFirst
  have hok : innerFirst.resolve.2 = none := by decide +kernel
  obtain ⟨htypes, hroot⟩ := hsame hok
  exact ⟨hok, hiff.1 hok, htypes 1, hroot⟩

end Schema

end FlatSchema
