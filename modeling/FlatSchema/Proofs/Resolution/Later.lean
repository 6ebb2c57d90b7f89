import FlatSchema.Proofs.Numbering
import FlatSchema.Proofs.Resolution.Run

/-!
# What resolution keeps

`Later busy s s'` says that `s'` may come after `s` in a resolution: names, namespaces, metadata and
the kinds of types are the same, and what is resolved stays as it is.  The structs of `busy` are as
they were.  Every step of the resolver leads to a later schema, whether it succeeds or fails, and
name lookup answers the same in both.
-/

namespace FlatSchema

/-! ## The order -/

/-- Lists of one length, related place by place. -/
def Along {α : Type} (R : Nat → α → α → Prop) (xs ys : List α) : Prop :=
  ys.length = xs.length ∧ ∀ i x y, xs[i]? = some x → ys[i]? = some y → R i x y

/-- An entry keeps its name, and its value once it has one. -/
def Entry.Later (e e' : Entry) : Prop :=
  e'.name = e.name ∧ (e.value = none ∨ e'.value = e.value)

/-- A field keeps its name and metadata, and once it is resolved all but its offset. -/
def Field.Later (f f' : Field) : Prop :=
  (f'.name = f.name ∧ f'.metadata = f.metadata) ∧
    (f'.type = f.type ∧ f'.repeated = f.repeated ∧ f'.default = f.default ∨
      f.type.isResolved = false ∧ f'.type.isResolved = true)

/-- The offset of field `i` of a table. -/
def slot (i : Nat) : ByteCount :=
  firstSlot + slotSize * .ofNat i

/-- The offset of a table field is set to its slot only; a struct that has a size is done. -/
inductive Kind.Later : Kind → Kind → Prop where
  | enum {b b' : TypeRef} {vs vs' : List Entry} {d d' : Option Value}
      (base : b' = b ∧ d' = d ∨ b.isResolved = false ∧ ∃ p, b' = .primitive p)
      (values : Along (fun _ => Entry.Later) vs vs') : Later (.enum b vs d) (.enum b' vs' d')
  | union (vs : List Entry) : Later (.union vs) (.union vs)
  | table {fs fs' : List Field}
      (fields : Along (fun i f f' => f.Later f' ∧ (f'.offset = f.offset ∨ f'.offset = some (slot i)))
        fs fs') : Later (.table fs) (.table fs')
  | struct {fs fs' : List Field} {n : Option ByteCount}
      (fields : Along (fun _ => Field.Later) fs fs') : Later (.struct fs none) (.struct fs' n)
  | sized (fs : List Field) (n : ByteCount) : Later (.struct fs (some n)) (.struct fs (some n))

structure TypeDecl.Later (t t' : TypeDecl) : Prop where
  name : t'.name = t.name
  home : t'.home = t.home
  metadata : t'.metadata = t.metadata
  kind : t.kind.Later t'.kind

namespace Schema

/-- The root type is not looked at. -/
structure Later (busy : TypeId → Prop) (s s' : Schema) : Prop where
  rest : s' = { s with types := s'.types, rootType := s'.rootType }
  types : Along (fun id t t' => t.Later t' ∧ (busy id → t.kind.isStruct = true → t' = t))
    s.types s'.types

/-- One schema after another, with the same root type. -/
structure Grows (busy : TypeId → Prop) (s s' : Schema) : Prop extends Later busy s s' where
  rootType : s'.rootType = s.rootType

/-- No struct is being laid out. -/
def idle : TypeId → Prop := fun _ => False

end Schema

/-! ## It is an order -/

namespace Along

variable {α : Type} {R : Nat → α → α → Prop} {xs ys zs : List α}

theorem refl (h : ∀ i x, R i x x) (xs : List α) : Along R xs xs := by
  refine ⟨rfl, fun i x y hx hy => ?_⟩
  obtain rfl := Option.some.inj (hx.symm.trans hy)
  exact h i x

theorem next (h : Along R xs ys) {i : Nat} {x : α} (hx : xs[i]? = some x) :
    ∃ y, ys[i]? = some y ∧ R i x y := by
  obtain ⟨hi, -⟩ := List.getElem?_eq_some_iff.1 hx
  have hy : i < ys.length := by have := h.1; omega
  exact ⟨ys[i], List.getElem?_eq_getElem hy, h.2 i x _ hx (List.getElem?_eq_getElem hy)⟩

theorem prev (h : Along R xs ys) {i : Nat} {y : α} (hy : ys[i]? = some y) :
    ∃ x, xs[i]? = some x ∧ R i x y := by
  obtain ⟨hi, -⟩ := List.getElem?_eq_some_iff.1 hy
  have hx : i < xs.length := by have := h.1; omega
  exact ⟨xs[i], List.getElem?_eq_getElem hx, h.2 i _ y (List.getElem?_eq_getElem hx) hy⟩

theorem trans (ht : ∀ i x y z, R i x y → R i y z → R i x z) (h : Along R xs ys)
    (h' : Along R ys zs) : Along R xs zs := by
  refine ⟨h'.1.trans h.1, fun i x z hx hz => ?_⟩
  obtain ⟨y, hy, hxy⟩ := h.next hx
  exact ht i x y z hxy (h'.2 i y z hy hz)

theorem imp {S : Nat → α → α → Prop} (h : Along R xs ys) (hi : ∀ i x y, R i x y → S i x y) :
    Along S xs ys :=
  ⟨h.1, fun i x y hx hy => hi i x y (h.2 i x y hx hy)⟩

theorem map_eq {β : Type} (h : Along R xs ys) {f : α → β} (hf : ∀ i x y, R i x y → f y = f x) :
    ys.map f = xs.map f := by
  refine List.ext_getElem? fun i => ?_
  rw [List.getElem?_map, List.getElem?_map]
  cases hi : xs[i]? with
  | none => rw [List.getElem?_eq_none (by rw [h.1]; exact List.getElem?_eq_none_iff.1 hi)]
  | some x =>
    obtain ⟨y, hy, hr⟩ := h.next hi
    rw [hy, Option.map_some, Option.map_some, hf i x y hr]

/-- A change at one place. -/
theorem modify (hr : ∀ i x, R i x x) (f : α → α) {i : Nat}
    (h : ∀ x, xs[i]? = some x → R i x (f x)) : Along R xs (xs.modify i f) := by
  refine ⟨by simp, fun j x y hx hy => ?_⟩
  rw [List.getElem?_modify, hx] at hy
  by_cases hj : i = j
  · subst hj
    simp at hy
    subst hy
    exact h x hx
  · simp [hj] at hy
    subst hy
    exact hr j x

end Along

namespace Entry.Later

theorem refl (e : Entry) : e.Later e :=
  ⟨rfl, .inr rfl⟩

theorem trans {e e' e'' : Entry} (h : e.Later e') (h' : e'.Later e'') : e.Later e'' := by
  refine ⟨h'.1.trans h.1, ?_⟩
  rcases h.2 with hv | hv
  · exact .inl hv
  · rcases h'.2 with hv' | hv'
    · exact .inl (hv.symm.trans hv')
    · exact .inr (hv'.trans hv)

/-- An entry with a value is done. -/
theorem eq {e e' : Entry} (h : e.Later e') (hv : e.value ≠ none) : e' = e := by
  obtain ⟨name, value⟩ := e
  obtain ⟨name', value'⟩ := e'
  rcases h.2 with hn | hn
  · exact absurd hn hv
  · have := h.1
    simp_all

end Entry.Later

namespace Field.Later

theorem refl (f : Field) : f.Later f :=
  ⟨⟨rfl, rfl⟩, .inl ⟨rfl, rfl, rfl⟩⟩

theorem trans {f f' f'' : Field} (h : f.Later f') (h' : f'.Later f'') : f.Later f'' := by
  refine ⟨⟨h'.1.1.trans h.1.1, h'.1.2.trans h.1.2⟩, ?_⟩
  rcases h.2 with ⟨ht, hr, hd⟩ | ⟨hu, hs⟩
  · rcases h'.2 with ⟨ht', hr', hd'⟩ | ⟨hu', hs'⟩
    · exact .inl ⟨ht'.trans ht, hr'.trans hr, hd'.trans hd⟩
    · exact .inr ⟨ht ▸ hu', hs'⟩
  · rcases h'.2 with ⟨ht', -, -⟩ | ⟨hu', -⟩
    · exact .inr ⟨hu, by rw [ht']; exact hs⟩
    · rw [hs] at hu'; cases hu'

theorem resolved {f f' : Field} (h : f.Later f') (hr : f.type.isResolved = true) :
    f'.type = f.type ∧ f'.repeated = f.repeated ∧ f'.default = f.default := by
  rcases h.2 with hs | ⟨hu, -⟩
  · exact hs
  · rw [hr] at hu; cases hu

theorem offset (f : Field) (o : Option ByteCount) : f.Later { f with offset := o } :=
  ⟨⟨rfl, rfl⟩, .inl ⟨rfl, rfl, rfl⟩⟩

end Field.Later

theorem TypeRef.isResolved_of_primitive? {r : TypeRef} {p : Primitive}
    (h : r.primitive? = some p) : r.isResolved = true := by
  cases r with
  | unresolved w => cases h
  | primitive q => rfl
  | declared id => rfl

namespace Kind.Later

theorem refl (k : Kind) : k.Later k := by
  cases k with
  | enum b vs d => exact .enum (.inl ⟨rfl, rfl⟩) (.refl (fun _ => Entry.Later.refl) vs)
  | union vs => exact .union vs
  | table fs => exact .table (.refl (fun _ f => ⟨Field.Later.refl f, .inl rfl⟩) fs)
  | struct fs n =>
    cases n with
    | none => exact .struct (.refl (fun _ => Field.Later.refl) fs)
    | some n => exact .sized fs n

theorem trans {k k' k'' : Kind} (h : k.Later k') (h' : k'.Later k'') : k.Later k'' := by
  cases h with
  | union vs => exact h'
  | sized fs n => exact h'
  | enum hb hv =>
    cases h' with
    | enum hb' hv' =>
      refine .enum ?_ (hv.trans (fun _ _ _ _ => Entry.Later.trans) hv')
      rcases hb with ⟨rfl, rfl⟩ | ⟨hu, hs⟩
      · exact hb'
      · rcases hb' with ⟨rfl, -⟩ | ⟨-, hs'⟩
        · exact .inr ⟨hu, hs⟩
        · exact .inr ⟨hu, hs'⟩
  | table hf =>
    cases h' with
    | table hf' =>
      refine .table (hf.trans (fun i x y z hxy hyz => ⟨hxy.1.trans hyz.1, ?_⟩) hf')
      rcases hyz.2 with ho | ho
      · rw [ho]; exact hxy.2
      · exact .inr ho
  | struct hf =>
    cases h' with
    | struct hf' => exact .struct (hf.trans (fun _ _ _ _ => Field.Later.trans) hf')
    | sized fs n => exact .struct hf

/-- The kind of a type is one of four, and stays the same one. -/
theorem isEnum {k k' : Kind} (h : k.Later k') : k'.isEnum = k.isEnum := by
  cases h <;> rfl

theorem isStruct {k k' : Kind} (h : k.Later k') : k'.isStruct = k.isStruct := by
  cases h <;> rfl

theorem isTable {k k' : Kind} (h : k.Later k') : k'.isTable = k.isTable := by
  cases h <;> rfl

theorem fields {k k' : Kind} (h : k.Later k') : Along (fun _ => Field.Later) k.fields k'.fields := by
  cases h with
  | enum _ _ => exact .refl (fun _ => Field.Later.refl) []
  | union _ => exact .refl (fun _ => Field.Later.refl) []
  | table hf => exact hf.imp fun _ _ _ h => h.1
  | struct hf => exact hf
  | sized fs _ => exact .refl (fun _ => Field.Later.refl) fs

theorem base? {k k' : Kind} {p : Primitive} (h : k.Later k') (hp : k.base? = some p) :
    k'.base? = some p := by
  cases h with
  | enum hb _ =>
    rcases hb with ⟨rfl, -⟩ | ⟨hu, -⟩
    · exact hp
    · rw [TypeRef.isResolved_of_primitive? hp] at hu
      cases hu
  | union _ => exact hp
  | table _ => exact hp
  | struct _ => exact hp
  | sized _ _ => exact hp

theorem sized_eq {k k' : Kind} {n : ByteCount} (h : k.Later k') (hn : k.size? = some n) :
    k' = k := by
  cases h with
  | enum _ _ => cases hn
  | union _ => rfl
  | table _ => cases hn
  | struct _ => cases hn
  | sized _ _ => rfl

end Kind.Later

namespace TypeDecl.Later

theorem refl (t : TypeDecl) : t.Later t :=
  ⟨rfl, rfl, rfl, .refl t.kind⟩

theorem trans {t t' t'' : TypeDecl} (h : t.Later t') (h' : t'.Later t'') : t.Later t'' :=
  ⟨h'.name.trans h.name, h'.home.trans h.home, h'.metadata.trans h.metadata, h.kind.trans h'.kind⟩

theorem eq_of_kind {t t' : TypeDecl} (h : t.Later t') (hk : t'.kind = t.kind) : t' = t := by
  obtain ⟨name, home, m, k⟩ := t
  obtain ⟨name', home', m', k'⟩ := t'
  obtain ⟨h1, h2, h3, -⟩ := h
  simp_all

end TypeDecl.Later

namespace Schema

namespace Later

variable {busy : TypeId → Prop} {s s' s'' : Schema}

theorem refl (busy : TypeId → Prop) (s : Schema) : Later busy s s :=
  ⟨rfl, .refl (fun _ t => ⟨TypeDecl.Later.refl t, fun _ _ => rfl⟩) s.types⟩

theorem trans (h : Later busy s s') (h' : Later busy s' s'') : Later busy s s'' := by
  refine ⟨?_, h.types.trans (fun i x y z hxy hyz => ⟨hxy.1.trans hyz.1, fun hb hs => ?_⟩) h'.types⟩
  · have := h'.rest
    rw [h.rest] at this
    exact this
  · have hy := hxy.2 hb hs
    subst hy
    exact hyz.2 hb hs

theorem weaken {free : TypeId → Prop} (h : Later busy s s') (hf : ∀ id, free id → busy id) :
    Later free s s' :=
  ⟨h.rest, h.types.imp fun id _ _ ht => ⟨ht.1, fun hb => ht.2 (hf id hb)⟩⟩

theorem toIdle (h : Later busy s s') : Later idle s s' :=
  h.weaken fun _ h => h.elim

/-- The root type may be any. -/
theorem withRoot (busy : TypeId → Prop) (s : Schema) (root : Option TypeId) :
    Later busy s { s with rootType := root } :=
  ⟨rfl, (refl busy s).types⟩

theorem namespaces (h : Later busy s s') : s'.namespaces = s.namespaces := by
  rw [h.rest]

theorem namespaceIds (h : Later busy s s') : s'.namespaceIds = s.namespaceIds := by
  rw [h.rest]

theorem length (h : Later busy s s') : s'.types.length = s.types.length :=
  h.types.1

theorem next (h : Later busy s s') {id : TypeId} {t : TypeDecl} (ht : s.types[id]? = some t) :
    ∃ t', s'.types[id]? = some t' ∧ t.Later t' := by
  obtain ⟨t', ht', hl, -⟩ := h.types.next ht
  exact ⟨t', ht', hl⟩

theorem prev (h : Later busy s s') {id : TypeId} {t' : TypeDecl} (ht : s'.types[id]? = some t') :
    ∃ t, s.types[id]? = some t ∧ t.Later t' := by
  obtain ⟨t, ht, hl, -⟩ := h.types.prev ht
  exact ⟨t, ht, hl⟩

/-- A busy struct is as it was. -/
theorem busy_eq (h : Later busy s s') {id : TypeId} {t : TypeDecl} (ht : s.types[id]? = some t)
    (hb : busy id) (hs : t.kind.isStruct = true) : s'.types[id]? = some t := by
  obtain ⟨t', ht', -, he⟩ := h.types.next ht
  rw [ht', he hb hs]

/-- A struct with a size is done. -/
theorem sized_eq (h : Later busy s s') {id : TypeId} {t : TypeDecl} {n : ByteCount}
    (ht : s.types[id]? = some t) (hn : t.kind.size? = some n) : s'.types[id]? = some t := by
  obtain ⟨t', ht', hl⟩ := h.next ht
  rw [ht', hl.eq_of_kind (hl.kind.sized_eq hn)]

theorem field? (h : Later busy s s') {id : TypeId} {i : Nat} {f : Field}
    (hf : s.field? id i = some f) : ∃ f', s'.field? id i = some f' ∧ f.Later f' := by
  obtain ⟨t, ht, hf⟩ := Option.bind_eq_some_iff.1 hf
  obtain ⟨t', ht', hl⟩ := h.next ht
  obtain ⟨f', hf', hff⟩ := hl.kind.fields.next hf
  exact ⟨f', by rw [Schema.field?, ht']; exact hf', hff⟩

theorem field?_prev (h : Later busy s s') {id : TypeId} {i : Nat} {f' : Field}
    (hf : s'.field? id i = some f') : ∃ f, s.field? id i = some f ∧ f.Later f' := by
  obtain ⟨t', ht', hf⟩ := Option.bind_eq_some_iff.1 hf
  obtain ⟨t, ht, hl⟩ := h.prev ht'
  obtain ⟨f, hf', hff⟩ := hl.kind.fields.prev hf
  exact ⟨f, by rw [Schema.field?, ht]; exact hf', hff⟩

/-- What lies inline once lies inline the same way ever after. -/
theorem inline? (h : Later busy s s') {f : Field} {l : Inline} (hl : s.inline? f = some l) :
    s'.inline? f = some l := by
  unfold Schema.inline? at hl ⊢
  split at hl
  · cases hl
  · next hr =>
    rw [if_neg hr]
    split at hl
    · exact hl
    · next id _ =>
      cases ht : s.types[id]? with
      | none => rw [ht] at hl; cases hl
      | some t =>
        obtain ⟨t', ht', htl⟩ := h.next ht
        simp only [ht] at hl
        simp only [ht', htl.kind.isStruct]
        split at hl
        · next hs => rw [if_pos hs]; exact hl
        · next hs =>
          rw [if_neg hs]
          obtain ⟨n, hn, rfl⟩ := Option.map_eq_some_iff.1 hl
          obtain ⟨p, hp, hn⟩ := Option.bind_eq_some_iff.1 hn
          rw [htl.kind.base? hp]
          simp [hn]
    · cases hl

end Later

/-! ## Names -/

/-- What a type is registered under. -/
def key (t : TypeDecl) : NamespaceId × String :=
  (t.home, t.name)

/-- Names are looked up in the namespaces alone. -/
theorem findType?_congr {s s' : Schema} (hn : s'.namespaces = s.namespaces)
    (hids : s'.namespaceIds = s.namespaceIds) (ns : NamespaceId) (name : String) :
    s'.findType? ns name = s.findType? ns name := by
  have hc : s'.childOf? = s.childOf? := by
    funext space simple
    simp only [childOf?, namespaceId?, child?, hn, hids]
  simp only [findType?, namespaceName, hn, hc]

namespace Later

variable {busy : TypeId → Prop} {s s' : Schema}

theorem keys (h : Later busy s s') : s'.types.map key = s.types.map key :=
  h.types.map_eq fun _ _ _ h => Prod.ext h.1.home h.1.name

theorem findType? (h : Later busy s s') (ns : NamespaceId) (name : String) :
    s'.findType? ns name = s.findType? ns name :=
  findType?_congr h.namespaces h.namespaceIds ns name

theorem refer (h : Later busy s s') (ns : NamespaceId) (name : String) :
    s'.refer ns name = s.refer ns name := by
  simp only [Schema.refer, h.findType?]

theorem children (h : Later busy s s') (ns : NamespaceId) : s'.children ns = s.children ns := by
  rw [Schema.children, Schema.children, h.namespaces]

end Later

/-! ## Updates lead to later schemas -/

namespace Grows

variable {busy : TypeId → Prop} {s s' s'' : Schema}

theorem refl (busy : TypeId → Prop) (s : Schema) : Grows busy s s :=
  ⟨.refl busy s, rfl⟩

theorem trans (h : Grows busy s s') (h' : Grows busy s' s'') : Grows busy s s'' :=
  ⟨h.toLater.trans h'.toLater, h'.rootType.trans h.rootType⟩

theorem weaken {free : TypeId → Prop} (h : Grows busy s s') (hf : ∀ id, free id → busy id) :
    Grows free s s' :=
  ⟨h.toLater.weaken hf, h.rootType⟩

theorem updateType {id : TypeId} {f : TypeDecl → TypeDecl}
    (h : ∀ t, s.types[id]? = some t → t.Later (f t) ∧ (busy id → t.kind.isStruct = true → f t = t)) :
    Grows busy s (s.updateType id f) :=
  ⟨⟨rfl, .modify (fun _ t => ⟨TypeDecl.Later.refl t, fun _ _ => rfl⟩) f h⟩, rfl⟩

end Grows

end Schema

end FlatSchema
