import FlatSchema.Proofs.Registration
import FlatSchema.Proofs.Resolution.References
import FlatSchema.Proofs.Resolution.Replay
import FlatSchema.Proofs.Resolution.Outcome
import Mathlib.Data.List.Nodup

/-!
# What holds of every schema

A schema is reachable if it comes from an empty one by any operations, refused ones, files that end
in a fault and resolutions that fail among them (`Reachable`).  Every reachable schema is consistent
(`Consistent`): what is stored twice agrees, each type is listed once, in the one namespace it names,
and every reference leads to a type.

A type may be added with any kind, one with two fields of a name among them.  `Reached s handed` has
the kinds that were handed over in this way.  The names in a type are unique, and no enum rests on a
declared type, exactly if this holds of the kind that the type was added with; types that were read from
a file are always so (`Reached.consistent_and_clean_iff`).

What the operations keep is `Kept`.
-/

namespace FlatSchema

namespace Kind

/-- An enum whose base is a declared type. -/
def onDeclared : Kind → Bool
  | .enum (.declared _) _ _ => true
  | _ => false

/-- The names of fields and of values are unique, and the base of an enum is no declared type. -/
structure Clean (k : Kind) : Prop where
  fields : (k.fields.map (·.name)).Nodup
  values : (k.values.map (·.name)).Nodup
  base : k.onDeclared = false

end Kind

/-! ## Operations -/

namespace Schema

inductive Operation where
  | defineNamespace (name : String)
  | addType (ns : NamespaceId) (name : String) (kind : Kind)
  | addField (id : TypeId) (f : Field)
  | addValue (id : TypeId) (e : Entry)
  | setMetadata (id : TypeId) (m : Option Metadata)
  | setRootName (ns : NamespaceId) (name : String)
  | setFileIdentifier (text : String)
  | setFileExtension (text : String)
  | addAttribute (name : String)
  | markFile (key : String)
  | parse (file text : String)
  | resolve

namespace Operation

/-- The schema after an operation, refused or not. -/
def apply (s : Schema) : Operation → Schema
  | .defineNamespace name => (s.defineNamespace name).2
  | .addType ns name kind =>
    match s.addType ns name kind with
    | .ok (_, s') => s'
    | .error _ => s
  | .addField id f => (s.addField id f).toOption.getD s
  | .addValue id e => (s.addValue id e).toOption.getD s
  | .setMetadata id m => s.setMetadata id m
  | .setRootName ns name => s.setRootName ns name
  | .setFileIdentifier text => (s.setFileIdentifier text).toOption.getD s
  | .setFileExtension text => s.setFileExtension text
  | .addAttribute name => s.addAttribute name
  | .markFile key => s.markFile key
  | .parse file text => (s.parse file text).1
  | .resolve => s.resolve.1

/-- The kind that an operation hands over, with the type that it becomes the kind of. -/
def hands (s : Schema) : Operation → List (TypeId × Kind)
  | .addType ns name kind =>
    match s.addType ns name kind with
    | .ok (id, _) => [(id, kind)]
    | .error _ => []
  | _ => []

/-- The ids in what an operation is handed are ids of this schema. -/
def Applies (s : Schema) : Operation → Prop
  | .addType ns _ kind => ns < s.namespaces.length ∧ kind.Refers s.types.length
  | .addField _ f => ∀ id, f.type = .declared id → id < s.types.length
  | _ => True

end Operation

/-- The schema comes from an empty one by operations, which handed over the kinds in `handed`. -/
inductive Reached : Schema → List (TypeId × Kind) → Prop where
  | empty (name : String) : Reached (.empty name) []
  | step {s : Schema} {handed : List (TypeId × Kind)} (hs : Reached s handed) (o : Operation)
      (ho : o.Applies s) : Reached (o.apply s) (handed ++ o.hands s)

/-- By any operations. -/
def Reachable (s : Schema) : Prop :=
  ∃ handed, s.Reached handed

theorem Reachable.empty (name : String) : (Schema.empty name).Reachable :=
  ⟨[], .empty name⟩

theorem Reachable.step {s : Schema} (hs : s.Reachable) (o : Operation) (ho : o.Applies s) :
    (o.apply s).Reachable := by
  obtain ⟨handed, hs⟩ := hs
  exact ⟨_, hs.step o ho⟩

/-- What is stored twice agrees, in the maps and lists as they are stored, and references lead to
types. -/
structure Consistent (s : Schema) : Prop where
  namespaces : (s.namespaces.map (·.name)).Nodup
  namespaceIds : ∀ name ns, s.namespaceIds.get? name = some ns ↔
    s.namespaces[ns]?.map (·.name) = some name
  /-- Each type is listed in one namespace, which is the one it names, and there once. -/
  listed : ∀ (id : TypeId) t, s.types[id]? = some t → t.home < s.namespaces.length ∧
    ∀ (ns : NamespaceId) n, s.namespaces[ns]? = some n →
      n.children.count id = if ns = t.home then 1 else 0
  /-- What is listed is a type, in order of declaration. -/
  children : ∀ n ∈ s.namespaces, n.children.Pairwise (· < ·) ∧ ∀ id ∈ n.children, id < s.types.length
  byName : ∀ n ∈ s.namespaces, ∀ name id, n.byName.get? name = some id ↔
    id ∈ n.children ∧ s.types[id]?.map (·.name) = some name
  declared : ∀ t ∈ s.types, t.kind.Refers s.types.length
  rootType : ∀ id, s.rootType = some id → id < s.types.length
  files : s.files.Nodup
  seenFiles : ∀ key, s.seenFiles.contains key = true ↔ key ∈ s.files

/-- What every operation keeps. -/
structure Kept (s : Schema) : Prop where
  indexed : s.Indexed
  kind : ∀ (id : TypeId) t, s.types[id]? = some t → t.kind.Refers s.types.length
  rootType : ∀ id, s.rootType = some id → id < s.types.length
  files : s.files.Nodup

end Schema

/-! ## What the operations keep -/

namespace Kind

variable {k k' : Kind} {n m : Nat}

theorem Refers.mono (h : k.Refers n) (hm : n ≤ m) : k.Refers m :=
  ⟨fun hf hid => Nat.lt_of_lt_of_le (h.field hf hid) hm, fun hb => Nat.lt_of_lt_of_le (h.base hb) hm⟩

theorem Refers.addField {owner : String} {f : Field} (h : k.Refers n)
    (hf : ∀ id, f.type = .declared id → id < n) (ha : k.addField owner f = .ok k') : k'.Refers n := by
  have hrefers : ∀ {g id}, g ∈ k.fields ++ [f] → g.type = .declared id → id < n := by
    intro g id hg hid
    rcases List.mem_append.1 hg with hg | hg
    · exact h.field hg hid
    · rw [List.mem_singleton.1 hg] at hid
      exact hf id hid
  obtain ⟨hk, -, rfl⟩ := addField_eq_ok_iff.1 ha
  cases k with
  | enum b vs d => simp [isTable, isStruct] at hk
  | union vs => simp [isTable, isStruct] at hk
  | table fs => exact ⟨hrefers, fun hb => by cases hb⟩
  | struct fs m => exact ⟨hrefers, fun hb => by cases hb⟩

theorem Refers.addValue {e : Entry} (h : k.Refers n) (ha : k.addValue e = .ok k') : k'.Refers n := by
  obtain ⟨hk, -, rfl⟩ := addValue_eq_ok_iff.1 ha
  cases k with
  | enum b vs d =>
    refine ⟨fun hg => absurd hg List.not_mem_nil, fun hb => ?_⟩
    cases hb
    exact h.base rfl
  | union vs => exact ⟨fun hg => absurd hg List.not_mem_nil, fun hb => by cases hb⟩
  | table fs => simp [isEnum, isUnion] at hk
  | struct fs m => simp [isEnum, isUnion] at hk

theorem Refers.of_isNew (h : k.isNew = true) (n : Nat) : k.Refers n := by
  unfold isNew at h
  split at h
  · exact ⟨fun hf => absurd hf List.not_mem_nil, fun hb => by cases hb⟩
  · exact ⟨fun hf => absurd hf List.not_mem_nil, fun hb => by cases hb⟩
  · exact ⟨fun hf => absurd hf List.not_mem_nil, fun hb => by cases hb⟩
  · exact ⟨fun hf => absurd hf List.not_mem_nil, fun hb => by cases hb⟩
  · cases h

end Kind

namespace Schema

variable {s s' : Schema} {id : TypeId}

theorem Kept.refers (hs : s.Kept) : s.Refers :=
  ⟨hs.indexed.child?_lt, hs.kind _ _, hs.rootType _⟩

theorem kept_empty (name : String) : (empty name).Kept :=
  ⟨indexed_empty name, fun _ _ h => by simp [empty] at h, fun _ h => by simp [empty] at h, .nil⟩

/-- What is not stored twice may change, but for types and files. -/
theorem Kept.congr (hs : s.Kept) (hi : s'.Indexed) (ht : s'.types = s.types)
    (hr : s'.rootType = s.rootType) (hf : s'.files = s.files) : s'.Kept := by
  refine ⟨hi, ?_, ?_, hf ▸ hs.files⟩
  · rw [ht]
    exact hs.kind
  · rw [ht, hr]
    exact hs.rootType

theorem Kept.defineNamespace (hs : s.Kept) (name : String) : (s.defineNamespace name).2.Kept := by
  obtain ⟨ht, hr, hf⟩ := defineNamespace_snd s name
  exact hs.congr (hs.indexed.defineNamespace name) ht hr hf

theorem Kept.declare {t : TypeDecl} (hs : s.Kept) (hhome : t.home < s.namespaces.length)
    (hkind : t.kind.Refers s.types.length) (hnew : s.child? t.home t.name = none) :
    (s.declare t).Kept := by
  have hle : s.types.length ≤ (s.declare t).types.length := by simp [Schema.declare]
  refine ⟨hs.indexed.declare hhome hnew, fun id t' ht' => ?_,
    fun id hid => Nat.lt_of_lt_of_le (hs.rootType id hid) hle, hs.files⟩
  rcases types_declare_iff.1 ht' with hold | ⟨-, rfl⟩
  · exact (hs.kind id t' hold).mono hle
  · exact hkind.mono hle

theorem Kept.updateType {f : TypeDecl → TypeDecl} (hs : s.Kept) (hkey : ∀ t, key (f t) = key t)
    (hkind : ∀ t, s.types[id]? = some t → (f t).kind.Refers s.types.length) :
    (s.updateType id f).Kept := by
  have hr := hs.refers.updateType hkind
  exact ⟨hs.indexed.updateType hkey, fun _ _ => hr.kind, fun _ => hr.rootType, hs.files⟩

theorem Kept.addField {f : Field} (hs : s.Kept)
    (hf : ∀ x, f.type = .declared x → x < s.types.length) (h : s.addField id f = .ok s') :
    s'.Kept := by
  obtain rfl | ⟨t, k, ht, hk, rfl⟩ := addField_eq_ok h
  · exact hs
  · exact hs.updateType (fun _ => rfl) fun _ _ => (hs.kind _ t ht).addField hf hk

theorem Kept.addValue {e : Entry} (hs : s.Kept) (h : s.addValue id e = .ok s') : s'.Kept := by
  obtain rfl | ⟨t, k, ht, hk, rfl⟩ := addValue_eq_ok h
  · exact hs
  · exact hs.updateType (fun _ => rfl) fun _ _ => (hs.kind _ t ht).addValue hk

theorem Kept.markFile (hs : s.Kept) (key : String) : (s.markFile key).Kept := by
  have hi := hs.indexed.markFile key
  unfold Schema.markFile at hi ⊢
  split at hi
  · next hold =>
    rw [if_pos hold]
    exact hs
  · next hnew =>
    rw [if_neg hnew]
    rw [hs.indexed.seen.hasFile_iff] at hnew
    refine ⟨hi, hs.kind, hs.rootType, ?_⟩
    exact List.nodup_append_comm.2 (List.nodup_cons.2 ⟨hnew, hs.files⟩)

/-- One call. -/
theorem Registers.kept (h : s.Registers s') (hs : s.Kept) : s'.Kept := by
  have hi := h.indexed hs.indexed
  cases h with
  | defineNamespace name => exact hs.defineNamespace name
  | addType hns hkind h =>
    obtain ⟨hnew, -, rfl⟩ := addType_eq_ok h
    exact hs.declare hns (.of_isNew hkind _) hnew
  | addField hf h =>
    refine hs.addField (fun x hx => ?_) h
    rw [hx] at hf
    cases hf
  | addValue h => exact hs.addValue h
  | setMetadata id m => exact hs.updateType (fun _ => rfl) fun t ht => hs.kind id t ht
  | setRootName ns name => exact hs.congr hi rfl rfl rfl
  | setFileIdentifier h =>
    obtain rfl := setFileIdentifier_eq_ok h
    exact hs.congr hi rfl rfl rfl
  | setFileExtension text => exact hs.congr hi rfl rfl rfl
  | addAttribute name => exact hs.congr hi rfl rfl rfl
  | markFile key => exact hs.markFile key

theorem Kept.calls (hs : s.Kept) (h : Relation.ReflTransGen Registers s s') : s'.Kept := by
  induction h with
  | refl => exact hs
  | tail _ h ih => exact h.kept ih

theorem Kept.parse (hs : s.Kept) (file text : String) : (s.parse file text).1.Kept :=
  hs.calls (parse_registers hs.indexed file text)

theorem later_resolve (s : Schema) : s.Later idle s.resolve.1 := by
  obtain ⟨root, h⟩ := Resolving.resolveAll_restamps s
  unfold resolve
  cases hrun : Resolving.resolveAll.run s with
  | ok a s' => rw [hrun] at h; exact h.1
  | error e s' => rw [hrun] at h; exact h.1

/-- Resolution replaces references, by others that lead to types. -/
theorem Kept.resolve (hs : s.Kept) : s.resolve.1.Kept := by
  have hl := later_resolve s
  have hr := hs.refers.resolve
  refine ⟨hs.indexed.later hl, fun _ _ => hr.kind, fun _ => hr.rootType, ?_⟩
  rw [hl.rest]
  exact hs.files

/-- One operation. -/
theorem Kept.apply {o : Operation} (hs : s.Kept) (ho : o.Applies s) : (o.apply s).Kept := by
  have hgetD : ∀ r : Except SchemaError Schema, (∀ s', r = .ok s' → s'.Kept) →
      (r.toOption.getD s).Kept := by
    intro r hr
    cases r with
    | ok s' => exact hr s' rfl
    | error e => exact hs
  cases o with
  | defineNamespace name => exact hs.defineNamespace name
  | addType ns name kind =>
    unfold Operation.apply
    dsimp only
    split
    · next h =>
      obtain ⟨hnew, -, rfl⟩ := addType_eq_ok h
      exact hs.declare ho.1 ho.2 hnew
    · exact hs
  | addField id f => exact hgetD _ fun s' h => hs.addField ho h
  | addValue id e => exact hgetD _ fun s' h => hs.addValue h
  | setFileIdentifier text => exact hgetD _ fun s' h => Registers.kept (.setFileIdentifier h) hs
  | setMetadata id m => exact Registers.kept (.setMetadata s id m) hs
  | setRootName ns name => exact Registers.kept (.setRootName s ns name) hs
  | setFileExtension text => exact Registers.kept (.setFileExtension s text) hs
  | addAttribute name => exact Registers.kept (.addAttribute s name) hs
  | markFile key => exact hs.markFile key
  | parse file text => exact hs.parse file text
  | resolve => exact hs.resolve

theorem Reached.kept {handed : List (TypeId × Kind)} (h : s.Reached handed) : s.Kept := by
  induction h with
  | empty name => exact kept_empty name
  | step _ o ho ih => exact ih.apply ho

theorem Reachable.kept (h : s.Reachable) : s.Kept := by
  obtain ⟨handed, h⟩ := h
  exact h.kept

/-- What is kept, said of the maps and lists as they are stored. -/
theorem Kept.consistent (hs : s.Kept) : s.Consistent where
  namespaces := hs.indexed.names
  namespaceIds _ _ := hs.indexed.namespaceId
  listed id t ht := by
    refine ⟨hs.indexed.home id t ht, fun ns n hn => ?_⟩
    have hnodup : (s.listing ns).Nodup := (pairwise_listing s ns).imp Nat.ne_of_lt
    rw [hs.indexed.children_eq hn, hnodup.count]
    refine if_congr (mem_listing.trans ⟨?_, ?_⟩) rfl rfl
    · rintro ⟨t', ht', rfl⟩
      rw [Option.some.inj (ht.symm.trans ht')]
    · rintro rfl
      exact ⟨t, ht, rfl⟩
  children n hn := by
    obtain ⟨ns, hns⟩ := List.mem_iff_getElem?.1 hn
    rw [hs.indexed.children_eq hns]
    refine ⟨pairwise_listing s ns, fun id hid => ?_⟩
    obtain ⟨t, ht, -⟩ := mem_listing.1 hid
    exact (List.getElem?_eq_some_iff.1 ht).1
  byName n hn name id := by
    obtain ⟨ns, hns⟩ := List.mem_iff_getElem?.1 hn
    have hchild : n.byName.get? name = s.child? ns name := by
      rw [Schema.child?, hns]
      rfl
    rw [hs.indexed.children_eq hns, hchild, hs.indexed.child, mem_listing]
    constructor
    · rintro ⟨t, ht, hhome, rfl⟩
      exact ⟨⟨t, ht, hhome⟩, by rw [ht, Option.map_some]⟩
    · rintro ⟨⟨t, ht, hhome⟩, hname⟩
      rw [ht] at hname
      exact ⟨t, ht, hhome, Option.some.inj hname⟩
  declared t ht := by
    obtain ⟨id, hid⟩ := List.mem_iff_getElem?.1 ht
    exact hs.kind id t hid
  rootType := hs.rootType
  files := hs.files
  seenFiles := hs.indexed.seen.hasFile_iff

end Schema

/-! ## Kinds that are handed over -/

namespace Kind

variable {k k' : Kind}

theorem clean_congr (hf : (k'.fields.map (·.name)).Nodup ↔ (k.fields.map (·.name)).Nodup)
    (hv : (k'.values.map (·.name)).Nodup ↔ (k.values.map (·.name)).Nodup)
    (hb : k'.onDeclared = k.onDeclared) : k'.Clean ↔ k.Clean :=
  ⟨fun h => ⟨hf.1 h.fields, hv.1 h.values, hb ▸ h.base⟩,
    fun h => ⟨hf.2 h.fields, hv.2 h.values, hb.trans h.base⟩⟩

/-- A new name clashes with none. -/
theorem nodup_names_append {α : Type} {name : α → String} {xs : List α} {x : α}
    (h : name x ∉ xs.map name) : ((xs ++ [x]).map name).Nodup ↔ (xs.map name).Nodup := by
  rw [List.map_append, List.map_singleton, List.nodup_append_comm, List.singleton_append,
    List.nodup_cons, and_iff_right h]

theorem clean_addField {owner : String} {f : Field} (h : k.addField owner f = .ok k') :
    k'.Clean ↔ k.Clean := by
  obtain ⟨hk, hnew, rfl⟩ := addField_eq_ok_iff.1 h
  cases k with
  | enum b vs d => exact .rfl
  | union vs => exact .rfl
  | table fs => exact clean_congr (nodup_names_append hnew) .rfl rfl
  | struct fs n => exact clean_congr (nodup_names_append hnew) .rfl rfl

theorem clean_addValue {e : Entry} (h : k.addValue e = .ok k') : k'.Clean ↔ k.Clean := by
  obtain ⟨hk, hnew, rfl⟩ := addValue_eq_ok_iff.1 h
  cases k with
  | enum b vs d => exact clean_congr .rfl (nodup_names_append hnew) (by cases b <;> rfl)
  | union vs => exact clean_congr .rfl (nodup_names_append hnew) rfl
  | table fs => exact .rfl
  | struct fs n => exact .rfl

theorem clean_of_isNew (h : k.isNew = true) : k.Clean := by
  unfold isNew at h
  split at h
  · exact ⟨.nil, .nil, rfl⟩
  · exact ⟨.nil, .nil, rfl⟩
  · exact ⟨.nil, .nil, rfl⟩
  · exact ⟨.nil, .nil, rfl⟩
  · cases h

/-- Resolution leaves names alone, and gives no enum a declared type as its base. -/
theorem clean_later (h : k.Later k') : k'.Clean ↔ k.Clean := by
  have hfields : k'.fields.map (·.name) = k.fields.map (·.name) :=
    h.fields.map_eq fun _ _ _ h => h.1.1
  refine clean_congr (by rw [hfields]) ?_ ?_
  · cases h with
    | enum _ hvs => exact iff_of_eq (congrArg _ (names_of_along hvs))
    | union vs => exact .rfl
    | table _ => exact .rfl
    | struct _ => exact .rfl
    | sized fs m => exact .rfl
  · cases h with
    | @enum b b' _ _ _ _ hb _ =>
      rcases hb with ⟨rfl, -⟩ | ⟨hb, p, rfl⟩
      · cases b' <;> rfl
      · obtain ⟨w, rfl⟩ := TypeRef.eq_unresolved hb
        rfl
    | union vs => rfl
    | table _ => rfl
    | struct _ => rfl
    | sized fs m => rfl

end Kind

namespace Schema

variable {s s' : Schema} {id : TypeId} {handed : List (TypeId × Kind)}

/-- The type `id` is clean, if there is one. -/
def CleanAt (s : Schema) (id : TypeId) : Prop :=
  ∀ t, s.types[id]? = some t → t.kind.Clean

theorem cleanAt_congr (h : s'.types[id]? = s.types[id]?) : s'.CleanAt id ↔ s.CleanAt id := by
  rw [CleanAt, CleanAt, h]

theorem cleanAt_declare (t : TypeDecl) (id : TypeId) :
    (s.declare t).CleanAt id ↔ s.CleanAt id ∧ (id = s.types.length → t.kind.Clean) := by
  simp only [CleanAt, types_declare_iff]
  constructor
  · exact fun h => ⟨fun t' ht' => h t' (.inl ht'), fun hid => h t (.inr ⟨hid, rfl⟩)⟩
  · rintro ⟨hold, hnew⟩ t' (ht' | ⟨hid, rfl⟩)
    · exact hold t' ht'
    · exact hnew hid

theorem cleanAt_updateType {f : TypeDecl → TypeDecl} {x : TypeId}
    (hf : ∀ t, s.types[x]? = some t → ((f t).kind.Clean ↔ t.kind.Clean)) (id : TypeId) :
    (s.updateType x f).CleanAt id ↔ s.CleanAt id := by
  unfold CleanAt
  rw [types_updateType]
  split
  · next hx =>
    subst hx
    cases ht : s.types[x]? with
    | none => simp
    | some t => simpa using hf t ht
  · exact .rfl

theorem cleanAt_addField {x : TypeId} {f : Field} (h : s.addField x f = .ok s') (id : TypeId) :
    s'.CleanAt id ↔ s.CleanAt id := by
  obtain rfl | ⟨t, k, ht, hk, rfl⟩ := addField_eq_ok h
  · exact .rfl
  · refine cleanAt_updateType (fun t' ht' => ?_) id
    obtain rfl := Option.some.inj (ht.symm.trans ht')
    exact Kind.clean_addField hk

theorem cleanAt_addValue {x : TypeId} {e : Entry} (h : s.addValue x e = .ok s') (id : TypeId) :
    s'.CleanAt id ↔ s.CleanAt id := by
  obtain rfl | ⟨t, k, ht, hk, rfl⟩ := addValue_eq_ok h
  · exact .rfl
  · refine cleanAt_updateType (fun t' ht' => ?_) id
    obtain rfl := Option.some.inj (ht.symm.trans ht')
    exact Kind.clean_addValue hk

/-- A call with a new kind. -/
theorem Registers.cleanAt (h : s.Registers s') (id : TypeId) : s'.CleanAt id ↔ s.CleanAt id := by
  cases h with
  | defineNamespace name => exact cleanAt_congr (by rw [(defineNamespace_snd s name).1])
  | addType _ hkind h =>
    obtain ⟨-, -, rfl⟩ := addType_eq_ok h
    rw [cleanAt_declare]
    exact and_iff_left fun _ => Kind.clean_of_isNew hkind
  | addField _ h => exact cleanAt_addField h id
  | addValue h => exact cleanAt_addValue h id
  | setMetadata x m => exact cleanAt_updateType (f := fun t => { t with metadata := m }) (fun _ _ => .rfl) id
  | setRootName ns name => exact .rfl
  | setFileIdentifier h =>
    obtain rfl := setFileIdentifier_eq_ok h
    exact .rfl
  | setFileExtension text => exact .rfl
  | addAttribute name => exact .rfl
  | markFile key =>
    unfold Schema.markFile
    split
    · exact .rfl
    · exact .rfl

theorem cleanAt_parse (hs : s.Kept) (file text : String) (id : TypeId) :
    (s.parse file text).1.CleanAt id ↔ s.CleanAt id := by
  have h := parse_registers hs.indexed file text
  generalize (s.parse file text).1 = s' at h
  induction h with
  | refl => exact .rfl
  | tail _ h ih => exact (h.cleanAt id).trans ih

theorem cleanAt_resolve (s : Schema) (id : TypeId) : s.resolve.1.CleanAt id ↔ s.CleanAt id := by
  have hl := later_resolve s
  constructor
  · intro h t ht
    obtain ⟨t', ht', hl⟩ := hl.next ht
    exact (Kind.clean_later hl.kind).1 (h t' ht')
  · intro h t' ht'
    obtain ⟨t, ht, hl⟩ := hl.prev ht'
    exact (Kind.clean_later hl.kind).2 (h t ht)

/-- One operation: a type is clean if it was and if what was handed over for it is. -/
theorem cleanAt_apply {o : Operation} (hs : s.Kept) (id : TypeId) :
    (o.apply s).CleanAt id ↔ s.CleanAt id ∧ ∀ k, (id, k) ∈ o.hands s → k.Clean := by
  have hgetD : ∀ r : Except SchemaError Schema, (∀ s', r = .ok s' → (s'.CleanAt id ↔ s.CleanAt id)) →
      ((r.toOption.getD s).CleanAt id ↔ s.CleanAt id) := by
    intro r hr
    cases r with
    | ok s' => exact hr s' rfl
    | error e => exact .rfl
  -- All but a new type hand over nothing.
  have hplain : ∀ {p : Prop}, (p ↔ s.CleanAt id) →
      (p ↔ s.CleanAt id ∧ ∀ k : Kind, (id, k) ∈ ([] : List (TypeId × Kind)) → k.Clean) :=
    fun h => h.trans (and_iff_left fun _ hk => absurd hk List.not_mem_nil).symm
  cases o with
  | addType ns name kind =>
    unfold Operation.apply Operation.hands
    dsimp only
    split
    · next h =>
      obtain ⟨-, rfl, rfl⟩ := addType_eq_ok h
      rw [cleanAt_declare]
      refine and_congr_right fun _ => ⟨fun hk k hmem => ?_, fun hk hid => hk kind ?_⟩
      · obtain ⟨hid, rfl⟩ := Prod.mk.inj (List.mem_singleton.1 hmem)
        exact hk hid
      · rw [hid]
        exact List.mem_singleton_self _
    · exact hplain .rfl
  | defineNamespace name => exact hplain (Registers.cleanAt (.defineNamespace s name) id)
  | addField x f => exact hplain (hgetD _ fun s' h => cleanAt_addField h id)
  | addValue x e => exact hplain (hgetD _ fun s' h => cleanAt_addValue h id)
  | setFileIdentifier text =>
    exact hplain (hgetD _ fun s' h => Registers.cleanAt (.setFileIdentifier h) id)
  | setMetadata x m => exact hplain (Registers.cleanAt (.setMetadata s x m) id)
  | setRootName ns name => exact hplain .rfl
  | setFileExtension text => exact hplain .rfl
  | addAttribute name => exact hplain .rfl
  | markFile key => exact hplain (Registers.cleanAt (.markFile s key) id)
  | parse file text => exact hplain (cleanAt_parse hs file text id)
  | resolve => exact hplain (cleanAt_resolve s id)

theorem Reached.cleanAt_iff (h : s.Reached handed) (id : TypeId) :
    s.CleanAt id ↔ ∀ k, (id, k) ∈ handed → k.Clean := by
  induction h with
  | empty name => simp [CleanAt, Schema.empty]
  | step hs o ho ih =>
    rw [cleanAt_apply hs.kept, ih]
    simp only [List.mem_append, or_imp, forall_and]

/-! ## Top theorem -/

/-- Every reachable schema is consistent; a type is clean exactly if the kind it was added with is, and
always if it was read from a file. -/
theorem Reached.consistent_and_clean_iff (h : s.Reached handed) :
    s.Consistent ∧ ∀ (id : TypeId) t, s.types[id]? = some t →
      (t.kind.Clean ↔ ∀ k, (id, k) ∈ handed → k.Clean) := by
  refine ⟨h.kept.consistent, fun id t ht => ?_⟩
  rw [← h.cleanAt_iff, CleanAt, ht]
  simp

/-- What is left of a file that breaks off at the second `A`, with one more field. -/
def broken : Schema :=
  Operation.apply ((empty "broken").parse "broken.fbs"
      "enum E : byte \x7b P \x7d table A \x7b x : Lost; \x7d table A \x7b \x7d").1
    (.addField 1 ⟨"e", .declared 0, false, none, none, none⟩)

/-- A table with two fields of a name. -/
def twins : Kind :=
  .table [.declare "f" ⟨"byte", false⟩ none none, .declare "f" ⟨"byte", false⟩ none none]

theorem not_nodup_twins : ¬ (twins.fields.map (·.name)).Nodup := by
  decide

def brokenTwins : Schema :=
  Operation.apply broken (.addType 0 "B" twins)

theorem reached_brokenTwins : brokenTwins.Reached [(2, twins)] := by
  have hbroken : broken.Reached [] :=
    .step (.step (.empty "broken") (.parse _ _) trivial) _ fun _ h => by cases h; decide +kernel
  have hadd : Operation.Applies broken (.addType 0 "B" twins) := by
    refine ⟨by decide +kernel, fun {f id} hf hid => ?_, fun hb => by cases hb⟩
    simp [twins, Kind.fields] at hf
    simp [hf, Field.declare] at hid
  have hhands : Operation.hands broken (.addType 0 "B" twins) = [(2, twins)] := by decide +kernel
  have hreached := hbroken.step _ hadd
  rwa [hhands] at hreached

/-- Resolution fails at the file's own table, before it comes to the twins. -/
theorem consistent_resolve_broken :
    brokenTwins.resolve.2 = some (.unresolvedType "Lost") ∧
      brokenTwins.resolve.1.Reached [(2, twins)] ∧ brokenTwins.resolve.1.Consistent ∧
      ∀ (id : TypeId) t, brokenTwins.resolve.1.types[id]? = some t → (t.kind.Clean ↔ id ≠ 2) := by
  have hreached : brokenTwins.resolve.1.Reached [(2, twins)] := reached_brokenTwins.step .resolve trivial
  have hnot : ¬ twins.Clean := fun h => not_nodup_twins h.fields
  obtain ⟨hconsistent, hclean⟩ := hreached.consistent_and_clean_iff
  refine ⟨by decide +kernel, hreached, hconsistent, fun id t ht => ?_⟩
  rw [hclean id t ht]
  simp [hnot]

/-- The twins are taken as they are. -/
theorem reachable_brokenTwins : brokenTwins.Reachable ∧
    ∃ t ∈ brokenTwins.types, ¬ (t.kind.fields.map (·.name)).Nodup := by
  have hlast : brokenTwins.types[2]?.map (·.kind) = some twins := by decide +kernel
  obtain ⟨t, ht, hkind⟩ := Option.map_eq_some_iff.1 hlast
  exact ⟨⟨_, reached_brokenTwins⟩, t, List.mem_of_getElem? ht, hkind ▸ not_nodup_twins⟩

end Schema

end FlatSchema
