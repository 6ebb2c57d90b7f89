import FlatSchema.Schema.Registry
import FlatSchema.Proofs.Resolution.Later

/-!
# What is stored twice stays in step

The types of a namespace stand in its list and in its map, and each type names its namespace; the names of
namespaces and the files that were read stand in a list and in a map.  `Indexed` says that both sides agree.
Every operation updates both sides in the same step, so that they still agree after it.
-/

namespace FlatSchema.Schema

/-- The ids of the types that name a namespace, in order. -/
def listing (s : Schema) (ns : NamespaceId) : List TypeId :=
  (List.range s.types.length).filter fun id => s.types[id]?.any (·.home = ns)

/-- The files that were read are those that are seen. -/
def Seen (s : Schema) : Prop :=
  s.seenFiles.names = s.files

/-- What is stored twice agrees, and every type names a namespace. -/
structure Indexed (s : Schema) : Prop where
  namespaceId : ∀ {name ns}, s.namespaceId? name = some ns ↔ s.namespaces[ns]?.map (·.name) = some name
  home : ∀ (id : TypeId) t, s.types[id]? = some t → t.home < s.namespaces.length
  children : ∀ ns, s.children ns = s.listing ns
  child : ∀ {ns name id}, s.child? ns name = some id ↔
    ∃ t, s.types[id]? = some t ∧ t.home = ns ∧ t.name = name
  seen : s.Seen

variable {s s' : Schema} {ns : NamespaceId} {name : String} {id : TypeId}

/-! ## Listings -/

theorem mem_listing : id ∈ s.listing ns ↔ ∃ t, s.types[id]? = some t ∧ t.home = ns := by
  unfold listing
  rw [List.mem_filter, List.mem_range]
  constructor
  · rintro ⟨-, h⟩
    obtain ⟨t, ht, hns⟩ := (Option.any_eq_true _ _).1 h
    exact ⟨t, ht, of_decide_eq_true hns⟩
  · rintro ⟨t, ht, rfl⟩
    exact ⟨(List.getElem?_eq_some_iff.1 ht).1, by simp [ht]⟩

theorem pairwise_listing (s : Schema) (ns : NamespaceId) : (s.listing ns).Pairwise (· < ·) :=
  List.pairwise_lt_range.filter _

/-- A listing depends on the namespaces that types name. -/
theorem listing_congr (h : s'.types.map key = s.types.map key) (ns : NamespaceId) :
    s'.listing ns = s.listing ns := by
  have hkeys (s : Schema) : s.listing ns =
      (List.range (s.types.map key).length).filter fun id => (s.types.map key)[id]?.any (·.1 = ns) := by
    simp only [listing, List.length_map, List.getElem?_map, Option.any_map]
    rfl
  rw [hkeys, hkeys, h]

/-- A type more is listed last, in the namespace that it names. -/
theorem listing_append {t : TypeDecl} (h : s'.types = s.types ++ [t]) (ns : NamespaceId) :
    s'.listing ns = s.listing ns ++ if t.home = ns then [s.types.length] else [] := by
  have hold : (List.range s.types.length).filter (fun id => s'.types[id]?.any (·.home = ns)) =
      s.listing ns := by
    refine List.filter_congr fun id hid => ?_
    rw [h, List.getElem?_append_left (List.mem_range.1 hid)]
  rw [listing, h, List.length_append, List.length_singleton, List.range_succ, List.filter_append, ← h, hold]
  congr 1
  by_cases hns : t.home = ns <;> simp [h, hns]

/-! ## Lookups -/

/-- Elements that are found by `f` are told apart by it. -/
theorem nodup_of_find {α β : Type} {xs : List α} {f : α → β} {g : β → Option Nat}
    (h : ∀ i b, xs[i]?.map f = some b → g b = some i) : (xs.map f).Nodup := by
  refine List.pairwise_iff_getElem.2 fun i j hi hj hij heq => ?_
  rw [List.length_map] at hi hj
  rw [List.getElem_map, List.getElem_map] at heq
  have hi' := h i (f xs[i]) (by rw [List.getElem?_eq_getElem hi, Option.map_some])
  have hj' := h j (f xs[j]) (by rw [List.getElem?_eq_getElem hj, Option.map_some])
  rw [heq, hj'] at hi'
  cases hi'
  exact Nat.lt_irrefl _ hij

theorem Seen.hasFile_iff (h : s.Seen) (key : String) : s.hasFile key = true ↔ key ∈ s.files := by
  rw [Schema.hasFile, NameMap.contains_iff, h]

namespace Indexed

theorem children_eq {n : Namespace} (h : s.Indexed) (hn : s.namespaces[ns]? = some n) :
    n.children = s.listing ns := by
  rw [← h.children, Schema.children, hn]
  rfl

theorem nodup_children (h : s.Indexed) (ns : NamespaceId) : (s.children ns).Nodup := by
  rw [h.children]
  exact (pairwise_listing s ns).imp Nat.ne_of_lt

theorem mem_children (h : s.Indexed) : id ∈ s.children ns ↔ ∃ t, s.types[id]? = some t ∧ t.home = ns := by
  rw [h.children, mem_listing]

theorem namespaceId_lt (h : s.Indexed) (hns : s.namespaceId? name = some ns) :
    ns < s.namespaces.length := by
  obtain ⟨n, hn, -⟩ := Option.map_eq_some_iff.1 (h.namespaceId.1 hns)
  exact (List.getElem?_eq_some_iff.1 hn).1

theorem child?_lt (h : s.Indexed) (hid : s.child? ns name = some id) : id < s.types.length := by
  obtain ⟨t, ht, -⟩ := h.child.1 hid
  exact (List.getElem?_eq_some_iff.1 ht).1

theorem names (h : s.Indexed) : (s.namespaces.map (·.name)).Nodup :=
  nodup_of_find fun _ _ hns => h.namespaceId.2 hns

/-- Two types of one namespace have two names. -/
theorem keys (h : s.Indexed) : (s.types.map key).Nodup := by
  refine nodup_of_find (g := fun k => s.child? k.1 k.2) fun id k hk => ?_
  obtain ⟨t, ht, rfl⟩ := Option.map_eq_some_iff.1 hk
  exact h.child.2 ⟨t, ht, rfl, rfl⟩

end Indexed

/-! ## Operations -/

theorem Seen.markFile (h : s.Seen) (file : String) : (s.markFile file).Seen := by
  unfold Schema.markFile
  split
  · exact h
  · next hnew =>
    rw [Bool.not_eq_true] at hnew
    show (s.seenFiles.insert file ()).names = s.files ++ [file]
    rw [NameMap.names_insert hnew, h]

/-- A change that leaves the name of a namespace. -/
theorem names_modify {xs : List Namespace} {g : Namespace → Namespace} (hg : ∀ n, (g n).name = n.name)
    (ns : NamespaceId) : (xs.modify ns g).map (·.name) = xs.map (·.name) := by
  refine List.ext_getElem? fun i => ?_
  rw [List.getElem?_map, List.getElem?_map, List.getElem?_modify]
  cases xs[i]? with
  | none => rfl
  | some n => by_cases hi : ns = i <;> simp [hi, hg]

theorem names_setRootName (s : Schema) (ns : NamespaceId) (name : String) :
    (s.setRootName ns name).namespaces.map (·.name) = s.namespaces.map (·.name) :=
  names_modify (g := fun n => { n with rootName := some name }) (fun _ => rfl) ns

theorem names_declare (s : Schema) (t : TypeDecl) :
    (s.declare t).namespaces.map (·.name) = s.namespaces.map (·.name) :=
  names_modify (g := (·.list t.name s.types.length)) (fun _ => rfl) t.home

theorem indexed_empty (name : String) : (empty name).Indexed where
  namespaceId := by simp [namespaceId?, empty]
  home := by simp [empty]
  children ns := by simp [children, listing, empty]
  child := by simp [child?, empty]
  seen := rfl

namespace Indexed

/-- Only what is stored twice matters. -/
theorem congr (h : s.Indexed) (hnames : s'.namespaces.map (·.name) = s.namespaces.map (·.name))
    (hids : s'.namespaceIds = s.namespaceIds) (hchildren : s'.children = s.children)
    (hchild : s'.child? = s.child?) (hkeys : s'.types.map key = s.types.map key)
    (hfiles : s'.files = s.files) (hseen : s'.seenFiles = s.seenFiles) : s'.Indexed where
  namespaceId := by
    intro name ns
    rw [namespaceId?, hids, ← List.getElem?_map, hnames, List.getElem?_map]
    exact h.namespaceId
  home id t ht := by
    have hlength : s'.namespaces.length = s.namespaces.length := by
      simpa using congrArg List.length hnames
    have hkey : (s.types.map key)[id]? = some (key t) := by rw [← hkeys, List.getElem?_map, ht]; rfl
    obtain ⟨t', ht', heq⟩ := Option.map_eq_some_iff.1 ((List.getElem?_map ..).symm.trans hkey)
    rw [hlength, show t.home = t'.home from (congrArg Prod.fst heq).symm]
    exact h.home id t' ht'
  children ns := by rw [hchildren, listing_congr hkeys, h.children]
  child := by
    intro ns name id
    have hiff (s : Schema) : (∃ t, s.types[id]? = some t ∧ t.home = ns ∧ t.name = name) ↔
        (s.types.map key)[id]? = some (ns, name) := by
      rw [List.getElem?_map, Option.map_eq_some_iff]
      simp only [key, Prod.mk.injEq]
    rw [hchild, hiff, hkeys, ← hiff]
    exact h.child
  seen := by rw [Seen, hseen, hfiles, h.seen]

/-- A namespace is found by its name, or added under a name that is new. -/
theorem defineNamespace_cases (h : s.Indexed) (name : String) :
    (∃ ns, s.namespaces[ns]?.map (·.name) = some name ∧ s.defineNamespace name = (ns, s)) ∨
      name ∉ s.namespaces.map (·.name) ∧ s.defineNamespace name = (s.namespaces.length,
        { s with
          namespaces := s.namespaces ++ [.new name]
          namespaceIds := s.namespaceIds.insert name s.namespaces.length }) := by
  unfold Schema.defineNamespace
  cases hname : s.namespaceId? name with
  | some ns => exact .inl ⟨ns, h.namespaceId.1 hname, rfl⟩
  | none =>
    refine .inr ⟨fun hmem => ?_, rfl⟩
    obtain ⟨ns, hns⟩ := List.mem_iff_getElem?.1 hmem
    rw [List.getElem?_map] at hns
    rw [h.namespaceId.2 hns] at hname
    cases hname

theorem defineNamespace (h : s.Indexed) (name : String) : (s.defineNamespace name).2.Indexed := by
  rcases h.defineNamespace_cases name with ⟨ns, -, heq⟩ | ⟨hname, heq⟩
  · rw [heq]
    exact h
  · rw [heq]
    have hnew : ∀ ns : NamespaceId, s.namespaces[ns]?.map (·.name) ≠ some name := by
      intro ns hns
      rw [← List.getElem?_map] at hns
      exact hname (List.mem_of_getElem? hns)
    have hget (ns : NamespaceId) : (s.namespaces ++ [Namespace.new name])[ns]? =
        if ns = s.namespaces.length then some (.new name) else s.namespaces[ns]? := by
      rcases Nat.lt_trichotomy ns s.namespaces.length with hlt | heq | hgt
      · rw [List.getElem?_append_left hlt, if_neg (Nat.ne_of_lt hlt)]
      · rw [if_pos heq, heq, List.getElem?_concat_length]
      · rw [if_neg (Nat.ne_of_gt hgt), List.getElem?_eq_none (by rw [List.length_append]; exact hgt),
          List.getElem?_eq_none (Nat.le_of_lt hgt)]
    have hend : s.namespaces[s.namespaces.length]? = none := List.getElem?_eq_none (Nat.le_refl _)
    constructor
    · intro name' ns
      rw [hget]
      show (s.namespaceIds.insert name s.namespaces.length).get? name' = some ns ↔ _
      rw [NameMap.get?_insert]
      by_cases heq : name' = name
      · subst heq
        rw [if_pos rfl, Option.some.injEq]
        by_cases hns : ns = s.namespaces.length
        · simp [hns, Namespace.new]
        · rw [if_neg hns]
          exact iff_of_false (Ne.symm hns) (hnew ns)
      · rw [if_neg heq]
        by_cases hns : ns = s.namespaces.length
        · subst hns
          refine iff_of_false (fun hid => ?_) (by simpa [Namespace.new] using Ne.symm heq)
          exact Nat.lt_irrefl _ (h.namespaceId_lt hid)
        · rw [if_neg hns]
          exact h.namespaceId
    · intro id t ht
      exact Nat.lt_of_lt_of_le (h.home id t ht) (by simp)
    · intro ns
      show ((s.namespaces ++ [Namespace.new name])[ns]?.map (·.children)).getD [] = s.listing ns
      rw [hget, ← h.children, Schema.children]
      by_cases hns : ns = s.namespaces.length
      · simp [hns, Namespace.new]
      · rw [if_neg hns]
    · intro ns name' id
      show (s.namespaces ++ [Namespace.new name])[ns]?.bind (·.byName.get? name') = some id ↔ _
      rw [hget]
      by_cases hns : ns = s.namespaces.length
      · rw [← h.child, Schema.child?]
        simp [hns, Namespace.new]
      · rw [if_neg hns]
        exact h.child
    · exact h.seen

end Indexed

theorem namespaces_declare (s : Schema) (t : TypeDecl) (ns : NamespaceId) :
    (s.declare t).namespaces[ns]? =
      s.namespaces[ns]?.map fun n => if t.home = ns then n.list t.name s.types.length else n := by
  rw [declare, List.getElem?_modify]
  by_cases hns : t.home = ns <;> simp [hns]

theorem types_declare_iff {t t' : TypeDecl} :
    (s.declare t).types[id]? = some t' ↔ s.types[id]? = some t' ∨ id = s.types.length ∧ t = t' := by
  show (s.types ++ [t])[id]? = some t' ↔ _
  rcases Nat.lt_trichotomy id s.types.length with hlt | rfl | hgt
  · rw [List.getElem?_append_left hlt]
    exact ⟨.inl, fun h => h.resolve_right fun h' => Nat.ne_of_lt hlt h'.1⟩
  · simp
  · rw [List.getElem?_eq_none (by rw [List.length_append]; exact hgt),
      List.getElem?_eq_none (Nat.le_of_lt hgt)]
    exact iff_of_false nofun fun h => h.elim nofun fun h' => Nat.ne_of_gt hgt h'.1

namespace Indexed

/-- A type with a new name is listed in the namespace that it names. -/
theorem declare {t : TypeDecl} (h : s.Indexed) (hhome : t.home < s.namespaces.length)
    (hnew : s.child? t.home t.name = none) : (s.declare t).Indexed where
  namespaceId := by
    intro name ns
    rw [← List.getElem?_map, names_declare, List.getElem?_map]
    exact h.namespaceId
  home id t' ht' := by
    have hlength : (s.declare t).namespaces.length = s.namespaces.length := List.length_modify ..
    rw [hlength]
    rcases types_declare_iff.1 ht' with hold | ⟨-, rfl⟩
    · exact h.home id t' hold
    · exact hhome
  children ns := by
    rw [listing_append (s := s) (t := t) rfl, ← h.children, Schema.children, namespaces_declare,
      Schema.children]
    by_cases hns : t.home = ns
    · subst hns
      rw [List.getElem?_eq_getElem hhome]
      simp [Namespace.list]
    · simp [hns]
  child := by
    intro ns name id
    simp only [types_declare_iff, or_and_right, exists_or, ← h.child]
    rw [Schema.child?, namespaces_declare]
    by_cases hns : t.home = ns
    · subst hns
      obtain ⟨n, hn⟩ : ∃ n, s.namespaces[t.home]? = some n := ⟨_, List.getElem?_eq_getElem hhome⟩
      rw [Schema.child?, hn] at hnew ⊢
      rw [Option.map_some, if_pos rfl, Option.bind_some, Namespace.list, NameMap.get?_insert]
      by_cases hname : name = t.name
      · subst hname
        have hnone : n.byName.get? t.name = none := hnew
        rw [if_pos rfl, Option.bind_some, hnone, Option.some.injEq]
        refine ⟨fun hid => .inr ⟨t, ⟨hid.symm, rfl⟩, rfl, rfl⟩, ?_⟩
        rintro (hold | ⟨t', ⟨hid, -⟩, -⟩)
        · cases hold
        · exact hid.symm
      · rw [if_neg hname]
        simp [Ne.symm hname]
    · have hold : (s.namespaces[ns]?.map fun n =>
          if t.home = ns then n.list t.name s.types.length else n) = s.namespaces[ns]? := by
        simp [hns]
      rw [hold, ← Schema.child?]
      simp [hns]
  seen := h.seen

theorem setRootName (h : s.Indexed) (ns : NamespaceId) (name : String) :
    (s.setRootName ns name).Indexed := by
  have hget (i : NamespaceId) : (s.setRootName ns name).namespaces[i]? =
      s.namespaces[i]?.map fun n => if ns = i then { n with rootName := some name } else n := by
    rw [Schema.setRootName, List.getElem?_modify]
    by_cases hi : ns = i <;> simp [hi]
  have hsame {α : Type} (f : Namespace → α) (hf : ∀ n, f { n with rootName := some name } = f n)
      (i : NamespaceId) : (s.setRootName ns name).namespaces[i]?.map f = s.namespaces[i]?.map f := by
    rw [hget, Option.map_map]
    congr 1
    funext n
    by_cases hi : ns = i
    · simp [hi, hf]
    · simp [hi]
  refine h.congr (names_setRootName s ns name) rfl (funext fun i => ?_)
    (funext fun i => funext fun n => ?_) rfl rfl rfl
  · rw [Schema.children, Schema.children, hsame _ fun _ => rfl]
  · have hchild (s : Schema) : s.child? i n = (s.namespaces[i]?.map (·.byName)).bind (·.get? n) := by
      rw [Schema.child?, Option.bind_map]
      rfl
    rw [hchild, hchild, hsame _ fun _ => rfl]

theorem updateType {f : TypeDecl → TypeDecl} (h : s.Indexed) (hkey : ∀ t, key (f t) = key t) :
    (s.updateType id f).Indexed := by
  refine h.congr rfl rfl rfl rfl ?_ rfl rfl
  refine List.ext_getElem? fun j => ?_
  rw [List.getElem?_map, List.getElem?_map, Schema.updateType, List.getElem?_modify]
  cases s.types[j]? with
  | none => simp
  | some t => by_cases hj : id = j <;> simp [hj, hkey]

theorem markFile (h : s.Indexed) (file : String) : (s.markFile file).Indexed := by
  have hseen := h.seen.markFile file
  unfold Schema.markFile at hseen ⊢
  split at hseen
  · next hold =>
    rw [if_pos hold]
    exact h
  · next hnew =>
    rw [if_neg hnew]
    exact ⟨h.namespaceId, h.home, h.children, h.child, hseen⟩

theorem later {busy : TypeId → Prop} (h : s.Indexed) (hl : Later busy s s') : s'.Indexed := by
  refine h.congr (by rw [hl.namespaces]) hl.namespaceIds (funext hl.children) ?_ hl.keys ?_ ?_
  · funext ns name
    rw [Schema.child?, Schema.child?, hl.namespaces]
  · rw [hl.rest]
  · rw [hl.rest]

end Indexed

end FlatSchema.Schema
