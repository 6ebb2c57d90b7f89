import FlatSchema.Proofs.Consistency
import FlatSchema.Proofs.Grammar.Document

/-!
# Names that a schema takes in

Namespaces are found by their names, and types by the name of their namespace and their own
(`Kept.child?_eq_none_iff`).  Entering a namespace changes no type and no root type
(`Kept.typeNames_defineNamespace`, `Kept.rootOf?_defineNamespace`).  Gains compose along declarations
(`Gains.cons`).
-/

namespace FlatSchema

/-! ## Names of namespaces -/

namespace Schema

variable {s s' : Schema} {ns : NamespaceId} {space name : String}

theorem namespaceName_eq (hns : s.namespaces[ns]?.map (·.name) = some space) :
    s.namespaceName ns = space := by
  rw [namespaceName, hns]
  rfl

theorem map_name_eq (hns : ns < s.namespaces.length) :
    s.namespaces[ns]?.map (·.name) = some (s.namespaceName ns) := by
  rw [namespaceName, List.getElem?_eq_getElem hns]
  rfl

theorem Kept.namespaceName_eq_iff (hs : s.Kept) (hns : s.namespaces[ns]?.map (·.name) = some space)
    {home : NamespaceId} (hhome : home < s.namespaces.length) :
    s.namespaceName home = space ↔ home = ns := by
  constructor
  · intro hname
    have hget : s.namespaces[home]?.map (·.name) = some space := by
      rw [← hname]
      exact map_name_eq hhome
    exact Option.some.inj ((hs.indexed.namespaceId.2 hget).symm.trans
      (hs.indexed.namespaceId.2 hns))
  · rintro rfl
    exact namespaceName_eq hns

/-- A name is free in a namespace if no type has it there. -/
theorem Kept.child?_eq_none_iff (hs : s.Kept) (hns : s.namespaces[ns]?.map (·.name) = some space) :
    s.child? ns name = none ↔ (space, name) ∉ s.typeNames := by
  constructor
  · intro hfree hmem
    obtain ⟨t, ht, hpair⟩ := List.mem_map.1 hmem
    obtain ⟨hspace, hname⟩ := Prod.mk.inj hpair
    obtain ⟨id, hid⟩ := List.mem_iff_getElem?.1 ht
    have hhome := (hs.namespaceName_eq_iff hns (hs.indexed.home id t hid)).1 hspace
    rw [hs.indexed.child.2 ⟨t, hid, hhome, hname⟩] at hfree
    cases hfree
  · intro hfree
    cases hchild : s.child? ns name with
    | none => rfl
    | some id =>
      obtain ⟨t, ht, rfl, rfl⟩ := hs.indexed.child.1 hchild
      exact absurd (List.mem_map.2 ⟨t, List.mem_of_getElem? ht, by rw [namespaceName_eq hns]⟩) hfree

/-- Namespaces that are added leave the others in their places. -/
theorem map_name_mono (hn : s.namespaces.map (·.name) <+: s'.namespaces.map (·.name))
    (hns : s.namespaces[ns]?.map (·.name) = some space) :
    s'.namespaces[ns]?.map (·.name) = some space := by
  obtain ⟨added, hadded⟩ := hn
  rw [← List.getElem?_map] at hns ⊢
  rw [← hadded, List.getElem?_append_left (List.getElem?_eq_some_iff.1 hns).1]
  exact hns

theorem Kept.typeNames_congr (hs : s.Kept) (ht : s'.types = s.types)
    (hn : s.namespaces.map (·.name) <+: s'.namespaces.map (·.name)) :
    s'.typeNames = s.typeNames := by
  unfold typeNames
  rw [ht]
  refine List.map_congr_left fun t hmem => ?_
  obtain ⟨id, hid⟩ := List.mem_iff_getElem?.1 hmem
  rw [namespaceName_eq (map_name_mono hn (map_name_eq (hs.indexed.home id t hid)))]

/-- Types are told apart by the name of their namespace and their own. -/
theorem Kept.nodup_typeNames (hs : s.Kept) : s.typeNames.Nodup := by
  have hkeys := List.pairwise_map.1 hs.indexed.keys
  refine List.pairwise_map.2 (hkeys.imp_of_mem fun {t t'} ht ht' hne heq => hne ?_)
  obtain ⟨id, hid⟩ := List.mem_iff_getElem?.1 ht
  obtain ⟨id', hid'⟩ := List.mem_iff_getElem?.1 ht'
  obtain ⟨hspace, hname⟩ := Prod.mk.inj heq
  have hhome := hs.namespaceName_eq_iff (map_name_eq (hs.indexed.home id' t' hid')) (hs.indexed.home id t hid)
  exact Prod.ext (hhome.1 hspace) hname

theorem admits_congr {space' : String} {ds ds' : List Declaration}
    (hnames : s'.typeNames = s.typeNames)
    (htypes : Declaration.types space' ds' = Declaration.types space ds)
    (hidentifiers : Declaration.fileIdentifiers ds' = Declaration.fileIdentifiers ds) :
    s'.Admits space' ds' ↔ s.Admits space ds := by
  constructor
  · rintro ⟨ht, hm, hb, hi⟩
    rw [hnames, htypes] at ht
    rw [htypes] at hm hb
    rw [hidentifiers] at hi
    exact ⟨ht, hm, hb, hi⟩
  · rintro ⟨ht, hm, hb, hi⟩
    rw [← hnames, ← htypes] at ht
    rw [← htypes] at hm hb
    rw [← hidentifiers] at hi
    exact ⟨ht, hm, hb, hi⟩

theorem Kept.typeNames_defineNamespace (hs : s.Kept) (name : String) :
    (s.defineNamespace name).2.typeNames = s.typeNames := by
  rcases hs.indexed.defineNamespace_cases name with ⟨ns, -, h⟩ | ⟨-, h⟩
  · rw [h]
  · rw [h]
    refine hs.typeNames_congr rfl ?_
    rw [List.map_append]
    exact List.prefix_append _ _

/-! ## Root types by namespace -/

theorem Kept.rootOf?_eq (hs : s.Kept) (hns : s.namespaces[ns]?.map (·.name) = some space) :
    s.rootOf? space = s.namespaces[ns]?.bind (·.rootName) := by
  rw [rootOf?, hs.indexed.namespaceId.2 hns]
  rfl

theorem Kept.rootOf?_eq_none (hs : s.Kept) (hname : name ∉ s.namespaces.map (·.name)) :
    s.rootOf? name = none := by
  cases hns : s.namespaceId? name with
  | none =>
    rw [rootOf?, hns]
    rfl
  | some ns =>
    have hget := hs.indexed.namespaceId.1 hns
    rw [← List.getElem?_map] at hget
    exact absurd (List.mem_of_getElem? hget) hname

theorem exists_of_mem_names (hname : name ∈ s.namespaces.map (·.name)) :
    ∃ ns : NamespaceId, s.namespaces[ns]?.map (·.name) = some name := by
  obtain ⟨ns, hns⟩ := List.mem_iff_getElem?.1 hname
  exact ⟨ns, by rw [← List.getElem?_map]; exact hns⟩

theorem Kept.rootOf?_setRootName (hs : s.Kept) (hns : s.namespaces[ns]?.map (·.name) = some space)
    (root : String) : (s.setRootName ns root).rootOf? name =
      if space = name then some root else s.rootOf? name := by
  have hs' : (s.setRootName ns root).Kept := Registers.kept (.setRootName s ns root) hs
  have hnames := names_setRootName s ns root
  by_cases hname : name ∈ s.namespaces.map (·.name)
  · obtain ⟨i, hi⟩ := exists_of_mem_names hname
    have hi' : (s.setRootName ns root).namespaces[i]?.map (·.name) = some name := by
      rw [← List.getElem?_map, hnames, List.getElem?_map]
      exact hi
    rw [hs'.rootOf?_eq hi', hs.rootOf?_eq hi]
    unfold setRootName
    dsimp only
    rw [List.getElem?_modify]
    by_cases hsame : ns = i
    · subst hsame
      obtain rfl := Option.some.inj (hns.symm.trans hi)
      obtain ⟨n, hn, -⟩ := Option.map_eq_some_iff.1 hi
      simp [hn]
    · have hne : space ≠ name := by
        rintro rfl
        exact hsame (Option.some.inj ((hs.indexed.namespaceId.2 hns).symm.trans
          (hs.indexed.namespaceId.2 hi)))
      simp [hsame, hne]
  · rw [hs.rootOf?_eq_none hname, hs'.rootOf?_eq_none (by rw [hnames]; exact hname), if_neg]
    rintro rfl
    rw [← List.getElem?_map] at hns
    exact hname (List.mem_of_getElem? hns)

theorem rootOf?_declare (s : Schema) (t : TypeDecl) (name : String) :
    (s.declare t).rootOf? name = s.rootOf? name := by
  have hroot : ∀ ns : NamespaceId, (s.declare t).namespaces[ns]?.bind (·.rootName) =
      s.namespaces[ns]?.bind (·.rootName) := by
    intro ns
    rw [namespaces_declare, Option.bind_map]
    congr 1
    funext n
    by_cases hns : t.home = ns <;> simp [hns, Namespace.list]
  simp only [rootOf?, hroot]
  rfl

/-- A new namespace has no root type. -/
theorem Kept.rootOf?_defineNamespace (hs : s.Kept) (space : String) :
    (s.defineNamespace space).2.rootOf? name = s.rootOf? name := by
  have hs' := hs.defineNamespace space
  rcases hs.indexed.defineNamespace_cases space with ⟨ns, -, h⟩ | ⟨hnew, h⟩
  · rw [h]
  · rw [h] at hs' ⊢
    by_cases hname : name ∈ s.namespaces.map (·.name)
    · obtain ⟨i, hi⟩ := exists_of_mem_names hname
      obtain ⟨n, hn, -⟩ := Option.map_eq_some_iff.1 hi
      have hlt := (List.getElem?_eq_some_iff.1 hn).1
      have hsame : (s.namespaces ++ [.new space])[i]? = s.namespaces[i]? :=
        List.getElem?_append_left hlt
      have hi' : (s.namespaces ++ [.new space])[i]?.map (·.name) = some name := by
        rw [hsame]
        exact hi
      rw [hs'.rootOf?_eq hi', hs.rootOf?_eq hi, hsame]
    · rw [hs.rootOf?_eq_none hname]
      by_cases hspace : space = name
      · subst hspace
        have hlast : (s.namespaces ++ [.new space])[s.namespaces.length]?.map (·.name) =
            some space := by simp [Namespace.new]
        rw [hs'.rootOf?_eq hlast]
        simp [Namespace.new]
      · refine hs'.rootOf?_eq_none ?_
        simpa [Namespace.new, Ne.symm hspace] using hname

theorem names_defineNamespace (hs : s.Kept) (space : String) :
    (s.defineNamespace space).2.namespaces.map (·.name) =
      (s.namespaces.map (·.name) ++ [space]).eraseDups := by
  rw [eraseDups_append_singleton, eraseDups_eq_self hs.indexed.names]
  rcases hs.indexed.defineNamespace_cases space with ⟨ns, hns, h⟩ | ⟨hnew, h⟩
  · rw [← List.getElem?_map] at hns
    rw [h, if_pos (List.mem_of_getElem? hns)]
  · rw [h, if_neg hnew, List.map_append]
    rfl

/-! ## Gains compose -/

theorem Stores.mono {p : String × WrittenType} {t : TypeDecl} (h : s.Stores p t)
    (hn : s.namespaces.map (·.name) <+: s'.namespaces.map (·.name)) : s'.Stores p t :=
  ⟨map_name_mono hn h.home, h.name, h.metadata, h.kind⟩

theorem Kept.gains_nil (hs : s.Kept) (space : String) : s.Gains space [] s where
  types := ⟨[], (List.append_nil _).symm, .nil⟩
  namespaces := by
    show s.namespaces.map (·.name) = (s.namespaces.map Namespace.name ++ []).eraseDups
    rw [List.append_nil, eraseDups_eq_self hs.indexed.names]
  roots _ := rfl
  fileIdentifier := rfl
  fileExtension := rfl
  attributes := (List.append_nil _).symm
  rest := ⟨rfl, rfl, rfl⟩

/-- The gains of one declaration, and then those of the others. -/
theorem Gains.cons {s₁ : Schema} {d : Declaration} {ds : List Declaration}
    (h : s.Gains space [d] s₁) (h' : s₁.Gains (d.leaves space) ds s') :
    s.Gains space (d :: ds) s' := by
  have htypes : Declaration.types space (d :: ds) =
      Declaration.types space [d] ++ Declaration.types (d.leaves space) ds := by
    cases d <;> rfl
  have hroots : Declaration.roots space (d :: ds) =
      Declaration.roots space [d] ++ Declaration.roots (d.leaves space) ds := by
    cases d <;> rfl
  have hplain : ∀ {β : Type} (f : Declaration → Option β),
      (d :: ds).filterMap f = [d].filterMap f ++ ds.filterMap f :=
    fun f => List.filterMap_append (l := [d])
  have hprefix : s₁.namespaces.map (·.name) <+: s'.namespaces.map (·.name) := by
    have hnodup : (s₁.namespaces.map (·.name)).Nodup := by
      rw [h.namespaces]
      exact nodup_eraseDups _
    rw [h'.namespaces, List.eraseDups_append, eraseDups_eq_self hnodup]
    exact List.prefix_append _ _
  refine ⟨?_, ?_, fun name => ?_, ?_, ?_, ?_, ?_⟩
  · obtain ⟨added, hadded, hstores⟩ := h.types
    obtain ⟨added', hadded', hstores'⟩ := h'.types
    refine ⟨added ++ added', by rw [hadded', hadded, List.append_assoc], ?_⟩
    rw [htypes]
    exact List.rel_append (hstores.imp fun _ _ hst => hst.mono hprefix) hstores'
  · rw [h'.namespaces, h.namespaces, eraseDups_eraseDups_append, List.append_assoc]
    unfold Declaration.spaces
    rw [hplain]
  · rw [h'.roots, h.roots, hroots, lastOf_append, Option.or_assoc]
  · rw [h'.fileIdentifier, h.fileIdentifier]
    unfold Declaration.fileIdentifiers
    rw [hplain, List.getLast?_append, Option.or_assoc]
  · rw [h'.fileExtension, h.fileExtension]
    unfold Declaration.fileExtensions
    rw [hplain, List.getLast?_append, Option.or_assoc]
  · rw [h'.attributes, h.attributes, List.append_assoc]
    unfold Declaration.attributes
    rw [hplain]
  · obtain ⟨hname, hroot, hfiles⟩ := h.rest
    obtain ⟨hname', hroot', hfiles'⟩ := h'.rest
    exact ⟨hname'.trans hname, hroot'.trans hroot, hfiles'.trans hfiles⟩

end Schema

end FlatSchema
