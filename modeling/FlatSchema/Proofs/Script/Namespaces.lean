import FlatSchema.Proofs.Script.Unbroken

/-!
# The objects of namespaces in the text of a script

A script says `$root.p = $root.p || {};` once for the path of each namespace and of each of its dotted
prefixes, a shorter prefix before a longer one, and all of them before the types of the namespace
(`makesObjects_script`).  This is read off the lines of the text, so it takes texts that stay in their
line.  All that files give do (`Spelled.makesObjects`), but a name from elsewhere that has a line feed
can bring along any line (`brokenName`).
-/

namespace FlatSchema

/-! ## Dotted prefixes -/

theorem DottedPrefix.trans {p q name : String} (h : DottedPrefix p q) (h' : DottedPrefix q name) :
    DottedPrefix p name := by
  refine ⟨h.1, ?_⟩
  rcases h.2 with rfl | ⟨rest, rfl⟩
  · exact h'.2
  · rcases h'.2 with rfl | ⟨rest', rfl⟩
    · exact .inr ⟨rest, rfl⟩
    · exact .inr ⟨rest ++ "." ++ rest', by simp only [String.append_assoc]⟩

/-- Of two dotted prefixes of a name, the shorter is one of the longer. -/
theorem DottedPrefix.of_length_lt {p q name : String} (hp : DottedPrefix p name)
    (hq : DottedPrefix q name) (hlt : p.length < q.length) : DottedPrefix p q := by
  have hfront : q.toList <+: name.toList := by
    rcases hq.2 with rfl | ⟨rest, rfl⟩
    · exact List.prefix_refl _
    · rw [String.append_assoc, String.toList_append]
      exact List.prefix_append _ _
  refine ⟨hp.1, .inr ?_⟩
  rcases hp.2 with rfl | ⟨rest, rfl⟩
  · have hle := hfront.length_le
    rw [String.length_toList, String.length_toList] at hle
    omega
  · have hdot : (p ++ ".").toList <+: (p ++ "." ++ rest).toList := by
      rw [String.toList_append (s := p ++ ".")]
      exact List.prefix_append _ _
    have hlength : (p ++ ".").toList.length ≤ q.toList.length := by
      rw [String.length_toList, String.length_toList, String.length_append]
      exact hlt
    obtain ⟨more, hmore⟩ := List.prefix_of_prefix_length_le hdot hfront hlength
    exact ⟨String.ofList more, String.toList_inj.1 (by simp [← hmore])⟩

theorem dottedPrefix_iff_mem_ancestors {p name : String} (h : name = "" ∨ IsName name) :
    DottedPrefix p name ↔ p ∈ ancestors name := by
  refine (mem_ancestors_iff fun hdot => ?_).symm
  unfold DotFirst at hdot
  rcases h with rfl | ⟨c, cs, hname, hc, -⟩
  · cases hdot
  · rw [hname] at hdot
    cases hdot
    exact absurd hc (by decide)

/-! ## Lines of a text -/

/-- The line that makes the object at a path. -/
def objectText (path : String) : String :=
  "$root." ++ path ++ " = $root." ++ path ++ " || \x7b\x7d;"

/-- The line opens the definition of a type: it assigns to a path from the root and opens a block. -/
def isHead (line : String) : Bool :=
  (assignedPath? line).isSome && opens line

theorem objectText_injective : Function.Injective objectText := by
  intro p q h
  have hlist : p.toList ++ (" = $root.".toList ++ (p.toList ++ " || \x7b\x7d;".toList)) =
      q.toList ++ (" = $root.".toList ++ (q.toList ++ " || \x7b\x7d;".toList)) := by
    have h := congrArg String.toList h
    simp only [objectText, String.toList_append, List.append_assoc] at h
    exact List.append_cancel_left h
  have hlength : p.toList.length = q.toList.length := by
    have h := congrArg List.length hlist
    simp only [List.length_append] at h
    omega
  exact String.toList_inj.1 (List.append_inj_left hlist hlength)

theorem assignedPath?_empty : assignedPath? "" = none :=
  assignedPath?_eq_none (by simp)

theorem assignedPath?_root (text : String) : (assignedPath? ("$root." ++ text)).isSome = true := by
  unfold assignedPath?
  rw [if_pos]
  · rfl
  · rw [List.isPrefixOf_iff_prefix, String.toList_append]
    exact List.prefix_append _ _

theorem assignedPath?_objectText (path : String) : (assignedPath? (objectText path)).isSome = true := by
  unfold objectText
  simp only [String.append_assoc]
  exact assignedPath?_root _

theorem not_isHead_objectText (path : String) : isHead (objectText path) = false := by
  have hopens : opens (objectText path) = false := by
    rw [objectText, opens_append _ (by decide)]
    simp [opens]
  rw [isHead, hopens, Bool.and_false]

theorem not_isHead {line : String} (h : assignedPath? line = none) : isHead line = false := by
  rw [isHead, h]
  rfl

theorem ne_objectText {line : String} (h : assignedPath? line = none) (path : String) :
    line ≠ objectText path := by
  rintro rfl
  have hsome := assignedPath?_objectText path
  rw [h] at hsome
  cases hsome

namespace Schema

open Script

variable {s : Schema} {id : TypeId}

/-! ## Definitions -/

/-- The types of a namespace that are part of the script. -/
def definedIn (s : Schema) (ns : NamespaceId) : List TypeId :=
  (s.children ns).filter fun id => (s.kind? id).any (!·.isUnion)

theorem mem_definedIn {ns : NamespaceId} : id ∈ s.definedIn ns ↔
    id ∈ s.children ns ∧ ∃ t, s.types[id]? = some t ∧ t.kind.isUnion = false := by
  rw [definedIn, List.mem_filter, kind?, Option.any_map, Option.any_eq_true]
  simp

def definitionOf (s : Schema) (id : TypeId) : Script :=
  match s.types[id]? with
  | some t => s.definition id t
  | none => []

theorem typesOf_eq (ns : NamespaceId) : s.typesOf ns = (s.definedIn ns).flatMap s.definitionOf := by
  have hall : ∀ ids : List TypeId, ids.flatMap s.definitionOf =
      (ids.filter fun id => (s.kind? id).any (!·.isUnion)).flatMap s.definitionOf := by
    intro ids
    induction ids with
    | nil => rfl
    | cons id ids ih =>
      rw [List.flatMap_cons, ih, List.filter_cons]
      split
      · rw [List.flatMap_cons]
      · next hnot =>
        have hnone : s.definitionOf id = [] := by
          unfold definitionOf
          cases ht : s.types[id]? with
          | none => rfl
          | some t =>
            cases hk : t.kind <;> simp_all [definition, kind?, Kind.isUnion]
        rw [hnone, List.nil_append]
  exact hall (s.children ns)

/-- Only the first line of a definition assigns to a path from the root. -/
theorem exists_definition_eq (s : Schema) (id : TypeId) {t : TypeDecl} (hu : t.kind.isUnion = false) :
    ∃ inner, (s.definition id t).map Line.render = "" :: (s.definitionHead id t ++ " \x7b") :: inner ∧
      ∀ line ∈ inner, assignedPath? line = none := by
  refine ⟨((s.definitionBody id t).map Line.deeper ++ [Line.top ("\x7d" ++ ";")]).map Line.render,
    ?_, ?_⟩
  · rw [definition_eq_block hu, List.map_cons, Script.block, List.cons_append, List.map_cons,
      render_top]
    rfl
  · intro line hline
    obtain ⟨l, hl, rfl⟩ := List.mem_map.1 hline
    rcases List.mem_append.1 hl with hl | hl
    · obtain ⟨l', -, rfl⟩ := List.mem_map.1 hl
      exact assignedPath?_deeper l'
    · rw [List.mem_singleton.1 hl, render_top]
      decide +kernel

theorem isHead_definitionHead (s : Schema) (id : TypeId) (t : TypeDecl) :
    isHead (s.definitionHead id t ++ " \x7b") = true := by
  have hpath : (assignedPath? (s.definitionHead id t ++ " \x7b")).isSome = true := by
    unfold definitionHead classPath
    split
    all_goals
      simp only [String.append_assoc]
      exact assignedPath?_root _
  rw [isHead, hpath, opens_head, Bool.and_true]

theorem countP_definition {t : TypeDecl} (hu : t.kind.isUnion = false) :
    ((s.definition id t).map Line.render).countP isHead = 1 := by
  obtain ⟨inner, hlines, hinner⟩ := exists_definition_eq s id hu
  have hnone : inner.countP isHead = 0 :=
    List.countP_eq_zero.2 fun line hline => by simp [not_isHead (hinner line hline)]
  rw [hlines, List.countP_cons_of_neg (by simp [not_isHead assignedPath?_empty]),
    List.countP_cons_of_pos (isHead_definitionHead s id t), hnone]

theorem objectText_notMem_definition (p : String) (t : TypeDecl) :
    objectText p ∉ (s.definition id t).map Line.render := by
  cases hu : t.kind.isUnion with
  | false =>
    obtain ⟨inner, hlines, hinner⟩ := exists_definition_eq s id hu
    rw [hlines]
    intro hmem
    rcases List.mem_cons.1 hmem with hline | hmem
    · exact ne_objectText assignedPath?_empty p hline.symm
    · rcases List.mem_cons.1 hmem with hline | hmem
      · have hhead := isHead_definitionHead s id t
        rw [← hline, not_isHead_objectText] at hhead
        cases hhead
      · exact ne_objectText (hinner _ hmem) p rfl
  | true =>
    unfold definition
    cases hk : t.kind with
    | union values => exact List.not_mem_nil
    | _ =>
      rw [hk] at hu
      cases hu

/-! ## Namespaces -/

/-- The paths of the objects that are made for a namespace. -/
def newObjects (made : List String) (n : Namespace) : List String :=
  if n.name = "" then [] else newPaths made (objectPaths n.name)

/-- What separates a namespace from the lines before it. -/
def gap (n : Namespace) : Script :=
  if n.name = "" then [] else [.blank]

theorem namespaceLines_cons (s : Schema) (made : List String) (ns : NamespaceId) (n : Namespace)
    (rest : List Namespace) : s.namespaceLines made ns (n :: rest) =
      gap n ++ (newObjects made n).map objectLine ++ s.typesOf ns ++
        s.namespaceLines (made ++ newObjects made n) (ns + 1) rest := by
  unfold gap newObjects
  rw [namespaceLines]
  split
  · rw [List.append_nil]
    rfl
  · rfl

theorem objects_cons (made : List String) (n : Namespace) (rest : List Namespace) :
    objects made (n :: rest) = newObjects made n ++ objects (made ++ newObjects made n) rest := by
  unfold newObjects
  rw [objects]
  split
  · rw [List.append_nil]
    rfl
  · rfl

theorem newPaths_sublist (ps : List String) : ∀ made : List String, (newPaths made ps).Sublist ps := by
  induction ps with
  | nil => exact fun _ => .slnil
  | cons p ps ih =>
    intro made
    unfold newPaths
    split
    · exact (ih made).cons p
    · exact (ih (p :: made)).cons_cons p

section

variable {n : Namespace} (hname : n.name = "" ∨ IsName n.name)
include hname

theorem mem_newObjects {made : List String} {p : String} :
    p ∈ newObjects made n ↔ DottedPrefix p n.name ∧ p ∉ made := by
  rw [dottedPrefix_iff_mem_ancestors hname]
  unfold newObjects
  split
  · next hempty => simp [hempty, ancestors]
  · next hne => rw [mem_newPaths, mem_objectPaths (hname.resolve_left hne)]

/-- A shorter path is made before a longer one. -/
theorem pairwise_newObjects (made : List String) :
    (newObjects made n).Pairwise fun p q => p.length < q.length := by
  unfold newObjects
  split
  · exact .nil
  · next hne =>
    have hpaths : (objectPaths n.name).Pairwise fun p q => p.length < q.length := by
      rw [objectPaths_eq (hname.resolve_left hne), List.pairwise_reverse]
      exact pairwise_ancestors n.name
    exact hpaths.sublist (newPaths_sublist _ made)

end

theorem map_render_objectLine (ps : List String) :
    (ps.map objectLine).map Line.render = ps.map objectText := by
  rw [List.map_map]
  exact List.map_congr_left fun p _ => render_top _

theorem eq_empty_of_mem_gap {n : Namespace} {line : String} (h : line ∈ (gap n).map Line.render) :
    line = "" := by
  unfold gap at h
  split at h
  · cases h
  · exact List.mem_singleton.1 h

theorem objectText_notMem_typesOf (p : String) (ns : NamespaceId) :
    objectText p ∉ (s.typesOf ns).map Line.render := by
  unfold typesOf
  rw [List.map_flatMap, List.mem_flatMap]
  rintro ⟨id, -, hmem⟩
  cases ht : s.types[id]? with
  | none =>
    rw [ht] at hmem
    cases hmem
  | some t =>
    rw [ht] at hmem
    exact objectText_notMem_definition p t hmem

/-- The text has the line of an object as often as the object is made. -/
theorem count_namespaceLines (p : String) (rest : List Namespace) :
    ∀ (made : List String) (ns : NamespaceId),
      ((s.namespaceLines made ns rest).map Line.render).count (objectText p) =
        (objects made rest).count p := by
  induction rest with
  | nil => exact fun _ _ => rfl
  | cons n rest ih =>
    intro made ns
    have hgap : ((gap n).map Line.render).count (objectText p) = 0 :=
      List.count_eq_zero.2 fun hmem =>
        ne_objectText assignedPath?_empty p (eq_empty_of_mem_gap hmem).symm
    have htypes : ((s.typesOf ns).map Line.render).count (objectText p) = 0 :=
      List.count_eq_zero.2 (objectText_notMem_typesOf p ns)
    have hobjects : ((newObjects made n).map objectText).count (objectText p) =
        (newObjects made n).count p := List.count_map_of_injective _ _ objectText_injective p
    rw [namespaceLines_cons, objects_cons]
    simp only [List.map_append, List.count_append, map_render_objectLine, hgap, hobjects, htypes, ih]
    omega

/-! ## Definitions in their order -/

theorem countP_opening (made : List String) (n : Namespace) :
    ((gap n ++ (newObjects made n).map objectLine).map Line.render).countP isHead = 0 := by
  rw [List.countP_eq_zero, List.map_append, map_render_objectLine]
  intro line hline
  rcases List.mem_append.1 hline with hline | hline
  · rw [eq_empty_of_mem_gap hline]
    simp [not_isHead assignedPath?_empty]
  · obtain ⟨p, -, rfl⟩ := List.mem_map.1 hline
    simp [not_isHead_objectText]

theorem countP_definitions {ids : List TypeId}
    (h : ∀ id ∈ ids, ∃ t, s.types[id]? = some t ∧ t.kind.isUnion = false) :
    ((ids.flatMap s.definitionOf).map Line.render).countP isHead = ids.length := by
  induction ids with
  | nil => rfl
  | cons id ids ih =>
    obtain ⟨t, ht, hu⟩ := h id List.mem_cons_self
    have hrest := ih fun x hx => h x (List.mem_cons_of_mem id hx)
    have hfirst : ((s.definitionOf id).map Line.render).countP isHead = 1 := by
      rw [definitionOf, ht]
      exact countP_definition hu
    rw [List.flatMap_cons, List.map_append, List.countP_append, hfirst, hrest, List.length_cons]
    omega

theorem countP_typesOf (ns : NamespaceId) :
    ((s.typesOf ns).map Line.render).countP isHead = (s.definedIn ns).length := by
  rw [typesOf_eq]
  refine countP_definitions fun id hid => ?_
  obtain ⟨-, t, ht, hu⟩ := mem_definedIn.1 hid
  exact ⟨t, ht, hu⟩

/-- The text opens as many definitions as there are types to define. -/
theorem countP_namespaceLines (rest : List Namespace) : ∀ (made : List String) (ns : NamespaceId),
    ((s.namespaceLines made ns rest).map Line.render).countP isHead =
      ((List.range' ns rest.length).flatMap s.definedIn).length := by
  induction rest with
  | nil => exact fun _ _ => rfl
  | cons n rest ih =>
    intro made ns
    rw [namespaceLines_cons, List.map_append, List.map_append, List.countP_append, List.countP_append,
      countP_opening, countP_typesOf, ih, List.length_cons, List.range'_succ, List.flatMap_cons,
      List.length_append]
    omega

/-- What was made before the next namespace was made before this one, or here. -/
theorem made_or_mem {made : List String} {n : Namespace} {p : String} (types : Script)
    {before : Script} (h : p ∈ made ++ newObjects made n ∨ objectLine p ∈ before) :
    p ∈ made ∨ objectLine p ∈ gap n ++ (newObjects made n).map objectLine ++ types ++ before := by
  rcases h with h | h
  · refine (List.mem_append.1 h).imp_right fun hnew => ?_
    exact List.mem_append_left _ (List.mem_append_left _
      (List.mem_append_right _ (List.mem_map_of_mem hnew)))
  · exact .inr (List.mem_append_right _ h)

/-- The `k`-th type is defined behind `k` definitions, and behind the objects of its namespace. -/
theorem exists_definitionOf {rest : List Namespace} (hnames : ∀ n ∈ rest, n.name = "" ∨ IsName n.name) :
    ∀ (made : List String) (ns : NamespaceId) (k : Nat),
      ((List.range' ns rest.length).flatMap s.definedIn)[k]? = some id →
      ∃ (m : Nat) (n : Namespace) (before after : Script), rest[m]? = some n ∧
        id ∈ s.definedIn (ns + m) ∧
        s.namespaceLines made ns rest = before ++ s.definitionOf id ++ after ∧
        (before.map Line.render).countP isHead = k ∧
        ∀ p, DottedPrefix p n.name → p ∈ made ∨ objectLine p ∈ before := by
  induction rest with
  | nil => exact fun _ _ _ h => by cases h
  | cons n rest ih =>
    intro made ns k hk
    have hname := hnames n List.mem_cons_self
    have hobject : ∀ p, DottedPrefix p n.name → p ∈ made ∨ p ∈ newObjects made n := by
      intro p hp
      by_cases hmade : p ∈ made
      · exact .inl hmade
      · exact .inr ((mem_newObjects hname).2 ⟨hp, hmade⟩)
    rw [List.length_cons, List.range'_succ, List.flatMap_cons] at hk
    rw [namespaceLines_cons]
    by_cases hlt : k < (s.definedIn ns).length
    · rw [List.getElem?_append_left hlt] at hk
      -- the types of this namespace in front of `id`, and those behind it
      obtain ⟨hlt, rfl⟩ := List.getElem?_eq_some_iff.1 hk
      have hsplit : s.typesOf ns = ((s.definedIn ns).take k).flatMap s.definitionOf ++
          s.definitionOf (s.definedIn ns)[k] ++
            ((s.definedIn ns).drop (k + 1)).flatMap s.definitionOf := by
        rw [typesOf_eq, List.append_assoc, ← List.flatMap_cons, ← List.flatMap_append,
          ← List.drop_eq_getElem_cons hlt, List.take_append_drop]
      refine ⟨0, n, gap n ++ (newObjects made n).map objectLine ++
        ((s.definedIn ns).take k).flatMap s.definitionOf,
        ((s.definedIn ns).drop (k + 1)).flatMap s.definitionOf ++
          s.namespaceLines (made ++ newObjects made n) (ns + 1) rest,
        rfl, List.getElem_mem hlt, ?_, ?_, ?_⟩
      · rw [hsplit]
        simp only [List.append_assoc]
      · have htypes : ∀ id ∈ (s.definedIn ns).take k, ∃ t, s.types[id]? = some t ∧
            t.kind.isUnion = false := by
          intro id hid
          exact (mem_definedIn.1 (List.mem_of_mem_take hid)).2
        rw [List.map_append, List.countP_append, countP_opening, countP_definitions htypes,
          List.length_take]
        omega
      · intro p hp
        refine (hobject p hp).imp_right fun hnew => ?_
        exact List.mem_append_left _ (List.mem_append_right _ (List.mem_map_of_mem hnew))
    · rw [List.getElem?_append_right (by omega)] at hk
      obtain ⟨m, n', before, after, hn', hid, hlines, hcount, hobjects⟩ :=
        ih (fun m hm => hnames m (List.mem_cons_of_mem n hm)) (made ++ newObjects made n) (ns + 1) _ hk
      refine ⟨m + 1, n', gap n ++ (newObjects made n).map objectLine ++ s.typesOf ns ++ before, after,
        hn', ?_, ?_, ?_, ?_⟩
      · rwa [Nat.add_right_comm] at hid
      · rw [hlines]
        simp only [List.append_assoc]
      · rw [List.map_append, List.map_append, List.countP_append, List.countP_append, countP_opening,
          countP_typesOf, hcount]
        omega
      · exact fun p hp => made_or_mem _ (hobjects p hp)

/-- An object is made behind those of its shorter prefixes. -/
theorem exists_objectLine {rest : List Namespace} (hnames : ∀ n ∈ rest, n.name = "" ∨ IsName n.name)
    {p q : String} (hpq : DottedPrefix p q) (hlt : p.length < q.length) :
    ∀ (made : List String) (ns : NamespaceId), q ∉ made → (∃ n ∈ rest, DottedPrefix q n.name) →
      ∃ before after : Script, s.namespaceLines made ns rest = before ++ objectLine q :: after ∧
        (p ∈ made ∨ objectLine p ∈ before) := by
  induction rest with
  | nil =>
    rintro made ns - ⟨n, hn, -⟩
    cases hn
  | cons n rest ih =>
    intro made ns hmade hq
    have hname := hnames n List.mem_cons_self
    rw [namespaceLines_cons]
    by_cases hqn : DottedPrefix q n.name
    · -- the object is made here, and so is its prefix unless it was made before
      obtain ⟨front, back, hsplit⟩ := List.append_of_mem ((mem_newObjects hname).2 ⟨hqn, hmade⟩)
      refine ⟨gap n ++ front.map objectLine, back.map objectLine ++ s.typesOf ns ++
        s.namespaceLines (made ++ newObjects made n) (ns + 1) rest, ?_, ?_⟩
      · have hlines : (newObjects made n).map objectLine =
            front.map objectLine ++ objectLine q :: back.map objectLine := by
          rw [hsplit, List.map_append, List.map_cons]
        rw [hlines]
        simp only [List.append_assoc, List.cons_append]
      · by_cases hp : p ∈ made
        · exact .inl hp
        · have hnew := (mem_newObjects hname).2 ⟨hpq.trans hqn, hp⟩
          have hpairwise := pairwise_newObjects hname made
          rw [hsplit] at hnew hpairwise
          rcases List.mem_append.1 hnew with hfront | hback
          · exact .inr (List.mem_append_right _ (List.mem_map_of_mem hfront))
          · rcases List.mem_cons.1 hback with rfl | hback
            · omega
            · have hgt := (List.pairwise_cons.1 (List.pairwise_append.1 hpairwise).2.1).1 p hback
              omega
    · have hrest : ∃ n ∈ rest, DottedPrefix q n.name := by
        obtain ⟨n', hn', hqn'⟩ := hq
        rcases List.mem_cons.1 hn' with rfl | hn'
        · exact absurd hqn' hqn
        · exact ⟨n', hn', hqn'⟩
      have hnot : q ∉ made ++ newObjects made n := by
        rw [List.mem_append, mem_newObjects hname]
        exact fun hmem => hmem.elim hmade fun hnew => hqn hnew.1
      obtain ⟨before, after, hlines, hp⟩ :=
        ih (fun m hm => hnames m (List.mem_cons_of_mem n hm)) _ (ns + 1) hnot hrest
      refine ⟨gap n ++ (newObjects made n).map objectLine ++ s.typesOf ns ++ before, after, ?_, ?_⟩
      · rw [hlines]
        simp only [List.append_assoc]
      · exact made_or_mem _ hp

end Schema

/-! ## Names from files -/

/-- The namespaces of `s` are those of `r`, but for names that a file can give. -/
def Schema.NamedAs (r s : Schema) : Prop :=
  ∀ n ∈ s.namespaces, n.name ∈ r.namespaces.map (·.name) ∨ n.name = "" ∨ IsName n.name

theorem Schema.NamedAs.congr {r s s' : Schema} (h : r.NamedAs s)
    (hnames : s'.namespaces.map (·.name) = s.namespaces.map (·.name)) : r.NamedAs s' := by
  intro n hn
  obtain ⟨n', hn', hname⟩ := List.mem_map.1 (hnames ▸ List.mem_map_of_mem hn)
  rw [← hname]
  exact h n' hn'

theorem Schema.NamedAs.defineNamespace {r s : Schema} (h : r.NamedAs s) {name : String}
    (hname : name = "" ∨ IsName name) : r.NamedAs (s.defineNamespace name).2 := by
  unfold Schema.defineNamespace
  split
  · exact h
  · intro n hn
    rcases List.mem_append.1 hn with hn | hn
    · exact h n hn
    · rw [List.mem_singleton.1 hn]
      exact .inr hname

namespace Session

variable {r : Schema} {s s' : Session}

theorem namedAs_declare {name : String} {kind : Kind} {p : Position} (hs : r.NamedAs s.schema)
    (h : s.declare name kind p = .ok s') : r.NamedAs s'.schema := by
  unfold declare at h
  split at h
  · next hadd =>
    cases h
    obtain ⟨-, -, rfl⟩ := Schema.addType_eq_ok hadd
    exact hs.congr (Schema.names_declare _ _)
  · cases h

theorem namedAs_update {p : Position} {x : Except SchemaError Schema}
    (hx : ∀ schema, x = .ok schema → r.NamedAs schema) (h : s.update p x = .ok s') :
    r.NamedAs s'.schema := by
  unfold update at h
  split at h
  · cases h
    exact hx _ rfl
  · cases h

theorem namedAs_perform {a : Action} (hs : r.NamedAs s.schema) (ha : a.Spelled)
    (h : s.perform a = .ok s') : r.NamedAs s'.schema := by
  cases a with
  | enterNamespace name =>
    cases h
    exact hs.defineNamespace (.inr ha)
  | declareType name kind p => exact namedAs_declare hs h
  | declareEnum name base p =>
    change (if base.repeated then _ else _) = _ at h
    split at h
    · cases h
    · exact namedAs_declare hs h
  | addField f p =>
    refine namedAs_update (fun schema hadd => ?_) h
    obtain rfl | ⟨t, k, -, -, rfl⟩ := Schema.addField_eq_ok hadd <;> exact hs
  | addValue e p =>
    refine namedAs_update (fun schema hadd => ?_) h
    obtain rfl | ⟨t, k, -, -, rfl⟩ := Schema.addValue_eq_ok hadd <;> exact hs
  | setRootType name =>
    cases h
    exact hs.congr (Schema.names_setRootName _ _ _)
  | setFileIdentifier text p =>
    refine namedAs_update (fun schema hset => ?_) h
    obtain rfl := Schema.setFileIdentifier_eq_ok hset
    exact hs
  | includeFile written =>
    cases h
    exact hs
  | attachMetadata m =>
    cases h
    exact hs
  | setFileExtension text =>
    cases h
    exact hs
  | addAttribute name =>
    cases h
    exact hs

theorem namedAs_performAll (as : List Action) : ∀ s : Session, r.NamedAs s.schema →
    (∀ a ∈ as, a.Spelled) → r.NamedAs (s.performAll as).1.schema := by
  induction as with
  | nil => exact fun s hs _ => hs
  | cons a as ih =>
    intro s hs has
    unfold performAll
    cases hp : s.perform a with
    | error e => exact hs
    | ok s' =>
      have hs' := namedAs_perform hs (has a List.mem_cons_self) hp
      exact ih s' hs' fun b hb => has b (List.mem_cons_of_mem a hb)

end Session

namespace Schema

open Script

variable {s : Schema} {id : TypeId}

theorem namedAs_parse (s : Schema) (file text : String) : s.NamedAs (s.parse file text).1 := by
  have hactions := Grammar.spelled_outline file (Stream.spelled_readFrom file (.start text))
    (.declaration true) trivial
  have hs : s.NamedAs s := fun n hn => .inl (List.mem_map_of_mem hn)
  have hstart : s.NamedAs (Session.start s).schema := hs.defineNamespace (.inl rfl)
  have hrun := Session.namedAs_performAll _ _ hstart hactions
  unfold Schema.parse parseStream
  dsimp only
  split <;> exact hrun

/-- Some file adds a namespace of that name to some schema. -/
def FromFile (name : String) : Prop :=
  ∃ (r : Schema) (file text : String), name ∉ r.namespaces.map (·.name) ∧
    name ∈ (r.parse file text).1.namespaces.map (·.name)

theorem FromFile.spelled {name : String} (h : FromFile name) : name = "" ∨ IsName name := by
  obtain ⟨r, file, text, hnew, hmem⟩ := h
  obtain ⟨n, hn, rfl⟩ := List.mem_map.1 hmem
  exact (namedAs_parse r file text n hn).resolve_left hnew

/-! ## The whole text -/

/-- The lines of the text of a script, where the first is `first`. -/
def linesFrom (s : Schema) (first : String) : List String :=
  first :: (s.namespaceLines [] 0 s.namespaces).map Line.render ++ [""]

theorem defined_eq (s : Schema) :
    s.defined = (List.range' 0 s.namespaces.length).flatMap s.definedIn := by
  rw [← List.range_eq_range']
  rfl

section

variable {first p q : String} {n : Namespace} (hfirst : assignedPath? first = none)
  (hnames : ∀ n ∈ s.namespaces, n.name = "" ∨ IsName n.name)

include hfirst in
theorem countP_linesFrom : (s.linesFrom first).countP isHead = s.defined.length := by
  have hlast : [""].countP isHead = 0 := by decide +kernel
  rw [linesFrom, List.countP_append, List.countP_cons_of_neg (by simp [not_isHead hfirst]),
    countP_namespaceLines, hlast, defined_eq, Nat.add_zero]

include hfirst hnames in
theorem count_linesFrom (hn : n ∈ s.namespaces) (hp : DottedPrefix p n.name) :
    (s.linesFrom first).count (objectText p) = 1 := by
  have hmem : p ∈ objects [] s.namespaces :=
    (mem_objects hnames).2 ⟨⟨n, hn, (dottedPrefix_iff_mem_ancestors (hnames n hn)).1 hp⟩,
      List.not_mem_nil⟩
  have hlast : [""].count (objectText p) = 0 :=
    List.count_eq_zero.2 fun hmem =>
      ne_objectText assignedPath?_empty p (List.mem_singleton.1 hmem).symm
  rw [linesFrom, List.count_append, List.count_cons_of_ne (ne_objectText hfirst p),
    count_namespaceLines, hlast, List.count_eq_one_of_mem (nodup_objects hnames []) hmem]

include hnames

theorem sublist_linesFrom (hn : n ∈ s.namespaces) (hp : DottedPrefix p n.name)
    (hq : DottedPrefix q n.name) (hlt : p.length < q.length) :
    [objectText p, objectText q].Sublist (s.linesFrom first) := by
  obtain ⟨before, after, hsplit, hmade⟩ := exists_objectLine (s := s) hnames (hp.of_length_lt hq hlt)
    hlt [] 0 List.not_mem_nil ⟨n, hn, hq⟩
  have hmem : objectText p ∈ before.map Line.render := by
    rw [← render_top (objectText p)]
    exact List.mem_map_of_mem (hmade.resolve_left List.not_mem_nil)
  have hline : (objectLine q).render = objectText q := render_top _
  have hboth : [objectText p, objectText q].Sublist
      (before.map Line.render ++ objectText q :: after.map Line.render) :=
    (List.singleton_sublist.2 hmem).append (List.singleton_sublist.2 List.mem_cons_self)
  rw [linesFrom, hsplit, List.map_append, List.map_cons, hline]
  exact (hboth.cons first).trans (List.sublist_append_left _ _)

include hfirst in
theorem exists_linesFrom {ns : NamespaceId} {t : TypeDecl} (hs : s.Indexed)
    (hn : s.namespaces[ns]? = some n)
    (ht : s.types[id]? = some t) (hhome : t.home = ns) (hu : t.kind.isUnion = false) :
    ∃ before after, s.linesFrom first = before ++ (s.definition id t).map Line.render ++ after ∧
      before.countP isHead = s.defined.idxOf id ∧
      ∀ p, DottedPrefix p n.name → objectText p ∈ before := by
  have hmem : id ∈ s.defined := by
    rw [defined, List.mem_flatMap]
    have hlt := (List.getElem?_eq_some_iff.1 hn).1
    exact ⟨ns, List.mem_range.2 hlt, mem_definedIn.2 ⟨hs.mem_children.2 ⟨t, ht, hhome⟩, t, ht, hu⟩⟩
  have hk : s.defined[s.defined.idxOf id]? = some id := by
    rw [List.getElem?_eq_getElem (List.idxOf_lt_length_of_mem hmem), List.getElem_idxOf]
  rw [defined_eq] at hk
  obtain ⟨m, n', before, after, hn', hid, hsplit, hcount, hobjects⟩ :=
    exists_definitionOf hnames [] 0 _ hk
  -- the namespace that was found is that of the type
  obtain ⟨t', ht', hhome'⟩ := hs.mem_children.1 (mem_definedIn.1 hid).1
  obtain rfl := Option.some.inj (ht.symm.trans ht')
  rw [hhome, Nat.zero_add] at hhome'
  subst hhome'
  obtain rfl := Option.some.inj (hn.symm.trans hn')
  refine ⟨first :: before.map Line.render, after.map Line.render ++ [""], ?_, ?_, fun p hp => ?_⟩
  · rw [linesFrom, hsplit, definitionOf, ht]
    simp only [List.map_append, List.cons_append, List.append_assoc]
  · rw [List.countP_cons_of_neg (by simp [not_isHead hfirst]), hcount, defined_eq]
  · have hline := (hobjects p hp).resolve_left List.not_mem_nil
    rw [← render_top (objectText p)]
    exact List.mem_cons_of_mem _ (List.mem_map_of_mem hline)

end

theorem exists_linesFrom_eq (hnames : ∀ n ∈ s.namespaces, n.name = "" ∨ IsName n.name)
    (hname : '\n' ∉ s.name.toList) (htexts : ∀ text ∈ s.texts, '\n' ∉ text.toList) :
    ∃ first, assignedPath? first = none ∧ Text.pieces '\n' s.script.render = s.linesFrom first := by
  refine ⟨"const $root = flatbuffers.get('" ++ s.name ++ "');", assignedPath?_eq_none ?_, ?_⟩
  · simp [String.toList_append]
  · rw [(unbroken_script htexts hnames hname).pieces_render, script, List.map_cons, render_top]
    rfl

/-! ## Top theorem -/

/-- What the lines of a text say of the namespaces of a schema. -/
structure MakesObjects (s : Schema) (lines : List String) : Prop where
  /-- Each object is made, and once. -/
  once : ∀ n ∈ s.namespaces, ∀ p, DottedPrefix p n.name → lines.count (objectText p) = 1
  /-- An object is made before those inside it. -/
  inward : ∀ n ∈ s.namespaces, ∀ p q, DottedPrefix p n.name → DottedPrefix q n.name →
    p.length < q.length → [objectText p, objectText q].Sublist lines
  /-- A type stands behind the objects of its namespace.  It is the definition with the number of the
  type, since texts of definitions may be equal. -/
  declared : ∀ (ns : NamespaceId) (n : Namespace) (id : TypeId) (t : TypeDecl),
    s.namespaces[ns]? = some n → s.types[id]? = some t → t.home = ns → t.kind.isUnion = false →
      ∃ before after, lines = before ++ (s.definition id t).map Line.render ++ after ∧
        before.countP isHead = s.defined.idxOf id ∧ ∀ p, DottedPrefix p n.name → objectText p ∈ before
  /-- There are no definitions but those of the types. -/
  definitions : lines.countP isHead = s.defined.length

theorem makesObjects_of_names (hs : s.Indexed) (hnames : ∀ n ∈ s.namespaces, n.name = "" ∨ IsName n.name)
    (hname : '\n' ∉ s.name.toList) (htexts : ∀ text ∈ s.texts, '\n' ∉ text.toList) :
    s.MakesObjects (Text.pieces '\n' s.script.render) := by
  obtain ⟨first, hfirst, hlines⟩ := exists_linesFrom_eq hnames hname htexts
  rw [hlines]
  refine ⟨?_, ?_, ?_, countP_linesFrom hfirst⟩
  · exact fun n hn p hp => count_linesFrom hfirst hnames hn hp
  · exact fun n hn p q hp hq hlt => sublist_linesFrom hnames hn hp hq hlt
  · exact fun ns n id t hn ht hhome hu => exists_linesFrom hfirst hnames hs hn ht hhome hu

/-- A schema that is read from files has no texts with line feeds, resolved or not. -/
theorem Spelled.makesObjects (hs : s.Spelled) (hi : s.Indexed) (hname : '\n' ∉ s.name.toList) :
    s.MakesObjects (Text.pieces '\n' s.script.render) :=
  makesObjects_of_names hi hs.namespaces hname hs.feed_texts

/-- Where all namespaces have names from files, and no text of the schema has a line feed, the text of
the script makes the object of each namespace and of each of its dotted prefixes once, a shorter prefix
before a longer one, and all before the types of the namespace. -/
theorem makesObjects_script (hs : s.Indexed) (hfiles : ∀ n ∈ s.namespaces, FromFile n.name)
    (hname : '\n' ∉ s.name.toList) (htexts : ∀ text ∈ s.texts, '\n' ∉ text.toList) :
    s.MakesObjects (Text.pieces '\n' s.script.render) :=
  makesObjects_of_names hs (fun n hn => (hfiles n hn).spelled) hname htexts

end Schema

/-- Namespaces that overlap, the inner one first. -/
def overlapping : String :=
  "namespace a.b.c; table T \x7b \x7d namespace a.b; enum E: int \x7b x \x7d namespace d;"

theorem makesObjects_overlapping :
    let s := ((Schema.empty "default").parse "a.fbs" overlapping).1
    s.namespaces.map (·.name) = ["", "a.b.c", "a.b", "d"] ∧ s.defined = [0, 1] ∧
      s.MakesObjects (Text.pieces '\n' s.script.render) := by
  intro s
  have hspaces : s.namespaces.map (·.name) = ["", "a.b.c", "a.b", "d"] := by decide +kernel
  have hdefined : s.defined = [0, 1] := by decide +kernel
  have hfiles : ∀ n ∈ s.namespaces, Schema.FromFile n.name := fun n hn =>
    ⟨.empty "default", "a.fbs", overlapping, List.not_mem_nil, List.mem_map_of_mem hn⟩
  have hindexed : s.Indexed := ((Schema.kept_empty "default").parse "a.fbs" overlapping).indexed
  exact ⟨hspaces, hdefined,
    Schema.makesObjects_script hindexed hfiles (by decide +kernel) (by decide +kernel)⟩

/-- A type whose name brings along the line of an object, in a namespace from a file. -/
def brokenName : Schema :=
  Schema.Operation.apply ((Schema.empty "default").parse "schema.fbs" "namespace a;").1
    (.addType 1 "T\n$root.a = $root.a || \x7b\x7d;\n" (.newEnum ⟨"int", false⟩))

theorem count_objectText_brokenName :
    brokenName.Indexed ∧ (∀ n ∈ brokenName.namespaces, Schema.FromFile n.name) ∧
      '\n' ∉ brokenName.name.toList ∧
      (∃ n ∈ brokenName.namespaces, DottedPrefix "a" n.name) ∧
      (Text.pieces '\n' brokenName.script.render).count (objectText "a") = 2 := by
  have hspaces : brokenName.namespaces.map (·.name) =
      ((Schema.empty "default").parse "schema.fbs" "namespace a;").1.namespaces.map (·.name) := by
    decide +kernel
  have hkept : brokenName.Kept := by
    refine ((Schema.kept_empty "default").parse _ _).apply ⟨by decide +kernel, ?_, ?_⟩
    · exact fun hf => absurd hf List.not_mem_nil
    · exact fun hb => by cases hb
  have hspace : ∃ n ∈ brokenName.namespaces, n.name = "a" :=
    List.mem_map.1 (hspaces ▸ by decide +kernel)
  obtain ⟨a, ha, hname⟩ := hspace
  refine ⟨hkept.indexed, fun n hn => ?_, by decide +kernel, ⟨a, ha, ?_⟩, by decide +kernel⟩
  · refine ⟨.empty "default", "schema.fbs", "namespace a;", List.not_mem_nil, ?_⟩
    exact hspaces ▸ List.mem_map_of_mem hn
  · rw [hname]
    exact ⟨by decide, .inl rfl⟩

end FlatSchema
