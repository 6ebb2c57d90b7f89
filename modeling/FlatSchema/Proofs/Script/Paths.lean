import FlatSchema.Proofs.Includes.Visits
import FlatSchema.Proofs.Lookup
import FlatSchema.Proofs.Script.Presents

/-!
# Paths that a script assigns

A script assigns an object to the path of each namespace and of its ancestors, once, and a class or an
object to the path of each type that it defines (`assigned_perm`).  Both kinds of paths share one space:
a type may be called like a namespace, and a name with a dot like one in a namespace below.  So no path
is assigned twice exactly if no two types have one qualified name and none has the name of a namespace
or of an ancestor of one (`nodup_assigned_iff`).  Nothing refuses a schema in which this fails
(`compileText_overwrites`).
-/

namespace FlatSchema

/-- The path from the root that a line assigns to. -/
def assignedPath? (line : String) : Option String :=
  if "$root.".toList.isPrefixOf line.toList then
    some (String.ofList ((line.toList.drop 6).takeWhile (· ≠ ' ')))
  else none

/-- The paths from the root that the lines of a text assign to, in order. -/
def assigned (text : String) : List String :=
  (Text.pieces '\n' text).filterMap assignedPath?

/-! ## Lines -/

theorem root_toList : "$root.".toList = ['$', 'r', 'o', 'o', 't', '.'] :=
  String.toList_ofList

theorem assignedPath?_eq_some {line path : String} (rest : List Char)
    (hline : line.toList = "$root.".toList ++ (path.toList ++ ' ' :: rest))
    (hpath : ∀ c ∈ path.toList, isIdRest c = true) : assignedPath? line = some path := by
  have hspace : ∀ c ∈ path.toList, decide (c ≠ ' ') = true := by
    intro c hc
    rw [decide_eq_true_eq]
    rintro rfl
    exact absurd (hpath _ hc) (by decide)
  have hfront : "$root.".toList.isPrefixOf line.toList = true := by
    rw [List.isPrefixOf_iff_prefix, hline]
    exact List.prefix_append _ _
  have hdrop : line.toList.drop 6 = path.toList ++ ' ' :: rest := by
    rw [hline, root_toList]
    rfl
  rw [assignedPath?, if_pos hfront, hdrop, List.takeWhile_append_of_pos hspace,
    List.takeWhile_cons_of_neg (by decide), List.append_nil, String.ofList_toList]

theorem assignedPath?_eq_none {line : String} (h : line.toList.head? ≠ some '$') :
    assignedPath? line = none := by
  refine if_neg fun hfront => h ?_
  rw [List.isPrefixOf_iff_prefix, root_toList] at hfront
  obtain ⟨rest, hrest⟩ := hfront
  rw [← hrest]
  rfl

theorem assignedPath?_deeper (l : Line) : assignedPath? l.deeper.render = none := by
  apply assignedPath?_eq_none
  by_cases htext : l.text = ""
  · rw [show l.deeper.render = "" from if_pos htext]
    decide +kernel
  · have hrender : l.deeper.render.toList =
        List.replicate (4 * (l.depth + 1)) ' ' ++ l.text.toList := toList_render htext
    rw [hrender, show 4 * (l.depth + 1) = 4 * l.depth + 3 + 1 by omega, List.replicate_succ]
    exact fun h => absurd (Option.some.inj h) (by decide)

namespace Script

/-- The paths that the lines of a script assign to. -/
def paths (script : Script) : List String :=
  script.filterMap (assignedPath? ·.render)

theorem paths_append (a b : Script) : paths (a ++ b) = paths a ++ paths b :=
  List.filterMap_append

theorem paths_blank (script : Script) : paths (.blank :: script) = paths script := by
  rw [paths, List.filterMap_cons, show assignedPath? Line.blank.render = none by decide +kernel]
  rfl

/-- A block assigns to the path that its first line names; what is inside does not count. -/
theorem paths_block {head : String} (body : Script) {path : String}
    (h : assignedPath? (head ++ " \x7b") = some path) : paths (block head body ";") = [path] := by
  have hbody : paths (body.map Line.deeper) = [] := by
    refine List.filterMap_eq_nil_iff.2 fun l hl => ?_
    obtain ⟨l', -, rfl⟩ := List.mem_map.1 hl
    exact assignedPath?_deeper l'
  have hhead : paths [.top (head ++ " \x7b")] = [path] := by
    simp only [paths, List.filterMap_cons, render_top, h, List.filterMap_nil]
  have hclosing : paths [.top ("\x7d" ++ ";")] = [] := by decide +kernel
  have hsplit : block head body ";" = [.top (head ++ " \x7b")] ++ body.map Line.deeper ++
      [.top ("\x7d" ++ ";")] := rfl
  rw [hsplit, paths_append, paths_append, hhead, hbody, hclosing]
  rfl

theorem assigned_render {P : String → Prop} {script : Script} (h : Nested P script) :
    assigned script.render = paths script := by
  rw [assigned, pieces_render h.feed, List.filterMap_append, List.filterMap_map]
  exact List.append_nil _

end Script

namespace Schema

open Script

variable {s : Schema} {id : TypeId}

/-! ## Types -/

theorem paths_definition (hs : s.Spelled) (t : TypeDecl) : paths (s.definition id t) =
    if t.kind.isUnion then [] else [s.qualifiedName id] := by
  have hpath := qualifiedName_idRest hs id
  have hclass : ∀ members : Script, paths (s.classBlock id t.name members) = [s.qualifiedName id] := by
    intro members
    refine paths_block _ (assignedPath?_eq_some ("= class ".toList ++ (t.name.toList ++ [' ', '\x7b']))
      ?_ hpath)
    simp [classPath, String.toList_append]
  have henum : ∀ body : Script,
      paths (Script.block (s.classPath id ++ " =") body ";") = [s.qualifiedName id] := by
    intro body
    refine paths_block _ (assignedPath?_eq_some ['=', ' ', '\x7b'] ?_ hpath)
    simp [classPath, String.toList_append]
  unfold definition
  cases t.kind with
  | table fields => exact (paths_blank _).trans (hclass _)
  | struct fields size => exact (paths_blank _).trans (hclass _)
  | enum base values default => exact (paths_blank _).trans (henum _)
  | union values => rfl

theorem paths_typesOf (hs : s.Spelled) (ids : List TypeId) :
    paths (ids.flatMap fun id =>
      match s.types[id]? with
      | some t => s.definition id t
      | none => []) =
      (ids.filter fun id => (s.kind? id).any (!·.isUnion)).map s.qualifiedName := by
  induction ids with
  | nil => rfl
  | cons id ids ih =>
    rw [List.flatMap_cons, paths_append, ih, List.filter_cons, kind?]
    cases ht : s.types[id]? with
    | none => rfl
    | some t =>
      dsimp only
      rw [paths_definition hs]
      cases hu : t.kind.isUnion with
      | true => simp [hu]
      | false => simp [hu]

/-! ## Namespaces -/

/-- The paths of the objects that are made for the namespaces, without those at `made`. -/
def objects (made : List String) : List Namespace → List String
  | [] => []
  | n :: rest =>
    if n.name = "" then objects made rest
    else newPaths made (objectPaths n.name) ++
      objects (made ++ newPaths made (objectPaths n.name)) rest

theorem mem_objects {rest : List Namespace} (h : ∀ n ∈ rest, n.name = "" ∨ IsName n.name) :
    ∀ {made : List String} {p : String}, p ∈ objects made rest ↔
      (∃ n ∈ rest, p ∈ ancestors n.name) ∧ p ∉ made := by
  induction rest with
  | nil =>
    intro made p
    simp [objects]
  | cons n rest ih =>
    intro made p
    have hnames := fun m hm => h m (List.mem_cons_of_mem n hm)
    unfold objects
    split
    · next hn =>
      have hnone : p ∉ ancestors n.name := by
        rw [hn]
        exact List.not_mem_nil
      rw [ih hnames]
      simp [hnone]
    · next hn =>
      have hname : IsName n.name := (h n List.mem_cons_self).resolve_left hn
      rw [List.mem_append, mem_newPaths, ih hnames, mem_objectPaths hname, List.mem_append, mem_newPaths,
        mem_objectPaths hname]
      by_cases hp : p ∈ ancestors n.name
      · simp [hp]
      · simp [hp]

theorem nodup_objects {rest : List Namespace} (h : ∀ n ∈ rest, n.name = "" ∨ IsName n.name) :
    ∀ made : List String, (objects made rest).Nodup := by
  induction rest with
  | nil => exact fun _ => .nil
  | cons n rest ih =>
    intro made
    have hnames := fun m hm => h m (List.mem_cons_of_mem n hm)
    unfold objects
    split
    · exact ih hnames made
    · rw [List.nodup_append']
      refine ⟨nodup_newPaths _ _, ih hnames _, fun p hp hp' => ?_⟩
      exact ((mem_objects hnames).1 hp').2 (List.mem_append_right _ hp)

theorem paths_objectLines {ps : List String} (h : ∀ p ∈ ps, ∀ c ∈ p.toList, isIdRest c = true) :
    paths (ps.map objectLine) = ps := by
  induction ps with
  | nil => rfl
  | cons p ps ih =>
    have hline : paths [objectLine p] = [p] := by
      have hpath : assignedPath? (objectLine p).render = some p := by
        refine assignedPath?_eq_some ("= $root." ++ p ++ " || \x7b\x7d;").toList ?_
          (h p List.mem_cons_self)
        rw [objectLine, render_top]
        simp [String.toList_append]
      simp only [paths, List.filterMap_cons, hpath, List.filterMap_nil]
    have hsplit : (p :: ps).map objectLine = [objectLine p] ++ ps.map objectLine := rfl
    rw [hsplit, paths_append, hline, ih fun q hq => h q (List.mem_cons_of_mem p hq)]
    rfl

theorem paths_namespaceLines (hs : s.Spelled) (rest : List Namespace) :
    ∀ (made : List String) (ns : NamespaceId), (∀ n ∈ rest, n.name = "" ∨ IsName n.name) →
      (paths (s.namespaceLines made ns rest)).Perm (objects made rest ++
        ((List.range' ns rest.length).flatMap fun ns =>
          (s.children ns).filter fun id => (s.kind? id).any (!·.isUnion)).map s.qualifiedName) := by
  induction rest with
  | nil => exact fun _ _ _ => .nil
  | cons n rest ih =>
    intro made ns hnames
    have hrest := fun m hm => hnames m (List.mem_cons_of_mem n hm)
    have htypes : paths (s.typesOf ns) = _ := paths_typesOf hs (s.children ns)
    rw [List.length_cons, List.range'_succ, List.flatMap_cons, List.map_append]
    unfold namespaceLines objects
    split
    · rw [paths_append, htypes]
      refine ((ih made (ns + 1) hrest).append_left _).trans ?_
      rw [← List.append_assoc, ← List.append_assoc]
      exact List.perm_append_comm.append_right _
    · next hne =>
      have hname : IsName n.name := (hnames n List.mem_cons_self).resolve_left hne
      have hobjects : paths ((newPaths made (objectPaths n.name)).map objectLine) = _ :=
        paths_objectLines fun p hp => objectPaths_idRest hname (mem_newPaths.1 hp).1
      dsimp only
      rw [List.append_assoc, List.cons_append, paths_blank, paths_append, paths_append, hobjects,
        htypes, List.append_assoc]
      refine List.Perm.append_left _ (((ih _ (ns + 1) hrest).append_left _).trans ?_)
      rw [← List.append_assoc, ← List.append_assoc]
      exact List.perm_append_comm.append_right _

/-- The paths that a script assigns to. -/
theorem assigned_perm (hs : s.Spelled) (hn : s.Numbered) (hname : '\n' ∉ s.name.toList) :
    (assigned s.script.render).Perm (objects [] s.namespaces ++ s.defined.map s.qualifiedName) := by
  have hlines := paths_namespaceLines hs s.namespaces [] 0 hs.namespaces
  rw [← List.range_eq_range'] at hlines
  rw [assigned_render (lists_script hs hn hname).nested]
  have hfirst : paths [Line.top ("const $root = flatbuffers.get('" ++ s.name ++ "');")] = [] := by
    have hnone : assignedPath? ("const $root = flatbuffers.get('" ++ s.name ++ "');") = none := by
      apply assignedPath?_eq_none
      simp [String.toList_append]
    simp only [paths, List.filterMap_cons, render_top, hnone, List.filterMap_nil]
  have hsplit : s.script = [.top ("const $root = flatbuffers.get('" ++ s.name ++ "');")] ++
      s.namespaceLines [] 0 s.namespaces := rfl
  rw [hsplit, paths_append, hfirst, List.nil_append]
  exact hlines

/-! ## When no path is assigned twice -/

/-- No two types of the script have one qualified name. -/
def Distinct (s : Schema) : Prop :=
  ∀ id ∈ s.defined, ∀ id' ∈ s.defined, s.qualifiedName id = s.qualifiedName id' → id = id'

/-- No type of the script is called like a namespace or an ancestor of one. -/
def Apart (s : Schema) : Prop :=
  ∀ id ∈ s.defined, ∀ n ∈ s.namespaces, s.qualifiedName id ∉ ancestors n.name

theorem nodup_assigned (hs : s.Spelled) (hn : s.Numbered) (hkept : s.Kept)
    (hname : '\n' ∉ s.name.toList) :
    (assigned s.script.render).Nodup ↔ s.Distinct ∧ s.Apart := by
  rw [(assigned_perm hs hn hname).nodup_iff, List.nodup_append',
    List.nodup_map_iff_inj_on (nodup_defined hkept)]
  constructor
  · rintro ⟨-, hdistinct, hdisjoint⟩
    refine ⟨hdistinct, fun id hid n hmem hpath => ?_⟩
    have hobject : s.qualifiedName id ∈ objects [] s.namespaces :=
      (mem_objects hs.namespaces).2 ⟨⟨n, hmem, hpath⟩, List.not_mem_nil⟩
    exact hdisjoint hobject (List.mem_map_of_mem hid)
  · rintro ⟨hdistinct, hapart⟩
    refine ⟨nodup_objects hs.namespaces [], hdistinct, fun p hp hp' => ?_⟩
    obtain ⟨⟨n, hmem, hpath⟩, -⟩ := (mem_objects hs.namespaces).1 hp
    obtain ⟨id, hid, rfl⟩ := List.mem_map.1 hp'
    exact hapart id hid n hmem hpath

/-- Without dots in the names of types, a qualified name tells the namespace and the name. -/
theorem distinct_of_dotless (hs : s.Kept) (h : ∀ t ∈ s.types, '.' ∉ t.name.toList) : s.Distinct := by
  intro id hid id' hid' heq
  obtain ⟨k, hk, -⟩ := (mem_defined hs).1 hid
  obtain ⟨k', hk', -⟩ := (mem_defined hs).1 hid'
  obtain ⟨t, ht, -⟩ := Option.map_eq_some_iff.1 hk
  obtain ⟨t', ht', -⟩ := Option.map_eq_some_iff.1 hk'
  have hq : s.qualifiedName id = qualify (s.namespaceName t.home) t.name := by rw [qualifiedName, ht]
  -- The lookup by this qualified name finds both.
  have hdotless := h t (List.mem_of_getElem? ht)
  have hfind : s.childOf? (s.namespaceName t.home) t.name = some id :=
    (hs.childOf?_eq_some_iff hdotless).2 ⟨t, ht, hdotless, hq⟩
  have hfind' : s.childOf? (s.namespaceName t.home) t.name = some id' :=
    (hs.childOf?_eq_some_iff hdotless).2 ⟨t', ht', h t' (List.mem_of_getElem? ht'), heq.symm.trans hq⟩
  exact Option.some.inj (hfind.symm.trans hfind')

/-! ## Compiled texts -/

theorem Spelled.markFile (hs : s.Spelled) (key : String) : (s.markFile key).Spelled := by
  unfold Schema.markFile
  split
  · exact hs
  · exact ⟨hs.namespaces, hs.name, hs.kind, hs.fileIdentifier⟩

end Schema

/-- The schema into which a text is read that is compiled on its own. -/
def blankSheet : Schema :=
  (Schema.empty "default").markFile (Store.key ⟨"schema.fbs"⟩)

/-- A text that compiles is read, includes nothing, and is resolved. -/
theorem compileText_eq_ok {text : String} {s : Schema} (h : compileText text = .ok s) :
    (blankSheet.parse "schema.fbs" text).1.resolve = (s, none) := by
  have hsource : Build.addSource Store.empty.library .default text ⟨"schema.fbs"⟩ (.start .default) =
      Build.addText Store.empty.library [] (Build.visit Store.empty.library [] 1) ⟨"schema.fbs"⟩ text
        ((Build.start .default).opening ⟨"schema.fbs"⟩) := rfl
  have hfinish : ∀ b : Build, b.finish.1 = .ok () → b.schema.resolve = (b.finish.2.schema, none) := by
    intro b hb
    unfold Build.finish at hb ⊢
    rcases hresolve : b.schema.resolve with ⟨schema, _ | e⟩
    · rfl
    · rw [hresolve] at hb
      cases hb
  unfold compileText at h
  dsimp only at h
  rw [hsource] at h
  rcases hparse : blankSheet.parse "schema.fbs" text with ⟨schema, e | head⟩
  · rw [Build.addText_of_error hparse] at h
    cases h
  · rw [Build.addText_of_ok hparse] at h
    cases hincludes : head.includes with
    | cons written rest =>
      rw [hincludes, Build.follow_cons] at h
      cases h
    | nil =>
      rw [hincludes] at h
      rcases hb : (Build.parsed ((Build.start .default).opening ⟨"schema.fbs"⟩) ⟨"schema.fbs"⟩ schema
        head).finish with ⟨e | _, b⟩
      · simp only [Build.follow, Id.run, pure, hb] at h
        cases h
      · simp only [Build.follow, Id.run, pure, hb] at h
        cases h
        have hresolve := hfinish _ (congrArg Prod.fst hb)
        rw [hb] at hresolve
        exact hresolve

namespace Schema

variable {text : String}

theorem compileText_resolves (h : compileText text = .ok s) :
    (blankSheet.parse "schema.fbs" text).1.Resolves s := by
  have hresolve := compileText_eq_ok h
  have hregistered : (blankSheet.parse "schema.fbs" text).1.Registered :=
    .parse (.call (.empty "default") (.markFile _ _)) _ _
  have hresolves := hregistered.fresh.resolves (congrArg Prod.snd hresolve)
  rw [hresolve] at hresolves
  exact hresolves

/-- What was read from a text and resolved can be written. -/
theorem compileText_spelled (h : compileText text = .ok s) :
    s.Spelled ∧ s.Numbered ∧ s.Kept ∧ '\n' ∉ s.name.toList := by
  have hresolve := compileText_eq_ok h
  have hresolves := compileText_resolves h
  have hspelled : (blankSheet.parse "schema.fbs" text).1.Spelled :=
    ((spelled_empty "default").markFile _).parse _ _
  have hkept : (blankSheet.parse "schema.fbs" text).1.Kept :=
    ((kept_empty "default").markFile _).parse _ _
  obtain rfl : (blankSheet.parse "schema.fbs" text).1.resolve.1 = s := congrArg Prod.fst hresolve
  refine ⟨hspelled.resolves hresolves, hresolves.numbered, hkept.resolve, ?_⟩
  rw [hresolves.later.rest]
  show '\n' ∉ (blankSheet.parse "schema.fbs" text).1.name.toList
  have hdefault : blankSheet.name = "default" := Registers.name (.markFile _ _)
  have hblank : blankSheet.Indexed := (indexed_empty "default").markFile _
  rw [name_parse hblank, hdefault]
  simp

/-- What a text compiles to, from a part of it. -/
theorem exists_of_compileText {α : Type} {part : Schema → Option α} {a : α}
    (h : (compileText text).toOption.bind part = some a) :
    ∃ s, compileText text = .ok s ∧ part s = some a := by
  cases hs : compileText text with
  | error e =>
    rw [hs] at h
    cases h
  | ok s =>
    rw [hs] at h
    exact ⟨s, rfl, h⟩

/-- The paths of a compiled text, without writing it. -/
theorem exists_assigned_perm {ps : List String} (h : (compileText text).toOption.bind (fun s =>
      some (objects [] s.namespaces ++ s.defined.map s.qualifiedName)) = some ps) :
    ∃ s, compileText text = .ok s ∧ (assigned s.script.render).Perm ps := by
  obtain ⟨s, hs, hps⟩ := exists_of_compileText h
  obtain ⟨hspelled, hnumbered, -, hname⟩ := compileText_spelled hs
  rw [← Option.some.inj hps]
  exact ⟨s, hs, assigned_perm hspelled hnumbered hname⟩

/-- The paths that a compiled text assigns to are distinct exactly if no two types have one qualified
name and none is called like a namespace or an ancestor of one.  The first is so where the names of
types have no dots. -/
theorem nodup_assigned_iff (h : compileText text = .ok s) :
    ((assigned s.script.render).Nodup ↔ s.Distinct ∧ s.Apart) ∧
      ((∀ t ∈ s.types, '.' ∉ t.name.toList) → s.Distinct) := by
  obtain ⟨hspelled, hnumbered, hkept, hname⟩ := compileText_spelled h
  exact ⟨nodup_assigned hspelled hnumbered hkept hname, distinct_of_dotless hkept⟩

/-- An enum, a struct and a table, in namespaces below one another. -/
def garden : String :=
  "namespace a.b; enum E : byte \x7b X \x7d struct P \x7b x: int; \x7d " ++
    "namespace a; table T \x7b e: a.b.E; p: a.b.P; \x7d"

theorem nodup_assigned_iff_garden : ∃ s, compileText garden = .ok s ∧
    (assigned s.script.render).Nodup ∧ s.Distinct ∧ s.Apart := by
  have hpaths : ∃ s, compileText garden = .ok s ∧
      (assigned s.script.render).Perm ["a", "a.b", "a.b.E", "a.b.P", "a.T"] :=
    exists_assigned_perm (by decide +kernel)
  refine hpaths.imp fun s hs => ?_
  have hnodup : (assigned s.script.render).Nodup := hs.2.nodup_iff.2 (by decide)
  exact ⟨hs.1, hnodup, (nodup_assigned_iff hs.1).1.1 hnodup⟩

/-- A table of this text is called like the namespace of another. -/
def overlap : String :=
  "namespace x.a; table B \x7b n: int; \x7d namespace x; table a \x7b b: x.a.B; \x7d"

/-- The class of the one table takes the place of the object that holds the other. -/
theorem compileText_overwrites : ∃ s, compileText overlap = .ok s ∧
    (assigned s.script.render).Perm ["x", "x.a", "x.a.B", "x.a"] ∧
      ¬ (assigned s.script.render).Nodup := by
  have hpaths : ∃ s, compileText overlap = .ok s ∧
      (assigned s.script.render).Perm ["x", "x.a", "x.a.B", "x.a"] :=
    exists_assigned_perm (by decide +kernel)
  refine hpaths.imp fun s hs => ⟨hs.1, hs.2, fun hnodup => ?_⟩
  exact absurd (hs.2.nodup_iff.1 hnodup) (by decide)

end Schema

end FlatSchema
