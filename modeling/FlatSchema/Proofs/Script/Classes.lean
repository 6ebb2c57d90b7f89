import FlatSchema.Proofs.Script.Presents

/-!
# Classes, as the text of a script shows them

The text of a script starts with a line that names the schema.  Behind it, each type is a block of its
own (`blocks_namespaceLines`), and a class is a list of members: a head, and the lines inside
(`members`).  So the members of a class are read back from the text, whatever the schema is called
(`members?_eq_some`).
-/

namespace FlatSchema

/-! ## Parts of a text -/

/-- What stands between the front and the back of a text. -/
def within? (front back text : String) : Option String :=
  let rest := text.toList.drop front.toList.length
  if front.toList.isPrefixOf text.toList ∧ back.toList.isSuffixOf rest then
    some (String.ofList (rest.take (rest.length - back.toList.length)))
  else none

theorem within?_eq_some_iff {front back text x : String} :
    within? front back text = some x ↔ text = front ++ x ++ back := by
  simp only [within?, List.isPrefixOf_iff_prefix, List.isSuffixOf_iff_suffix]
  constructor
  · intro h
    split at h
    · next hends =>
      obtain ⟨⟨rest, hfront⟩, hback⟩ := hends
      rw [← hfront, List.drop_left] at h hback
      obtain ⟨middle, hmiddle⟩ := hback
      rw [← hmiddle, List.length_append, Nat.add_sub_cancel, List.take_left] at h
      obtain rfl := Option.some.inj h
      apply String.toList_injective
      rw [← hfront, ← hmiddle, String.toList_append, String.toList_append, String.toList_ofList,
        List.append_assoc]
    · cases h
  · rintro rfl
    have hlist : (front ++ x ++ back).toList = front.toList ++ (x.toList ++ back.toList) := by
      rw [String.toList_append, String.toList_append, List.append_assoc]
    rw [hlist, List.drop_left, if_pos ⟨List.prefix_append _ _, List.suffix_append _ _⟩,
      List.length_append, Nat.add_sub_cancel, List.take_left, String.ofList_toList]

theorem within?_append (front x back : String) : within? front back (front ++ x ++ back) = some x :=
  within?_eq_some_iff.2 rfl

/-- A text that starts in another way. -/
theorem within?_eq_none_of_front {front front' : String} (back text : String)
    (h : ¬ front.toList <+: front'.toList) (h' : ¬ front'.toList <+: front.toList) :
    within? front back (front' ++ text) = none := by
  rw [Option.eq_none_iff_forall_ne_some]
  intro x hx
  have heq := congrArg String.toList (within?_eq_some_iff.1 hx)
  rw [String.toList_append, String.append_assoc, String.toList_append] at heq
  have hfront : front.toList <+: front'.toList ++ text.toList := ⟨_, heq.symm⟩
  exact (List.prefix_or_prefix_of_prefix hfront (List.prefix_append _ _)).elim h h'

theorem append_ne_of_front {front text : String} (h : ¬ front.toList <+: text.toList) (back : String) :
    front ++ back ≠ text := by
  rintro rfl
  rw [String.toList_append] at h
  exact h (List.prefix_append _ _)

theorem head?_append_of_some {front : String} {c : Char} (h : front.toList.head? = some c)
    (back : String) : (front ++ back).toList.head? = some c := by
  rw [String.toList_append, List.head?_append, h]
  rfl

/-- Two pieces of a text in one. -/
theorem append_joined {a b ab : String} (h : a ++ b = ab) (text : String) :
    a ++ (b ++ text) = ab ++ text := by
  rw [← String.append_assoc, h]

/-- A line without its indentation. -/
def trimmed (line : String) : String :=
  String.ofList (line.toList.dropWhile (· = ' '))

/-- No line of the script starts with a space, but for its depth. -/
def Flush (script : Script) : Prop :=
  ∀ l ∈ script, l.text.toList.head? ≠ some ' '

theorem trimmed_render {l : Line} (h : l.text.toList.head? ≠ some ' ') : trimmed l.render = l.text := by
  by_cases htext : l.text = ""
  · rw [Line.render, if_pos htext, htext]
    rfl
  · obtain ⟨c, cs, hcs⟩ := List.exists_cons_of_ne_nil (by simpa using htext : l.text.toList ≠ [])
    have hc : c ≠ ' ' := by
      rintro rfl
      exact h (by rw [hcs]; rfl)
    have hdrop : l.render.toList.dropWhile (· = ' ') = l.text.toList := dropWhile_render hcs hc
    rw [trimmed, hdrop, String.ofList_toList]

theorem Leads.flush {text : String} (h : Leads text) : Flush [.top text] := by
  obtain ⟨c, cs, htext, hc, -⟩ := h
  intro l hl
  rw [List.mem_singleton.1 hl, Line.top, htext]
  exact fun hhead => hc (Option.some.inj hhead)

theorem Flush.cons {l : Line} {script : Script} (hl : Flush [l]) (h : Flush script) :
    Flush (l :: script) :=
  List.forall_mem_cons.2 ⟨hl l List.mem_cons_self, h⟩

theorem flush_of_nested {P : String → Prop} {script : Script} (h : script.Nested P) : Flush script := by
  intro l hl
  rcases h.mem l hl with htext | ⟨-, -, c, cs, htext, hc⟩
  · rw [htext]
    exact fun hhead => by cases hhead
  · rw [htext]
    exact fun hhead => hc (Option.some.inj hhead)

/-! ## Members -/

/-- The members of a class, from the lines inside: the head of each, and the lines in it. -/
def members (ls : List (Nat × String)) : List (String × List String) :=
  (blocks (ls.map fun l => (l.1 - 1, l.2))).map fun b => (trimmed b.1, b.2.map (trimmed ·.2))

namespace Script

/-- The lines inside a block. -/
def inner (body : Script) : List (Nat × String) :=
  (body.map Line.deeper).map Line.tag

theorem members_inner (body : Script) : members body.inner =
    (FlatSchema.blocks (body.map (Line.tagIn 1))).map
      fun b => (trimmed b.1, b.2.map (trimmed ·.2)) := by
  have hlower : body.inner.map (fun l => (l.1 - 1, l.2)) = body.map (Line.tagIn 1) := by
    rw [inner, List.map_map, List.map_map]
    rfl
  rw [members, hlower]

/-- A member shows up with its head and its lines. -/
theorem members_member {head : String} {body : Script} (hhead : Leads head) (hbody : Flush body)
    (rest : Script) : members (inner (Schema.member head body ++ rest)) =
      (head ++ " \x7b", body.map (·.text)) :: members rest.inner := by
  have hblocks : FlatSchema.blocks ((Schema.member head body ++ rest).map (Line.tagIn 1)) =
      (Line.render ⟨1, head ++ " \x7b"⟩, (body.map Line.deeper).map (Line.tagIn 1)) ::
        FlatSchema.blocks (rest.map (Line.tagIn 1)) := by
    rw [List.map_append, Schema.member, List.map_cons, List.cons_append,
      blocks_cons_of_not (by decide +kernel), blocks_block_in 1 body (by simp)]
  have htrimmed : trimmed (Line.render ⟨1, head ++ " \x7b"⟩) = head ++ " \x7b" := by
    obtain ⟨c, cs, htext, hc, -⟩ := hhead.append " \x7b"
    refine trimmed_render (l := ⟨1, head ++ " \x7b"⟩) ?_
    rw [htext]
    exact fun h => hc (Option.some.inj h)
  have hlines : ((body.map Line.deeper).map (Line.tagIn 1)).map (trimmed ·.2) = body.map (·.text) := by
    rw [List.map_map, List.map_map]
    exact List.map_congr_left fun l hl => trimmed_render (l := l.deeper.shift 1) (hbody l hl)
  rw [members_inner, hblocks, List.map_cons, htrimmed, hlines, members_inner]

theorem members_flatMap {ms : List (String × Script)} (h : ∀ m ∈ ms, Leads m.1 ∧ Flush m.2) :
    members (inner (ms.flatMap fun m => Schema.member m.1 m.2)) =
      ms.map fun m => (m.1 ++ " \x7b", m.2.map (·.text)) := by
  induction ms with
  | nil => rfl
  | cons m ms ih =>
    obtain ⟨hlead, hflush⟩ := h m List.mem_cons_self
    rw [List.flatMap_cons, members_member hlead hflush,
      ih fun m' hm' => h m' (List.mem_cons_of_mem m hm'), List.map_cons]

end Script

/-! ## Definitions -/

namespace Schema

open Script

variable {s : Schema} {id : TypeId}

/-- The members of the root table besides its getters. -/
def rootParts (s : Schema) (id : TypeId) : List (String × Script) :=
  if s.rootType = some id then
    ("static create(reader)", [.top ("return new " ++ s.classPath id ++
        "(reader, reader.int32(reader.position) + reader.position);")]) ::
      s.fileIdentifier.toList.map fun text =>
        ("static identifier(reader)", [.top ("return reader.identifier('" ++ text ++ "');")])
  else []

/-- How the getters of a class read. -/
def getterBody (s : Schema) (k : Kind) : Field → Script :=
  if k.isTable then s.tableGetter else s.structGetter

/-- The members of a class, by their heads and bodies. -/
def parts (s : Schema) (id : TypeId) (t : TypeDecl) : List (String × Script) :=
  ("constructor(reader, offset)", [.top "this._reader = reader;", .top "this._offset = offset;"]) ::
    (if t.kind.isTable then s.rootParts id else []) ++
      t.fields.map fun f => ("get " ++ f.name ++ "()", s.getterBody t.kind f)

/-- What opens the block of a type. -/
def definitionHead (s : Schema) (id : TypeId) (t : TypeDecl) : String :=
  if t.kind.isEnum then s.classPath id ++ " =" else s.classPath id ++ " = class " ++ t.name

/-- What stands inside the block of a type. -/
def definitionBody (s : Schema) (id : TypeId) (t : TypeDecl) : Script :=
  if t.kind.isEnum then entryLines t.kind.values
  else (s.parts id t).flatMap fun m => member m.1 m.2

theorem flatMap_rootParts (s : Schema) (id : TypeId) :
    ((s.rootParts id).flatMap fun m => member m.1 m.2) = s.rootMembers id := by
  unfold rootParts rootMembers
  split
  · cases s.fileIdentifier with
    | none => rw [Option.toList_none, List.map_nil, List.flatMap_cons, List.flatMap_nil]
    | some text =>
      rw [Option.toList_some, List.map_singleton, List.flatMap_cons, List.flatMap_singleton]
  · rfl

theorem flatMap_parts (s : Schema) (id : TypeId) (t : TypeDecl) :
    ((s.parts id t).flatMap fun m => member m.1 m.2) =
      constructorMember ++ ((if t.kind.isTable then s.rootMembers id else []) ++
        t.fields.flatMap (getter (s.getterBody t.kind))) := by
  have hroot : ((if t.kind.isTable then s.rootParts id else []).flatMap fun m => member m.1 m.2) =
      if t.kind.isTable then s.rootMembers id else [] := by
    split
    · exact flatMap_rootParts s id
    · rfl
  rw [parts, List.cons_append, List.flatMap_cons, List.flatMap_append, hroot, List.flatMap_map]
  rfl

/-- All but the unions are defined by a block. -/
theorem definition_eq_block {t : TypeDecl} (h : t.kind.isUnion = false) : s.definition id t =
    .blank :: Script.block (s.definitionHead id t) (s.definitionBody id t) ";" := by
  unfold definition definitionHead definitionBody
  rw [flatMap_parts]
  cases hk : t.kind with
  | table fields =>
    rw [TypeDecl.fields, hk]
    rfl
  | struct fields size =>
    rw [TypeDecl.fields, hk]
    rfl
  | enum base values default => rfl
  | union values =>
    rw [hk] at h
    cases h

/-! ## Blocks -/

/-- The block of a type, as it is read back. -/
def blockOf (s : Schema) (id : TypeId) : String × List (Nat × String) :=
  match s.types[id]? with
  | some t => (s.definitionHead id t ++ " \x7b", (s.definitionBody id t).inner)
  | none => ("", [])

theorem blocks_typesOf (s : Schema) (ids : List TypeId) (ls : List (Nat × String)) :
    FlatSchema.blocks ((ids.flatMap fun id =>
      match s.types[id]? with
      | some t => s.definition id t
      | none => []).map Line.tag ++ ls) =
      (ids.filter fun id => (s.kind? id).any (!·.isUnion)).map s.blockOf ++ FlatSchema.blocks ls := by
  induction ids with
  | nil => rfl
  | cons id ids ih =>
    rw [List.flatMap_cons, List.map_append, List.append_assoc, List.filter_cons, kind?]
    cases ht : s.types[id]? with
    | none => exact ih
    | some t =>
      cases hu : t.kind.isUnion with
      | true =>
        have hnone : s.definition id t = [] := by
          unfold definition
          cases hk : t.kind with
          | union values => rfl
          | _ =>
            rw [hk] at hu
            cases hu
        simp only [hnone, hu, List.map_nil, List.nil_append, Option.map_some, Option.any_some,
          Bool.not_true, Bool.false_eq_true, if_false]
        exact ih
      | false =>
        have hblock : s.blockOf id =
            (s.definitionHead id t ++ " \x7b", (s.definitionBody id t).inner) := by
          rw [blockOf, ht]
        simp only [definition_eq_block hu, hu, Option.map_some, Option.any_some, Bool.not_false,
          if_true, List.map_cons, List.cons_append, hblock]
        rw [blocks_cons_of_not (by decide +kernel), blocks_block _ (by simp), ih]
        rfl

theorem blocks_objectLines (paths : List String) (ls : List (Nat × String)) :
    FlatSchema.blocks ((paths.map objectLine).map Line.tag ++ ls) = FlatSchema.blocks ls := by
  induction paths with
  | nil => rfl
  | cons p paths ih =>
    rw [List.map_cons, List.map_cons, List.cons_append, blocks_cons_of_not ?_, ih]
    simp only [Line.tag, objectLine]
    rw [render_top, opens_append _ (by decide)]
    simp [opens]

/-- The namespaces from one on show their types. -/
theorem blocks_namespaceLines (s : Schema) (rest : List Namespace) (ls : List (Nat × String)) :
    ∀ (made : List String) (ns : NamespaceId),
      FlatSchema.blocks ((s.namespaceLines made ns rest).map Line.tag ++ ls) =
        ((List.range' ns rest.length).flatMap fun ns =>
          (s.children ns).filter fun id => (s.kind? id).any (!·.isUnion)).map s.blockOf ++
            FlatSchema.blocks ls := by
  induction rest with
  | nil => exact fun _ _ => rfl
  | cons n rest ih =>
    intro made ns
    have htypes : ∀ ls, FlatSchema.blocks ((s.typesOf ns).map Line.tag ++ ls) = _ :=
      blocks_typesOf s (s.children ns)
    rw [List.length_cons, List.range'_succ, List.flatMap_cons, List.map_append, List.append_assoc]
    unfold namespaceLines
    split
    · rw [List.map_append, List.append_assoc, htypes, ih]
    · dsimp only
      rw [List.map_append, List.map_append, List.map_cons, List.append_assoc, List.append_assoc,
        List.cons_append, blocks_cons_of_not (by decide +kernel), blocks_objectLines, htypes, ih]

/-! ## Classes -/

/-- The first line of a script. -/
def header (s : Schema) : String :=
  "const $root = flatbuffers.get('" ++ s.name ++ "');" ++ "\n"

/-- The members of the class of a type, from the text of the script.  The blocks of the text come in
the order of `defined`, and that of a class opens with its path and its name. -/
def members? (s : Schema) (id : TypeId) : Option (List (String × List String)) := do
  let t ← s.types[id]?
  let text ← within? s.header "" s.script.render
  let (ls, _) ← nesting 0 (Text.pieces '\n' text)
  let (head, lines) ← (FlatSchema.blocks ls)[s.defined.idxOf id]?
  if head = "$root." ++ s.qualifiedName id ++ " = class " ++ t.name ++ " \x7b" then
    some (FlatSchema.members lines)
  else none

theorem render_script (s : Schema) :
    s.script.render = s.header ++ Script.render (s.namespaceLines [] 0 s.namespaces) := by
  have hfeed : "\n".toList = ['\n'] := by decide
  have hcons := toList_render_cons (.top ("const $root = flatbuffers.get('" ++ s.name ++ "');"))
    (s.namespaceLines [] 0 s.namespaces)
  rw [render_top] at hcons
  apply String.toList_injective
  unfold script header
  rw [hcons]
  simp only [String.toList_append, List.append_assoc, hfeed, List.singleton_append]

theorem blocks_script (s : Schema) :
    FlatSchema.blocks ((s.namespaceLines [] 0 s.namespaces).map Line.tag ++ [(0, "")]) =
      s.defined.map s.blockOf := by
  have hnil : FlatSchema.blocks [(0, "")] = [] := blocks_cons_of_not (by decide +kernel) []
  rw [blocks_namespaceLines, hnil, List.append_nil, ← List.range_eq_range', defined]

theorem flush_rootParts {m : String × Script} (h : m ∈ s.rootParts id) : Leads m.1 ∧ Flush m.2 := by
  unfold rootParts at h
  split at h
  · rcases List.mem_cons.1 h with rfl | h
    · have hnew : Leads "return new " := leads_ofList (by decide) (by decide)
      exact ⟨leads_ofList (by decide) (by decide), ((hnew.append _).append _).flush⟩
    · obtain ⟨text, -, rfl⟩ := List.mem_map.1 h
      have hreturn : Leads "return reader.identifier('" := leads_ofList (by decide) (by decide)
      exact ⟨leads_ofList (by decide) (by decide), ((hreturn.append _).append _).flush⟩
  · exact absurd h List.not_mem_nil

theorem flush_getterBody (hs : s.Spelled) (k : Kind) {f : Field} (hf : f.Spelled) :
    Flush (s.getterBody k f) := by
  unfold getterBody
  split
  · exact flush_of_nested (nested_tableGetter hs hf)
  · exact flush_of_nested (nested_structGetter hs hf)

theorem flush_parts (hs : s.Spelled) {t : TypeDecl} (ht : s.types[id]? = some t)
    {m : String × Script} (h : m ∈ s.parts id t) : Leads m.1 ∧ Flush m.2 := by
  rcases List.mem_cons.1 h with rfl | h
  · have hreader : Leads "this._reader = reader;" := leads_ofList (by decide) (by decide)
    have hoffset : Leads "this._offset = offset;" := leads_ofList (by decide) (by decide)
    exact ⟨leads_ofList (by decide) (by decide), .cons hreader.flush hoffset.flush⟩
  · rcases List.mem_append.1 h with h | h
    · split at h
      · exact flush_rootParts h
      · exact absurd h List.not_mem_nil
    · obtain ⟨f, hf, rfl⟩ := List.mem_map.1 h
      exact ⟨leads_getter f, flush_getterBody hs t.kind ((hs.kind id t ht).1 f hf)⟩

/-- The text shows every class with its members. -/
theorem members?_eq_some (hs : s.Spelled) (hn : s.Numbered) (hkept : s.Kept) {t : TypeDecl}
    (ht : s.types[id]? = some t) (hk : t.kind.isTable = true ∨ t.kind.isStruct = true) :
    s.members? id = some ((s.parts id t).map fun m => (m.1 ++ " \x7b", m.2.map (·.text))) := by
  obtain ⟨henum, hunion⟩ := kind_of_class hk
  have hkind : s.kind? id = some t.kind := by rw [kind?, ht, Option.map_some]
  have hmem : id ∈ s.defined := (mem_defined hkept).2 ⟨t.kind, hkind, hunion⟩
  have htext : within? s.header "" s.script.render =
      some (Script.render (s.namespaceLines [] 0 s.namespaces)) := by
    rw [render_script, within?_eq_some_iff, String.append_empty]
  have hnested := (lists_namespaceLines hs hn s.namespaces [] 0 hs.namespaces).nested.nesting_render
  have hblock : (s.defined.map s.blockOf)[s.defined.idxOf id]? = some (s.blockOf id) := by
    rw [List.getElem?_map, List.getElem?_idxOf hmem, Option.map_some]
  have hblockOf : s.blockOf id = ("$root." ++ s.qualifiedName id ++ " = class " ++ t.name ++ " \x7b",
      Script.inner ((s.parts id t).flatMap fun m => member m.1 m.2)) := by
    rw [blockOf, ht]
    simp only [definitionHead, definitionBody, henum, Bool.false_eq_true, if_false, classPath]
  -- the block of the type is read at its place, and its head is that of the class
  rw [members?, ht, htext]
  simp only [Option.bind_eq_bind, Option.bind_some, hnested, blocks_script, hblock, hblockOf, if_true]
  rw [members_flatMap fun m hm => flush_parts hs ht hm]

end Schema

end FlatSchema
