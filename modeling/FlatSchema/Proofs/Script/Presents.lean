import FlatSchema.Proofs.Consistency
import FlatSchema.Proofs.Script.Members
import FlatSchema.Proofs.Script.Objects
import Mathlib.Data.List.Forall2
import Mathlib.Data.List.Nodup

/-!
# What a script shows

The text of a script is read back line by line: its blocks are the tables, structs and enums of the
schema in order, a class has one getter for each field and an enum one line for each value, and every
object is made of a class that the same text defines (`Presents`).  This holds for every schema that
was read from files and resolved, whatever its names are (`nesting_script`).
-/

namespace FlatSchema

/-- The line starts with `get`, wherever it is indented to. -/
def isGetter (line : String) : Bool :=
  "get ".toList.isPrefixOf (line.toList.dropWhile (· = ' '))

namespace Schema

/-- The types of a script: by namespace, then by declaration, and without the unions. -/
def defined (s : Schema) : List TypeId :=
  (List.range s.namespaces.length).flatMap fun ns =>
    (s.children ns).filter fun id => (s.kind? id).any (!·.isUnion)

/-- A block shows a type, with all its fields or values in order. -/
inductive Shows (s : Schema) (id : TypeId) : String × List (Nat × String) → Prop where
  | record {t : TypeDecl} {lines : List (Nat × String)} (ht : s.types[id]? = some t)
      (hk : t.kind.isTable = true ∨ t.kind.isStruct = true)
      (hgetters : lines.filter (isGetter ·.2) =
        t.fields.map fun f => (1, "    get " ++ f.name ++ "() \x7b")) :
      Shows s id ("$root." ++ s.qualifiedName id ++ " = class " ++ t.name ++ " \x7b", lines)
  | enum {t : TypeDecl} {lines : List (Nat × String)} (ht : s.types[id]? = some t)
      (hk : t.kind.isEnum = true) (hlength : lines.length = t.kind.values.length)
      (hlines : ∀ i e, t.kind.values[i]? = some e → ∃ n, e.value = some n ∧
        lines[i]? = some (1, "    " ++ e.name ++ ": " ++ toString n.toInt ++
          if i + 1 < t.kind.values.length then "," else "")) :
      Shows s id ("$root." ++ s.qualifiedName id ++ " = \x7b", lines)

/-- What the lines of a text show of a schema. -/
structure Presents (s : Schema) (ls : List (Nat × String)) : Prop where
  indented : ∀ l ∈ ls, l.2 ≠ "" → indentation l.2 = 4 * l.1
  shown : List.Forall₂ s.Shows s.defined (blocks ls)
  /-- Every type but the unions is shown, and once. -/
  listed : s.defined.Nodup ∧
    ∀ id, id ∈ s.defined ↔ ∃ k, s.kind? id = some k ∧ k.isUnion = false
  /-- The path of an object that is made inside a block is that of a class. -/
  closed : ∀ b ∈ blocks ls, ∀ l ∈ b.2, ∀ q : String, '(' ∉ q.toList →
    ("new $root." ++ q ++ "(").toList <:+: l.2.toList →
      ∃ b' ∈ blocks ls, ∃ name, b'.1 = "$root." ++ q ++ " = class " ++ name ++ " \x7b"

/-! ## Members -/

open Script

variable {s : Schema} {id : TypeId}

theorem nested_member {head : String} {body : Script} (h : Statement head)
    (hbody : Nested s.Inner body) : Nested s.Inner (member head body) :=
  .cons .blank (nested_block h hbody)

theorem nested_constructorMember (s : Schema) : Nested s.Inner constructorMember := by
  refine nested_member (statement_ofList (by decide) (by decide))
    (.cons (nested_statement ?_) (nested_statement ?_))
  · exact statement_ofList (by decide) (by decide)
  · exact statement_ofList (by decide) (by decide)

theorem nested_identifier {text : String} (hlen : text.length = 4)
    (hline : ∀ c ∈ text.toList, isNewline c = false) :
    Nested s.Inner [.top ("return reader.identifier('" ++ text ++ "');")] := by
  have hfront : Statement "return reader.identifier('" := statement_ofList (by decide) (by decide)
  have hlast : opens ("return reader.identifier('" ++ text ++ "');") = false := by
    rw [opens_append _ (by decide)]
    simp [opens]
  obtain ⟨c, cs, htext, -, -, hc⟩ := hfront.exists_cons
  refine .line ((hfront.leads.append _).append _) ?_ (of_decide_eq_false hlast) ⟨?_, ?_⟩
  · rw [String.toList_append, String.toList_append, List.mem_append, List.mem_append]
    rintro ((hmem | hmem) | hmem)
    · exact (hfront.2 _ hmem).1 rfl
    · exact absurd (hline _ hmem) (by decide)
    · exact absurd hmem (by simp)
  · refine onlyClasses_of_quoted (fun hmem => (hfront.2 _ hmem).2.1 rfl) hlen ?_
    rw [String.toList_append, String.toList_append]
    rfl
  · rw [String.toList_append, String.toList_append, htext, List.cons_append, List.cons_append,
      List.head?_cons]
    exact fun hg => hc (Option.some.inj hg)

theorem nested_rootMembers (hs : s.Spelled) (hid : s.IsClass id) :
    Nested s.Inner (s.rootMembers id) := by
  unfold rootMembers
  split
  · refine .append (nested_member (statement_ofList (by decide) (by decide)) (nested_path hs hid ?_ ?_ ?_)) ?_
    · exact statement_ofList (by decide) (by decide)
    · exact quiet_ofList (by decide)
    · simp
    · split
      · next text htext =>
        obtain ⟨hlen, hline⟩ := hs.fileIdentifier text htext
        exact nested_member (statement_ofList (by decide) (by decide)) (nested_identifier hlen hline)
      · exact .nil
  · exact .nil

theorem quiet_getter {f : Field} (hf : IsName f.name) : Quiet ("get " ++ f.name ++ "()") :=
  quiet_append.2 ⟨quiet_append.2 ⟨quiet_ofList (by decide), hf.quiet⟩, quiet_ofList (by decide)⟩

theorem leads_getter (f : Field) : Leads ("get " ++ f.name ++ "()") := by
  have hget : Leads "get " := leads_ofList (by decide) (by decide)
  exact (hget.append _).append _

theorem nested_getter {body : Field → Script} {f : Field} (hf : IsName f.name)
    (hbody : Nested s.Inner (body f)) : Nested s.OnlyClasses (getter body f) := by
  have hquiet := quiet_getter hf
  refine .cons .blank (.block (leads_getter f) (fun hmem => (hquiet _ hmem).1 rfl) List.not_mem_nil
    List.not_mem_nil (onlyClasses_of_not_mem ?_) (onlyClasses_of_not_mem (by simp [closing]))
    (hbody.imp fun _ h => h.1))
  rw [String.toList_append, List.mem_append]
  exact not_or.2 ⟨fun hmem => (hquiet _ hmem).2.1 rfl, by simp⟩

/-! ## Getters of a class -/

theorem isGetter_render {depth : Nat} {text : String} {c : Char} {cs : List Char}
    (htext : text.toList = c :: cs) (hspace : c ≠ ' ') (hc : c ≠ 'g') :
    isGetter (Line.render ⟨depth, text⟩) = false := by
  rw [isGetter, dropWhile_render htext hspace, htext]
  have hget : "get ".toList = ['g', 'e', 't', ' '] := String.toList_ofList
  rw [hget, List.isPrefixOf_cons_cons, beq_eq_false_iff_ne.2 (Ne.symm hc), Bool.false_and]

/-- No getter starts inside a member. -/
theorem filter_inner {body : Script} (h : Nested s.Inner body) (depth : Nat) :
    ((body.map (Line.shift depth)).map Line.tag).filter (isGetter ·.2) = [] := by
  rw [List.filter_eq_nil_iff]
  intro l hl
  rw [List.map_map] at hl
  obtain ⟨l', hl', rfl⟩ := List.mem_map.1 hl
  rcases h.mem l' hl' with htext | ⟨⟨-, hhead⟩, -, c, cs, htext, hspace⟩
  · have hrender : (l'.shift depth).render = "" := if_pos htext
    simp only [Function.comp_apply, Line.tag]
    rw [hrender]
    simp [isGetter]
  · rw [htext] at hhead
    have hfalse : isGetter (l'.shift depth).render = false :=
      isGetter_render htext hspace fun hc => hhead (congrArg some hc)
    simp only [Function.comp_apply, Line.tag]
    rw [hfalse]
    decide

theorem render_one {text : String} (h : text ≠ "") : Line.render ⟨1, text⟩ = "    " ++ text :=
  if_neg h

theorem filter_getter {body : Field → Script} {f : Field} (hbody : Nested s.Inner (body f)) :
    (((getter body f).map (Line.shift 1)).map Line.tag).filter (isGetter ·.2) =
      [(1, "    get " ++ f.name ++ "() \x7b")] := by
  have hlead := (leads_getter f).append " \x7b"
  have hhead : Line.render ⟨1, "get " ++ f.name ++ "()" ++ " \x7b"⟩ =
      "    get " ++ f.name ++ "() \x7b" := by
    rw [render_one hlead.ne_empty]
    apply String.toList_injective
    simp [String.toList_append]
  have hgetter : isGetter ("    get " ++ f.name ++ "() \x7b") = true := by
    simp [isGetter, String.toList_append]
  have hcons : (closing "").toList = ['\x7d'] := by simp [closing]
  have hclosing : isGetter (Line.render ⟨1, closing ""⟩) = false :=
    isGetter_render hcons (by decide) (by decide)
  rw [getter, member, List.map_cons, map_shift_block, List.map_cons, List.map_append, List.map_cons,
    List.cons_append, List.filter_cons_of_neg (by decide +kernel), List.filter_cons_of_pos ?_,
    List.filter_append, filter_inner hbody, List.nil_append, List.map_singleton,
    List.filter_cons_of_neg ?_, List.filter_nil]
  · simp only [Line.tag]
    rw [hhead]
  · simp only [Line.tag]
    rw [hclosing]
    decide
  · simp only [Line.tag]
    rw [hhead, hgetter]

theorem filter_getters {body : Field → Script} {fields : List Field}
    (hbody : ∀ f ∈ fields, Nested s.Inner (body f)) :
    (((fields.flatMap (getter body)).map (Line.shift 1)).map Line.tag).filter (isGetter ·.2) =
      fields.map fun f => (1, "    get " ++ f.name ++ "() \x7b") := by
  induction fields with
  | nil => rfl
  | cons f fields ih =>
    rw [List.flatMap_cons, List.map_append, List.map_append, List.filter_append,
      filter_getter (hbody f List.mem_cons_self), ih fun g hg => hbody g (List.mem_cons_of_mem f hg),
      List.map_cons, List.singleton_append]

/-! ## Values of an enum -/

theorem length_entryLines (es : List Entry) : (entryLines es).length = es.length := by
  fun_induction entryLines es with
  | case1 => rfl
  | case2 => rfl
  | case3 e e' es ih => rw [List.length_cons, ih, List.length_cons, List.length_cons, List.length_cons]

theorem getElem?_entryLines (es : List Entry) : ∀ (i : Nat) (e : Entry), es[i]? = some e →
    (entryLines es)[i]? = some (.top (entryText e ++ if i + 1 < es.length then "," else "")) := by
  fun_induction entryLines es with
  | case1 =>
    intro i e h
    simp at h
  | case2 e =>
    intro i e' h
    cases i with
    | zero =>
      cases h
      simp
    | succ i => simp at h
  | case3 e e' es ih =>
    intro i x h
    cases i with
    | zero =>
      cases h
      simp
    | succ i =>
      rw [List.getElem?_cons_succ] at h
      rw [List.getElem?_cons_succ, ih i x h]
      simp

/-- Every value of an enum is a number. -/
def Numbered (s : Schema) : Prop :=
  ∀ (id : TypeId) t, s.types[id]? = some t → t.kind.isEnum = true →
    ∀ e ∈ t.kind.values, ∃ n, e.value = some n

theorem nested_entry {e : Entry} {n : Int64} (he : IsName e.name) (hn : e.value = some n) (more : String)
    (hmore : Quiet more) : Nested s.OnlyClasses [.top (entryText e ++ more)] := by
  have htext : entryText e = e.name ++ ": " ++ toString n.toInt := by
    rw [entryText, hn]
    rfl
  have hquiet : Quiet (entryText e ++ more) := by
    rw [htext]
    exact quiet_append.2 ⟨quiet_append.2 ⟨quiet_append.2 ⟨he.quiet, quiet_ofList (by decide)⟩,
      quiet_int _⟩, hmore⟩
  obtain ⟨c, cs, hname, hc, -⟩ := he
  have hlead : Leads e.name := by
    refine ⟨c, cs, hname, ?_, ?_⟩
    · rintro rfl
      exact absurd hc (by decide)
    · rintro rfl
      exact absurd hc (by decide)
  refine .line ?_ (fun hmem => (hquiet _ hmem).1 rfl) ?_ (onlyClasses_of_not_mem ?_)
  · rw [htext]
    exact ((hlead.append _).append _).append _
  · exact fun hlast => (hquiet _ (List.mem_of_getLast? hlast)).2.2 rfl
  · exact fun hmem => (hquiet _ hmem).2.1 rfl

theorem nested_entryLines {es : List Entry} (hname : ∀ e ∈ es, IsName e.name)
    (hnumber : ∀ e ∈ es, ∃ n, e.value = some n) : Nested s.OnlyClasses (entryLines es) := by
  fun_induction entryLines es with
  | case1 => exact .nil
  | case2 e =>
    obtain ⟨n, hn⟩ := hnumber e List.mem_cons_self
    have hentry : Nested s.OnlyClasses [.top (entryText e ++ "")] :=
      nested_entry (hname e List.mem_cons_self) hn "" (quiet_ofList (by decide))
    rw [String.append_empty] at hentry
    exact hentry
  | case3 e e' es ih =>
    obtain ⟨n, hn⟩ := hnumber e List.mem_cons_self
    exact .cons (nested_entry (hname e List.mem_cons_self) hn "," (quiet_ofList (by decide)))
      (ih (fun x hx => hname x (List.mem_cons_of_mem e hx))
        fun x hx => hnumber x (List.mem_cons_of_mem e hx))

/-! ## Lines that make objects -/

/-- Indentation is not part of what a line makes. -/
theorem new_of_indented {c d : Char} (h : c ≠ d) {cs text : List Char} (n : Nat)
    (hnew : c :: cs <:+: List.replicate n d ++ text) : c :: cs <:+: text := by
  induction n with
  | zero => exact hnew
  | succ n ih =>
    rw [List.replicate_succ, List.cons_append, List.infix_cons_iff] at hnew
    rcases hnew with hnew | hnew
    · exact absurd (List.cons_prefix_cons.1 hnew).1 h
    · exact ih hnew

theorem OnlyClasses.render {text : String} (h : s.OnlyClasses text) (depth : Nat) :
    s.OnlyClasses (Line.render ⟨depth, text⟩) := by
  by_cases hempty : text = ""
  · rw [Line.render, if_pos hempty]
    exact onlyClasses_of_not_mem List.not_mem_nil
  · intro q hq hnew
    have hcons : ("new $root." ++ q ++ "(").toList =
        'n' :: ("ew $root.".toList ++ q.toList ++ ['(']) := by
      simp [String.toList_append]
    refine h q hq ?_
    rw [toList_render hempty, hcons] at hnew
    rw [hcons]
    exact new_of_indented (by decide) _ hnew

theorem onlyClasses_lines {body : Script} (h : Nested s.OnlyClasses body) :
    ∀ l ∈ (body.map Line.deeper).map Line.tag, s.OnlyClasses l.2 := by
  intro l hl
  rw [List.map_map] at hl
  obtain ⟨l', hl', rfl⟩ := List.mem_map.1 hl
  rcases h.mem l' hl' with htext | ⟨hclasses, -⟩
  · have hrender : l'.deeper.render = "" := if_pos htext
    simp only [Function.comp_apply, Line.tag]
    rw [hrender]
    exact onlyClasses_of_not_mem List.not_mem_nil
  · exact hclasses.render _

/-! ## Definitions -/

/-- A block shows a type, and makes objects of classes only. -/
def Defines (s : Schema) (id : TypeId) (b : String × List (Nat × String)) : Prop :=
  s.Shows id b ∧ ∀ l ∈ b.2, s.OnlyClasses l.2

/-- The blocks of a script define the types, one each and in this order. -/
structure Lists (s : Schema) (ids : List TypeId) (script : Script) : Prop where
  nested : Nested (fun _ => True) script
  blocks : ∃ bs, List.Forall₂ s.Defines ids bs ∧
    ∀ ls, FlatSchema.blocks (script.map Line.tag ++ ls) = bs ++ FlatSchema.blocks ls

theorem Lists.nil : s.Lists [] [] :=
  ⟨.nil, [], .nil, fun _ => rfl⟩

theorem Lists.append {ids ids' : List TypeId} {a b : Script} (ha : s.Lists ids a)
    (hb : s.Lists ids' b) : s.Lists (ids ++ ids') (a ++ b) := by
  obtain ⟨bs, hbs, hblocks⟩ := ha.blocks
  obtain ⟨bs', hbs', hblocks'⟩ := hb.blocks
  refine ⟨.append ha.nested hb.nested, bs ++ bs', List.rel_append hbs hbs', fun ls => ?_⟩
  rw [List.map_append, List.append_assoc, hblocks, hblocks', List.append_assoc]

theorem Lists.blank : s.Lists [] [.blank] := by
  refine ⟨.blank, [], .nil, fun ls => ?_⟩
  exact blocks_cons_of_not (by decide +kernel) ls

theorem Lists.line {text : String} (hlead : Leads text) (hfeed : '\n' ∉ text.toList)
    (hopens : opens text = false) : s.Lists [] [.top text] := by
  refine ⟨.line hlead hfeed (of_decide_eq_false hopens) trivial, [], .nil, fun ls => ?_⟩
  refine blocks_cons_of_not ?_ ls
  simp only [Line.tag]
  rw [render_top, hopens]

theorem Lists.block {head : String} {body : Script} (hlead : Leads head)
    (hfeed : '\n' ∉ head.toList) (hbody : Nested s.OnlyClasses body)
    (hshows : s.Shows id (head ++ " \x7b", (body.map Line.deeper).map Line.tag)) :
    s.Lists [id] (Script.block head body ";") := by
  have hnested : Nested (fun _ => True) body := hbody.imp fun _ _ => trivial
  refine ⟨.block hlead hfeed (by simp) (by simp) trivial trivial hnested,
    [_], .cons ⟨hshows, onlyClasses_lines hbody⟩ .nil, fun ls => ?_⟩
  rw [blocks_block body (by simp), List.singleton_append]

theorem leads_root : Leads "$root." :=
  leads_ofList (by decide) (by decide)

theorem leads_classPath (s : Schema) (id : TypeId) : Leads (s.classPath id) :=
  leads_root.append _

theorem feed_classPath (hs : s.Spelled) (id : TypeId) : '\n' ∉ (s.classPath id).toList := by
  have hquiet : Quiet (s.qualifiedName id) := quiet_of_idRest (qualifiedName_idRest hs id)
  rw [classPath, String.toList_append, List.mem_append]
  exact not_or.2 ⟨by simp, fun hmem => (hquiet _ hmem).1 rfl⟩

/-- A table or a struct. -/
theorem lists_classBlock (hs : s.Spelled) {t : TypeDecl} (ht : s.types[id]? = some t)
    (hk : t.kind.isTable = true ∨ t.kind.isStruct = true) {front : Script} {body : Field → Script}
    (hfront : Nested s.Inner front) (hbody : ∀ f ∈ t.fields, Nested s.Inner (body f)) :
    s.Lists [id] (s.classBlock id t.name (front ++ t.fields.flatMap (getter body))) := by
  have hname := (hs.name id t ht).quiet
  have hinner : Nested s.Inner (constructorMember ++ front) :=
    .append (nested_constructorMember s) hfront
  have hgetters : Nested s.OnlyClasses (t.fields.flatMap (getter body)) :=
    .flatMap fun f hf => nested_getter ((hs.kind id t ht).1 f hf).1 (hbody f hf)
  have hfilter : (((constructorMember ++ front ++ t.fields.flatMap (getter body)).map Line.deeper).map
      Line.tag).filter (isGetter ·.2) = t.fields.map fun f => (1, "    get " ++ f.name ++ "() \x7b") := by
    rw [List.map_append, List.map_append, List.filter_append]
    have hinside := filter_inner hinner 1
    have houtside := filter_getters hbody
    exact (congrArg₂ (· ++ ·) hinside houtside).trans (List.nil_append _)
  unfold classBlock
  rw [← List.append_assoc]
  refine .block (((leads_classPath s id).append _).append _) ?_
    (.append (hinner.imp fun _ h => h.1) hgetters) ?_
  · rw [String.toList_append, String.toList_append, List.mem_append, List.mem_append]
    rintro ((hmem | hmem) | hmem)
    · exact feed_classPath hs id hmem
    · exact absurd hmem (by simp)
    · exact (hname _ hmem).1 rfl
  · exact .record ht hk hfilter

theorem lists_enum (hs : s.Spelled) (hn : s.Numbered) {t : TypeDecl} (ht : s.types[id]? = some t)
    (hk : t.kind.isEnum = true) :
    s.Lists [id] (Script.block (s.classPath id ++ " =") (entryLines t.kind.values) ";") := by
  have hnumber := hn id t ht hk
  refine .block ((leads_classPath s id).append _) ?_ (nested_entryLines (hs.kind id t ht).2 hnumber) ?_
  · rw [String.toList_append, List.mem_append]
    exact not_or.2 ⟨feed_classPath hs id, by simp⟩
  · have hhead : s.classPath id ++ " =" ++ " \x7b" = "$root." ++ s.qualifiedName id ++ " = \x7b" := by
      rw [String.append_assoc]
      rfl
    rw [hhead]
    refine .enum ht hk ?_ fun i e he => ?_
    · rw [List.length_map, List.length_map, length_entryLines]
    · obtain ⟨n, hvalue⟩ := hnumber e (List.mem_of_getElem? he)
      refine ⟨n, hvalue, ?_⟩
      have htext : entryText e = e.name ++ ": " ++ toString n.toInt := by
        rw [entryText, hvalue]
        rfl
      obtain ⟨c, cs, hname, -⟩ := (hs.kind id t ht).2 e (List.mem_of_getElem? he)
      have hne : ∀ more : String, entryText e ++ more ≠ "" := by
        intro more hempty
        have hlist := congrArg String.toList hempty
        rw [htext, String.toList_append, String.toList_append, String.toList_append, hname] at hlist
        cases hlist
      rw [List.getElem?_map, List.getElem?_map, getElem?_entryLines _ i e he, Option.map_some,
        Option.map_some]
      simp only [Line.tag, Line.deeper, Line.top]
      rw [render_one (hne _), htext, ← String.append_assoc, ← String.append_assoc, ← String.append_assoc]

theorem lists_definition (hs : s.Spelled) (hn : s.Numbered) {t : TypeDecl}
    (ht : s.types[id]? = some t) :
    s.Lists (if t.kind.isUnion then [] else [id]) (s.definition id t) := by
  have hfields := (hs.kind id t ht).1
  unfold definition
  cases hk : t.kind with
  | table fields =>
    have hclass : t.kind.isTable = true ∨ t.kind.isStruct = true := .inl (by rw [hk]; rfl)
    have hblock := lists_classBlock hs ht hclass (nested_rootMembers hs ⟨t, ht, hclass⟩)
      fun f hf => nested_tableGetter hs (hfields f hf)
    rw [TypeDecl.fields, hk] at hblock
    exact .append .blank hblock
  | struct fields size =>
    have hclass : t.kind.isTable = true ∨ t.kind.isStruct = true := .inr (by rw [hk]; rfl)
    have hblock := lists_classBlock hs ht hclass .nil fun f hf => nested_structGetter hs (hfields f hf)
    rw [TypeDecl.fields, hk] at hblock
    exact .append .blank hblock
  | enum base values default =>
    have hblock := lists_enum hs hn ht (by rw [hk]; rfl)
    rw [hk] at hblock
    exact .append .blank hblock
  | union values => exact .nil

/-! ## Namespaces -/

theorem lists_typesOf (hs : s.Spelled) (hn : s.Numbered) (ids : List TypeId) :
    s.Lists (ids.filter fun id => (s.kind? id).any (!·.isUnion)) (ids.flatMap fun id =>
      match s.types[id]? with
      | some t => s.definition id t
      | none => []) := by
  induction ids with
  | nil => exact .nil
  | cons id ids ih =>
    rw [List.flatMap_cons, List.filter_cons, kind?]
    cases ht : s.types[id]? with
    | none => exact ih
    | some t =>
      have hdefinition := (lists_definition hs hn ht).append ih
      cases hu : t.kind.isUnion with
      | true =>
        rw [hu] at hdefinition
        simpa [hu] using hdefinition
      | false =>
        rw [hu] at hdefinition
        simpa [hu] using hdefinition

theorem lists_objectLine {path : String} (h : ∀ c ∈ path.toList, isIdRest c = true) :
    s.Lists [] [objectLine path] := by
  have hquiet := quiet_of_idRest h
  refine .line ((((leads_root.append _).append _).append _).append _) ?_ ?_
  · simp only [String.toList_append, List.mem_append]
    rintro ((((hmem | hmem) | hmem) | hmem) | hmem)
    · exact absurd hmem (by simp)
    · exact (hquiet _ hmem).1 rfl
    · exact absurd hmem (by simp)
    · exact (hquiet _ hmem).1 rfl
    · exact absurd hmem (by simp)
  · rw [opens_append _ (by decide)]
    simp [opens]

theorem lists_objectLines {paths : List String}
    (h : ∀ p ∈ paths, ∀ c ∈ p.toList, isIdRest c = true) : s.Lists [] (paths.map objectLine) := by
  induction paths with
  | nil => exact .nil
  | cons p paths ih =>
    exact (lists_objectLine (h p List.mem_cons_self)).append
      (ih fun q hq => h q (List.mem_cons_of_mem p hq))

/-- The namespaces from one on. -/
theorem lists_namespaceLines (hs : s.Spelled) (hn : s.Numbered) (rest : List Namespace) :
    ∀ (made : List String) (ns : NamespaceId), (∀ n ∈ rest, n.name = "" ∨ IsName n.name) →
      s.Lists ((List.range' ns rest.length).flatMap fun ns =>
        (s.children ns).filter fun id => (s.kind? id).any (!·.isUnion))
        (s.namespaceLines made ns rest) := by
  induction rest with
  | nil => exact fun _ _ _ => .nil
  | cons n rest ih =>
    intro made ns hnames
    have hrest := fun m hm => hnames m (List.mem_cons_of_mem n hm)
    have htypes := lists_typesOf hs hn (s.children ns)
    rw [List.length_cons, List.range'_succ, List.flatMap_cons]
    unfold namespaceLines
    split
    · exact htypes.append (ih made (ns + 1) hrest)
    · next hne =>
      have hname : IsName n.name := (hnames n List.mem_cons_self).resolve_left hne
      have hobjects : s.Lists [] ((newPaths made (objectPaths n.name)).map objectLine) :=
        lists_objectLines fun p hp => objectPaths_idRest hname (mem_newPaths.1 hp).1
      exact ((Lists.blank.append hobjects).append htypes).append (ih _ (ns + 1) hrest)

theorem lists_script (hs : s.Spelled) (hn : s.Numbered) (hname : '\n' ∉ s.name.toList) :
    s.Lists s.defined s.script := by
  have hlines := lists_namespaceLines hs hn s.namespaces [] 0 hs.namespaces
  rw [← List.range_eq_range'] at hlines
  refine Lists.append (.line ?_ ?_ ?_) hlines
  · have hconst : Leads "const $root = flatbuffers.get('" := leads_ofList (by decide) (by decide)
    exact (hconst.append _).append _
  · simp only [String.toList_append, List.mem_append]
    rintro ((hmem | hmem) | hmem)
    · exact absurd hmem (by simp)
    · exact hname hmem
    · exact absurd hmem (by simp)
  · rw [opens_append _ (by decide)]
    simp [opens]

/-! ## The types of a script -/

theorem mem_defined (hs : s.Kept) : id ∈ s.defined ↔ ∃ k, s.kind? id = some k ∧ k.isUnion = false := by
  unfold defined
  rw [List.mem_flatMap]
  constructor
  · rintro ⟨ns, -, hmem⟩
    obtain ⟨-, hany⟩ := List.mem_filter.1 hmem
    obtain ⟨k, hk, hu⟩ := (Option.any_eq_true _ _).1 hany
    exact ⟨k, hk, by simpa using hu⟩
  · rintro ⟨k, hk, hu⟩
    obtain ⟨t, ht, rfl⟩ := Option.map_eq_some_iff.1 hk
    refine ⟨t.home, List.mem_range.2 (hs.indexed.home id t ht), List.mem_filter.2 ⟨?_, ?_⟩⟩
    · exact hs.indexed.mem_children.2 ⟨t, ht, rfl⟩
    · rw [hk, Option.any_some, hu]
      rfl

theorem nodup_defined (hs : s.Kept) : s.defined.Nodup := by
  unfold defined
  rw [List.nodup_flatMap]
  constructor
  · intro ns _
    exact (hs.indexed.nodup_children ns).filter _
  · refine List.nodup_range.imp fun {ns ns'} hne => ?_
    intro id hid hid'
    obtain ⟨t, ht, hhome⟩ := hs.indexed.mem_children.1 (List.mem_of_mem_filter hid)
    obtain ⟨t', ht', hhome'⟩ := hs.indexed.mem_children.1 (List.mem_of_mem_filter hid')
    obtain rfl := Option.some.inj (ht.symm.trans ht')
    exact hne (hhome.symm.trans hhome')

theorem exists_of_forall₂ {α β : Type} {R : α → β → Prop} {xs : List α} {ys : List β}
    (h : List.Forall₂ R xs ys) {x : α} (hx : x ∈ xs) : ∃ y ∈ ys, R x y := by
  induction h with
  | nil => exact absurd hx List.not_mem_nil
  | @cons a b xs ys hab _ ih =>
    rcases List.mem_cons.1 hx with rfl | hx
    · exact ⟨b, List.mem_cons_self, hab⟩
    · obtain ⟨y, hy, hr⟩ := ih hx
      exact ⟨y, List.mem_cons_of_mem b hy, hr⟩

/-- A class is neither an enum nor a union. -/
theorem kind_of_class {k : Kind} (h : k.isTable = true ∨ k.isStruct = true) :
    k.isEnum = false ∧ k.isUnion = false := by
  cases k with
  | table fields => exact ⟨rfl, rfl⟩
  | struct fields size => exact ⟨rfl, rfl⟩
  | enum base values default => rcases h with h | h <;> cases h
  | union values => rcases h with h | h <;> cases h

/-- A class is shown by a block that starts with its path. -/
theorem exists_head {bs : List (String × List (Nat × String))}
    (h : List.Forall₂ s.Defines s.defined bs) (hs : s.Kept) (hid : s.IsClass id) :
    ∃ b ∈ bs, ∃ name, b.1 = "$root." ++ s.qualifiedName id ++ " = class " ++ name ++ " \x7b" := by
  obtain ⟨t, ht, hk⟩ := hid
  have hkind : s.kind? id = some t.kind := by rw [kind?, ht, Option.map_some]
  obtain ⟨henum, hunion⟩ := kind_of_class hk
  obtain ⟨b, hb, hshows, -⟩ := exists_of_forall₂ h ((mem_defined hs).2 ⟨t.kind, hkind, hunion⟩)
  refine ⟨b, hb, ?_⟩
  cases hshows with
  | @record t' lines ht' _ _ => exact ⟨t'.name, rfl⟩
  | enum ht' hk' _ _ =>
    obtain rfl := Option.some.inj (ht.symm.trans ht')
    rw [henum] at hk'
    cases hk'

theorem presents_script (hs : s.Spelled) (hn : s.Numbered) (hkept : s.Kept)
    (hname : '\n' ∉ s.name.toList) : s.Presents (s.script.map Line.tag ++ [(0, "")]) := by
  have hlists := lists_script hs hn hname
  obtain ⟨bs, hbs, hblocks⟩ := hlists.blocks
  have hall : FlatSchema.blocks (s.script.map Line.tag ++ [(0, "")]) = bs := by
    rw [hblocks, blocks_cons_of_not (by decide +kernel)]
    exact List.append_nil bs
  refine ⟨fun l hl hne => ?_, ?_, ⟨nodup_defined hkept, fun id => mem_defined hkept⟩, ?_⟩
  · rcases List.mem_append.1 hl with hl | hl
    · obtain ⟨l', hl', rfl⟩ := List.mem_map.1 hl
      exact (hlists.nested.indentation hl').resolve_left hne
    · cases List.mem_singleton.1 hl
      exact absurd rfl hne
  · rw [hall]
    exact hbs.imp fun _ _ h => h.1
  · rw [hall]
    intro b hb l hl q hq hnew
    obtain ⟨id', -, hdefines⟩ := exists_of_forall₂ hbs.flip hb
    obtain ⟨id, hid, rfl⟩ := hdefines.2 l hl q hq hnew
    exact exists_head hbs hkept hid

/-! ## Resolved schemas -/

variable {s' : Schema}

theorem Resolves.numbered (h : s.Resolves s') : s'.Numbered := by
  intro id t' ht' hk e he
  obtain ⟨t, -, w, p, vs, vs', d, -, hkind, -, -, hvalues⟩ := h.enum ht' hk
  rw [hkind] at he
  have hmem : e.value.map Int64.toInt ∈ (counted 0 vs).map some := by
    rw [← hvalues]
    exact List.mem_map_of_mem he
  obtain ⟨m, -, hm⟩ := List.mem_map.1 hmem
  obtain ⟨n, hn, -⟩ := Option.map_eq_some_iff.1 hm.symm
  exact ⟨n, hn⟩

theorem Parsed.kept (h : s.Parsed) : s.Kept := by
  induction h with
  | empty name => exact kept_empty name
  | parse _ file text ih => exact ih.parse file text

/-- The text of a script is complete, well bracketed and closed: for any files that were read and
resolved, its lines nest and come back to depth 0, and they show the schema. -/
theorem nesting_script (h : s.Parsed) (hok : s.resolve.2 = none) (hname : '\n' ∉ s.name.toList) :
    ∃ ls, nesting 0 (Text.pieces '\n' s.resolve.1.script.render) = some (ls, 0) ∧
      s.resolve.1.Presents ls := by
  have hresolves := h.registered.fresh.resolves hok
  have hspelled := h.spelled.resolves hresolves
  have hnumbered := hresolves.numbered
  have hname' : '\n' ∉ s.resolve.1.name.toList := by
    rw [hresolves.later.rest]
    exact hname
  have hnested := (lists_script hspelled hnumbered hname').nested
  exact ⟨_, hnested.nesting_render, presents_script hspelled hnumbered h.kept.resolve hname'⟩

theorem nesting_script_shapes : shapes.Parsed ∧ shapes.resolve.2 = none ∧ '\n' ∉ shapes.name.toList ∧
    ∃ ls, nesting 0 (Text.pieces '\n' shapes.resolve.1.script.render) = some (ls, 0) ∧
      shapes.resolve.1.Presents ls := by
  have hparsed : shapes.Parsed := by
    rw [shapes]
    exact .parse (.empty "shapes") _ _
  have hname : '\n' ∉ shapes.name.toList := by
    rw [shapes, name_parse (indexed_empty _)]
    simp [empty]
  exact ⟨hparsed, resolve_shapes, hname, nesting_script hparsed resolve_shapes hname⟩

end Schema

end FlatSchema
