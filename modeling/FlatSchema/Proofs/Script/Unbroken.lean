import FlatSchema.Proofs.Script.Classes
import FlatSchema.Proofs.Script.Paths

/-!
# Scripts without broken lines

A script takes over names and other texts of its schema.  Where none of them has a line feed, each line
of the script is one line of the text (`unbroken_script`, `Unbroken.pieces_render`).  Texts from files
have none (`Spelled.feed_texts`).
-/

namespace FlatSchema

/-! ## Texts in a script -/

/-- The words of a value, if it has any. -/
def Value.texts : Value → List String
  | .string text => [text]
  | .ident name => [name]
  | _ => []

def Field.texts (f : Field) : List String :=
  f.name :: f.default.toList.flatMap Value.texts

/-- What a script takes over from a type: nothing from a union. -/
def TypeDecl.texts (t : TypeDecl) : List String :=
  match t.kind with
  | .table fields => t.name :: fields.flatMap Field.texts
  | .struct fields _ => t.name :: fields.flatMap Field.texts
  | .enum _ values _ => t.name :: values.map (·.name)
  | .union _ => []

/-- What a script takes over from a schema, besides the names of the schema and of its namespaces. -/
def Schema.texts (s : Schema) : List String :=
  s.fileIdentifier.toList ++ s.types.flatMap TypeDecl.texts

theorem Quiet.feed {text : String} (h : Quiet text) : '\n' ∉ text.toList :=
  fun hmem => (h _ hmem).1 rfl

theorem Value.feed_script {v : Value} (h : ∀ text ∈ v.texts, '\n' ∉ text.toList) :
    '\n' ∉ v.script.toList := by
  cases v with
  | null => exact (quiet_ofList (by decide)).feed
  | bool b => cases b <;> exact (quiet_ofList (by decide)).feed
  | integer n => exact (quiet_int _).feed
  | float x => exact (quiet_write x).feed
  | string text =>
    have htext := h text (List.mem_singleton.2 rfl)
    show '\n' ∉ ("'" ++ text ++ "'").toList
    simp [String.toList_append, htext]
  | ident name => exact h name (List.mem_singleton.2 rfl)

theorem Field.feed_default {f : Field} (h : ∀ text ∈ f.texts, '\n' ∉ text.toList) :
    '\n' ∉ ((f.default.map Value.script).getD "null").toList := by
  cases hd : f.default with
  | none => exact (quiet_ofList (by decide)).feed
  | some v =>
    refine Value.feed_script fun text htext => h text (List.mem_cons_of_mem _ ?_)
    rw [hd]
    simpa using htext

theorem Field.Spelled.feed_texts {f : Field} (hf : f.Spelled) : ∀ text ∈ f.texts, '\n' ∉ text.toList := by
  intro text htext
  rcases List.mem_cons.1 htext with rfl | htext
  · exact hf.1.quiet.feed
  · obtain ⟨v, hv, htext⟩ := List.mem_flatMap.1 htext
    have hspelled := hf.2 v (Option.mem_toList.1 hv)
    cases v with
    | ident name =>
      rw [List.mem_singleton.1 htext]
      exact IsName.quiet hspelled |>.feed
    | string s => exact hspelled.elim
    | _ => cases htext

/-- The texts that are read from files have no line feeds. -/
theorem Schema.Spelled.feed_texts {s : Schema} (hs : s.Spelled) :
    ∀ text ∈ s.texts, '\n' ∉ text.toList := by
  intro text htext
  rcases List.mem_append.1 htext with htext | htext
  · have hline := (hs.fileIdentifier text (Option.mem_toList.1 htext)).2
    exact fun hmem => absurd (hline _ hmem) (by decide)
  · obtain ⟨t, ht, htext⟩ := List.mem_flatMap.1 htext
    obtain ⟨id, hid⟩ := List.mem_iff_getElem?.1 ht
    have hname := (hs.name id t hid).quiet.feed
    obtain ⟨hfields, hvalues⟩ := hs.kind id t hid
    have hrecord : ∀ fields : List Field, (∀ f ∈ fields, f.Spelled) →
        text ∈ t.name :: fields.flatMap Field.texts → '\n' ∉ text.toList := by
      intro fields hfields htext
      rcases List.mem_cons.1 htext with rfl | htext
      · exact hname
      · obtain ⟨f, hf, htext⟩ := List.mem_flatMap.1 htext
        exact (hfields f hf).feed_texts text htext
    unfold TypeDecl.texts at htext
    cases hk : t.kind with
    | table fields =>
      rw [hk] at htext hfields
      exact hrecord fields hfields htext
    | struct fields size =>
      rw [hk] at htext hfields
      exact hrecord fields hfields htext
    | enum base values default =>
      rw [hk] at htext hvalues
      rcases List.mem_cons.1 htext with rfl | htext
      · exact hname
      · obtain ⟨e, he, rfl⟩ := List.mem_map.1 htext
        exact (hvalues e he).quiet.feed
    | union values =>
      rw [hk] at htext
      cases htext

/-! ## Unbroken scripts -/

namespace Script

/-- No line of the script is more than one line of the text. -/
def Unbroken (script : Script) : Prop :=
  ∀ l ∈ script, '\n' ∉ l.text.toList

variable {a b : Script}

theorem Unbroken.cons {l : Line} (hl : '\n' ∉ l.text.toList) (h : Unbroken a) : Unbroken (l :: a) :=
  List.forall_mem_cons.2 ⟨hl, h⟩

theorem Unbroken.append (ha : Unbroken a) (hb : Unbroken b) : Unbroken (a ++ b) :=
  List.forall_mem_append.2 ⟨ha, hb⟩

theorem Unbroken.flatMap {α : Type} {xs : List α} {f : α → Script} (h : ∀ x ∈ xs, Unbroken (f x)) :
    Unbroken (xs.flatMap f) := by
  intro l hl
  obtain ⟨x, hx, hl⟩ := List.mem_flatMap.1 hl
  exact h x hx l hl

theorem unbroken_nil : Unbroken [] :=
  List.forall_mem_nil _

theorem unbroken_top {text : String} (h : '\n' ∉ text.toList) : Unbroken [.top text] :=
  .cons h unbroken_nil

theorem Unbroken.block {head tail : String} (hhead : '\n' ∉ head.toList) (h : Unbroken a)
    (htail : '\n' ∉ tail.toList) : Unbroken (block head a tail) := by
  have hbody : Unbroken (a.map Line.deeper) := by
    intro l hl
    obtain ⟨l', hl', rfl⟩ := List.mem_map.1 hl
    exact h l' hl'
  refine .append (.cons ?_ hbody) (unbroken_top ?_)
  · simpa [Line.top, String.toList_append] using hhead
  · simpa [String.toList_append] using htail

/-- The lines of the text are those of the script, and an empty one behind the last line feed. -/
theorem Unbroken.pieces_render (h : Unbroken a) :
    Text.pieces '\n' (render a) = a.map Line.render ++ [""] := by
  refine Script.pieces_render fun l hl hmem => ?_
  unfold Line.render at hmem
  split at hmem
  · exact absurd hmem (by simp)
  · rw [String.toList_append, String.toList_ofList] at hmem
    rcases List.mem_append.1 hmem with hmem | hmem
    · exact absurd (List.eq_of_mem_replicate hmem) (by decide)
    · exact h l hl hmem

end Script

namespace Schema

open Script

variable {s : Schema} {id : TypeId}

section

variable {f : Field} (hf : ∀ text ∈ f.texts, '\n' ∉ text.toList)

theorem unbroken_readSlot (f : Field) : '\n' ∉ (readSlot f).text.toList := by
  have hoffset : '\n' ∉ f.offsetText.toList := (quiet_nat _).feed
  simp [readSlot, Line.top, String.toList_append, hoffset]

theorem unbroken_vectorLoop {element : String} (h : '\n' ∉ element.toList) :
    Unbroken (vectorLoop element) := by
  have hbody : Unbroken [.top ("vector.push(new " ++ element ++ ");")] :=
    unbroken_top (by simp [String.toList_append, h])
  refine .append (.append (.cons ?_ (unbroken_top ?_)) (.block ?_ hbody ?_)) (unbroken_top ?_)
  all_goals simp [Line.top]

include hf in
theorem unbroken_unsupported : Unbroken (unsupported f) := by
  have hname := hf f.name List.mem_cons_self
  exact unbroken_top (by simp [String.toList_append, hname])

end

section

variable (h : ∀ text ∈ s.texts, '\n' ∉ text.toList)
  (hspaces : ∀ n ∈ s.namespaces, '\n' ∉ n.name.toList)
include h hspaces

theorem unbroken_classPath {t : TypeDecl} (ht : s.types[id]? = some t) (hu : t.kind.isUnion = false) :
    '\n' ∉ (s.classPath id).toList := by
  have hspace : '\n' ∉ (s.namespaceName t.home).toList := by
    unfold namespaceName
    cases hn : s.namespaces[t.home]? with
    | none => simp
    | some n => exact hspaces n (List.mem_of_getElem? hn)
  have hname : '\n' ∉ t.name.toList := by
    refine h _ (List.mem_append_right _ (List.mem_flatMap.2 ⟨t, List.mem_of_getElem? ht, ?_⟩))
    unfold TypeDecl.texts
    cases hk : t.kind with
    | union values =>
      rw [hk] at hu
      cases hu
    | _ => exact List.mem_cons_self
  have hqualified : '\n' ∉ (qualify (s.namespaceName t.home) t.name).toList := by
    unfold qualify
    split
    · exact hname
    · simp [String.toList_append, hspace, hname]
  unfold classPath qualifiedName
  simp [ht, String.toList_append, hqualified]

theorem unbroken_isClass (hid : s.IsClass id) : '\n' ∉ (s.classPath id).toList := by
  obtain ⟨t, ht, hk⟩ := hid
  refine unbroken_classPath h hspaces ht ?_
  cases hkind : t.kind with
  | union values =>
    rw [hkind] at hk
    rcases hk with hk | hk <;> cases hk
  | _ => rfl

variable {f : Field} (hf : ∀ text ∈ f.texts, '\n' ∉ text.toList)
include hf

theorem unbroken_vectorGetter : Unbroken (s.vectorGetter f) := by
  unfold vectorGetter
  split
  · split
    · next array harray =>
      refine .cons (unbroken_readSlot f) (unbroken_top (Quiet.feed ?_))
      simp only [quiet_append]
      refine ⟨⟨⟨⟨?_, quiet_typedArray harray⟩, ?_⟩, ?_⟩, ?_⟩
      all_goals exact quiet_ofList (by decide)
    · exact unbroken_unsupported hf
  · next id hid =>
    have hpath := unbroken_isClass h hspaces (isClass_of_table hid)
    exact .cons (unbroken_readSlot f) (unbroken_vectorLoop (by simp [String.toList_append, hpath]))
  · next id size hid =>
    have hpath := unbroken_isClass h hspaces (isClass_of_struct hid)
    have hsize := (quiet_nat size.toNat).feed
    refine .cons (unbroken_readSlot f) (unbroken_vectorLoop ?_)
    simp only [String.toList_append, List.mem_append, hpath, hsize]
    simp
  · exact unbroken_unsupported hf

theorem unbroken_singleGetter : Unbroken (s.singleGetter f) := by
  unfold singleGetter
  split
  · next p _ =>
    split
    · exact unbroken_unsupported hf
    · have hprimitive := (quiet_primitive p).feed
      have hdefault := Field.feed_default hf
      refine .cons (unbroken_readSlot f) (unbroken_top ?_)
      simp only [String.toList_append, List.mem_append, hprimitive, hdefault]
      simp
  · next id hid =>
    have hpath := unbroken_isClass h hspaces (isClass_of_table hid)
    exact .cons (unbroken_readSlot f) (unbroken_top (by simp [String.toList_append, hpath]))
  · next id size hid =>
    have hpath := unbroken_isClass h hspaces (isClass_of_struct hid)
    exact .cons (unbroken_readSlot f) (unbroken_top (by simp [String.toList_append, hpath]))
  · exact unbroken_unsupported hf

theorem unbroken_tableGetter : Unbroken (s.tableGetter f) := by
  unfold tableGetter
  split
  · exact unbroken_vectorGetter h hspaces hf
  · exact unbroken_singleGetter h hspaces hf

theorem unbroken_structGetter : Unbroken (s.structGetter f) := by
  have hoffset : '\n' ∉ f.offsetText.toList := (quiet_nat _).feed
  unfold structGetter
  split
  · next p _ =>
    split
    · exact unbroken_unsupported hf
    · have hprimitive := (quiet_primitive p).feed
      exact unbroken_top (by simp [String.toList_append, hprimitive, hoffset])
  · next id size hid =>
    have hpath := unbroken_isClass h hspaces (isClass_of_struct hid)
    exact unbroken_top (by simp [String.toList_append, hpath, hoffset])
  · exact unbroken_unsupported hf

end

theorem unbroken_member {head : String} {body : Script} (hhead : '\n' ∉ head.toList)
    (hbody : Unbroken body) : Unbroken (member head body) :=
  .cons (by simp [Line.blank]) (.block hhead hbody (by simp))

theorem unbroken_constructorMember : Unbroken constructorMember := by
  refine unbroken_member ?_ (.cons ?_ (unbroken_top ?_))
  all_goals simp [Line.top]

theorem unbroken_getters {fields : List Field} {body : Field → Script}
    (hfields : ∀ text ∈ fields.flatMap Field.texts, '\n' ∉ text.toList)
    (hbody : ∀ f, (∀ text ∈ f.texts, '\n' ∉ text.toList) → Unbroken (body f)) :
    Unbroken (fields.flatMap (getter body)) := by
  refine .flatMap fun f hf => ?_
  have htexts : ∀ text ∈ f.texts, '\n' ∉ text.toList := fun text htext =>
    hfields text (List.mem_flatMap.2 ⟨f, hf, htext⟩)
  have hname := htexts f.name List.mem_cons_self
  exact unbroken_member (by simp [String.toList_append, hname]) (hbody f htexts)

theorem unbroken_entryLines {values : List Entry} (h : ∀ e ∈ values, '\n' ∉ e.name.toList) :
    Unbroken (entryLines values) := by
  have htext : ∀ e ∈ values, '\n' ∉ (entryText e).toList := by
    intro e he
    have hvalue : '\n' ∉ ((e.value.map fun n => toString n.toInt).getD "undefined").toList := by
      cases e.value with
      | none => simp
      | some n => exact (quiet_int _).feed
    simp only [entryText, String.toList_append, List.mem_append, h e he, hvalue]
    simp
  fun_induction entryLines values with
  | case1 => exact unbroken_nil
  | case2 e => exact unbroken_top (htext e List.mem_cons_self)
  | case3 e e' es ih =>
    refine .cons ?_ (ih (fun x hx => h x (List.mem_cons_of_mem e hx))
      fun x hx => htext x (List.mem_cons_of_mem e hx))
    simp [Line.top, String.toList_append, htext e List.mem_cons_self]

section

variable (h : ∀ text ∈ s.texts, '\n' ∉ text.toList)

include h in
theorem unbroken_rootMembers (hpath : '\n' ∉ (s.classPath id).toList) :
    Unbroken (s.rootMembers id) := by
  unfold rootMembers
  split
  · refine .append (unbroken_member (by simp) (unbroken_top ?_)) ?_
    · simp [String.toList_append, hpath]
    · split
      · next text htext =>
        have htext : '\n' ∉ text.toList :=
          h text (List.mem_append_left _ (Option.mem_toList.2 htext))
        exact unbroken_member (by simp) (unbroken_top (by simp [String.toList_append, htext]))
      · exact unbroken_nil
  · exact unbroken_nil

variable (hnames : ∀ n ∈ s.namespaces, n.name = "" ∨ IsName n.name)
include h hnames

theorem unbroken_definition {t : TypeDecl} (ht : s.types[id]? = some t) :
    Unbroken (s.definition id t) := by
  have hspaces : ∀ n ∈ s.namespaces, '\n' ∉ n.name.toList := by
    intro n hn
    rcases hnames n hn with hname | hname
    · simp [hname]
    · exact hname.quiet.feed
  have htexts : ∀ text ∈ t.texts, '\n' ∉ text.toList := fun text htext =>
    h text (List.mem_append_right _ (List.mem_flatMap.2 ⟨t, List.mem_of_getElem? ht, htext⟩))
  have hpath := unbroken_classPath h hspaces ht
  have hclass : ∀ members : Script, '\n' ∉ (s.classPath id).toList → '\n' ∉ t.name.toList →
      Unbroken members → Unbroken (.blank :: s.classBlock id t.name members) := by
    intro members hpath hname hmembers
    refine .cons (by simp [Line.blank])
      (.block ?_ (.append unbroken_constructorMember hmembers) (by simp))
    simp [String.toList_append, hpath, hname]
  unfold definition
  unfold TypeDecl.texts at htexts
  cases hk : t.kind with
  | table fields =>
    rw [hk] at htexts hpath
    obtain ⟨hname, hfields⟩ := List.forall_mem_cons.1 htexts
    refine hclass _ (hpath rfl) hname (.append (unbroken_rootMembers h (hpath rfl)) ?_)
    exact unbroken_getters hfields fun f hf => unbroken_tableGetter h hspaces hf
  | struct fields size =>
    rw [hk] at htexts hpath
    obtain ⟨hname, hfields⟩ := List.forall_mem_cons.1 htexts
    refine hclass _ (hpath rfl) hname ?_
    exact unbroken_getters hfields fun f hf => unbroken_structGetter h hspaces hf
  | enum base values default =>
    rw [hk] at htexts hpath
    have hvalues := unbroken_entryLines fun e he =>
      htexts e.name (List.mem_cons_of_mem _ (List.mem_map_of_mem he))
    refine .cons (by simp [Line.blank]) (.block ?_ hvalues (by simp))
    simp [String.toList_append, hpath rfl]
  | union values => exact unbroken_nil

theorem unbroken_typesOf (ns : NamespaceId) : Unbroken (s.typesOf ns) := by
  refine .flatMap fun id _ => ?_
  cases ht : s.types[id]? with
  | none => exact unbroken_nil
  | some t => exact unbroken_definition h hnames ht

theorem unbroken_namespaceLines {rest : List Namespace} (hrest : rest ⊆ s.namespaces) :
    ∀ (made : List String) (ns : NamespaceId), Unbroken (s.namespaceLines made ns rest) := by
  induction rest with
  | nil => exact fun _ _ => unbroken_nil
  | cons n rest ih =>
    intro made ns
    obtain ⟨hn, hrest⟩ := List.cons_subset.1 hrest
    have htypes := unbroken_typesOf h hnames ns
    unfold namespaceLines
    split
    · exact .append htypes (ih hrest made (ns + 1))
    · next hne =>
      have hname := (hnames n hn).resolve_left hne
      refine .append (.append (.cons (by simp [Line.blank]) fun l hl => ?_) htypes) (ih hrest _ (ns + 1))
      obtain ⟨p, hp, rfl⟩ := List.mem_map.1 hl
      have hpath := (quiet_of_idRest (objectPaths_idRest hname (mem_newPaths.1 hp).1)).feed
      simp [objectLine, Line.top, String.toList_append, hpath]

theorem unbroken_script (hname : '\n' ∉ s.name.toList) : Unbroken s.script := by
  refine .cons ?_ (unbroken_namespaceLines h hnames (List.Subset.refl _) [] 0)
  simp [Line.top, String.toList_append, hname]

end

end Schema

end FlatSchema
