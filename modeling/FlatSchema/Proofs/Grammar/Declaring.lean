import FlatSchema.Proofs.Grammar.Places

/-!
# What declarations do to a schema

The actions of a declaration are carried out together or one of them is refused: `Fits` says when,
and `after` what is left then (`carries_declaration`).
-/

namespace FlatSchema

namespace Session

variable {x y : Session}

/-! ## Actions in order -/

/-- All actions are carried out. -/
def Carries (x : Session) (as : List Action) (y : Session) : Prop :=
  x.performAll as = (y, none)

theorem carries_nil : x.Carries [] y ↔ y = x := by
  simp [Carries, performAll, eq_comm]

theorem carries_cons {a : Action} {as : List Action} :
    x.Carries (a :: as) y ↔ ∃ z, x.perform a = .ok z ∧ z.Carries as y := by
  unfold Carries
  rw [performAll]
  cases x.perform a with
  | error r => simp
  | ok z => simp

theorem carries_append {as bs : List Action} :
    x.Carries (as ++ bs) y ↔ ∃ z, x.Carries as z ∧ z.Carries bs y := by
  induction as generalizing x with
  | nil => simp [carries_nil]
  | cons a as ih =>
    simp only [List.cons_append, carries_cons, ih]
    constructor
    · rintro ⟨z, hz, w, hw, hy⟩
      exact ⟨w, ⟨z, hz, hw⟩, hy⟩
    · rintro ⟨w, ⟨z, hz, hw⟩, hy⟩
      exact ⟨z, hz, w, hw, hy⟩

theorem carries_singleton {a : Action} : x.Carries [a] y ↔ x.perform a = .ok y := by
  simp [carries_cons, carries_nil]

theorem carries_includes {includes : List String} :
    x.Carries (includes.map .includeFile) y ↔
      y = { x with head.includes := x.head.includes ++ includes } := by
  induction includes generalizing x with
  | nil => simp [carries_nil]
  | cons written includes ih =>
    rw [List.map_cons, carries_cons]
    simp only [perform, ih]
    constructor
    · rintro ⟨z, hz, rfl⟩
      cases hz
      simp
    · rintro rfl
      exact ⟨_, rfl, by simp⟩

end Session

/-! ## One type -/

/-- The kind of a form before it has members. -/
def Form.blank : Form → Kind
  | .table _ => .newTable
  | .struct _ => .newStruct
  | .enum base _ => .newEnum base
  | .union _ => .newUnion

namespace Session

variable {x y : Session}

/-- The session after `t` was declared, as the type declared last. -/
def opened (x : Session) (t : TypeDecl) : Session :=
  { x with schema := x.schema.declare t, owner := x.schema.types.length }

/-- A change that leaves the type where it is listed. -/
theorem updateType_opened {t : TypeDecl} {f : TypeDecl → TypeDecl} (hname : (f t).name = t.name)
    (hhome : (f t).home = t.home) :
    (x.opened t).schema.updateType (x.opened t).owner f = (x.opened (f t)).schema := by
  have hlt : x.schema.types.length < (x.schema.types ++ [t]).length := by simp
  simp [opened, Schema.updateType, Schema.declare, hname, hhome,
    List.modify_eq_take_cons_drop hlt]

theorem types_owner_opened (x : Session) (t : TypeDecl) :
    (x.opened t).schema.types[(x.opened t).owner]? = some t := by
  simp [opened, Schema.declare]

theorem perform_attachMetadata (t : TypeDecl) (m : Metadata) :
    (x.opened t).perform (.attachMetadata m) = .ok (x.opened { t with metadata := some m }) := by
  unfold perform Schema.setMetadata
  dsimp only
  rw [updateType_opened rfl rfl]
  rfl

/-- A change to the members of the type declared last, if `new` holds of the member. -/
theorem update_opened {t : TypeDecl} {p : Position} {r : Except SchemaError Kind} {new : Prop}
    {k : Kind} (hr : ∀ k', r = .ok k' ↔ new ∧ k' = k) :
    (x.opened t).update p (r.map fun k =>
      (x.opened t).schema.updateType (x.opened t).owner (·.mapKind fun _ => k)) = .ok y ↔
      new ∧ y = x.opened { t with kind := k } := by
  cases r with
  | error e =>
    have hnew : ¬ new := fun hnew => by cases (hr k).2 ⟨hnew, rfl⟩
    simp [update, Except.map, hnew]
  | ok k' =>
    obtain ⟨hnew, rfl⟩ := (hr k').1 rfl
    rw [Except.map, updateType_opened rfl rfl, update, Except.ok.injEq]
    simp only [hnew, true_and]
    exact eq_comm

theorem perform_addField {t : TypeDecl} {f : Field} {p : Position}
    (ht : t.kind.isTable ∨ t.kind.isStruct) :
    (x.opened t).perform (.addField f p) = .ok y ↔
      f.name ∉ t.fields.map (·.name) ∧ y = x.opened (t.mapKind (·.mapFields (· ++ [f]))) := by
  unfold perform Schema.addField
  dsimp only
  rw [types_owner_opened]
  exact update_opened fun _ => Kind.addField_eq_ok_iff.trans (and_iff_right ht)

theorem perform_addValue {t : TypeDecl} {e : Entry} {p : Position}
    (ht : t.kind.isEnum ∨ t.kind.isUnion) :
    (x.opened t).perform (.addValue e p) = .ok y ↔
      e.name ∉ t.kind.values.map (·.name) ∧ y = x.opened (t.mapKind (·.mapValues (· ++ [e]))) := by
  unfold perform Schema.addValue
  dsimp only
  rw [types_owner_opened]
  exact update_opened fun _ => Kind.addValue_eq_ok_iff.trans (and_iff_right ht)

/-- Members are added in order, each under a new name.  `kind` makes a kind of its members. -/
theorem carries_members {α : Type} (name : α → String) (add : α → Action) (kind : List α → Kind)
    (t : TypeDecl)
    (hadd : ∀ ms a y, (x.opened { t with kind := kind ms }).perform (add a) = .ok y ↔
      name a ∉ ms.map name ∧ y = x.opened { t with kind := kind (ms ++ [a]) }) (as : List α) :
    ∀ ms, (ms.map name).Nodup → ((x.opened { t with kind := kind ms }).Carries (as.map add) y ↔
      ((ms ++ as).map name).Nodup ∧ y = x.opened { t with kind := kind (ms ++ as) }) := by
  induction as with
  | nil =>
    intro ms hms
    rw [List.map_nil, carries_nil, List.append_nil]
    exact ⟨fun h => ⟨hms, h⟩, And.right⟩
  | cons a as ih =>
    intro ms hms
    have happend : ms ++ a :: as = (ms ++ [a]) ++ as := by simp
    rw [List.map_cons, carries_cons, happend]
    constructor
    · rintro ⟨z, hz, hy⟩
      obtain ⟨hnew, rfl⟩ := (hadd ms a z).1 hz
      have hnodup : ((ms ++ [a]).map name).Nodup := by
        rw [List.map_append]
        exact List.nodup_append_comm.2 (List.nodup_cons.2 ⟨hnew, hms⟩)
      exact (ih (ms ++ [a]) hnodup).1 hy
    · rintro ⟨hall, rfl⟩
      have hnodup : ((ms ++ [a]).map name).Nodup := by
        rw [List.map_append] at hall
        exact (List.nodup_append.1 hall).1
      have hnew : name a ∉ ms.map name := by
        rw [List.map_append] at hnodup
        exact (List.nodup_cons.1 (List.nodup_append_comm.1 hnodup)).1
      exact ⟨_, (hadd ms a _).2 ⟨hnew, rfl⟩, (ih (ms ++ [a]) hnodup).2 ⟨hall, rfl⟩⟩

theorem carries_additions (t : TypeDecl) (form : Form) :
    (x.opened { t with kind := form.blank }).Carries form.additions y ↔
      form.members.Nodup ∧ y = x.opened { t with kind := form.kind } := by
  cases form with
  | table fs =>
    refine carries_members (·.name) (fun f => .addField f.field nowhere)
      (fun fs => .table (fs.map (·.field))) t (fun ms f y => ?_) fs [] .nil
    rw [perform_addField (.inl rfl)]
    simp [TypeDecl.fields, Kind.fields, WrittenField.field, TypeDecl.mapKind, Kind.mapFields]
  | struct fs =>
    refine carries_members (·.name) (fun f => .addField f.field nowhere)
      (fun fs => .struct (fs.map (·.field)) none) t (fun ms f y => ?_) fs [] .nil
    rw [perform_addField (.inr rfl)]
    simp [TypeDecl.fields, Kind.fields, WrittenField.field, TypeDecl.mapKind, Kind.mapFields]
  | enum base vs =>
    refine carries_members (·.name) (fun e => .addValue e nowhere)
      (fun vs => .enum (.unresolved base) vs none) t (fun ms e y => ?_) vs [] .nil
    rw [perform_addValue (.inl rfl)]
    rfl
  | union vs =>
    refine carries_members (·.name) (fun e => .addValue e nowhere) .union t (fun ms e y => ?_) vs []
      .nil
    rw [perform_addValue (.inr rfl)]
    rfl

theorem declare_eq_ok_iff {name : String} {kind : Kind} {p : Position} :
    x.declare name kind p = .ok y ↔
      x.schema.child? x.space name = none ∧ y = x.opened ⟨name, x.space, none, kind⟩ := by
  unfold declare Schema.addType
  cases h : x.schema.child? x.space name with
  | some id => simp
  | none =>
    simp only [Option.isSome_none, Bool.false_eq_true, if_false, Except.ok.injEq, true_and]
    exact eq_comm

/-- A type is declared without members, under a new name; the base of an enum is no vector. -/
theorem perform_opening {name : String} {form : Form} :
    x.perform (form.opening name) = .ok y ↔
      (x.schema.child? x.space name = none ∧ ∀ base, form.base? = some base → base.repeated = false) ∧
        y = x.opened ⟨name, x.space, none, form.blank⟩ := by
  cases form with
  | table fs => simpa [Form.opening, perform, Form.base?, Form.blank] using declare_eq_ok_iff
  | struct fs => simpa [Form.opening, perform, Form.base?, Form.blank] using declare_eq_ok_iff
  | union vs => simpa [Form.opening, perform, Form.base?, Form.blank] using declare_eq_ok_iff
  | enum base vs =>
    unfold Form.opening perform
    dsimp only
    cases hb : base.repeated with
    | true => simp [Form.base?, hb]
    | false => simpa [Form.base?, Form.blank, hb] using declare_eq_ok_iff

end Session

/-! ## One declaration -/

/-- A type as it is stored. -/
def WrittenType.decl (home : NamespaceId) (t : WrittenType) : TypeDecl :=
  ⟨t.name, home, t.metadata.map .ofItems, t.form.kind⟩

namespace Declaration

/-- Nothing in the declaration is refused. -/
def Fits (x : Session) : Declaration → Prop
  | .type t => (x.schema.child? x.space t.name = none ∧
      ∀ base, t.form.base? = some base → base.repeated = false) ∧ t.form.members.Nodup
  | .fileIdentifier text => text.length = 4
  | _ => True

/-- The session behind a declaration that fits. -/
def after (x : Session) : Declaration → Session
  | .space name =>
    { x with schema := (x.schema.defineNamespace name).2, space := (x.schema.defineNamespace name).1 }
  | .type t => x.opened (t.decl x.space)
  | .rootType name => { x with schema := x.schema.setRootName x.space name }
  | .fileExtension text => { x with schema := x.schema.setFileExtension text }
  | .fileIdentifier text => { x with schema.fileIdentifier := some text }
  | .attributeName name =>
    { x with schema := x.schema.addAttribute name, head.attributes := x.head.attributes ++ [name] }

end Declaration

namespace Session

variable {x y : Session}

theorem carries_type {t : WrittenType} :
    x.Carries (Declaration.type t).actions y ↔
      (Declaration.type t).Fits x ∧ y = x.opened (t.decl x.space) := by
  have hattach : ∀ z,
      (x.opened ⟨t.name, x.space, none, t.form.blank⟩).Carries (attachment t.metadata) z ↔
        z = x.opened ⟨t.name, x.space, t.metadata.map .ofItems, t.form.blank⟩ := by
    intro z
    cases t.metadata with
    | none => exact carries_nil
    | some items =>
      rw [attachment, carries_singleton, perform_attachMetadata, Except.ok.injEq]
      exact eq_comm
  have hadditions := carries_additions (x := x) (y := y) (t.decl x.space) t.form
  rw [Declaration.actions, carries_cons]
  constructor
  · rintro ⟨z, hz, hy⟩
    obtain ⟨hfits, rfl⟩ := perform_opening.1 hz
    obtain ⟨w, hw, hy⟩ := carries_append.1 hy
    obtain rfl := (hattach w).1 hw
    obtain ⟨hmembers, hy⟩ := hadditions.1 hy
    exact ⟨⟨hfits, hmembers⟩, hy⟩
  · rintro ⟨⟨hfits, hmembers⟩, hy⟩
    refine ⟨_, perform_opening.2 ⟨hfits, rfl⟩, carries_append.2 ⟨_, (hattach _).2 rfl, ?_⟩⟩
    exact hadditions.2 ⟨hmembers, hy⟩

theorem carries_declaration {d : Declaration} :
    x.Carries d.actions y ↔ d.Fits x ∧ y = d.after x := by
  have hplain : ∀ {a : Action} {z : Session}, x.perform a = .ok z →
      (x.Carries [a] y ↔ True ∧ y = z) := by
    intro a z hz
    rw [carries_singleton, hz, Except.ok.injEq, true_and, eq_comm]
  cases d with
  | type t => exact carries_type
  | fileIdentifier text =>
    rw [Declaration.actions, carries_singleton, perform, Schema.setFileIdentifier]
    by_cases h : text.length = 4
    · simp only [h, if_true, update, Except.ok.injEq, Declaration.Fits, true_and]
      exact eq_comm
    · simp [h, update, Declaration.Fits]
  | space name => exact hplain rfl
  | rootType name => exact hplain rfl
  | fileExtension text => exact hplain rfl
  | attributeName name => exact hplain rfl

end Session

end FlatSchema
