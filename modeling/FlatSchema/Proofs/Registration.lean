import FlatSchema.Grammar.Parse
import FlatSchema.Proofs.Indexes
import Mathlib.Logic.Relation

/-!
# Schemas before resolution

A schema is registered if it comes from an empty one by calls that declare something and by reading
files (`Registered`).  Reading a file makes such calls and nothing else, also when it fails
(`parse_registers`).  In a registered schema nothing is resolved: every reference is a name, no
struct has a size, and names are unique in their namespaces (`Registered.fresh`).
-/

namespace FlatSchema

/-! ## Registered schemas -/

/-- A kind as a type is declared with it, before it has fields or values. -/
def Kind.isNew : Kind → Bool
  | .enum (.unresolved _) [] none => true
  | .union [] => true
  | .table [] => true
  | .struct [] none => true
  | _ => false

namespace Schema

/-- One call that declares something. -/
inductive Registers : Schema → Schema → Prop where
  | defineNamespace (s : Schema) (name : String) : Registers s (s.defineNamespace name).2
  | addType {s s' : Schema} {ns : NamespaceId} {name : String} {kind : Kind} {id : TypeId}
      (hns : ns < s.namespaces.length) (hkind : kind.isNew = true)
      (h : s.addType ns name kind = .ok (id, s')) : Registers s s'
  | addField {s s' : Schema} {id : TypeId} {f : Field} (hf : f.type.isResolved = false)
      (h : s.addField id f = .ok s') : Registers s s'
  | addValue {s s' : Schema} {id : TypeId} {e : Entry} (h : s.addValue id e = .ok s') :
      Registers s s'
  | setMetadata (s : Schema) (id : TypeId) (m : Option Metadata) : Registers s (s.setMetadata id m)
  | setRootName (s : Schema) (ns : NamespaceId) (name : String) : Registers s (s.setRootName ns name)
  | setFileIdentifier {s s' : Schema} {text : String} (h : s.setFileIdentifier text = .ok s') :
      Registers s s'
  | setFileExtension (s : Schema) (text : String) : Registers s (s.setFileExtension text)
  | addAttribute (s : Schema) (name : String) : Registers s (s.addAttribute name)
  | markFile (s : Schema) (key : String) : Registers s (s.markFile key)

/-- Schemas that were never resolved. -/
inductive Registered : Schema → Prop where
  | empty (name : String) : Registered (.empty name)
  | call {s s' : Schema} (hs : Registered s) (h : s.Registers s') : Registered s'
  | parse {s : Schema} (hs : Registered s) (file text : String) : Registered (s.parse file text).1

end Schema

/-- References are names and sizes are missing. -/
def Kind.Fresh : Kind → Prop
  | .enum b _ _ => b.isResolved = false
  | .union _ => True
  | .table fs => ∀ f ∈ fs, f.type.isResolved = false
  | .struct fs n => n = none ∧ ∀ f ∈ fs, f.type.isResolved = false

namespace Schema

/-- Nothing is resolved yet, and every type can be told by its namespace and name. -/
structure Fresh (s : Schema) : Prop where
  indexed : s.Indexed
  kind : ∀ (id : TypeId) t, s.types[id]? = some t → t.kind.Fresh
  rootType : s.rootType = none

end Schema

/-! ## Calls -/

namespace Kind

variable {k k' : Kind}

theorem Fresh.of_isNew (h : k.isNew = true) : k.Fresh := by
  unfold isNew at h
  split at h
  · rfl
  · trivial
  · exact fun f hf => absurd hf List.not_mem_nil
  · exact ⟨rfl, fun f hf => absurd hf List.not_mem_nil⟩
  · cases h

theorem Fresh.fields (hk : k.Fresh) : ∀ f ∈ k.fields, f.type.isResolved = false := by
  cases k with
  | enum b vs d => exact fun f hf => absurd hf List.not_mem_nil
  | union vs => exact fun f hf => absurd hf List.not_mem_nil
  | table fs => exact hk
  | struct fs n => exact hk.2

theorem Fresh.addField {owner : String} {f : Field} (hk : k.Fresh) (hf : f.type.isResolved = false)
    (h : k.addField owner f = .ok k') : k'.Fresh := by
  have hall : ∀ fs : List Field, (∀ g ∈ fs, g.type.isResolved = false) →
      ∀ g ∈ fs ++ [f], g.type.isResolved = false := by
    intro fs hfs g hg
    rcases List.mem_append.1 hg with hg | hg
    · exact hfs g hg
    · rw [List.mem_singleton.1 hg]
      exact hf
  obtain ⟨-, -, rfl⟩ := addField_eq_ok_iff.1 h
  cases k with
  | enum b vs d => exact hk
  | union vs => exact hk
  | table fs => exact hall fs hk
  | struct fs n => exact ⟨hk.1, hall fs hk.2⟩

theorem Fresh.addValue {e : Entry} (hk : k.Fresh) (h : k.addValue e = .ok k') : k'.Fresh := by
  obtain ⟨-, -, rfl⟩ := addValue_eq_ok_iff.1 h
  cases k <;> exact hk

end Kind

namespace Schema

variable {s s' : Schema}

theorem Fresh.home (hs : s.Fresh) :
    ∀ (id : TypeId) t, s.types[id]? = some t → t.home < s.namespaces.length :=
  hs.indexed.home

theorem Fresh.keys (hs : s.Fresh) : (s.types.map key).Nodup :=
  hs.indexed.keys

theorem fresh_empty (name : String) : (empty name).Fresh :=
  ⟨indexed_empty name, fun id t h => by simp [empty] at h, rfl⟩

theorem Fresh.congr (hs : s.Fresh) (hi : s'.Indexed) (ht : s'.types = s.types)
    (hr : s'.rootType = s.rootType) : s'.Fresh :=
  ⟨hi, ht ▸ hs.kind, hr.trans hs.rootType⟩

theorem Fresh.updateType {id : TypeId} {f : TypeDecl → TypeDecl} (hs : s.Fresh)
    (hkey : ∀ t, key (f t) = key t) (hkind : ∀ t, s.types[id]? = some t → (f t).kind.Fresh) :
    (s.updateType id f).Fresh := by
  refine ⟨hs.indexed.updateType hkey, fun j t' h => ?_, hs.rootType⟩
  rw [types_updateType] at h
  split at h
  · next hj =>
    subst hj
    obtain ⟨t, ht, rfl⟩ := Option.map_eq_some_iff.1 h
    exact hkind t ht
  · exact hs.kind j t' h

/-- A field is added to the kind of one type, or to none. -/
theorem addField_eq_ok {id : TypeId} {f : Field} (h : s.addField id f = .ok s') :
    s' = s ∨ ∃ t k, s.types[id]? = some t ∧ t.kind.addField t.name f = .ok k ∧
      s' = s.updateType id (·.mapKind fun _ => k) := by
  unfold Schema.addField at h
  split at h
  · next t ht =>
    cases hk : t.kind.addField t.name f with
    | error e => rw [hk] at h; cases h
    | ok k =>
      rw [hk] at h
      cases h
      exact .inr ⟨t, k, ht, hk, rfl⟩
  · cases h
    exact .inl rfl

theorem addValue_eq_ok {id : TypeId} {e : Entry} (h : s.addValue id e = .ok s') :
    s' = s ∨ ∃ t k, s.types[id]? = some t ∧ t.kind.addValue e = .ok k ∧
      s' = s.updateType id (·.mapKind fun _ => k) := by
  unfold Schema.addValue at h
  split at h
  · next t ht =>
    cases hk : t.kind.addValue e with
    | error e => rw [hk] at h; cases h
    | ok k =>
      rw [hk] at h
      cases h
      exact .inr ⟨t, k, ht, hk, rfl⟩
  · cases h
    exact .inl rfl

theorem addType_eq_ok {ns : NamespaceId} {name : String} {kind : Kind} {id : TypeId}
    (h : s.addType ns name kind = .ok (id, s')) :
    s.child? ns name = none ∧ id = s.types.length ∧ s' = s.declare ⟨name, ns, none, kind⟩ := by
  unfold Schema.addType at h
  split at h
  · cases h
  · next hnew =>
    cases h
    exact ⟨by simpa using hnew, rfl, rfl⟩

theorem setFileIdentifier_eq_ok {text : String} (h : s.setFileIdentifier text = .ok s') :
    s' = { s with fileIdentifier := some text } := by
  unfold Schema.setFileIdentifier at h
  split at h
  · cases h
    rfl
  · cases h

theorem Fresh.declare {ns : NamespaceId} {name : String} {kind : Kind} (hs : s.Fresh)
    (hns : ns < s.namespaces.length) (hkind : kind.isNew = true) (hnew : s.child? ns name = none) :
    (s.declare ⟨name, ns, none, kind⟩).Fresh := by
  refine ⟨hs.indexed.declare hns hnew, fun j t ht => ?_, hs.rootType⟩
  rcases types_declare_iff.1 ht with ht | ⟨-, rfl⟩
  · exact hs.kind j t ht
  · exact .of_isNew hkind

theorem defineNamespace_snd (s : Schema) (name : String) :
    (s.defineNamespace name).2.types = s.types ∧ (s.defineNamespace name).2.rootType = s.rootType ∧
      (s.defineNamespace name).2.files = s.files := by
  unfold Schema.defineNamespace
  split <;> exact ⟨rfl, rfl, rfl⟩

theorem Registers.length_le (h : s.Registers s') : s.namespaces.length ≤ s'.namespaces.length := by
  cases h with
  | defineNamespace name =>
    unfold Schema.defineNamespace
    split
    · exact Nat.le_refl _
    · simp
  | addType _ _ h =>
    obtain ⟨-, -, rfl⟩ := addType_eq_ok h
    exact Nat.le_of_eq (List.length_modify ..).symm
  | addField _ h =>
    obtain rfl | ⟨t, k, -, -, rfl⟩ := addField_eq_ok h
    · exact Nat.le_refl _
    · exact Nat.le_refl _
  | addValue h =>
    obtain rfl | ⟨t, k, -, -, rfl⟩ := addValue_eq_ok h
    · exact Nat.le_refl _
    · exact Nat.le_refl _
  | setMetadata id m => exact Nat.le_refl _
  | setRootName ns name => simp [Schema.setRootName]
  | setFileIdentifier h =>
    obtain rfl := setFileIdentifier_eq_ok h
    exact Nat.le_refl _
  | setFileExtension text => exact Nat.le_refl _
  | addAttribute name => exact Nat.le_refl _
  | markFile key =>
    unfold Schema.markFile
    split <;> exact Nat.le_refl _

/-- One call keeps what is stored twice in step. -/
theorem Registers.indexed (h : s.Registers s') (hs : s.Indexed) : s'.Indexed := by
  cases h with
  | defineNamespace name => exact hs.defineNamespace name
  | addType hns hkind h =>
    obtain ⟨hnew, -, rfl⟩ := addType_eq_ok h
    exact hs.declare hns hnew
  | addField _ h =>
    obtain rfl | ⟨t, k, -, -, rfl⟩ := addField_eq_ok h
    · exact hs
    · exact hs.updateType fun _ => rfl
  | addValue h =>
    obtain rfl | ⟨t, k, -, -, rfl⟩ := addValue_eq_ok h
    · exact hs
    · exact hs.updateType fun _ => rfl
  | setMetadata id m => exact hs.updateType fun _ => rfl
  | setRootName ns name => exact hs.setRootName ns name
  | setFileIdentifier h =>
    obtain rfl := setFileIdentifier_eq_ok h
    exact hs.congr rfl rfl rfl rfl rfl rfl rfl
  | setFileExtension text => exact hs.congr rfl rfl rfl rfl rfl rfl rfl
  | addAttribute name => exact hs.congr rfl rfl rfl rfl rfl rfl rfl
  | markFile key => exact hs.markFile key

/-- One call. -/
theorem Registers.fresh (h : s.Registers s') (hs : s.Fresh) : s'.Fresh := by
  have hi := h.indexed hs.indexed
  cases h with
  | defineNamespace name =>
    obtain ⟨ht, hr, -⟩ := defineNamespace_snd s name
    exact hs.congr hi ht hr
  | addType hns hkind h =>
    obtain ⟨hnew, -, rfl⟩ := addType_eq_ok h
    exact hs.declare hns hkind hnew
  | addField hf h =>
    obtain rfl | ⟨t, k, ht, hk, rfl⟩ := addField_eq_ok h
    · exact hs
    · exact hs.updateType (fun _ => rfl) fun _ _ => (hs.kind _ t ht).addField hf hk
  | addValue h =>
    obtain rfl | ⟨t, k, ht, hk, rfl⟩ := addValue_eq_ok h
    · exact hs
    · exact hs.updateType (fun _ => rfl) fun _ _ => (hs.kind _ t ht).addValue hk
  | setMetadata id m => exact hs.updateType (fun _ => rfl) fun t ht => hs.kind id t ht
  | setRootName ns name => exact hs.congr hi rfl rfl
  | setFileIdentifier h =>
    obtain rfl := setFileIdentifier_eq_ok h
    exact hs.congr hi rfl rfl
  | setFileExtension text => exact hs.congr hi rfl rfl
  | addAttribute name => exact hs.congr hi rfl rfl
  | markFile key =>
    have hrest : (s.markFile key).types = s.types ∧ (s.markFile key).rootType = s.rootType := by
      unfold Schema.markFile
      split <;> exact ⟨rfl, rfl⟩
    exact hs.congr hi hrest.1 hrest.2

end Schema

/-! ## Files -/

/-- Types are declared new, and fields with the name of a type. -/
def Action.Plain : Action → Prop
  | .declareType _ kind _ => kind.isNew = true
  | .addField f _ => f.type.isResolved = false
  | _ => True

namespace Grammar

def State.Plain : State → Prop
  | .typeName kind _ => kind.isNew = true
  | _ => True

/-- A step that settles plain actions and leads to a plain state, if to any. -/
def Step.Plain (s : Step) : Prop :=
  (∀ a ∈ s.actions, a.Plain) ∧ ∀ q, s.next = .ok q → q.Plain

namespace Step

theorem plain_fail (f : ParseFault) : (fail f).Plain :=
  ⟨fun _ h => absurd h List.not_mem_nil, fun _ h => by cases h⟩

theorem plain_goto {q : State} (h : q.Plain) : (goto q).Plain :=
  ⟨fun _ h => absurd h List.not_mem_nil, fun _ h' => by cases h'; exact h⟩

theorem plain_emit {a : Action} {q : State} (ha : a.Plain) (h : q.Plain) : (emit a q).Plain :=
  ⟨fun _ h' => by cases List.mem_singleton.1 h'; exact ha, fun _ h' => by cases h'; exact h⟩

theorem Plain.after {a : Action} {s : Step} (hs : s.Plain) (ha : a.Plain) : (s.after a).Plain := by
  refine ⟨fun b hb => ?_, hs.2⟩
  rcases List.mem_cons.1 hb with rfl | hb
  · exact ha
  · exact hs.1 b hb

end Step

open Step

theorem plain_punct {s : Step} (c : Char) (l : Lexeme) (h : s.Plain) : (punct c l s).Plain := by
  unfold punct
  split
  · exact h
  · exact plain_fail _

theorem plain_identifier {f : String → Step} (l : Lexeme) (h : ∀ n, (f n).Plain) :
    (identifier l f).Plain := by
  unfold identifier
  split
  · exact h _
  · exact plain_fail _

theorem plain_quoted {f : String → Step} (l : Lexeme) (h : ∀ n, (f n).Plain) :
    (quoted l f).Plain := by
  unfold quoted
  split
  · exact h _
  · exact plain_fail _

theorem plain_keyword? {head : Bool} {word : String} {q : State} (h : keyword? head word = some q) :
    q.Plain := by
  unfold keyword? at h
  split at h
  · split at h
    · cases h; trivial
    · cases h
  all_goals cases h <;> trivial

theorem plain_declaration (head : Bool) (l : Lexeme) : (declaration head l).Plain := by
  unfold declaration
  split
  · exact plain_goto trivial
  · split
    · next hq => exact plain_goto (plain_keyword? hq)
    · exact plain_fail _
  · exact plain_fail _

theorem plain_metadataKey (bearer : Bearer) (m : Metadata) (l : Lexeme) :
    (metadataKey bearer m l).Plain := by
  unfold metadataKey closeMetadata
  split
  · split
    · exact plain_emit trivial trivial
    · exact plain_emit rfl trivial
  · exact plain_goto trivial
  · exact plain_fail _

theorem plain_metadataComma (bearer : Bearer) (m : Metadata) (l : Lexeme) :
    (metadataComma bearer m l).Plain := by
  unfold metadataComma
  split
  · exact plain_goto trivial
  · exact plain_metadataKey bearer m l

theorem plain_inBody (body : Body) (l : Lexeme) (p : Position) : (inBody body l p).Plain := by
  unfold inBody
  split
  · exact plain_goto trivial
  · split <;> exact plain_goto trivial
  · exact plain_fail _

theorem plain_bodyOpen (body : Body) (l : Lexeme) : (bodyOpen body l).Plain :=
  plain_punct _ l (plain_goto trivial)

theorem plain_valueComma (l : Lexeme) (p : Position) : (valueComma l p).Plain := by
  unfold valueComma
  split
  · exact plain_goto trivial
  · exact plain_inBody .values l p

theorem plain_fieldMetadata (d : Draft) (l : Lexeme) : (fieldMetadata d l).Plain := by
  have hend : (fieldEnd l).Plain := plain_punct _ l (plain_goto trivial)
  unfold fieldMetadata
  split
  · exact plain_goto trivial
  · exact hend.after rfl

/-- One token. -/
theorem plain_step {q : State} (t : Token) (hq : q.Plain) : (step q t).Plain := by
  cases q with
  | declaration head => exact plain_declaration head _
  | includePath => exact plain_quoted _ fun _ => plain_goto trivial
  | includeEnd s => exact plain_punct _ _ (plain_emit trivial trivial)
  | namespaceName => exact plain_identifier _ fun _ => plain_goto trivial
  | namespaceEnd n => exact plain_punct _ _ (plain_emit trivial trivial)
  | typeName kind body => exact plain_identifier _ fun _ => plain_emit hq trivial
  | enumName => exact plain_identifier _ fun _ => plain_goto trivial
  | enumColon n p => exact plain_punct _ _ (plain_goto trivial)
  | enumBase n p =>
    show (enumBase n p t.lexeme).Plain
    unfold enumBase
    split
    · exact plain_emit trivial trivial
    · exact plain_goto trivial
    · exact plain_fail _
  | enumElement n p =>
    show (enumElement n p t.lexeme).Plain
    unfold enumElement
    split
    · exact plain_goto trivial
    · exact plain_fail _
  | enumBracket n p base => exact plain_punct _ _ (plain_emit trivial trivial)
  | bodyOrMetadata body =>
    show (bodyOrMetadata body t.lexeme).Plain
    unfold bodyOrMetadata
    split
    · exact plain_goto trivial
    · exact plain_bodyOpen body _
  | bodyOpen body => exact plain_bodyOpen body _
  | inBody body => exact plain_inBody body _ _
  | fieldColon n p => exact plain_punct _ _ (plain_goto trivial)
  | fieldType n p =>
    show (fieldType n p t.lexeme).Plain
    unfold fieldType
    split
    · exact plain_goto trivial
    · exact plain_goto trivial
    · exact plain_fail _
  | fieldElement n p =>
    show (fieldElement n p t.lexeme).Plain
    unfold fieldElement
    split
    · exact plain_goto trivial
    · exact plain_fail _
  | fieldBracket n p element => exact plain_punct _ _ (plain_goto trivial)
  | fieldRest d =>
    show (fieldRest d t.lexeme).Plain
    unfold fieldRest
    split
    · exact plain_goto trivial
    · exact plain_fieldMetadata d _
  | fieldLiteral d =>
    show (fieldLiteral d t.lexeme).Plain
    unfold fieldLiteral
    split
    iterate 4 exact plain_goto trivial
    exact plain_fail _
  | fieldMetadata d => exact plain_fieldMetadata d _
  | fieldEnd => exact plain_punct _ _ (plain_goto trivial)
  | valueRest n p =>
    show (valueRest n p t.lexeme t.position).Plain
    unfold valueRest
    split
    · exact plain_goto trivial
    · exact (plain_valueComma _ _).after trivial
  | valueNumber n p =>
    show (valueNumber n p t.lexeme).Plain
    unfold valueNumber
    split
    · exact plain_emit trivial trivial
    · exact plain_fail _
  | valueComma => exact plain_valueComma _ _
  | metadataKey b m => exact plain_metadataKey b m _
  | metadataRest b m key =>
    show (metadataRest b m key t.lexeme).Plain
    unfold metadataRest
    split
    · exact plain_goto trivial
    · exact plain_metadataComma b _ _
  | metadataValue b m key =>
    show (metadataValue b m key t.lexeme).Plain
    unfold metadataValue
    split
    · exact plain_goto trivial
    · exact plain_fail _
  | metadataComma b m => exact plain_metadataComma b m _
  | rootTypeName => exact plain_identifier _ fun _ => plain_emit trivial trivial
  | fileExtension => exact plain_quoted _ fun _ => plain_emit trivial trivial
  | fileIdentifier => exact plain_quoted _ fun _ => plain_emit trivial trivial
  | settingEnd =>
    show (settingEnd t.lexeme).Plain
    unfold settingEnd
    split
    · exact plain_goto trivial
    · exact plain_declaration false _
  | attributeName =>
    show (attributeName t.lexeme).Plain
    unfold attributeName
    split
    · exact plain_goto trivial
    · exact plain_goto trivial
    · exact plain_fail _
  | attributeEnd n => exact plain_punct _ _ (plain_emit trivial trivial)
  | finished => exact plain_fail _

/-- All tokens. -/
theorem plain_outline (file : String) (tokens : Stream) :
    ∀ q : State, q.Plain → ∀ a ∈ (outline file q tokens).actions, a.Plain := by
  induction tokens with
  | token t rest ih =>
    intro q hq
    have hs := plain_step t hq
    unfold outline
    dsimp only
    cases hn : (step q t).next with
    | error f => exact hs.1
    | ok q' =>
      intro a ha
      rcases List.mem_append.1 ha with ha | ha
      · exact hs.1 a ha
      · exact ih q' (hs.2 q' hn) a ha
  | eof p =>
    intro q hq
    have hs := plain_step ⟨.eof, p⟩ hq
    unfold outline
    dsimp only
    split <;> exact hs.1
  | fault e => exact fun q _ a ha => absurd ha List.not_mem_nil

end Grammar

namespace Session

open Relation

/-- The namespace in force exists. -/
structure Placed (s : Session) : Prop where
  space : s.space < s.schema.namespaces.length
  indexed : s.schema.Indexed

theorem placed_defineNamespace {s : Schema} (hs : s.Indexed) (name : String) (id : TypeId)
    (head : FileHead) : Placed ⟨(s.defineNamespace name).2, (s.defineNamespace name).1, id, head⟩ := by
  refine ⟨?_, hs.defineNamespace name⟩
  unfold Schema.defineNamespace
  split
  · next h => exact hs.namespaceId_lt h
  · simp

/-- A call that keeps the namespace in force. -/
theorem Placed.call {s : Session} {schema : Schema} (hs : s.Placed) (h : s.schema.Registers schema)
    (id : TypeId) (head : FileHead) :
    ReflTransGen Schema.Registers s.schema schema ∧ Placed ⟨schema, s.space, id, head⟩ :=
  ⟨.single h, Nat.lt_of_lt_of_le hs.space h.length_le, h.indexed hs.indexed⟩

theorem declare_registers {s s' : Session} {name : String} {kind : Kind} {p : Position}
    (hs : s.Placed) (hk : kind.isNew = true) (h : s.declare name kind p = .ok s') :
    ReflTransGen Schema.Registers s.schema s'.schema ∧ s'.Placed := by
  unfold declare at h
  split at h
  · next ha =>
    cases h
    exact hs.call (.addType hs.space hk ha) _ _
  · cases h

theorem update_registers {s s' : Session} {p : Position} {r : Except SchemaError Schema}
    (hs : s.Placed) (hr : ∀ schema, r = .ok schema → s.schema.Registers schema)
    (h : s.update p r = .ok s') : ReflTransGen Schema.Registers s.schema s'.schema ∧ s'.Placed := by
  unfold update at h
  split at h
  · cases h
    exact hs.call (hr _ rfl) _ _
  · cases h

/-- An action makes one call, or none. -/
theorem perform_registers {s s' : Session} {a : Action} (hs : s.Placed) (ha : a.Plain)
    (h : s.perform a = .ok s') : ReflTransGen Schema.Registers s.schema s'.schema ∧ s'.Placed := by
  cases a with
  | includeFile written => cases h; exact ⟨.refl, hs.space, hs.indexed⟩
  | enterNamespace name =>
    cases h
    exact ⟨.single (.defineNamespace _ name), placed_defineNamespace hs.indexed name _ _⟩
  | declareType name kind p => exact declare_registers hs ha h
  | declareEnum name base p =>
    change (if base.repeated then _ else _) = _ at h
    split at h
    · cases h
    · exact declare_registers hs rfl h
  | attachMetadata m => cases h; exact hs.call (.setMetadata _ _ _) _ _
  | addField f p => exact update_registers hs (fun _ hf => .addField ha hf) h
  | addValue e p => exact update_registers hs (fun _ he => .addValue he) h
  | setRootType name => cases h; exact hs.call (.setRootName _ _ name) _ _
  | setFileExtension text => cases h; exact hs.call (.setFileExtension _ text) _ _
  | setFileIdentifier text p => exact update_registers hs (fun _ ht => .setFileIdentifier ht) h
  | addAttribute name => cases h; exact hs.call (.addAttribute _ name) _ _

/-- What is carried out are calls, whether all of it is or not. -/
theorem performAll_registers (as : List Action) :
    ∀ s : Session, s.Placed → (∀ a ∈ as, a.Plain) →
      ReflTransGen Schema.Registers s.schema (s.performAll as).1.schema := by
  induction as with
  | nil => exact fun s _ _ => .refl
  | cons a as ih =>
    intro s hs has
    unfold performAll
    cases hp : s.perform a with
    | error e => exact .refl
    | ok s' =>
      obtain ⟨hr, hs'⟩ := perform_registers hs (has a (by simp)) hp
      exact hr.trans (ih s' hs' fun b hb => has b (by simp [hb]))

end Session

/-! ## Top theorems -/

namespace Schema

open Relation

/-- Whether the file is read to its end or not, reading it makes calls that declare something. -/
theorem parse_registers {s : Schema} (hs : s.Indexed) (file text : String) :
    ReflTransGen Registers s (s.parse file text).1 := by
  have hplain := Grammar.plain_outline file (.ofText file text) (.declaration true) trivial
  have hrun := Session.performAll_registers _ (Session.start s)
    (Session.placed_defineNamespace hs "" _ _) hplain
  have hstart : ReflTransGen Registers s (Session.start s).schema := .single (.defineNamespace s "")
  unfold parse parseStream
  dsimp only
  split <;> exact hstart.trans hrun

theorem Fresh.calls {s s' : Schema} (hs : s.Fresh) (h : ReflTransGen Registers s s') : s'.Fresh := by
  induction h with
  | refl => exact hs
  | tail _ h ih => exact h.fresh ih

theorem Registered.fresh {s : Schema} (h : s.Registered) : s.Fresh := by
  induction h with
  | empty name => exact fresh_empty name
  | call _ h ih => exact h.fresh ih
  | parse _ file text ih => exact ih.calls (parse_registers ih.indexed file text)

end Schema

end FlatSchema
