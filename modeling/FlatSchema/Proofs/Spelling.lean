import FlatSchema.Proofs.Resolution.Outcome
import FlatSchema.Proofs.Source.Lexemes

/-!
# How names are spelled

Whatever a file declares is named by an identifier of its text, so the names of a schema that was read
from files have the characters of identifiers only, whether reading succeeded or not
(`Parsed.spelled`).  Resolution invents no names, and a default is a number, a truth value or a name
(`Spelled.resolves`).
-/

namespace FlatSchema

/-! ## Names -/

/-- Names, and strings that end on the line they start on. -/
def Lexeme.Spelled : Lexeme → Prop
  | .id name => IsName name
  | .string _ contents => ∀ c ∈ contents.toList, isNewline c = false
  | _ => True

theorem spelled_of_scan {cs : List Char} {l : Lexeme} (h : scan cs = .ok l) : l.Spelled := by
  obtain ⟨rest, -, hl⟩ := scan_eq_ok_iff.1 h
  cases l with
  | id name => exact hl.1
  | string quote contents => exact fun c hc => (hl.2 c hc).2
  | _ => trivial

namespace Stream

def Spelled : Stream → Prop
  | token t rest => t.lexeme.Spelled ∧ rest.Spelled
  | _ => True

theorem spelled_readFrom (file : String) (i : Input) : (readFrom file i).Spelled := by
  fun_induction readFrom file i with
  | case1 => trivial
  | case2 => trivial
  | case3 i next l hl hne ih => exact ⟨spelled_of_scan hl, ih⟩

end Stream

/-! ## What is declared -/

/-- A literal of a field: a name, and no string. -/
def Value.Spelled : Value → Prop
  | .ident name => IsName name
  | .string _ => False
  | _ => True

def Field.Spelled (f : Field) : Prop :=
  IsName f.name ∧ ∀ v, f.default = some v → v.Spelled

def Kind.Spelled (k : Kind) : Prop :=
  (∀ f ∈ k.fields, f.Spelled) ∧ ∀ e ∈ k.values, IsName e.name

def Action.Spelled : Action → Prop
  | .enterNamespace name => IsName name
  | .declareType name kind _ => IsName name ∧ kind.Spelled
  | .declareEnum name _ _ => IsName name
  | .addField f _ => f.Spelled
  | .addValue e _ => IsName e.name
  | .setFileIdentifier text _ => ∀ c ∈ text.toList, isNewline c = false
  | _ => True

theorem Kind.spelled_nil {k : Kind} (hf : k.fields = []) (hv : k.values = []) : k.Spelled := by
  constructor
  · rw [hf]
    exact fun f hf => absurd hf List.not_mem_nil
  · rw [hv]
    exact fun e he => absurd he List.not_mem_nil

namespace Grammar

def Draft.Spelled (d : Draft) : Prop :=
  IsName d.name ∧ ∀ v, d.literal = some v → v.Spelled

def Bearer.Spelled : Bearer → Prop
  | .type _ => True
  | .field d => d.Spelled

def State.Spelled : State → Prop
  | .includeEnd _ => True
  | .namespaceEnd n => IsName n
  | .typeName kind _ => kind.Spelled
  | .enumColon n _ => IsName n
  | .enumBase n _ => IsName n
  | .enumElement n _ => IsName n
  | .enumBracket n _ _ => IsName n
  | .fieldColon n _ => IsName n
  | .fieldType n _ => IsName n
  | .fieldElement n _ => IsName n
  | .fieldBracket n _ _ => IsName n
  | .fieldRest d => d.Spelled
  | .fieldLiteral d => d.Spelled
  | .fieldMetadata d => d.Spelled
  | .valueRest n _ => IsName n
  | .valueNumber n _ => IsName n
  | .metadataKey b _ => b.Spelled
  | .metadataRest b _ _ => b.Spelled
  | .metadataValue b _ _ => b.Spelled
  | .metadataComma b _ => b.Spelled
  | _ => True

/-- A step that settles only what is spelled, and remembers only that. -/
def Step.Spelled (s : Step) : Prop :=
  (∀ a ∈ s.actions, a.Spelled) ∧ ∀ q, s.next = .ok q → q.Spelled

namespace Step

theorem spelled_fail (f : ParseFault) : (fail f).Spelled :=
  ⟨fun _ h => absurd h List.not_mem_nil, fun _ h => by cases h⟩

theorem spelled_goto {q : State} (h : q.Spelled) : (goto q).Spelled :=
  ⟨fun _ h => absurd h List.not_mem_nil, fun _ h' => by cases h'; exact h⟩

theorem spelled_emit {a : Action} {q : State} (ha : a.Spelled) (h : q.Spelled) :
    (emit a q).Spelled :=
  ⟨fun _ h' => by cases List.mem_singleton.1 h'; exact ha, fun _ h' => by cases h'; exact h⟩

theorem Spelled.after {a : Action} {s : Step} (hs : s.Spelled) (ha : a.Spelled) :
    (s.after a).Spelled := by
  refine ⟨fun b hb => ?_, hs.2⟩
  rcases List.mem_cons.1 hb with rfl | hb
  · exact ha
  · exact hs.1 b hb

end Step

open Step

variable {l : Lexeme}

theorem spelled_punct {s : Step} (c : Char) (l : Lexeme) (h : s.Spelled) : (punct c l s).Spelled := by
  unfold punct
  split
  · exact h
  · exact spelled_fail _

theorem spelled_identifier {f : String → Step} (hl : l.Spelled)
    (h : ∀ n, IsName n → (f n).Spelled) : (identifier l f).Spelled := by
  unfold identifier
  split
  · exact h _ hl
  · exact spelled_fail _

theorem spelled_quoted {f : String → Step} (hl : l.Spelled)
    (h : ∀ s, (∀ c ∈ s.toList, isNewline c = false) → (f s).Spelled) : (quoted l f).Spelled := by
  unfold quoted
  split
  · exact h _ hl
  · exact spelled_fail _

theorem spelled_keyword? {head : Bool} {word : String} {q : State} (h : keyword? head word = some q) :
    q.Spelled := by
  unfold keyword? at h
  split at h
  · split at h
    · cases h
      trivial
    · cases h
  · cases h
    trivial
  · cases h
    exact Kind.spelled_nil rfl rfl
  · cases h
    exact Kind.spelled_nil rfl rfl
  · cases h
    trivial
  · cases h
    exact Kind.spelled_nil rfl rfl
  iterate 4
    · cases h
      trivial
  · cases h

theorem spelled_declaration (head : Bool) (l : Lexeme) : (declaration head l).Spelled := by
  unfold declaration
  split
  · exact spelled_goto trivial
  · split
    · next hq => exact spelled_goto (spelled_keyword? hq)
    · exact spelled_fail _
  · exact spelled_fail _

theorem spelled_metadataKey {bearer : Bearer} (hb : bearer.Spelled) (m : Metadata) (l : Lexeme) :
    (metadataKey bearer m l).Spelled := by
  unfold metadataKey closeMetadata
  split
  · split
    · exact spelled_emit trivial trivial
    · exact spelled_emit hb trivial
  · exact spelled_goto hb
  · exact spelled_fail _

theorem spelled_metadataComma {bearer : Bearer} (hb : bearer.Spelled) (m : Metadata) (l : Lexeme) :
    (metadataComma bearer m l).Spelled := by
  unfold metadataComma
  split
  · exact spelled_goto hb
  · exact spelled_metadataKey hb m l

theorem spelled_inBody (body : Body) (hl : l.Spelled) (p : Position) : (inBody body l p).Spelled := by
  unfold inBody
  split
  · exact spelled_goto trivial
  · split <;> exact spelled_goto hl
  · exact spelled_fail _

theorem spelled_bodyOpen (body : Body) (l : Lexeme) : (bodyOpen body l).Spelled :=
  spelled_punct _ l (spelled_goto trivial)

theorem spelled_valueComma (hl : l.Spelled) (p : Position) : (valueComma l p).Spelled := by
  unfold valueComma
  split
  · exact spelled_goto trivial
  · exact spelled_inBody .values hl p

theorem spelled_fieldMetadata {d : Draft} (hd : d.Spelled) (l : Lexeme) :
    (fieldMetadata d l).Spelled := by
  have hend : (fieldEnd l).Spelled := spelled_punct _ l (spelled_goto trivial)
  unfold fieldMetadata
  split
  · exact spelled_goto hd
  · exact hend.after hd

/-- A field has no literal until one is read. -/
theorem Draft.spelled_none {name : String} (h : IsName name) (p : Position) (type : TypeName) :
    Draft.Spelled ⟨name, p, type, none⟩ :=
  ⟨h, fun _ hv => by cases hv⟩

theorem Draft.Spelled.literal {d : Draft} {v : Value} (hd : d.Spelled) (hv : v.Spelled) :
    Draft.Spelled { d with literal := some v } :=
  ⟨hd.1, fun _ h => by cases h; exact hv⟩

/-- One token. -/
theorem spelled_step {q : State} {t : Token} (hq : q.Spelled) (ht : t.lexeme.Spelled) :
    (step q t).Spelled := by
  cases q with
  | declaration head => exact spelled_declaration head _
  | includePath => exact spelled_quoted ht fun _ _ => spelled_goto trivial
  | includeEnd s => exact spelled_punct _ _ (spelled_emit trivial trivial)
  | namespaceName => exact spelled_identifier ht fun _ hn => spelled_goto hn
  | namespaceEnd n => exact spelled_punct _ _ (spelled_emit hq trivial)
  | typeName kind body => exact spelled_identifier ht fun _ hn => spelled_emit ⟨hn, hq⟩ trivial
  | enumName => exact spelled_identifier ht fun _ hn => spelled_goto hn
  | enumColon n p => exact spelled_punct _ _ (spelled_goto hq)
  | enumBase n p =>
    show (enumBase n p t.lexeme).Spelled
    unfold enumBase
    split
    · exact spelled_emit hq trivial
    · exact spelled_goto hq
    · exact spelled_fail _
  | enumElement n p =>
    show (enumElement n p t.lexeme).Spelled
    unfold enumElement
    split
    · exact spelled_goto hq
    · exact spelled_fail _
  | enumBracket n p base => exact spelled_punct _ _ (spelled_emit hq trivial)
  | bodyOrMetadata body =>
    show (bodyOrMetadata body t.lexeme).Spelled
    unfold bodyOrMetadata
    split
    · exact spelled_goto trivial
    · exact spelled_bodyOpen body _
  | bodyOpen body => exact spelled_bodyOpen body _
  | inBody body => exact spelled_inBody body ht _
  | fieldColon n p => exact spelled_punct _ _ (spelled_goto hq)
  | fieldType n p =>
    show (fieldType n p t.lexeme).Spelled
    unfold fieldType
    split
    · exact spelled_goto (Draft.spelled_none hq _ _)
    · exact spelled_goto hq
    · exact spelled_fail _
  | fieldElement n p =>
    show (fieldElement n p t.lexeme).Spelled
    unfold fieldElement
    split
    · exact spelled_goto hq
    · exact spelled_fail _
  | fieldBracket n p element =>
    exact spelled_punct _ _ (spelled_goto (Draft.spelled_none hq _ _))
  | fieldRest d =>
    show (fieldRest d t.lexeme).Spelled
    unfold fieldRest
    split
    · exact spelled_goto hq
    · exact spelled_fieldMetadata hq _
  | fieldLiteral d =>
    have hd : d.Spelled := hq
    show (fieldLiteral d t.lexeme).Spelled
    unfold fieldLiteral
    split
    · next name hname =>
      rw [hname] at ht
      exact spelled_goto (hd.literal ht)
    · exact spelled_goto (hd.literal trivial)
    · exact spelled_goto (hd.literal trivial)
    · exact spelled_goto (hd.literal trivial)
    · exact spelled_fail _
  | fieldMetadata d => exact spelled_fieldMetadata hq _
  | fieldEnd => exact spelled_punct _ _ (spelled_goto trivial)
  | valueRest n p =>
    show (valueRest n p t.lexeme t.position).Spelled
    unfold valueRest
    split
    · exact spelled_goto hq
    · exact (spelled_valueComma ht _).after hq
  | valueNumber n p =>
    show (valueNumber n p t.lexeme).Spelled
    unfold valueNumber
    split
    · exact spelled_emit hq trivial
    · exact spelled_fail _
  | valueComma => exact spelled_valueComma ht _
  | metadataKey b m => exact spelled_metadataKey hq m _
  | metadataRest b m key =>
    show (metadataRest b m key t.lexeme).Spelled
    unfold metadataRest
    split
    · exact spelled_goto hq
    · exact spelled_metadataComma hq _ _
  | metadataValue b m key =>
    show (metadataValue b m key t.lexeme).Spelled
    unfold metadataValue
    split
    · exact spelled_goto hq
    · exact spelled_fail _
  | metadataComma b m => exact spelled_metadataComma hq m _
  | rootTypeName => exact spelled_identifier ht fun _ _ => spelled_emit trivial trivial
  | fileExtension => exact spelled_quoted ht fun _ _ => spelled_emit trivial trivial
  | fileIdentifier => exact spelled_quoted ht fun _ hs => spelled_emit hs trivial
  | settingEnd =>
    show (settingEnd t.lexeme).Spelled
    unfold settingEnd
    split
    · exact spelled_goto trivial
    · exact spelled_declaration false _
  | attributeName =>
    show (attributeName t.lexeme).Spelled
    unfold attributeName
    split
    · exact spelled_goto trivial
    · exact spelled_goto trivial
    · exact spelled_fail _
  | attributeEnd n => exact spelled_punct _ _ (spelled_emit trivial trivial)
  | finished => exact spelled_fail _

/-- All tokens. -/
theorem spelled_outline (file : String) {tokens : Stream} (htokens : tokens.Spelled) :
    ∀ q : State, q.Spelled → ∀ a ∈ (outline file q tokens).actions, a.Spelled := by
  induction tokens with
  | token t rest ih =>
    intro q hq
    have hs := spelled_step hq htokens.1
    unfold outline
    dsimp only
    cases hn : (step q t).next with
    | error f => exact hs.1
    | ok q' =>
      intro a ha
      rcases List.mem_append.1 ha with ha | ha
      · exact hs.1 a ha
      · exact ih htokens.2 q' (hs.2 q' hn) a ha
  | eof p =>
    intro q hq
    have hs : (step q ⟨.eof, p⟩).Spelled := spelled_step hq trivial
    unfold outline
    dsimp only
    split <;> exact hs.1
  | fault e => exact fun q _ a ha => absurd ha List.not_mem_nil

end Grammar

/-! ## Schemas -/

namespace Kind

variable {k k' : Kind}

theorem Spelled.addField {owner : String} {f : Field} (hk : k.Spelled) (hf : f.Spelled)
    (h : k.addField owner f = .ok k') : k'.Spelled := by
  have hfields : ∀ g ∈ k.fields ++ [f], g.Spelled := by
    intro g hg
    rcases List.mem_append.1 hg with hg | hg
    · exact hk.1 g hg
    · rw [List.mem_singleton.1 hg]
      exact hf
  obtain ⟨-, -, rfl⟩ := addField_eq_ok_iff.1 h
  cases k with
  | enum b vs d => exact hk
  | union vs => exact hk
  | table fs => exact ⟨hfields, hk.2⟩
  | struct fs n => exact ⟨hfields, hk.2⟩

theorem Spelled.addValue {e : Entry} (hk : k.Spelled) (he : IsName e.name)
    (h : k.addValue e = .ok k') : k'.Spelled := by
  have hvalues : ∀ x ∈ k.values ++ [e], IsName x.name := by
    intro x hx
    rcases List.mem_append.1 hx with hx | hx
    · exact hk.2 x hx
    · rw [List.mem_singleton.1 hx]
      exact he
  obtain ⟨-, -, rfl⟩ := addValue_eq_ok_iff.1 h
  cases k with
  | enum b vs d => exact ⟨hk.1, hvalues⟩
  | union vs => exact ⟨hk.1, hvalues⟩
  | table fs => exact hk
  | struct fs n => exact hk

end Kind

namespace Schema

/-- Everything is named by an identifier, but for the default namespace, which has no name. -/
structure Spelled (s : Schema) : Prop where
  namespaces : ∀ n ∈ s.namespaces, n.name = "" ∨ IsName n.name
  name : ∀ (id : TypeId) t, s.types[id]? = some t → IsName t.name
  kind : ∀ (id : TypeId) t, s.types[id]? = some t → t.kind.Spelled
  fileIdentifier : ∀ text, s.fileIdentifier = some text →
    text.length = 4 ∧ ∀ c ∈ text.toList, isNewline c = false

variable {s s' : Schema}

theorem spelled_empty (name : String) : (empty name).Spelled := by
  refine ⟨fun n hn => ?_, fun id t h => ?_, fun id t h => ?_, fun text h => ?_⟩
  · exact absurd hn List.not_mem_nil
  · simp [empty] at h
  · simp [empty] at h
  · cases h

theorem Spelled.defineNamespace {name : String} (hs : s.Spelled) (hn : name = "" ∨ IsName name) :
    (s.defineNamespace name).2.Spelled := by
  unfold Schema.defineNamespace
  split
  · exact hs
  · refine ⟨fun n hmem => ?_, hs.name, hs.kind, hs.fileIdentifier⟩
    rcases List.mem_append.1 hmem with hmem | hmem
    · exact hs.namespaces n hmem
    · rw [List.mem_singleton.1 hmem]
      exact hn

/-- A change that leaves the name of a namespace. -/
theorem Spelled.modify_namespaces {ns : NamespaceId} {g : Namespace → Namespace} (hs : s.Spelled)
    (hg : ∀ n, (g n).name = n.name) :
    ∀ n ∈ s.namespaces.modify ns g, n.name = "" ∨ IsName n.name := by
  intro n hn
  have hname := List.mem_map_of_mem (f := (·.name)) hn
  rw [names_modify hg] at hname
  obtain ⟨m, hm, heq⟩ := List.mem_map.1 hname
  rw [← heq]
  exact hs.namespaces m hm

theorem Spelled.addType {ns : NamespaceId} {name : String} {kind : Kind} {id : TypeId}
    (hs : s.Spelled) (hn : IsName name) (hk : kind.Spelled)
    (h : s.addType ns name kind = .ok (id, s')) : s'.Spelled := by
  obtain ⟨-, -, rfl⟩ := addType_eq_ok h
  refine ⟨hs.modify_namespaces (g := (·.list name s.types.length)) fun _ => rfl, fun j t ht => ?_,
    fun j t ht => ?_, hs.fileIdentifier⟩
  · rcases types_declare_iff.1 ht with ht | ⟨-, rfl⟩
    · exact hs.name j t ht
    · exact hn
  · rcases types_declare_iff.1 ht with ht | ⟨-, rfl⟩
    · exact hs.kind j t ht
    · exact hk

theorem Spelled.updateType {id : TypeId} {f : TypeDecl → TypeDecl} (hs : s.Spelled)
    (hname : ∀ t, (f t).name = t.name) (hkind : ∀ t, s.types[id]? = some t → (f t).kind.Spelled) :
    (s.updateType id f).Spelled := by
  have hold : ∀ (j : TypeId) t', (s.updateType id f).types[j]? = some t' →
      IsName t'.name ∧ t'.kind.Spelled := by
    intro j t' h
    rw [types_updateType] at h
    split at h
    · next hj =>
      subst hj
      obtain ⟨t, ht, rfl⟩ := Option.map_eq_some_iff.1 h
      exact ⟨hname t ▸ hs.name id t ht, hkind t ht⟩
    · exact ⟨hs.name j t' h, hs.kind j t' h⟩
  exact ⟨hs.namespaces, fun j t h => (hold j t h).1, fun j t h => (hold j t h).2, hs.fileIdentifier⟩

theorem Spelled.addField {id : TypeId} {f : Field} (hs : s.Spelled) (hf : f.Spelled)
    (h : s.addField id f = .ok s') : s'.Spelled := by
  obtain rfl | ⟨t, k, ht, hk, rfl⟩ := addField_eq_ok h
  · exact hs
  · exact hs.updateType (fun _ => rfl) fun _ _ => (hs.kind id t ht).addField hf hk

theorem Spelled.addValue {id : TypeId} {e : Entry} (hs : s.Spelled) (he : IsName e.name)
    (h : s.addValue id e = .ok s') : s'.Spelled := by
  obtain rfl | ⟨t, k, ht, hk, rfl⟩ := addValue_eq_ok h
  · exact hs
  · exact hs.updateType (fun _ => rfl) fun _ _ => (hs.kind id t ht).addValue he hk

theorem Spelled.setRootName (hs : s.Spelled) (ns : NamespaceId) (name : String) :
    (s.setRootName ns name).Spelled :=
  ⟨hs.modify_namespaces fun _ => rfl, hs.name, hs.kind, hs.fileIdentifier⟩

theorem Spelled.setFileIdentifier {text : String} (hs : s.Spelled)
    (htext : ∀ c ∈ text.toList, isNewline c = false) (h : s.setFileIdentifier text = .ok s') :
    s'.Spelled := by
  unfold Schema.setFileIdentifier at h
  split at h
  · next hlen =>
    cases h
    refine ⟨hs.namespaces, hs.name, hs.kind, fun text' h' => ?_⟩
    cases h'
    exact ⟨hlen, htext⟩
  · cases h

end Schema

/-! ## Reading -/

namespace Session

variable {s s' : Session}

theorem spelled_declare {name : String} {kind : Kind} {p : Position} (hs : s.schema.Spelled)
    (hn : IsName name) (hk : kind.Spelled) (h : s.declare name kind p = .ok s') :
    s'.schema.Spelled := by
  unfold declare at h
  split at h
  · next hadd =>
    cases h
    exact hs.addType hn hk hadd
  · cases h

theorem spelled_update {p : Position} {r : Except SchemaError Schema}
    (hr : ∀ schema, r = .ok schema → schema.Spelled) (h : s.update p r = .ok s') :
    s'.schema.Spelled := by
  unfold update at h
  split at h
  · cases h
    exact hr _ rfl
  · cases h

/-- One action. -/
theorem spelled_perform {a : Action} (hs : s.schema.Spelled) (ha : a.Spelled)
    (h : s.perform a = .ok s') : s'.schema.Spelled := by
  cases a with
  | includeFile written =>
    cases h
    exact hs
  | enterNamespace name =>
    cases h
    exact hs.defineNamespace (.inr ha)
  | declareType name kind p => exact spelled_declare hs ha.1 ha.2 h
  | declareEnum name base p =>
    change (if base.repeated then _ else _) = _ at h
    split at h
    · cases h
    · exact spelled_declare hs ha (Kind.spelled_nil rfl rfl) h
  | attachMetadata m =>
    cases h
    exact hs.updateType (fun _ => rfl) fun t ht => hs.kind _ t ht
  | addField f p => exact spelled_update (fun _ hf => hs.addField ha hf) h
  | addValue e p => exact spelled_update (fun _ he => hs.addValue ha he) h
  | setRootType name =>
    cases h
    exact hs.setRootName _ name
  | setFileExtension text =>
    cases h
    exact ⟨hs.namespaces, hs.name, hs.kind, hs.fileIdentifier⟩
  | setFileIdentifier text p => exact spelled_update (fun _ ht => hs.setFileIdentifier ha ht) h
  | addAttribute name =>
    cases h
    exact ⟨hs.namespaces, hs.name, hs.kind, hs.fileIdentifier⟩

/-- All actions, up to one that is refused. -/
theorem spelled_performAll (as : List Action) :
    ∀ s : Session, s.schema.Spelled → (∀ a ∈ as, a.Spelled) → (s.performAll as).1.schema.Spelled := by
  induction as with
  | nil => exact fun s hs _ => hs
  | cons a as ih =>
    intro s hs has
    unfold performAll
    cases hp : s.perform a with
    | error e => exact hs
    | ok s' =>
      have hs' := spelled_perform hs (has a List.mem_cons_self) hp
      exact ih s' hs' fun b hb => has b (List.mem_cons_of_mem a hb)

end Session

namespace Schema

variable {s s' : Schema}

theorem Spelled.parse (hs : s.Spelled) (file text : String) : (s.parse file text).1.Spelled := by
  have hactions := Grammar.spelled_outline file (Stream.spelled_readFrom file (.start text))
    (.declaration true) trivial
  have hstart : (Session.start s).schema.Spelled := hs.defineNamespace (.inl rfl)
  have hrun := Session.spelled_performAll _ _ hstart hactions
  unfold Schema.parse parseStream
  dsimp only
  split <;> exact hrun

/-- The name of a schema is not read from a file. -/
theorem Registers.name (h : s.Registers s') : s'.name = s.name := by
  cases h with
  | defineNamespace name =>
    unfold Schema.defineNamespace
    split <;> rfl
  | addType _ _ h =>
    obtain ⟨-, -, rfl⟩ := addType_eq_ok h
    rfl
  | addField _ h =>
    obtain rfl | ⟨t, k, -, -, rfl⟩ := addField_eq_ok h <;> rfl
  | addValue h =>
    obtain rfl | ⟨t, k, -, -, rfl⟩ := addValue_eq_ok h <;> rfl
  | setMetadata id m => rfl
  | setRootName ns name => rfl
  | setFileIdentifier h =>
    obtain rfl := setFileIdentifier_eq_ok h
    rfl
  | setFileExtension text => rfl
  | addAttribute name => rfl
  | markFile key =>
    unfold Schema.markFile
    split <;> rfl

theorem name_parse (hs : s.Indexed) (file text : String) : (s.parse file text).1.name = s.name := by
  have hcalls := parse_registers hs file text
  generalize (s.parse file text).1 = s' at hcalls
  induction hcalls with
  | refl => rfl
  | tail _ h ih => exact h.name.trans ih

/-- Schemas that come from an empty one by reading files, whether each is read to its end or not. -/
inductive Parsed : Schema → Prop where
  | empty (name : String) : Parsed (.empty name)
  | parse {s : Schema} (hs : Parsed s) (file text : String) : Parsed (s.parse file text).1

theorem Parsed.registered (h : s.Parsed) : s.Registered := by
  induction h with
  | empty name => exact .empty name
  | parse _ file text ih => exact .parse ih file text

theorem Parsed.spelled (h : s.Parsed) : s.Spelled := by
  induction h with
  | empty name => exact spelled_empty name
  | parse _ file text ih => exact ih.parse file text

/-! ## Resolving -/

theorem spelled_default (p : Primitive) : p.default.Spelled := by
  cases p <;> trivial

theorem DefaultsTo.spelled {type : TypeRef} {literal default : Option Value}
    (h : s.DefaultsTo type literal default) (hl : ∀ v, literal = some v → v.Spelled) :
    ∀ v, default = some v → v.Spelled := by
  intro v hv
  cases h with
  | primitive p =>
    cases hv
    exact spelled_default p
  | literal p v =>
    cases hv
    exact hl v rfl
  | @enum x t p ht hp =>
    cases hv
    exact spelled_default p
  | named ht hk htext hn =>
    cases hv
    trivial
  | other literal hx => exact hl v hv

theorem names_later {k k' : Kind} (h : k.Later k') :
    k'.values.map (·.name) = k.values.map (·.name) := by
  cases h with
  | enum base values => exact values.map_eq fun _ _ _ he => he.1
  | union vs => rfl
  | table fields => rfl
  | struct fields => rfl
  | sized fs n => rfl

/-- Names stay, and defaults are settled. -/
theorem Spelled.resolves (hs : s.Spelled) (h : s.Resolves s') : s'.Spelled := by
  have hfile : s'.fileIdentifier = s.fileIdentifier := by rw [h.later.rest]
  refine ⟨?_, fun id t' ht' => ?_, fun id t' ht' => ⟨fun f' hf' => ?_, fun e' he' => ?_⟩, ?_⟩
  · rw [h.later.namespaces]
    exact hs.namespaces
  · obtain ⟨t, ht, hl⟩ := h.later.prev ht'
    rw [hl.name]
    exact hs.name id t ht
  · obtain ⟨i, hi⟩ := List.mem_iff_getElem?.1 hf'
    have hfield : s'.field? id i = some f' := by
      rw [Schema.field?, ht']
      exact hi
    obtain ⟨t, f, ht, hf, hr⟩ := h.field hfield
    obtain ⟨g, hg, hlater⟩ := h.later.field?_prev hfield
    have hgf : g = f := by
      rw [Schema.field?, ht] at hg
      exact Option.some.inj (hg.symm.trans hf)
    subst hgf
    obtain ⟨hname, hdefault⟩ := (hs.kind id t ht).1 g (List.mem_of_getElem? hf)
    exact ⟨hlater.1.1 ▸ hname, hr.default.spelled hdefault⟩
  · obtain ⟨t, ht, hl⟩ := h.later.prev ht'
    have hmem : e'.name ∈ t.kind.values.map (·.name) := by
      rw [← names_later hl.kind]
      exact List.mem_map_of_mem he'
    obtain ⟨e, he, hname⟩ := List.mem_map.1 hmem
    rw [← hname]
    exact (hs.kind id t ht).2 e he
  · rw [hfile]
    exact hs.fileIdentifier

end Schema

end FlatSchema
