import FlatSchema.Grammar.Parse
import FlatSchema.Proofs.Grammar.Sentences

/-!
# Places do not matter

Where tokens stand shows in the reports of faults and nowhere else.  Taken away from states and
actions (`bare`), they leave every step of the automaton as it is (`step_bare`), and what the actions
do to a schema (`performAll_bare`).  So a file is parsed exactly if its lexemes are a sentence of some
tree whose actions are all carried out (`parse_eq_ok_iff`).
-/

namespace FlatSchema

/-! ## Without places -/

def Action.bare : Action → Action
  | .declareType name kind _ => .declareType name kind nowhere
  | .declareEnum name base _ => .declareEnum name base nowhere
  | .addField f _ => .addField f nowhere
  | .addValue e _ => .addValue e nowhere
  | .setFileIdentifier text _ => .setFileIdentifier text nowhere
  | a => a

namespace Grammar

def Draft.bare (d : Draft) : Draft :=
  { d with place := nowhere }

def Bearer.bare : Bearer → Bearer
  | .type body => .type body
  | .field d => .field d.bare

def State.bare : State → State
  | .enumColon n _ => .enumColon n nowhere
  | .enumBase n _ => .enumBase n nowhere
  | .enumElement n _ => .enumElement n nowhere
  | .enumBracket n _ base => .enumBracket n nowhere base
  | .fieldColon n _ => .fieldColon n nowhere
  | .fieldType n _ => .fieldType n nowhere
  | .fieldElement n _ => .fieldElement n nowhere
  | .fieldBracket n _ element => .fieldBracket n nowhere element
  | .fieldRest d => .fieldRest d.bare
  | .fieldLiteral d => .fieldLiteral d.bare
  | .fieldMetadata d => .fieldMetadata d.bare
  | .valueRest n _ => .valueRest n nowhere
  | .valueNumber n _ => .valueNumber n nowhere
  | .metadataKey b m => .metadataKey b.bare m
  | .metadataRest b m key => .metadataRest b.bare m key
  | .metadataValue b m key => .metadataValue b.bare m key
  | .metadataComma b m => .metadataComma b.bare m
  | q => q

def Step.bare (s : Step) : Step :=
  ⟨s.actions.map Action.bare, s.next.map State.bare⟩

/-! ## Steps -/

theorem after_bare (a : Action) (s : Step) : (s.after a).bare = s.bare.after a.bare :=
  rfl

theorem punct_bare (c : Char) (l : Lexeme) (s : Step) : (punct c l s).bare = punct c l s.bare := by
  unfold punct
  split
  · rfl
  · rfl

theorem identifier_bare (l : Lexeme) (f : String → Step) :
    (identifier l f).bare = identifier l fun n => (f n).bare := by
  unfold identifier
  split
  · rfl
  · rfl

theorem quoted_bare (l : Lexeme) (f : String → Step) :
    (quoted l f).bare = quoted l fun n => (f n).bare := by
  unfold quoted
  split
  · rfl
  · rfl

theorem declaration_bare (head : Bool) (l : Lexeme) :
    (declaration head l).bare = declaration head l := by
  unfold declaration
  split
  · rfl
  · split
    · next q hq =>
      have : q.bare = q := by
        unfold keyword? at hq
        split at hq
        · split at hq <;> cases hq
          rfl
        all_goals cases hq <;> rfl
      simp only [Step.bare, Step.goto, Except.map, this, List.map_nil]
    · rfl
  · rfl

theorem metadataKey_bare (b : Bearer) (m : Metadata) (l : Lexeme) :
    (metadataKey b m l).bare = metadataKey b.bare m l := by
  unfold metadataKey
  split
  · cases b <;> rfl
  · rfl
  · rfl

theorem metadataComma_bare (b : Bearer) (m : Metadata) (l : Lexeme) :
    (metadataComma b m l).bare = metadataComma b.bare m l := by
  unfold metadataComma
  split
  · rfl
  · exact metadataKey_bare b m l

theorem inBody_bare (body : Body) (l : Lexeme) (p : Position) :
    (inBody body l p).bare = inBody body l nowhere := by
  unfold inBody
  split
  · rfl
  · cases body <;> rfl
  · rfl

theorem valueComma_bare (l : Lexeme) (p : Position) :
    (valueComma l p).bare = valueComma l nowhere := by
  unfold valueComma
  split
  · rfl
  · exact inBody_bare .values l p

theorem fieldMetadata_bare (d : Draft) (l : Lexeme) :
    (fieldMetadata d l).bare = fieldMetadata d.bare l := by
  unfold fieldMetadata
  split
  · rfl
  · have hend : (fieldEnd l).bare = fieldEnd l := punct_bare _ l _
    rw [after_bare, hend]
    rfl

/-- A step without places is the step of the state without places. -/
theorem step_bare (q : State) (t : Token) : (step q t).bare = step q.bare ⟨t.lexeme, nowhere⟩ := by
  cases q with
  | declaration head => exact declaration_bare head _
  | includePath => exact quoted_bare _ _
  | includeEnd s => exact punct_bare _ _ _
  | namespaceName => exact identifier_bare _ _
  | namespaceEnd n => exact punct_bare _ _ _
  | typeName kind body => exact identifier_bare _ _
  | enumName => exact identifier_bare _ _
  | enumColon n p => exact punct_bare _ _ _
  | enumBase n p =>
    show (enumBase n p t.lexeme).bare = enumBase n nowhere t.lexeme
    unfold enumBase
    split <;> rfl
  | enumElement n p =>
    show (enumElement n p t.lexeme).bare = enumElement n nowhere t.lexeme
    unfold enumElement
    split <;> rfl
  | enumBracket n p base => exact punct_bare _ _ _
  | bodyOrMetadata body =>
    show (bodyOrMetadata body t.lexeme).bare = bodyOrMetadata body t.lexeme
    unfold bodyOrMetadata
    split
    · rfl
    · exact punct_bare _ _ _
  | bodyOpen body => exact punct_bare _ _ _
  | inBody body => exact inBody_bare body _ _
  | fieldColon n p => exact punct_bare _ _ _
  | fieldType n p =>
    show (fieldType n p t.lexeme).bare = fieldType n nowhere t.lexeme
    unfold fieldType
    split <;> rfl
  | fieldElement n p =>
    show (fieldElement n p t.lexeme).bare = fieldElement n nowhere t.lexeme
    unfold fieldElement
    split <;> rfl
  | fieldBracket n p element => exact punct_bare _ _ _
  | fieldRest d =>
    show (fieldRest d t.lexeme).bare = fieldRest d.bare t.lexeme
    unfold fieldRest
    split
    · rfl
    · exact fieldMetadata_bare d _
  | fieldLiteral d =>
    show (fieldLiteral d t.lexeme).bare = fieldLiteral d.bare t.lexeme
    unfold fieldLiteral
    split <;> rfl
  | fieldMetadata d => exact fieldMetadata_bare d _
  | fieldEnd => exact punct_bare _ _ _
  | valueRest n p =>
    show (valueRest n p t.lexeme t.position).bare = valueRest n nowhere t.lexeme nowhere
    unfold valueRest
    split
    · rfl
    · rw [after_bare, valueComma_bare]
      rfl
  | valueNumber n p =>
    show (valueNumber n p t.lexeme).bare = valueNumber n nowhere t.lexeme
    unfold valueNumber
    split <;> rfl
  | valueComma => exact valueComma_bare _ _
  | metadataKey b m => exact metadataKey_bare b m _
  | metadataRest b m key =>
    show (metadataRest b m key t.lexeme).bare = metadataRest b.bare m key t.lexeme
    unfold metadataRest
    split
    · rfl
    · exact metadataComma_bare b _ _
  | metadataValue b m key =>
    show (metadataValue b m key t.lexeme).bare = metadataValue b.bare m key t.lexeme
    unfold metadataValue
    split <;> rfl
  | metadataComma b m => exact metadataComma_bare b m _
  | rootTypeName => exact identifier_bare _ _
  | fileExtension => exact quoted_bare _ _
  | fileIdentifier => exact quoted_bare _ _
  | settingEnd =>
    show (settingEnd t.lexeme).bare = settingEnd t.lexeme
    unfold settingEnd
    split
    · rfl
    · exact declaration_bare false _
  | attributeName =>
    show (attributeName t.lexeme).bare = attributeName t.lexeme
    unfold attributeName
    split <;> rfl
  | attributeEnd n => exact punct_bare _ _ _
  | finished => rfl

/-- All tokens. -/
theorem outline_bare (file : String) (tokens : Stream) : ∀ (q : State) (as : List Action),
    (outline file q tokens).fault = none ∧ (outline file q tokens).actions.map Action.bare = as ↔
      ∃ ls, tokens.lexemes? = some ls ∧ reads q.bare ls as := by
  induction tokens with
  | token t rest ih =>
    intro q as
    have hstep := step_bare q t
    simp only [Stream.lexemes?, Option.map_eq_some_iff]
    unfold outline
    dsimp only
    cases hn : (step q t).next with
    | error f =>
      have herr : (step q.bare ⟨t.lexeme, nowhere⟩).next = .error f := by
        rw [← hstep, Step.bare, hn]
        rfl
      constructor
      · rintro ⟨h, -⟩
        cases h
      · rintro ⟨_, ⟨ls, -, rfl⟩, hr⟩
        exact absurd hr (reads_cons_of_error herr)
    | ok q' =>
      have hok : step q.bare ⟨t.lexeme, nowhere⟩ =
          ⟨(step q t).actions.map Action.bare, .ok q'.bare⟩ := by
        rw [← hstep, Step.bare, hn]
        rfl
      constructor
      · rintro ⟨hfault, rfl⟩
        obtain ⟨ls, hls, hr⟩ := (ih q' _).1 ⟨hfault, rfl⟩
        refine ⟨_, ⟨ls, hls, rfl⟩, (reads_cons_of_ok hok).2 ⟨_, ?_, hr⟩⟩
        rw [List.map_append]
      · rintro ⟨_, ⟨ls, hls, rfl⟩, hr⟩
        obtain ⟨bs, rfl, hrest⟩ := (reads_cons_of_ok hok).1 hr
        obtain ⟨hfault, rfl⟩ := (ih q' bs).2 ⟨ls, hls, hrest⟩
        exact ⟨hfault, List.map_append⟩
  | eof p =>
    intro q as
    have hstep := step_bare q ⟨.eof, p⟩
    have hlexemes : (∃ ls, (Stream.eof p).lexemes? = some ls ∧ reads q.bare ls as) ↔
        reads q.bare [] as := by
      simp [Stream.lexemes?]
    rw [hlexemes, reads, ← hstep]
    unfold outline Step.bare
    dsimp only
    cases hn : (step q ⟨.eof, p⟩).next with
    | error f => simp [Except.map]
    | ok q' => simp [Except.map]
  | fault e =>
    intro q as
    simp [outline, Stream.lexemes?]

end Grammar

/-! ## Sessions -/

namespace Session

theorem declare_bare (s : Session) (name : String) (kind : Kind) (p : Position) :
    s.declare name kind nowhere = (s.declare name kind p).mapError fun r => (r.1, nowhere) := by
  unfold declare
  split <;> rfl

theorem update_bare (s : Session) (p : Position) (r : Except SchemaError Schema) :
    s.update nowhere r = (s.update p r).mapError fun r => (r.1, nowhere) := by
  cases r <;> rfl

theorem perform_bare (s : Session) (a : Action) :
    s.perform a.bare = (s.perform a).mapError fun r => (r.1, nowhere) := by
  cases a with
  | declareType name kind p => exact declare_bare s name kind p
  | declareEnum name base p =>
    show s.perform (.declareEnum name base nowhere) = _
    unfold perform
    dsimp only
    split
    · rfl
    · exact declare_bare s name _ p
  | addField f p => exact update_bare s p _
  | addValue e p => exact update_bare s p _
  | setFileIdentifier text p => exact update_bare s p _
  | includeFile written => rfl
  | enterNamespace name => rfl
  | attachMetadata m => rfl
  | setRootType name => rfl
  | setFileExtension text => rfl
  | addAttribute name => rfl

/-- What is carried out, and why not more. -/
theorem performAll_bare (as : List Action) : ∀ s : Session,
    s.performAll (as.map Action.bare) =
      ((s.performAll as).1, (s.performAll as).2.map fun r => (r.1, nowhere)) := by
  induction as with
  | nil => exact fun s => rfl
  | cons a as ih =>
    intro s
    rw [List.map_cons]
    unfold performAll
    rw [perform_bare]
    cases s.perform a with
    | error r => rfl
    | ok s' => exact ih s'

theorem performAll_bare_eq_none_iff {s x : Session} {as : List Action} :
    s.performAll (as.map Action.bare) = (x, none) ↔ s.performAll as = (x, none) := by
  rw [performAll_bare, Prod.mk.injEq, Option.map_eq_none_iff, Prod.ext_iff]

end Session

/-! ## Files -/

namespace Schema

theorem parseStream_eq_ok_iff {s s' : Schema} {file : String} {tokens : Stream} {head : FileHead} :
    s.parseStream file tokens = (s', .ok head) ↔
      (Grammar.outline file (.declaration true) tokens).fault = none ∧ ∃ x : Session,
        (Session.start s).performAll (Grammar.outline file (.declaration true) tokens).actions =
          (x, none) ∧ x.schema = s' ∧ x.head = head := by
  unfold parseStream
  dsimp only
  generalize (Session.start s).performAll _ = r
  obtain ⟨x, refusal⟩ := r
  cases refusal with
  | some r => simp
  | none =>
    cases (Grammar.outline file (.declaration true) tokens).fault with
    | some e => simp
    | none => simp

/-- A file is parsed if it spells a tree whose actions are all carried out. -/
theorem parse_eq_ok_iff {s s' : Schema} {file text : String} {head : FileHead} :
    s.parse file text = (s', .ok head) ↔ ∃ (ls : List Lexeme) (d : Document) (x : Session),
      (Stream.ofText file text).lexemes? = some ls ∧ ls ∈ d.sentences ∧
        (Session.start s).performAll d.actions = (x, none) ∧ x.schema = s' ∧ x.head = head := by
  have houtline := Grammar.outline_bare file (.ofText file text) (.declaration true)
  unfold parse
  rw [parseStream_eq_ok_iff]
  constructor
  · rintro ⟨hfault, x, hx, hs, hhead⟩
    obtain ⟨ls, hls, hr⟩ := (houtline _).1 ⟨hfault, rfl⟩
    obtain ⟨d, hd, has⟩ := Grammar.reads_document.1 hr
    refine ⟨ls, d, x, hls, hd, ?_, hs, hhead⟩
    rw [has]
    exact Session.performAll_bare_eq_none_iff.2 hx
  · rintro ⟨ls, d, x, hls, hd, hx, hs, hhead⟩
    obtain ⟨hfault, has⟩ := (houtline _).2 ⟨ls, hls, Grammar.reads_document.2 ⟨d, hd, rfl⟩⟩
    rw [← has] at hx
    exact ⟨hfault, x, Session.performAll_bare_eq_none_iff.1 hx, hs, hhead⟩

end Schema

end FlatSchema
