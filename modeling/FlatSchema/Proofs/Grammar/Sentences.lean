import FlatSchema.Proofs.Grammar.Reading

/-!
# The automaton reads the grammar

The equations of the states add up to the grammar: from the start of a file, exactly the sentences
of trees are read, each with the actions of its tree (`reads_document`).  Every nonterminal has its
equation, and those that repeat come from one step (`reads_fields_step`) by the lemma on loops.
-/

namespace FlatSchema

/-! ## The actions of a tree -/

def attachment : Option Items → List Action
  | none => []
  | some items => [.attachMetadata (.ofItems items)]

/-- What declares a type, without its members. -/
def Form.opening (name : String) : Form → Action
  | .table _ => .declareType name .newTable nowhere
  | .struct _ => .declareType name .newStruct nowhere
  | .enum base _ => .declareEnum name base nowhere
  | .union _ => .declareType name .newUnion nowhere

def Form.additions : Form → List Action
  | .table fs => fs.map fun f => .addField f.field nowhere
  | .struct fs => fs.map fun f => .addField f.field nowhere
  | .enum _ vs => vs.map fun e => .addValue e nowhere
  | .union vs => vs.map fun e => .addValue e nowhere

def Declaration.actions : Declaration → List Action
  | .space name => [.enterNamespace name]
  | .type t => t.form.opening t.name :: (attachment t.metadata ++ t.form.additions)
  | .rootType name => [.setRootType name]
  | .fileExtension text => [.setFileExtension text]
  | .fileIdentifier text => [.setFileIdentifier text nowhere]
  | .attributeName name => [.addAttribute name]

def Document.actions (d : Document) : List Action :=
  d.includes.map .includeFile ++ d.declarations.flatMap (·.actions)

namespace Grammar

open Grammar.Reading Sentence

/-! ## Metadata -/

/-- What the closing parenthesis of metadata settles, and the state behind it. -/
def Bearer.closing (m : Metadata) : Bearer → Action
  | .type _ => .attachMetadata m
  | .field d => .addField (d.field (some m)) d.place

def Bearer.rest : Bearer → State
  | .type body => .bodyOpen body
  | .field _ => .fieldEnd

section

variable (b : Bearer) (m : Metadata) (key : String)

theorem reads_metadataComma :
    reads (.metadataComma b m) = behind (maybe (mark ',')) (reads (.metadataKey b m)) :=
  reads_maybe ',' (.metadataKey b m) (fun _ => rfl) ⟨_, rfl⟩

theorem reads_metadataValue : reads (.metadataValue b m key) =
    ⨆ v, behind (single v) (reads (.metadataComma b (m.insert key (some v)))) := by
  have hr := reads_lexeme (q := .metadataValue b m key) (fun v l => l.value? = some v) (fun _ => [])
    (fun v => .metadataComma b (m.insert key (some v))) (fun v l hv => ?_) fun l hl => ?_
  · simp only [settling_nil] at hr
    exact hr
  · refine ⟨?_, by simp only [step, metadataValue, hv, Step.goto]⟩
    rintro rfl
    cases hv
  · cases hv : l.value? with
    | none => exact ⟨_, by simp only [step, metadataValue, hv]; rfl⟩
    | some v => exact absurd hv (hl v)

theorem reads_metadataRest : reads (.metadataRest b m key) =
    ⨆ v, behind (part (fun v => mark ':' * single v) v)
      (behind (maybe (mark ',')) (reads (.metadataKey b (m.insert key v)))) := by
  rw [reads_or ':' (.metadataValue b m key) (.metadataComma b (m.insert key none)) [] (fun _ => rfl)
    ⟨_, rfl⟩, settling_nil, sup_comm, iSup_option]
  simp only [part, behind_one, behind_mul, ← reads_metadataComma, reads_metadataValue, behind_iSup]

/-- One item more, or the end. -/
theorem reads_metadataKey_step : reads (.metadataKey b m) =
    behind (mark ')') (settling [b.closing m] (reads b.rest)) ⊔
      ⨆ i, behind (item i) (settling [] (reads (.metadataKey b (m.insert i.1 i.2)))) := by
  rw [reads_mark_or_word ')' b.rest [b.closing m] (fun key => .metadataRest b m key) (fun _ => [])
    (by cases b <;> rfl) (fun _ => rfl) fun l hc hid => ?_]
  · simp only [settling_nil, reads_metadataRest, iSup_prod, item, behind_mul, behind_iSup]
  · show ∃ f, (metadataKey b m l).next = .error f
    unfold metadataKey
    split
    · exact absurd rfl hc
    · exact absurd rfl (hid _)
    · exact ⟨_, rfl⟩

theorem reads_metadataKey : reads (.metadataKey b m) =
    ⨆ items : Items, behind (items.map item).prod (behind (mark ')')
      (settling [b.closing (items.foldl (fun m i => m.insert i.1 i.2) m)] (reads b.rest))) := by
  have hL : ∀ i, [] ∉ item i := by simp [item, word, Language.mem_mul]
  have hloop := loop (fun (m : Metadata) (i : String × Option Value) => m.insert i.1 i.2) hL
    (reads_metadataKey_step b) m
  simpa only [List.flatMap_eq_nil_iff.2 fun _ _ => rfl, settling_nil] using hloop

end

theorem reads_bodyOrMetadata (body : Body) : reads (.bodyOrMetadata body) =
    ⨆ m, behind (metadata m) (settling (attachment m) (reads (.bodyOpen body))) := by
  rw [reads_or '(' (.metadataKey (.type body) .empty) (.bodyOpen body) [] (fun _ => rfl) ⟨_, rfl⟩,
    settling_nil, sup_comm, iSup_option]
  simp only [metadata, part, behind_one, behind_mul, behind_iSup, reads_metadataKey,
    Metadata.foldl_insert, attachment, settling_nil]
  rfl

theorem reads_fieldMetadata (d : Draft) : reads (.fieldMetadata d) =
    ⨆ m : Option Items, behind (metadata m)
      (settling [.addField (d.field (m.map .ofItems)) d.place] (reads .fieldEnd)) := by
  rw [reads_or '(' (.metadataKey (.field d) .empty) .fieldEnd [.addField (d.field none) d.place]
    (fun _ => rfl) ⟨_, rfl⟩, sup_comm, iSup_option]
  simp only [metadata, part, behind_one, behind_mul, behind_iSup, reads_metadataKey,
    Metadata.foldl_insert]
  rfl

/-! ## Types -/

theorem iSup_typeName {F : TypeName → Reading} :
    ⨆ t, F t = (⨆ n, F ⟨n, false⟩) ⊔ ⨆ n, F ⟨n, true⟩ := by
  ext ls as
  show _ ↔ _ ∨ _
  simp only [iSup_iff]
  constructor
  · rintro ⟨⟨n, _ | _⟩, h⟩
    · exact .inl ⟨n, h⟩
    · exact .inr ⟨n, h⟩
  · rintro (⟨n, h⟩ | ⟨n, h⟩)
    · exact ⟨_, h⟩
    · exact ⟨_, h⟩

/-- A state that waits for a type, with those inside the brackets of a vector. -/
theorem reads_type {q : State} (element : State) (bracket : String → State)
    (next : TypeName → State) (xs : TypeName → List Action)
    (hid : ∀ n, step q ⟨.id n, nowhere⟩ = ⟨xs ⟨n, false⟩, .ok (next ⟨n, false⟩)⟩)
    (hopen : step q ⟨.punct '[', nowhere⟩ = .goto element)
    (herr : ∀ l, l ≠ .punct '[' → (∀ n, l ≠ .id n) → ∃ f, (step q ⟨l, nowhere⟩).next = .error f)
    (helement : ∀ n, step element ⟨.id n, nowhere⟩ = .goto (bracket n))
    (helementErr : ∀ l, (∀ n, l ≠ .id n) → ∃ f, (step element ⟨l, nowhere⟩).next = .error f)
    (hclose : ∀ n l, step (bracket n) ⟨l, nowhere⟩ =
      punct ']' l ⟨xs ⟨n, true⟩, .ok (next ⟨n, true⟩)⟩) :
    reads q = ⨆ t, behind (type t) (settling (xs t) (reads (next t))) := by
  have hvector : reads element =
      ⨆ n, behind (word n) (behind (mark ']') (settling (xs ⟨n, true⟩) (reads (next ⟨n, true⟩)))) := by
    rw [reads_word bracket (fun _ => []) helement helementErr]
    simp only [settling_nil, fun n => reads_mark ']' (next ⟨n, true⟩) (xs ⟨n, true⟩) (hclose n)]
  rw [reads_mark_or_word '[' element [] (fun n => next ⟨n, false⟩) (fun n => xs ⟨n, false⟩) hopen hid
    herr, iSup_typeName, sup_comm, settling_nil, hvector]
  simp only [type, behind_mul, behind_iSup, if_true, Bool.false_eq_true, if_false]

theorem reads_fieldType (n : String) (p : Position) :
    reads (.fieldType n p) = ⨆ t, behind (type t) (reads (.fieldRest ⟨n, p, t, none⟩)) := by
  have hr := reads_type (q := .fieldType n p) (.fieldElement n p)
    (fun element => .fieldBracket n p element) (fun t => .fieldRest ⟨n, p, t, none⟩) (fun _ => [])
    (fun _ => rfl) rfl (fun l hc hid => ?_) (fun _ => rfl) (fun l hid => ?_) fun _ _ => rfl
  · simp only [settling_nil] at hr
    exact hr
  · show ∃ f, (fieldType n p l).next = .error f
    unfold fieldType
    split
    · exact absurd rfl (hid _)
    · exact absurd rfl hc
    · exact ⟨_, rfl⟩
  · show ∃ f, (fieldElement n p l).next = .error f
    unfold fieldElement
    split
    · exact absurd rfl (hid _)
    · exact ⟨_, rfl⟩

theorem reads_enumBase (n : String) (p : Position) : reads (.enumBase n p) =
    ⨆ t, behind (type t) (settling [.declareEnum n t p] (reads (.bodyOrMetadata .values))) := by
  refine reads_type (.enumElement n p) (fun base => .enumBracket n p base)
    (fun _ => .bodyOrMetadata .values) (fun t => [.declareEnum n t p]) (fun _ => rfl) rfl
    (fun l hc hid => ?_) (fun _ => rfl) (fun l hid => ?_) fun _ _ => rfl
  · show ∃ f, (enumBase n p l).next = .error f
    unfold enumBase
    split
    · exact absurd rfl (hid _)
    · exact absurd rfl hc
    · exact ⟨_, rfl⟩
  · show ∃ f, (enumElement n p l).next = .error f
    unfold enumElement
    split
    · exact absurd rfl (hid _)
    · exact ⟨_, rfl⟩

/-! ## Bodies -/

theorem reads_fieldLiteral (d : Draft) : reads (.fieldLiteral d) =
    ⨆ v, behind (scalar v) (reads (.fieldMetadata { d with literal := some v })) := by
  have hr := reads_lexeme (q := .fieldLiteral d) (fun v l => l.scalar? = some v) (fun _ => [])
    (fun v => .fieldMetadata { d with literal := some v }) (fun v l hv => ?_) fun l hl => ?_
  · simp only [settling_nil] at hr
    exact hr
  · cases l <;> cases hv <;> exact ⟨by simp, rfl⟩
  · show ∃ f, (fieldLiteral d l).next = .error f
    unfold fieldLiteral
    split
    iterate 4 exact absurd rfl (hl _)
    exact ⟨_, rfl⟩

/-- A draft without a literal takes one, or none. -/
theorem reads_fieldRest (n : String) (p : Position) (t : TypeName) :
    reads (.fieldRest ⟨n, p, t, none⟩) =
      ⨆ v, behind (part (fun v => mark '=' * scalar v) v) (reads (.fieldMetadata ⟨n, p, t, v⟩)) := by
  rw [reads_or '=' (.fieldLiteral ⟨n, p, t, none⟩) (.fieldMetadata ⟨n, p, t, none⟩) [] (fun _ => rfl)
    ⟨_, rfl⟩, settling_nil, sup_comm, iSup_option]
  simp only [part, behind_one, behind_mul, behind_iSup, reads_fieldLiteral]

theorem iSup_writtenField {F : WrittenField → Reading} :
    ⨆ f, F f = ⨆ n, ⨆ t, ⨆ v, ⨆ m, F ⟨n, t, v, m⟩ := by
  ext ls as
  simp only [iSup_iff]
  constructor
  · rintro ⟨⟨n, t, v, m⟩, h⟩
    exact ⟨n, t, v, m, h⟩
  · rintro ⟨n, t, v, m, h⟩
    exact ⟨_, h⟩

theorem inBody_error (body : Body) (l : Lexeme) (hc : l ≠ .punct '\x7d') (hid : ∀ n, l ≠ .id n) :
    ∃ f, (step (.inBody body) ⟨l, nowhere⟩).next = .error f := by
  show ∃ f, (inBody body l nowhere).next = .error f
  unfold inBody
  split
  · exact absurd rfl hc
  · exact absurd rfl (hid _)
  · exact ⟨_, rfl⟩

/-- A body in braces, from what one member is. -/
theorem reads_body {α : Type} {b : Body} {L : α → Language Lexeme} {add : α → Action}
    (hL : ∀ a, [] ∉ L a)
    (hstep : reads (.inBody b) = behind (mark '\x7d') (reads (.declaration false)) ⊔
      ⨆ a, behind (L a) (settling [add a] (reads (.inBody b)))) :
    reads (.bodyOpen b) =
      ⨆ as : List α, behind (body L as) (settling (as.map add) (reads (.declaration false))) := by
  have hmembers := loop_const hL hstep
  rw [reads_mark '\x7b' (.inBody b) [] fun _ => rfl, settling_nil, hmembers]
  simp only [← List.map_eq_flatMap, settling_behind, behind_iSup, body, behind_mul]

/-- One field more, or the end. -/
theorem reads_fields_step : reads (.inBody .fields) =
    behind (mark '\x7d') (reads (.declaration false)) ⊔
      ⨆ f : WrittenField, behind (field f)
        (settling [.addField f.field nowhere] (reads (.inBody .fields))) := by
  have hcolon : ∀ n, reads (.fieldColon n nowhere) =
      behind (mark ':') (reads (.fieldType n nowhere)) := by
    intro n
    rw [reads_mark ':' (.fieldType n nowhere) [] fun _ => rfl, settling_nil]
  have hend : reads .fieldEnd = behind (mark ';') (reads (.inBody .fields)) := by
    rw [reads_mark ';' (.inBody .fields) [] fun _ => rfl, settling_nil]
  refine (reads_mark_or_word '\x7d' (.declaration false) [] (fun n => .fieldColon n nowhere)
    (fun _ => []) rfl (fun _ => rfl) (inBody_error .fields)).trans ?_
  rw [settling_nil, iSup_writtenField]
  simp only [settling_nil, hcolon, reads_fieldType, reads_fieldRest, reads_fieldMetadata, hend,
    settling_behind, behind_iSup, field, behind_mul]
  rfl

theorem reads_fields : reads (.bodyOpen .fields) =
    ⨆ fs : List WrittenField, behind (body field fs)
      (settling (fs.map fun f => .addField f.field nowhere) (reads (.declaration false))) :=
  reads_body (by simp [field, word, Language.mem_mul]) reads_fields_step

theorem reads_valueComma :
    reads .valueComma = behind (maybe (mark ',')) (reads (.inBody .values)) :=
  reads_maybe ',' (.inBody .values) (fun _ => rfl) ⟨_, rfl⟩

theorem reads_valueNumber (n : String) (p : Position) : reads (.valueNumber n p) =
    ⨆ k, behind (integer k) (settling [.addValue ⟨n, some k⟩ p] (reads .valueComma)) := by
  refine reads_lexeme (fun k l => ∃ spelling, l = .integer spelling k)
    (fun k => [.addValue ⟨n, some k⟩ p]) (fun _ => .valueComma) ?_ fun l hl => ?_
  · rintro k l ⟨spelling, rfl⟩
    exact ⟨by simp, rfl⟩
  · show ∃ f, (valueNumber n p l).next = .error f
    unfold valueNumber
    split
    · exact absurd ⟨_, rfl⟩ (hl _)
    · exact ⟨_, rfl⟩

theorem reads_valueRest (n : String) (p : Position) : reads (.valueRest n p) =
    ⨆ k, behind (part (fun k => mark '=' * integer k) k)
      (settling [.addValue ⟨n, k⟩ p] (reads .valueComma)) := by
  rw [reads_or '=' (.valueNumber n p) .valueComma [.addValue ⟨n, none⟩ p] (fun _ => rfl) ⟨_, rfl⟩,
    sup_comm, iSup_option]
  simp only [part, behind_one, behind_mul, behind_iSup, reads_valueNumber]

theorem iSup_entry {F : Entry → Reading} : ⨆ e, F e = ⨆ n, ⨆ k, F ⟨n, k⟩ := by
  ext ls as
  simp only [iSup_iff]
  constructor
  · rintro ⟨⟨n, k⟩, h⟩
    exact ⟨n, k, h⟩
  · rintro ⟨n, k, h⟩
    exact ⟨_, h⟩

/-- One value more, or the end. -/
theorem reads_values_step : reads (.inBody .values) =
    behind (mark '\x7d') (reads (.declaration false)) ⊔
      ⨆ e, behind (value e) (settling [.addValue e nowhere] (reads (.inBody .values))) := by
  refine (reads_mark_or_word '\x7d' (.declaration false) [] (fun n => .valueRest n nowhere)
    (fun _ => []) rfl (fun _ => rfl) (inBody_error .values)).trans ?_
  rw [settling_nil, iSup_entry]
  simp only [settling_nil, reads_valueRest, reads_valueComma, settling_behind, behind_iSup, value,
    behind_mul]

theorem reads_values : reads (.bodyOpen .values) =
    ⨆ vs : List Entry, behind (body value vs)
      (settling (vs.map fun e => .addValue e nowhere) (reads (.declaration false))) :=
  reads_body (by simp [value, word, Language.mem_mul]) reads_values_step

/-! ## Declarations -/

/-- Tables, structs and unions: a name, metadata and a body. -/
theorem reads_typeName {α : Type} {b : Body} {L : α → Language Lexeme} {add : α → Action}
    (hbody : reads (.bodyOpen b) =
      ⨆ as : List α, behind (body L as) (settling (as.map add) (reads (.declaration false))))
    (kind : Kind) : reads (.typeName kind b) =
      ⨆ n, ⨆ m, ⨆ as, behind (word n * metadata m * body L as)
        (settling (.declareType n kind nowhere :: (attachment m ++ as.map add))
          (reads (.declaration false))) := by
  rw [reads_identifier (fun _ => .bodyOrMetadata b) (fun n => [.declareType n kind nowhere])
    fun _ => rfl]
  simp only [reads_bodyOrMetadata, hbody, behind_mul, behind_iSup, settling_behind, settling_iSup,
    ← settling_append, List.singleton_append]

theorem reads_enumName : reads .enumName =
    ⨆ n, ⨆ base, ⨆ m, ⨆ vs, behind (word n * mark ':' * type base * metadata m * body value vs)
      (settling (.declareEnum n base nowhere :: (attachment m ++ vs.map fun e => .addValue e nowhere))
        (reads (.declaration false))) := by
  have hcolon : ∀ n, reads (.enumColon n nowhere) =
      behind (mark ':') (reads (.enumBase n nowhere)) := by
    intro n
    rw [reads_mark ':' (.enumBase n nowhere) [] fun _ => rfl, settling_nil]
  rw [reads_identifier (fun n => .enumColon n nowhere) (fun _ => []) fun _ => rfl]
  simp only [hcolon, reads_enumBase, reads_bodyOrMetadata, reads_values, behind_mul, behind_iSup,
    settling_behind, settling_iSup, ← settling_append, List.nil_append, List.singleton_append]

theorem reads_settingEnd :
    reads .settingEnd = behind (maybe (mark ';')) (reads (.declaration false)) :=
  reads_maybe ';' (.declaration false) (fun _ => rfl) ⟨_, rfl⟩

theorem reads_attributeName : reads .attributeName =
    ⨆ n, behind ((Sentence.quoted n + word n) * mark ';')
      (settling [.addAttribute n] (reads (.declaration false))) := by
  have hname := reads_lexeme (q := .attributeName)
    (fun n l => (∃ quote, l = .string quote n) ∨ l = .id n) (fun _ => []) (fun n => .attributeEnd n) ?_
    fun l hl => ?_
  · have hend : ∀ n, reads (.attributeEnd n) =
        behind (mark ';') (settling [.addAttribute n] (reads (.declaration false))) :=
      fun n => reads_mark ';' (.declaration false) [.addAttribute n] fun _ => rfl
    rw [hname]
    simp only [settling_nil, hend, behind_mul, lexeme_or]
    rfl
  · rintro n l (⟨quote, rfl⟩ | rfl)
    · exact ⟨by simp, rfl⟩
    · exact ⟨by simp, rfl⟩
  · show ∃ f, (attributeName l).next = .error f
    unfold attributeName
    split
    · exact absurd (.inl ⟨_, rfl⟩) (hl _)
    · exact absurd (.inr rfl) (hl _)
    · exact ⟨_, rfl⟩

theorem reads_declaration_id {head : Bool} {w : String} {ls : List Lexeme} {as : List Action} :
    reads (.declaration head) (.id w :: ls) as ↔ ∃ q, keyword? head w = some q ∧ reads q ls as := by
  cases hw : keyword? head w with
  | none =>
    have hstep : (step (.declaration head) ⟨.id w, nowhere⟩).next = .error (.unexpected w) := by
      simp only [step, declaration, hw]
      rfl
    simp [reads_cons_of_error hstep]
  | some q =>
    have hstep : step (.declaration head) ⟨.id w, nowhere⟩ = .goto q := by
      simp only [step, declaration, hw]
    rw [reads_cons_of_ok hstep, settling_nil]
    simp

theorem reads_declaration_of_ne {head : Bool} {l : Lexeme} {ls : List Lexeme} {as : List Action}
    (hl : ∀ w, l ≠ .id w) : ¬ reads (.declaration head) (l :: ls) as := by
  cases l with
  | eof =>
    -- Behind the end of the text comes nothing.
    have hstep : step (.declaration head) ⟨.eof, nowhere⟩ = .goto .finished := rfl
    rw [reads_cons_of_ok hstep, settling_nil]
    cases ls with
    | nil => exact reads_nil_of_error rfl
    | cons l ls => exact reads_cons_of_error rfl
  | id w => exact absurd rfl (hl w)
  | string quote contents => exact reads_cons_of_error rfl
  | boolean b => exact reads_cons_of_error rfl
  | integer spelling n => exact reads_cons_of_error rfl
  | float spelling x => exact reads_cons_of_error rfl
  | punct c => exact reads_cons_of_error rfl

/-- The keywords of a declaration behind the includes. -/
theorem reads_declaration : reads (.declaration false) = done ⊔
    (behind (word "namespace") (reads .namespaceName) ⊔
      (behind (word "table") (reads (.typeName .newTable .fields)) ⊔
      (behind (word "struct") (reads (.typeName .newStruct .fields)) ⊔
      (behind (word "enum") (reads .enumName) ⊔
      (behind (word "union") (reads (.typeName .newUnion .values)) ⊔
      (behind (word "root_type") (reads .rootTypeName) ⊔
      (behind (word "file_extension") (reads .fileExtension) ⊔
      (behind (word "file_identifier") (reads .fileIdentifier) ⊔
      behind (word "attribute") (reads .attributeName))))))))) := by
  ext ls as
  simp only [Pi.sup_apply, sup_Prop_eq]
  cases ls with
  | nil => simp [reads, done, word, step, declaration, Step.goto, eq_comm]
  | cons l ls =>
    simp only [word, behind_lexeme_cons, done, reduceCtorEq, false_and, false_or]
    by_cases hl : ∃ w, l = .id w
    · obtain ⟨w, rfl⟩ := hl
      rw [reads_declaration_id]
      unfold keyword?
      split <;> simp_all
    · have hne : ∀ w, l ≠ .id w := fun w hw => hl ⟨w, hw⟩
      simp [reads_declaration_of_ne hne, hne]

theorem iSup_declaration {F : Declaration → Reading} : ⨆ d, F d =
    (⨆ n, F (.space n)) ⊔ ((⨆ n, ⨆ m, ⨆ fs, F (.type ⟨n, m, .table fs⟩)) ⊔
      ((⨆ n, ⨆ m, ⨆ fs, F (.type ⟨n, m, .struct fs⟩)) ⊔
      ((⨆ n, ⨆ base, ⨆ m, ⨆ vs, F (.type ⟨n, m, .enum base vs⟩)) ⊔
      ((⨆ n, ⨆ m, ⨆ vs, F (.type ⟨n, m, .union vs⟩)) ⊔
      ((⨆ n, F (.rootType n)) ⊔ ((⨆ t, F (.fileExtension t)) ⊔ ((⨆ t, F (.fileIdentifier t)) ⊔
      ⨆ n, F (.attributeName n)))))))) := by
  ext ls as
  simp only [Pi.sup_apply, sup_Prop_eq, iSup_iff]
  constructor
  · rintro ⟨d, h⟩
    rcases d with n | ⟨n, m, fs | fs | ⟨base, vs⟩ | vs⟩ | n | t | t | n
    · exact .inl ⟨n, h⟩
    · exact .inr (.inl ⟨n, m, fs, h⟩)
    · exact .inr (.inr (.inl ⟨n, m, fs, h⟩))
    · exact .inr (.inr (.inr (.inl ⟨n, base, m, vs, h⟩)))
    · exact .inr (.inr (.inr (.inr (.inl ⟨n, m, vs, h⟩))))
    · exact .inr (.inr (.inr (.inr (.inr (.inl ⟨n, h⟩)))))
    · exact .inr (.inr (.inr (.inr (.inr (.inr (.inl ⟨t, h⟩))))))
    · exact .inr (.inr (.inr (.inr (.inr (.inr (.inr (.inl ⟨t, h⟩)))))))
    · exact .inr (.inr (.inr (.inr (.inr (.inr (.inr (.inr ⟨n, h⟩)))))))
  · rintro (⟨n, h⟩ | ⟨n, m, fs, h⟩ | ⟨n, m, fs, h⟩ | ⟨n, base, m, vs, h⟩ | ⟨n, m, vs, h⟩ | ⟨n, h⟩ |
      ⟨t, h⟩ | ⟨t, h⟩ | ⟨n, h⟩) <;> exact ⟨_, h⟩

/-- One declaration more, or the end. -/
theorem reads_declarations_step : reads (.declaration false) = done ⊔
    ⨆ d : Declaration, behind (Sentence.declaration d)
      (settling d.actions (reads (.declaration false))) := by
  have hspaceEnd : ∀ n, reads (.namespaceEnd n) =
      behind (mark ';') (settling [.enterNamespace n] (reads (.declaration false))) :=
    fun n => reads_mark ';' (.declaration false) [.enterNamespace n] fun _ => rfl
  have hspace := reads_identifier (q := .namespaceName) (fun n => .namespaceEnd n) (fun _ => [])
    fun _ => rfl
  have hroot := reads_identifier (q := .rootTypeName) (fun _ => .settingEnd)
    (fun n => [.setRootType n]) fun _ => rfl
  have hextension := reads_quoted (q := .fileExtension) (fun _ => .settingEnd)
    (fun t => [.setFileExtension t]) fun _ => rfl
  have hidentifier := reads_quoted (q := .fileIdentifier) (fun _ => .settingEnd)
    (fun t => [.setFileIdentifier t nowhere]) fun _ => rfl
  refine reads_declaration.trans ?_
  rw [iSup_declaration]
  simp only [hspace, hspaceEnd, hroot, hextension, hidentifier, reads_typeName reads_fields,
    reads_enumName, reads_typeName reads_values, reads_attributeName, reads_settingEnd, settling_nil,
    settling_behind, behind_iSup, Sentence.declaration, typeDeclaration, behind_mul]
  rfl

theorem reads_declarations : reads (.declaration false) =
    ⨆ ds : List Declaration, behind (ds.map Sentence.declaration).prod
      (settling (ds.flatMap (·.actions)) done) := by
  have hL : ∀ d, [] ∉ Sentence.declaration d := by
    rintro (n | ⟨n, m, fs | fs | ⟨base, vs⟩ | vs⟩ | n | t | t | n) <;>
      simp [Sentence.declaration, typeDeclaration, word, Language.mem_mul]
  exact loop_const hL reads_declarations_step

/-! ## Files -/

/-- One include more, or the declarations. -/
theorem reads_includes_step : reads (.declaration true) = reads (.declaration false) ⊔
    ⨆ s, behind (inclusion s) (settling [.includeFile s] (reads (.declaration true))) := by
  have hpath := reads_quoted (q := .includePath) (fun s => .includeEnd s) (fun _ => []) fun _ => rfl
  have hend : ∀ s, reads (.includeEnd s) =
      behind (mark ';') (settling [.includeFile s] (reads (.declaration true))) :=
    fun s => reads_mark ';' (.declaration true) [.includeFile s] fun _ => rfl
  have hword : reads (.declaration true) =
      reads (.declaration false) ⊔ behind (word "include") (reads .includePath) := by
    ext ls as
    simp only [Pi.sup_apply, sup_Prop_eq]
    cases ls with
    | nil => simp [reads, word, step, declaration, Step.goto]
    | cons l ls =>
      simp only [word, behind_lexeme_cons]
      by_cases hl : ∃ w, l = .id w
      · obtain ⟨w, rfl⟩ := hl
        rw [reads_declaration_id, reads_declaration_id]
        unfold keyword?
        split <;> simp_all
      · have hne : ∀ w, l ≠ .id w := fun w hw => hl ⟨w, hw⟩
        simp [reads_declaration_of_ne hne, hne]
  refine hword.trans ?_
  simp only [hpath, hend, settling_nil, inclusion, behind_mul, behind_iSup]

/-- From the start of a file, the sentences of trees are read, with the actions of the tree. -/
theorem reads_document {ls : List Lexeme} {as : List Action} :
    reads (.declaration true) ls as ↔ ∃ d : Document, ls ∈ d.sentences ∧ d.actions = as := by
  have hL : ∀ s, [] ∉ inclusion s := by simp [inclusion, word, Language.mem_mul]
  have hloop := loop_const hL reads_includes_step
  rw [hloop, reads_declarations]
  simp only [← List.map_eq_flatMap, behind_iSup, settling_iSup, settling_behind, ← behind_mul,
    ← settling_append, iSup_iff]
  constructor
  · rintro ⟨includes, ds, u, hu, v, rfl, bs, rfl, rfl, rfl⟩
    exact ⟨⟨includes, ds⟩, by rw [List.append_nil]; exact hu, by simp [Document.actions]⟩
  · rintro ⟨⟨includes, ds⟩, hls, rfl⟩
    exact ⟨includes, ds, ls, hls, [], by simp, [], by simp [Document.actions], rfl, rfl⟩

end Grammar

end FlatSchema
