import FlatSchema.Proofs.Grammar.Declaring

/-!
# What reading a text depends on

A file that is accepted is read alike under any name (`parse_rename`) and whatever files are on record
(`parse_withFiles`).  What it includes stands in its lexemes, in front of everything else
(`includesOf`, `includes_of_parse`).  Reading texts one after the other is `Schema.readAll`.
-/

namespace FlatSchema

/-! ## Includes -/

/-- The files that are included at the head of the lexemes. -/
def leadingIncludes : List Lexeme → List String
  | .id "include" :: .string _ written :: .punct ';' :: ls => written :: leadingIncludes ls
  | _ => []

/-- What a text includes, in the order in which it is written. -/
def includesOf (text : String) : List String :=
  ((Stream.ofText "" text).lexemes?.map leadingIncludes).getD []

/-- Every declaration starts with a keyword of its own. -/
theorem Sentence.declaration_eq_word_mul (d : Declaration) :
    ∃ w L, w ≠ "include" ∧ declaration d = word w * L := by
  cases d with
  | space name => exact ⟨"namespace", _, by decide, mul_assoc _ _ _⟩
  | type t =>
    cases hform : t.form with
    | table fs =>
      exact ⟨"table", _, by decide, by simp only [declaration, typeDeclaration, hform, mul_assoc]; rfl⟩
    | struct fs =>
      exact ⟨"struct", _, by decide, by simp only [declaration, typeDeclaration, hform, mul_assoc]; rfl⟩
    | enum base vs =>
      exact ⟨"enum", _, by decide, by simp only [declaration, typeDeclaration, hform, mul_assoc]; rfl⟩
    | union vs =>
      exact ⟨"union", _, by decide, by simp only [declaration, typeDeclaration, hform, mul_assoc]; rfl⟩
  | rootType name => exact ⟨"root_type", _, by decide, mul_assoc _ _ _⟩
  | fileExtension text => exact ⟨"file_extension", _, by decide, mul_assoc _ _ _⟩
  | fileIdentifier text => exact ⟨"file_identifier", _, by decide, mul_assoc _ _ _⟩
  | attributeName name => exact ⟨"attribute", _, by decide, mul_assoc _ _ _⟩

theorem leadingIncludes_of_ne {w : String} (hw : w ≠ "include") (ls : List Lexeme) :
    leadingIncludes (.id w :: ls) = [] := by
  unfold leadingIncludes
  split
  · next h =>
    obtain ⟨hid, -⟩ := List.cons.inj h
    exact absurd (Lexeme.id.inj hid) hw
  · rfl

theorem leadingIncludes_declarations {ds : List Declaration} {ls : List Lexeme}
    (h : ls ∈ (ds.map Sentence.declaration).prod) : leadingIncludes ls = [] := by
  cases ds with
  | nil =>
    rw [List.map_nil, List.prod_nil, Language.mem_one] at h
    rw [h]
    rfl
  | cons d ds =>
    obtain ⟨w, L, hw, hd⟩ := Sentence.declaration_eq_word_mul d
    rw [List.map_cons, List.prod_cons, hd, mul_assoc] at h
    obtain ⟨_, ⟨l, rfl, rfl⟩, ls', -, rfl⟩ := Language.mem_mul.1 h
    exact leadingIncludes_of_ne hw ls'

/-- The includes of a tree are those at the head of its sentences. -/
theorem leadingIncludes_sentences {d : Document} {ls : List Lexeme} (h : ls ∈ d.sentences) :
    leadingIncludes ls = d.includes := by
  obtain ⟨includes, declarations⟩ := d
  unfold Document.sentences at h
  dsimp only at h ⊢
  induction includes generalizing ls with
  | nil =>
    rw [List.map_nil, List.prod_nil, one_mul] at h
    exact leadingIncludes_declarations h
  | cons written includes ih =>
    rw [List.map_cons, List.prod_cons, mul_assoc] at h
    obtain ⟨_, hinclude, rest, hrest, rfl⟩ := Language.mem_mul.1 h
    obtain ⟨_, hpath, _, ⟨_, rfl, rfl⟩, rfl⟩ := Language.mem_mul.1 hinclude
    obtain ⟨_, ⟨_, rfl, rfl⟩, _, ⟨_, ⟨quote, rfl⟩, rfl⟩, rfl⟩ := Language.mem_mul.1 hpath
    show written :: leadingIncludes rest = written :: includes
    rw [ih hrest]

/-! ## The name of a file -/

/-- The name of a file is part of its fault only. -/
theorem Stream.lexemes?_readFrom (file file' : String) (i : Input) :
    (readFrom file i).lexemes? = (readFrom file' i).lexemes? := by
  fun_induction readFrom file i with
  | case1 i next f h =>
    rw [readFrom]
    split
    · rfl
    · next h' => cases h.symm.trans h'
  | case2 i next h =>
    rw [readFrom]
    split
    · next h' => cases h.symm.trans h'
    · next l h' =>
      cases h.symm.trans h'
      rfl
  | case3 i next l h hl ih =>
    rw [lexemes?, ih]
    conv_rhs => rw [readFrom]
    split
    · next h' => cases h.symm.trans h'
    · next l' h' =>
      cases h.symm.trans h'
      rw [dif_neg hl]
      rfl

namespace Schema

variable {s s' : Schema} {file text : String} {head : FileHead}

theorem parse_rename (h : s.parse file text = (s', .ok head)) (file' : String) :
    s.parse file' text = (s', .ok head) := by
  obtain ⟨ls, d, x, hls, hd, hx, hs, hhead⟩ := parse_eq_ok_iff.1 h
  refine parse_eq_ok_iff.2 ⟨ls, d, x, ?_, hd, hx, hs, hhead⟩
  rw [← hls]
  exact Stream.lexemes?_readFrom file' file _

end Schema

/-! ## What is included -/

namespace Session

variable {x y : Session}

theorem includes_after (x : Session) (d : Declaration) :
    (d.after x).head.includes = x.head.includes := by
  cases d <;> rfl

/-- Declarations include nothing. -/
theorem includes_of_carries {ds : List Declaration} (h : x.Carries (ds.flatMap (·.actions)) y) :
    y.head.includes = x.head.includes := by
  induction ds generalizing x with
  | nil =>
    obtain rfl := carries_nil.1 h
    rfl
  | cons d ds ih =>
    obtain ⟨z, hz, hy⟩ := carries_append.1 h
    obtain ⟨-, rfl⟩ := carries_declaration.1 hz
    rw [ih hy, includes_after]

end Session

/-- A file that is accepted hands on what it includes. -/
theorem Schema.includes_of_parse {s s' : Schema} {file text : String} {head : FileHead}
    (h : s.parse file text = (s', .ok head)) : head.includes = includesOf text := by
  obtain ⟨ls, d, x, hls, hd, hx, -, rfl⟩ := parse_eq_ok_iff.1 h
  obtain ⟨y, hy, hx⟩ := Session.carries_append.1 (show Session.Carries _ d.actions x from hx)
  obtain rfl := Session.carries_includes.1 hy
  have hlexemes : (Stream.ofText "" text).lexemes? = some ls := by
    rw [← hls]
    exact Stream.lexemes?_readFrom "" file _
  rw [includesOf, hlexemes, Option.map_some, Option.getD_some, leadingIncludes_sentences hd,
    Session.includes_of_carries hx]
  exact List.nil_append _

/-! ## Files on record -/

namespace Schema

/-- The schema with another record of files. -/
def withRecord (files : List String) (seen : NameMap Unit) (s : Schema) : Schema :=
  { s with files := files, seenFiles := seen }

/-- The schema with other files on record. -/
def withFiles (files : List String) (s : Schema) : Schema :=
  s.withRecord files (.ofNames files)

variable (files : List String) (seen : NameMap Unit) (s : Schema)

theorem defineNamespace_withRecord (name : String) : (s.withRecord files seen).defineNamespace name =
    ((s.defineNamespace name).1, (s.defineNamespace name).2.withRecord files seen) := by
  have hid : (s.withRecord files seen).namespaceId? name = s.namespaceId? name := rfl
  unfold defineNamespace
  rw [hid]
  cases s.namespaceId? name <;> rfl

theorem addType_withRecord (ns : NamespaceId) (name : String) (kind : Kind) :
    (s.withRecord files seen).addType ns name kind =
      (s.addType ns name kind).map fun r => (r.1, r.2.withRecord files seen) := by
  have hchild : (s.withRecord files seen).child? ns name = s.child? ns name := rfl
  unfold addType
  rw [hchild]
  split <;> rfl

theorem updateType_withRecord (id : TypeId) (r : Except SchemaError Kind) :
    (r.map fun k => (s.withRecord files seen).updateType id (·.mapKind fun _ => k)) =
      (r.map fun k => s.updateType id (·.mapKind fun _ => k)).map (withRecord files seen) := by
  cases r <;> rfl

theorem addField_withRecord (id : TypeId) (f : Field) :
    (s.withRecord files seen).addField id f = (s.addField id f).map (withRecord files seen) := by
  have htypes : (s.withRecord files seen).types = s.types := rfl
  unfold addField
  rw [htypes]
  cases s.types[id]? with
  | none => rfl
  | some t => exact updateType_withRecord files seen s id _

theorem addValue_withRecord (id : TypeId) (e : Entry) :
    (s.withRecord files seen).addValue id e = (s.addValue id e).map (withRecord files seen) := by
  have htypes : (s.withRecord files seen).types = s.types := rfl
  unfold addValue
  rw [htypes]
  cases s.types[id]? with
  | none => rfl
  | some t => exact updateType_withRecord files seen s id _

theorem setFileIdentifier_withRecord (text : String) : (s.withRecord files seen).setFileIdentifier text =
    (s.setFileIdentifier text).map (withRecord files seen) := by
  unfold setFileIdentifier
  split <;> rfl

end Schema

namespace Session

def withRecord (files : List String) (seen : NameMap Unit) (x : Session) : Session :=
  { x with schema := x.schema.withRecord files seen }

variable (files : List String) (seen : NameMap Unit) (x : Session)

theorem declare_withRecord (name : String) (kind : Kind) (p : Position) :
    (x.withRecord files seen).declare name kind p = (x.declare name kind p).map (withRecord files seen) := by
  have hadd := x.schema.addType_withRecord files seen x.space name kind
  unfold declare withRecord
  dsimp only
  rw [hadd]
  cases x.schema.addType x.space name kind <;> rfl

theorem update_withRecord (p : Position) {r r' : Except SchemaError Schema}
    (h : r' = r.map (Schema.withRecord files seen)) :
    (x.withRecord files seen).update p r' = (x.update p r).map (withRecord files seen) := by
  subst h
  cases r <;> rfl

/-- No action looks at the record, and none changes it. -/
theorem perform_withRecord (a : Action) :
    (x.withRecord files seen).perform a = (x.perform a).map (withRecord files seen) := by
  cases a with
  | enterNamespace name =>
    unfold perform withRecord
    dsimp only
    rw [x.schema.defineNamespace_withRecord]
    rfl
  | declareType name kind p => exact x.declare_withRecord files seen name kind p
  | declareEnum name base p =>
    unfold perform
    dsimp only
    split
    · rfl
    · exact x.declare_withRecord files seen name _ p
  | addField f p => exact x.update_withRecord files seen p (x.schema.addField_withRecord files seen x.owner f)
  | addValue e p => exact x.update_withRecord files seen p (x.schema.addValue_withRecord files seen x.owner e)
  | setFileIdentifier text p =>
    exact x.update_withRecord files seen p (x.schema.setFileIdentifier_withRecord files seen text)
  | includeFile written => rfl
  | attachMetadata m => rfl
  | setRootType name => rfl
  | setFileExtension text => rfl
  | addAttribute name => rfl

theorem performAll_withRecord (as : List Action) : (x.withRecord files seen).performAll as =
    ((x.performAll as).1.withRecord files seen, (x.performAll as).2) := by
  induction as generalizing x with
  | nil => rfl
  | cons a as ih =>
    unfold performAll
    rw [perform_withRecord]
    cases x.perform a with
    | error e => rfl
    | ok y => exact ih y

end Session

namespace Schema

theorem parse_withRecord (files : List String) (seen : NameMap Unit) (s : Schema) (file text : String) :
    (s.withRecord files seen).parse file text =
      ((s.parse file text).1.withRecord files seen, (s.parse file text).2) := by
  have hstart : Session.start (s.withRecord files seen) = (Session.start s).withRecord files seen := by
    unfold Session.start
    rw [defineNamespace_withRecord]
    rfl
  unfold parse parseStream
  dsimp only
  rw [hstart, Session.performAll_withRecord]
  dsimp only
  split <;> rfl

theorem parse_withFiles (files : List String) (s : Schema) (file text : String) :
    (s.withFiles files).parse file text =
      ((s.parse file text).1.withFiles files, (s.parse file text).2) :=
  parse_withRecord files (.ofNames files) s file text

/-- Reading a text leaves the record. -/
theorem record_parse (s : Schema) (file text : String) :
    (s.parse file text).1.files = s.files ∧ (s.parse file text).1.seenFiles = s.seenFiles := by
  have h : (s.parse file text).1 = (s.parse file text).1.withRecord s.files s.seenFiles :=
    congrArg Prod.fst (parse_withRecord s.files s.seenFiles s file text)
  rw [h]
  exact ⟨rfl, rfl⟩

/-! ## One text after another -/

/-- Reads texts, each under a name, until one fails. -/
def readAll (s : Schema) : List (String × String) → Except CompileError Schema
  | [] => .ok s
  | (file, text) :: rest =>
    match s.parse file text with
    | (s', .ok _) => s'.readAll rest
    | (_, .error e) => .error e

end Schema

end FlatSchema
