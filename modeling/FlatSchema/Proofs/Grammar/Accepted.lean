import FlatSchema.Proofs.Grammar.Declaring
import FlatSchema.Proofs.Grammar.Gains

/-!
# Which files are accepted, and what they add

Declarations are taken in one after another.  A session sits in the namespace that is in force
(`Sits`); what a declaration adds to the schema is composed along the file (`Sits.gains`), and what it
asks of the schema comes down to the names taken so far (`Sits.admits_cons`, `Sits.carries_iff`).  So,
for a reachable schema,

    s.parse file text succeeds ↔ text is a sentence of a tree that s admits     (exists_parse_ok_iff)

and then the schema gains what the tree says, and nothing else (`parse_gains`).
-/

namespace FlatSchema

/-! ## Sessions -/

/-- The namespace in force is called `space`. -/
structure Session.Sits (space : String) (x : Session) : Prop where
  kept : x.schema.Kept
  home : x.schema.namespaces[x.space]?.map (·.name) = some space

/-- What is written refers to no type yet. -/
theorem Form.refers_kind (form : Form) (n : Nat) : form.kind.Refers n := by
  have hfields : ∀ {fs : List WrittenField} {f : Field} {id : TypeId},
      f ∈ fs.map (·.field) → f.type = .declared id → id < n := by
    intro fs f id hf hid
    obtain ⟨g, -, rfl⟩ := List.mem_map.1 hf
    cases hid
  cases form with
  | table fs => exact ⟨hfields, fun hb => by cases hb⟩
  | struct fs => exact ⟨hfields, fun hb => by cases hb⟩
  | enum base vs => exact ⟨fun hf => absurd hf List.not_mem_nil, fun hb => by cases hb⟩
  | union vs => exact ⟨fun hf => absurd hf List.not_mem_nil, fun hb => by cases hb⟩

namespace Session

open Schema

variable {x y : Session} {space : String} {d : Declaration} {ds : List Declaration}

theorem sits_space (hx : x.schema.Kept) (name : String) :
    ((Declaration.space name).after x).Sits name := by
  refine ⟨hx.defineNamespace name, ?_⟩
  show (x.schema.defineNamespace name).2.namespaces[(x.schema.defineNamespace name).1]?.map (·.name) = _
  rcases hx.indexed.defineNamespace_cases name with ⟨ns, hns, h⟩ | ⟨-, h⟩
  · rw [h]
    exact hns
  · rw [h]
    simp [Namespace.new]

theorem Sits.lt (hx : x.Sits space) : x.space < x.schema.namespaces.length := by
  obtain ⟨n, hn, -⟩ := Option.map_eq_some_iff.1 hx.home
  exact (List.getElem?_eq_some_iff.1 hn).1

theorem Sits.home_declare (hx : x.Sits space) (t : WrittenType) :
    (x.schema.declare (t.decl x.space)).namespaces[x.space]?.map (·.name) = some space := by
  rw [← List.getElem?_map, names_declare, List.getElem?_map]
  exact hx.home

/-- One declaration leads from a namespace to a namespace. -/
theorem Sits.after (hx : x.Sits space) (hd : d.Fits x) : (d.after x).Sits (d.leaves space) := by
  cases d with
  | space name => exact sits_space hx.kept name
  | type t =>
    obtain ⟨⟨hnew, -⟩, -⟩ := hd
    exact ⟨hx.kept.declare hx.lt (t.form.refers_kind _) hnew, hx.home_declare t⟩
  | rootType name =>
    refine ⟨Registers.kept (.setRootName _ x.space name) hx.kept, ?_⟩
    show (x.schema.setRootName x.space name).namespaces[x.space]?.map (·.name) = _
    rw [← List.getElem?_map, names_setRootName, List.getElem?_map]
    exact hx.home
  | fileExtension text => exact ⟨Registers.kept (.setFileExtension _ text) hx.kept, hx.home⟩
  | fileIdentifier text =>
    exact ⟨hx.kept.congr (hx.kept.indexed.congr rfl rfl rfl rfl rfl rfl rfl) rfl rfl rfl, hx.home⟩
  | attributeName name => exact ⟨Registers.kept (.addAttribute _ name) hx.kept, hx.home⟩

theorem gains_space (hx : x.schema.Kept) (space name : String) :
    x.schema.Gains space [.space name] ((Declaration.space name).after x).schema := by
  have hrest : ∃ nss ids, (x.schema.defineNamespace name).2 =
      { x.schema with namespaces := nss, namespaceIds := ids } := by
    rcases hx.indexed.defineNamespace_cases name with ⟨ns, -, h⟩ | ⟨-, h⟩
    · exact ⟨_, _, by rw [h]⟩
    · exact ⟨_, _, by rw [h]⟩
  obtain ⟨nss, ids, hnss⟩ := hrest
  refine ⟨⟨[], ?_, .nil⟩, names_defineNamespace hx name, fun _ => hx.rootOf?_defineNamespace name,
    ?_, ?_, ?_, ?_⟩ <;> simp [Declaration.after, hnss, Declaration.fileIdentifiers,
      Declaration.fileExtensions, Declaration.attributes]

/-- One declaration. -/
theorem Sits.gains_after (hx : x.Sits space) (d : Declaration) :
    x.schema.Gains space [d] (d.after x).schema := by
  have hnames : x.schema.namespaces.map Namespace.name =
      (x.schema.namespaces.map Namespace.name ++ []).eraseDups := by
    rw [List.append_nil, eraseDups_eq_self hx.kept.indexed.names]
  have htypes : x.schema.types = x.schema.types ++ [] := (List.append_nil _).symm
  cases d with
  | space name => exact gains_space hx.kept space name
  | type t =>
    exact ⟨⟨[t.decl x.space], rfl, .cons ⟨hx.home_declare t, rfl, rfl, rfl⟩ .nil⟩,
      (names_declare _ _).trans hnames, rootOf?_declare _ _, rfl, rfl, (List.append_nil _).symm, rfl,
      rfl, rfl⟩
  | rootType name =>
    refine ⟨⟨[], htypes, .nil⟩, (names_setRootName _ _ _).trans hnames, fun n => ?_, rfl, rfl,
      (List.append_nil _).symm, rfl, rfl, rfl⟩
    show (x.schema.setRootName x.space name).rootOf? n = (lastOf n [(space, name)]).or _
    rw [hx.kept.rootOf?_setRootName hx.home, lastOf_singleton]
    split <;> rfl
  | fileExtension text =>
    exact ⟨⟨[], htypes, .nil⟩, hnames, fun _ => rfl, rfl, rfl, (List.append_nil _).symm, rfl, rfl, rfl⟩
  | fileIdentifier text =>
    exact ⟨⟨[], htypes, .nil⟩, hnames, fun _ => rfl, rfl, rfl, (List.append_nil _).symm, rfl, rfl, rfl⟩
  | attributeName name =>
    exact ⟨⟨[], htypes, .nil⟩, hnames, fun _ => rfl, rfl, rfl, rfl, rfl, rfl, rfl⟩

theorem head_after (x : Session) (d : Declaration) : (d.after x).head =
    ⟨x.head.includes, x.head.attributes ++ Declaration.attributes [d]⟩ := by
  cases d <;> simp [Declaration.after, Declaration.attributes, opened]

theorem carries_declarations_cons :
    x.Carries ((d :: ds).flatMap (·.actions)) y ↔
      d.Fits x ∧ (d.after x).Carries (ds.flatMap (·.actions)) y := by
  rw [List.flatMap_cons, carries_append]
  constructor
  · rintro ⟨z, hz, hy⟩
    obtain ⟨hd, rfl⟩ := carries_declaration.1 hz
    exact ⟨hd, hy⟩
  · rintro ⟨hd, hy⟩
    exact ⟨_, carries_declaration.2 ⟨hd, rfl⟩, hy⟩

/-- All declarations. -/
theorem Sits.gains (hx : x.Sits space) (h : x.Carries (ds.flatMap (·.actions)) y) :
    x.schema.Gains space ds y.schema ∧
      y.head = ⟨x.head.includes, x.head.attributes ++ Declaration.attributes ds⟩ := by
  induction ds generalizing x space with
  | nil =>
    obtain rfl := carries_nil.1 h
    exact ⟨hx.kept.gains_nil space, by simp [Declaration.attributes]⟩
  | cons d ds ih =>
    obtain ⟨hd, hrest⟩ := carries_declarations_cons.1 h
    obtain ⟨hgains, hhead⟩ := ih (hx.after hd) hrest
    refine ⟨(hx.gains_after d).cons hgains, ?_⟩
    have hattributes : Declaration.attributes (d :: ds) =
        Declaration.attributes [d] ++ Declaration.attributes ds :=
      List.filterMap_append (l := [d])
    rw [hhead, head_after, hattributes, List.append_assoc]

theorem Sits.typeNames_opened (hx : x.Sits space) (t : WrittenType) :
    (x.opened (t.decl x.space)).schema.typeNames = x.schema.typeNames ++ [(space, t.name)] := by
  have hname : (x.schema.declare (t.decl x.space)).namespaceName x.space = space :=
    namespaceName_eq (hx.home_declare t)
  have hold : ∀ ns, (x.schema.declare (t.decl x.space)).namespaceName ns = x.schema.namespaceName ns := by
    intro ns
    rw [namespaceName, ← List.getElem?_map, names_declare, List.getElem?_map, ← namespaceName]
  show ((x.schema.types ++ [t.decl x.space]).map fun t' =>
    ((x.schema.declare (t.decl x.space)).namespaceName t'.home, t'.name)) = _
  rw [List.map_append, List.map_singleton]
  simp only [hold] at hname ⊢
  exact congrArg _ (congrArg (fun n => [(n, t.name)]) hname)

theorem Sits.admits_type (hx : x.Sits space) {t : WrittenType} :
    x.schema.Admits space (.type t :: ds) ↔
      (Declaration.type t).Fits x ∧ (x.opened (t.decl x.space)).schema.Admits space ds := by
  have htypes : Declaration.types space (.type t :: ds) =
      (space, t) :: Declaration.types space ds := rfl
  have hfree : x.schema.child? x.space t.name = none ↔ (space, t.name) ∉ x.schema.typeNames :=
    hx.kept.child?_eq_none_iff hx.home
  constructor
  · rintro ⟨hnames, hmembers, hbases, hidentifiers⟩
    rw [htypes] at hnames hmembers hbases
    refine ⟨⟨⟨hfree.2 fun hmem => ?_, hbases _ List.mem_cons_self⟩, hmembers _ List.mem_cons_self⟩,
      ?_, fun p hp => hmembers p (List.mem_cons_of_mem _ hp),
      fun p hp => hbases p (List.mem_cons_of_mem _ hp), hidentifiers⟩
    · exact (List.nodup_append.1 hnames).2.2 _ hmem _ (by simp) rfl
    · rw [hx.typeNames_opened, List.append_assoc]
      exact hnames
  · rintro ⟨⟨⟨hnew, hbase⟩, hmember⟩, hnames, hmembers, hbases, hidentifiers⟩
    rw [hx.typeNames_opened, List.append_assoc] at hnames
    refine ⟨hnames, fun p hp => ?_, fun p hp => ?_, hidentifiers⟩
    · rcases List.mem_cons.1 hp with rfl | hp
      · exact hmember
      · exact hmembers p hp
    · rcases List.mem_cons.1 hp with rfl | hp
      · exact hbase
      · exact hbases p hp

/-- What is asked of a schema for a declaration, and what for the others behind it. -/
theorem Sits.admits_cons (hx : x.Sits space) : x.schema.Admits space (d :: ds) ↔
    d.Fits x ∧ (d.after x).schema.Admits (d.leaves space) ds := by
  have hsame : d.Fits x → (d.after x).schema.typeNames = x.schema.typeNames →
      Declaration.types (d.leaves space) ds = Declaration.types space (d :: ds) →
      Declaration.fileIdentifiers ds = Declaration.fileIdentifiers (d :: ds) →
      (x.schema.Admits space (d :: ds) ↔
        d.Fits x ∧ (d.after x).schema.Admits (d.leaves space) ds) :=
    fun hd hn ht hi => (admits_congr hn ht hi).symm.trans (and_iff_right hd).symm
  cases d with
  | type t => exact hx.admits_type
  | space name =>
    exact hsame trivial (hx.kept.typeNames_defineNamespace name) rfl rfl
  | rootType name =>
    have hnames : (x.schema.setRootName x.space name).typeNames = x.schema.typeNames :=
      hx.kept.typeNames_congr rfl (by rw [names_setRootName])
    exact hsame trivial hnames rfl rfl
  | fileExtension text => exact hsame trivial rfl rfl rfl
  | attributeName name => exact hsame trivial rfl rfl rfl
  | fileIdentifier text =>
    have hidentifiers : Declaration.fileIdentifiers (.fileIdentifier text :: ds) =
        text :: Declaration.fileIdentifiers ds := rfl
    constructor
    · rintro ⟨htypes, hmembers, hbases, hall⟩
      rw [hidentifiers] at hall
      exact ⟨hall text List.mem_cons_self,
        htypes, hmembers, hbases, fun t ht => hall t (List.mem_cons_of_mem _ ht)⟩
    · rintro ⟨htext, htypes, hmembers, hbases, hall⟩
      refine ⟨htypes, hmembers, hbases, fun t ht => ?_⟩
      rcases List.mem_cons.1 ht with rfl | ht
      · exact htext
      · exact hall t ht

/-- All declarations are carried out if the schema admits them. -/
theorem Sits.carries_iff (hx : x.Sits space) :
    (∃ y, x.Carries (ds.flatMap (·.actions)) y) ↔ x.schema.Admits space ds := by
  induction ds generalizing x space with
  | nil =>
    constructor
    · rintro -
      refine ⟨?_, fun _ h => absurd h List.not_mem_nil, fun _ h => absurd h List.not_mem_nil,
        fun _ h => absurd h List.not_mem_nil⟩
      show (x.schema.typeNames ++ []).Nodup
      rw [List.append_nil]
      exact hx.kept.nodup_typeNames
    · exact fun _ => ⟨x, rfl⟩
  | cons d ds ih =>
    rw [hx.admits_cons]
    simp only [carries_declarations_cons, exists_and_left]
    exact and_congr_right fun hd => ih (hx.after hd)

/-! ## Files -/

/-- A session in which nothing was read. -/
def blank (s : Schema) : Session :=
  ⟨s, 0, 0, ⟨[], []⟩⟩

theorem start_eq (s : Schema) : start s = (Declaration.space "").after (blank s) :=
  rfl

theorem carries_document {s : Schema} {d : Document} : (start s).Carries d.actions y ↔
    Carries { start s with head.includes := d.includes } (d.declarations.flatMap (·.actions)) y := by
  rw [Document.actions, carries_append]
  simp only [carries_includes, exists_eq_left]
  rfl

theorem sits_start {s : Schema} (hs : s.Kept) (includes : List String) :
    Sits "" { start s with head.includes := includes } := by
  have hstart : (start s).Sits "" := by
    rw [start_eq]
    exact sits_space hs ""
  exact ⟨hstart.kept, hstart.home⟩

/-- A file starts by entering the default namespace. -/
theorem carries_document_iff {s : Schema} (hs : s.Kept) {d : Document} :
    (∃ y, (start s).Carries d.actions y) ↔ s.Admits "" d.inFull := by
  simp only [carries_document]
  rw [(sits_start hs d.includes).carries_iff]
  exact admits_congr (hs.typeNames_defineNamespace "") rfl rfl

theorem gains_document {s : Schema} (hs : s.Kept) {d : Document} (h : (start s).Carries d.actions y) :
    s.Gains "" d.inFull y.schema ∧
      y.head = ⟨d.includes, Declaration.attributes d.declarations⟩ := by
  obtain ⟨hgains, hhead⟩ := (sits_start hs d.includes).gains (carries_document.1 h)
  exact ⟨(gains_space (x := blank s) hs "" "").cons hgains, hhead⟩

end Session

/-! ## Accepted files -/

theorem Sentence.cons_mem_lexeme_mul {p : Lexeme → Prop} {l : Lexeme} {ls : List Lexeme}
    {L : Language Lexeme} : l :: ls ∈ lexeme p * L ↔ p l ∧ ls ∈ L := by
  rw [Language.mem_mul]
  constructor
  · rintro ⟨_, ⟨l', hl, rfl⟩, ls', hls, h⟩
    obtain ⟨rfl, rfl⟩ := List.cons.inj h
    exact ⟨hl, hls⟩
  · rintro ⟨hl, hls⟩
    exact ⟨[l], ⟨l, hl, rfl⟩, ls, hls, rfl⟩

namespace Schema

variable {s : Schema} {file text : String}

/-- A file is accepted exactly if it has no place without a token, is a sentence of some tree, and
the schema admits what the tree declares. -/
theorem exists_parse_ok_iff (hs : s.Reachable) :
    (∃ head, (s.parse file text).2 = .ok head) ↔
      ∃ ls d, (Stream.ofText file text).lexemes? = some ls ∧ ls ∈ Document.sentences d ∧
        s.Admits "" d.inFull := by
  constructor
  · rintro ⟨head, hhead⟩
    obtain ⟨ls, d, y, hls, hd, hy, -, -⟩ := parse_eq_ok_iff.1 (Prod.ext rfl hhead)
    exact ⟨ls, d, hls, hd, (Session.carries_document_iff hs.kept).1 ⟨y, hy⟩⟩
  · rintro ⟨ls, d, hls, hd, ha⟩
    obtain ⟨y, hy⟩ := (Session.carries_document_iff hs.kept).2 ha
    exact ⟨y.head, by rw [parse_eq_ok_iff.2 ⟨ls, d, y, hls, hd, hy, rfl, rfl⟩]⟩

/-- Any identifier is a name. -/
def reserved : String :=
  "table table \x7b table: [table]; \x7d"

/-- Accepted by an empty schema; a second time its table is there already. -/
theorem exists_parse_ok_iff_reserved :
    (empty "a").Reachable ∧ ((empty "a").parse "a.fbs" reserved).1.Reachable ∧
      (∃ ls d, (Stream.ofText "a.fbs" reserved).lexemes? = some ls ∧ ls ∈ Document.sentences d ∧
        (empty "a").Admits "" d.inFull) ∧
      ¬ ∃ ls d, (Stream.ofText "a.fbs" reserved).lexemes? = some ls ∧ ls ∈ Document.sentences d ∧
        ((empty "a").parse "a.fbs" reserved).1.Admits "" d.inFull := by
  have hempty : (empty "a").Reachable := .empty "a"
  have hfull : ((empty "a").parse "a.fbs" reserved).1.Reachable := .step hempty (.parse _ _) trivial
  refine ⟨hempty, hfull, (exists_parse_ok_iff hempty).1 ⟨⟨[], []⟩, by decide +kernel⟩, fun htree => ?_⟩
  obtain ⟨head, hhead⟩ := (exists_parse_ok_iff hfull).2 htree
  have hrefused : (((empty "a").parse "a.fbs" reserved).1.parse "a.fbs" reserved).2.toBool = false := by
    decide +kernel
  rw [hhead] at hrefused
  cases hrefused

/-- What a file says is what the schema gains by it, and nothing else. -/
theorem parse_gains (hs : s.Reachable) {ls : List Lexeme} {d : Document}
    (hls : (Stream.ofText file text).lexemes? = some ls) (hd : ls ∈ d.sentences)
    (ha : s.Admits "" d.inFull) : ∃ s',
      s.parse file text = (s', .ok ⟨d.includes, Declaration.attributes d.declarations⟩) ∧
        s.Gains "" d.inFull s' := by
  obtain ⟨y, hy⟩ := (Session.carries_document_iff hs.kept).2 ha
  obtain ⟨hgains, hhead⟩ := Session.gains_document hs.kept hy
  exact ⟨y.schema, parse_eq_ok_iff.2 ⟨ls, d, y, hls, hd, hy, rfl, hhead⟩, hgains⟩

/-- A key that is written twice, and two root types. -/
def twice : String :=
  "namespace a; table A \x7b x: [A] = 1 (k: 2, k); \x7d root_type T root_type A"

def twiceLexemes : List Lexeme :=
  [.id "namespace", .id "a", .punct ';', .id "table", .id "A", .punct '\x7b', .id "x", .punct ':',
    .punct '[', .id "A", .punct ']', .punct '=', .integer "1" 1, .punct '(', .id "k", .punct ':',
    .integer "2" 2, .punct ',', .id "k", .punct ')', .punct ';', .punct '\x7d', .id "root_type",
    .id "T", .id "root_type", .id "A"]

def twiceTree : Document where
  includes := []
  declarations := [
    .space "a",
    .type ⟨"A", none, .table [
      ⟨"x", ⟨"A", true⟩, some (.integer 1), some [("k", some (.integer 2)), ("k", none)]⟩]⟩,
    .rootType "T",
    .rootType "A"]

theorem twiceLexemes_mem : twiceLexemes ∈ twiceTree.sentences := by
  simp [twiceLexemes, twiceTree, Document.sentences, Sentence.declaration, Sentence.typeDeclaration,
    Sentence.body, Sentence.field, Sentence.type, Sentence.metadata, Sentence.item, Sentence.part,
    Sentence.maybe, Sentence.mark, Sentence.word, Sentence.scalar, Sentence.single, Lexeme.scalar?,
    Lexeme.value?, Sentence.cons_mem_lexeme_mul, Language.mem_add, mul_assoc, add_mul]

theorem admits_twice : (empty "a").Admits "" twiceTree.inFull where
  types := by decide +kernel
  members := by decide +kernel
  bases := by simp [twiceTree, Document.inFull, Declaration.types, Declaration.placed, Form.base?]
  identifiers := by decide +kernel

theorem parse_gains_twice :
    (empty "a").Reachable ∧ (Stream.ofText "a.fbs" twice).lexemes? = some twiceLexemes ∧
      twiceLexemes ∈ twiceTree.sentences ∧ (empty "a").Admits "" twiceTree.inFull ∧
      ∃ s', (empty "a").parse "a.fbs" twice = (s', .ok ⟨[], []⟩) ∧
        (empty "a").Gains "" twiceTree.inFull s' := by
  have hlexemes : (Stream.ofText "a.fbs" twice).lexemes? = some twiceLexemes := by decide +kernel
  exact ⟨.empty "a", hlexemes, twiceLexemes_mem, admits_twice,
    parse_gains (.empty "a") hlexemes twiceLexemes_mem admits_twice⟩

end Schema

end FlatSchema
