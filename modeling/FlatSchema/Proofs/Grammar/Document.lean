import FlatSchema.Source.Stream
import FlatSchema.Schema.Action
import Mathlib.Computability.Language

/-!
# Schema files as trees

A file is a tree: the files it includes, and its declarations in order (`Document`).  What can be
written for a tree is a language over lexemes (`Document.sentences`), put together as the grammar
has it:

    file   = (include STRING ;)* decl*
    decl   = namespace ID ;  |  (table | struct) ID meta? { (ID : type (= scalar)? meta? ;)* }
           | enum ID : type meta? { value* }  |  union ID meta? { value* }
           | root_type ID ;?  |  file_extension STRING ;?  |  file_identifier STRING ;?
           | attribute (STRING | ID) ;
    value  = ID (= INTEGER)? ,?
    type   = ID  |  [ ID ]
    scalar = BOOLEAN | INTEGER | FLOAT | ID
    meta   = ( (ID (: (STRING | BOOLEAN | INTEGER | FLOAT))? ,?)* )

Which declarations a schema takes in is `Schema.Admits`, and what it becomes by them `Schema.Gains`.
-/

namespace FlatSchema

/-! ## Trees -/

/-- Metadata as written; keys may repeat. -/
abbrev Items := List (String × Option Value)

structure WrittenField where
  name : String
  type : TypeName
  literal : Option Value
  metadata : Option Items

inductive Form where
  | table (fields : List WrittenField)
  | struct (fields : List WrittenField)
  | enum (base : TypeName) (values : List Entry)
  | union (values : List Entry)

structure WrittenType where
  name : String
  metadata : Option Items
  form : Form

inductive Declaration where
  | space (name : String)
  | type (t : WrittenType)
  | rootType (name : String)
  | fileExtension (text : String)
  | fileIdentifier (text : String)
  | attributeName (name : String)

structure Document where
  includes : List String
  declarations : List Declaration

/-! ## Sentences -/

/-- The lexemes of a text, if it has no place without a token. -/
def Stream.lexemes? : Stream → Option (List Lexeme)
  | .token t rest => rest.lexemes?.map (t.lexeme :: ·)
  | .eof _ => some []
  | .fault _ => none

/-- The value of a default as it is written; a string is none. -/
def Lexeme.scalar? : Lexeme → Option Value
  | .id name => some (.ident name)
  | .boolean b => some (.bool b)
  | .integer _ n => some (.integer n)
  | .float _ x => some (.float x)
  | _ => none

namespace Sentence

/-- One lexeme. -/
def lexeme (p : Lexeme → Prop) : Language Lexeme :=
  {ls | ∃ l, p l ∧ ls = [l]}

def mark (c : Char) : Language Lexeme :=
  lexeme (· = .punct c)

/-- An identifier, which may be a keyword. -/
def word (name : String) : Language Lexeme :=
  lexeme (· = .id name)

def quoted (contents : String) : Language Lexeme :=
  lexeme fun l => ∃ quote, l = .string quote contents

def integer (n : Int64) : Language Lexeme :=
  lexeme fun l => ∃ spelling, l = .integer spelling n

def scalar (v : Value) : Language Lexeme :=
  lexeme (·.scalar? = some v)

def single (v : Value) : Language Lexeme :=
  lexeme (·.value? = some v)

/-- What may be left out without a difference. -/
def maybe (L : Language Lexeme) : Language Lexeme :=
  1 + L

/-- A part that is written if it is there. -/
def part {α : Type} (f : α → Language Lexeme) : Option α → Language Lexeme
  | none => 1
  | some a => f a

def item (i : String × Option Value) : Language Lexeme :=
  word i.1 * part (fun v => mark ':' * single v) i.2 * maybe (mark ',')

def metadata : Option Items → Language Lexeme :=
  part fun items => mark '(' * (items.map item).prod * mark ')'

def value (e : Entry) : Language Lexeme :=
  word e.name * part (fun n => mark '=' * integer n) e.value * maybe (mark ',')

def type (t : TypeName) : Language Lexeme :=
  if t.repeated then mark '[' * word t.name * mark ']' else word t.name

def field (f : WrittenField) : Language Lexeme :=
  word f.name * mark ':' * type f.type * part (fun v => mark '=' * scalar v) f.literal *
    metadata f.metadata * mark ';'

/-- A body in braces. -/
def body {α : Type} (f : α → Language Lexeme) (xs : List α) : Language Lexeme :=
  mark '\x7b' * (xs.map f).prod * mark '\x7d'

def typeDeclaration (name : String) (m : Option Items) : Form → Language Lexeme
  | .table fs => word "table" * word name * metadata m * body field fs
  | .struct fs => word "struct" * word name * metadata m * body field fs
  | .enum base vs => word "enum" * word name * mark ':' * type base * metadata m * body value vs
  | .union vs => word "union" * word name * metadata m * body value vs

def declaration : Declaration → Language Lexeme
  | .space name => word "namespace" * word name * mark ';'
  | .type t => typeDeclaration t.name t.metadata t.form
  | .rootType name => word "root_type" * word name * maybe (mark ';')
  | .fileExtension text => word "file_extension" * quoted text * maybe (mark ';')
  | .fileIdentifier text => word "file_identifier" * quoted text * maybe (mark ';')
  | .attributeName name => word "attribute" * (quoted name + word name) * mark ';'

def inclusion (written : String) : Language Lexeme :=
  word "include" * quoted written * mark ';'

end Sentence

def Document.sentences (d : Document) : Language Lexeme :=
  (d.includes.map Sentence.inclusion).prod * (d.declarations.map Sentence.declaration).prod

/-! ## What a tree says -/

/-- The value of the last pair with this key. -/
def lastOf {α : Type} (key : String) (xs : List (String × α)) : Option α :=
  (xs.filter (·.1 = key)).getLast?.map (·.2)

/-- A key stands where it is first written, with the value it is last written with. -/
def Metadata.ofItems (items : Items) : Metadata :=
  ⟨(items.map (·.1)).eraseDups.map fun key => (key, (lastOf key items).join)⟩

def WrittenField.field (f : WrittenField) : Field where
  name := f.name
  type := .unresolved f.type
  repeated := f.type.repeated
  default := f.literal
  offset := none
  metadata := f.metadata.map .ofItems

namespace Form

def kind : Form → Kind
  | .table fs => .table (fs.map (·.field))
  | .struct fs => .struct (fs.map (·.field)) none
  | .enum base vs => .enum (.unresolved base) vs none
  | .union vs => .union vs

/-- The names of the fields or values. -/
def members : Form → List String
  | .table fs => fs.map (·.name)
  | .struct fs => fs.map (·.name)
  | .enum _ vs => vs.map (·.name)
  | .union vs => vs.map (·.name)

def base? : Form → Option TypeName
  | .enum base _ => some base
  | _ => none

end Form

namespace Declaration

/-- The namespace in force behind a declaration. -/
def leaves (space : String) : Declaration → String
  | .space name => name
  | _ => space

/-- Each declaration with the namespace in force before it. -/
def placed (space : String) : List Declaration → List (String × Declaration)
  | [] => []
  | d :: ds => (space, d) :: placed (d.leaves space) ds

/-- The types that are declared, each with its namespace. -/
def types (space : String) (ds : List Declaration) : List (String × WrittenType) :=
  (placed space ds).filterMap fun
    | (space, .type t) => some (space, t)
    | _ => none

/-- The names of root types, each with its namespace. -/
def roots (space : String) (ds : List Declaration) : List (String × String) :=
  (placed space ds).filterMap fun
    | (space, .rootType name) => some (space, name)
    | _ => none

def spaces (ds : List Declaration) : List String :=
  ds.filterMap fun
    | .space name => some name
    | _ => none

def fileExtensions (ds : List Declaration) : List String :=
  ds.filterMap fun
    | .fileExtension text => some text
    | _ => none

def fileIdentifiers (ds : List Declaration) : List String :=
  ds.filterMap fun
    | .fileIdentifier text => some text
    | _ => none

def attributes (ds : List Declaration) : List String :=
  ds.filterMap fun
    | .attributeName name => some name
    | _ => none

end Declaration

/-- The declarations of a file, which starts in the default namespace. -/
def Document.inFull (d : Document) : List Declaration :=
  .space "" :: d.declarations

namespace Schema

/-- The types of a schema, by the name of the namespace and their own. -/
def typeNames (s : Schema) : List (String × String) :=
  s.types.map fun t => (s.namespaceName t.home, t.name)

/-- The name of the root type last declared in a namespace. -/
def rootOf? (s : Schema) (space : String) : Option String :=
  (s.namespaceId? space).bind fun ns => s.namespaces[ns]?.bind (·.rootName)

/-- No name is taken twice, by the types of the schema and those declared. -/
structure Admits (space : String) (ds : List Declaration) (s : Schema) : Prop where
  types : (s.typeNames ++ (Declaration.types space ds).map fun p => (p.1, p.2.name)).Nodup
  members : ∀ p ∈ Declaration.types space ds, p.2.form.members.Nodup
  bases : ∀ p ∈ Declaration.types space ds, ∀ base, p.2.form.base? = some base → base.repeated = false
  identifiers : ∀ text ∈ Declaration.fileIdentifiers ds, text.length = 4

/-- A type is what is written, in the namespace called `p.1`. -/
structure Stores (s : Schema) (p : String × WrittenType) (t : TypeDecl) : Prop where
  home : s.namespaces[t.home]?.map (·.name) = some p.1
  name : t.name = p.2.name
  metadata : t.metadata = p.2.metadata.map .ofItems
  kind : t.kind = p.2.form.kind

/-- `s'` is `s` with what is declared, from the namespace `space` on, and nothing else. -/
structure Gains (space : String) (ds : List Declaration) (s s' : Schema) : Prop where
  /-- One type for each that is declared, in order, behind those that were there. -/
  types : ∃ added, s'.types = s.types ++ added ∧
    List.Forall₂ s'.Stores (Declaration.types space ds) added
  /-- New namespaces stand behind the old ones, in the order in which they are first named. -/
  namespaces : s'.namespaces.map (·.name) =
    (s.namespaces.map (·.name) ++ Declaration.spaces ds).eraseDups
  roots : ∀ name, s'.rootOf? name = (lastOf name (Declaration.roots space ds)).or (s.rootOf? name)
  fileIdentifier : s'.fileIdentifier =
    (Declaration.fileIdentifiers ds).getLast?.or s.fileIdentifier
  fileExtension : s'.fileExtension = (Declaration.fileExtensions ds).getLast?.or s.fileExtension
  attributes : s'.attributes = s.attributes ++ Declaration.attributes ds
  rest : s'.name = s.name ∧ s'.rootType = s.rootType ∧ s'.files = s.files

end Schema

/-! ## Repeated names -/

theorem eraseDups_append_singleton {α : Type} [DecidableEq α] (xs : List α) (x : α) :
    (xs ++ [x]).eraseDups = if x ∈ xs then xs.eraseDups else xs.eraseDups ++ [x] := by
  rw [List.eraseDups_append]
  by_cases hx : x ∈ xs <;> simp [List.removeAll, hx, List.eraseDups_cons]

theorem nodup_eraseDups {α : Type} [DecidableEq α] (xs : List α) : xs.eraseDups.Nodup := by
  induction xs using List.reverseRecOn with
  | nil => exact .nil
  | append_singleton xs x ih =>
    rw [eraseDups_append_singleton]
    split
    · exact ih
    · next hx =>
      exact List.nodup_append_comm.2 (List.nodup_cons.2 ⟨by simpa using hx, ih⟩)

theorem eraseDups_eq_self {α : Type} [DecidableEq α] {xs : List α} (h : xs.Nodup) :
    xs.eraseDups = xs := by
  induction xs using List.reverseRecOn with
  | nil => rfl
  | append_singleton xs x ih =>
    have hcons : (x :: xs).Nodup := List.nodup_append_comm.1 h
    obtain ⟨hx, hxs⟩ := List.nodup_cons.1 hcons
    rw [eraseDups_append_singleton, if_neg hx, ih hxs]

theorem eraseDups_eraseDups_append {α : Type} [DecidableEq α] (xs ys : List α) :
    (xs.eraseDups ++ ys).eraseDups = (xs ++ ys).eraseDups := by
  induction ys using List.reverseRecOn with
  | nil => rw [List.append_nil, List.append_nil, eraseDups_eq_self (nodup_eraseDups xs)]
  | append_singleton ys y ih =>
    rw [← List.append_assoc, ← List.append_assoc, eraseDups_append_singleton,
      eraseDups_append_singleton, ih]
    simp only [List.mem_append, List.mem_eraseDups]

theorem lastOf_append {α : Type} (key : String) (xs ys : List (String × α)) :
    lastOf key (xs ++ ys) = (lastOf key ys).or (lastOf key xs) := by
  unfold lastOf
  rw [List.filter_append, List.getLast?_append]
  cases (ys.filter (·.1 = key)).getLast? <;> simp

theorem lastOf_singleton {α : Type} (key k : String) (v : α) :
    lastOf key [(k, v)] = if k = key then some v else none := by
  by_cases hk : k = key <;> simp [lastOf, hk]

namespace Metadata

/-- Where keys are told apart, an entry is replaced in its place or added at the end. -/
theorem put_map {keys : List String} (hkeys : keys.Nodup) (k : String) (v : Option Value)
    (g : String → Option Value) :
    put k v (keys.map fun key => (key, g key)) =
      (if k ∈ keys then keys else keys ++ [k]).map fun key => (key, if k = key then v else g key) := by
  induction keys with
  | nil => simp [put]
  | cons key keys ih =>
    obtain ⟨hnew, hkeys⟩ := List.nodup_cons.1 hkeys
    rw [List.map_cons, put]
    by_cases hk : key = k
    · subst hk
      have hrest : keys.map (fun key' => (key', if key = key' then v else g key')) =
          keys.map fun key' => (key', g key') :=
        List.map_congr_left fun key' hmem => by rw [if_neg]; rintro rfl; exact hnew hmem
      simp [hrest]
    · simp only [hk, if_false, ih hkeys, List.mem_cons, Ne.symm hk, false_or]
      split <;> simp [Ne.symm hk]

theorem ofItems_append_singleton (items : Items) (k : String) (v : Option Value) :
    ofItems (items ++ [(k, v)]) = (ofItems items).insert k v := by
  unfold ofItems insert
  rw [put_map (nodup_eraseDups _), List.map_append, List.map_singleton, eraseDups_append_singleton]
  have hlast : ∀ key, (lastOf key (items ++ [(k, v)])).join =
      if k = key then v else (lastOf key items).join := by
    intro key
    rw [lastOf_append, lastOf_singleton]
    split <;> rfl
  simp only [List.mem_eraseDups, hlast]

/-- Inserting the items one by one. -/
theorem foldl_insert (items : Items) :
    items.foldl (fun m i => m.insert i.1 i.2) .empty = ofItems items := by
  induction items using List.reverseRecOn with
  | nil => rfl
  | append_singleton items i ih =>
    rw [List.foldl_append, ih, ofItems_append_singleton]
    rfl

end Metadata

end FlatSchema
