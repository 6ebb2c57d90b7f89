import FlatSchema.Grammar.State
import FlatSchema.Proofs.Lookahead
import FlatSchema.Proofs.Grammar.Document

/-!
# Parsing by descent

The grammar as a parser that asks a cursor for tokens, with a loop for each part that may be repeated:
includes, declarations, fields, values and metadata entries.  Such a loop goes round until a closing
bracket that may never come, and the end of a text can be read again and again, so nothing here says
that a run ends: `none` is the answer of one that does not.

A parser keeps the calls that it makes, so that what it has read of a text can be counted.
-/

namespace FlatSchema

/-! ## Parsers -/

namespace Answer

def toBool : Answer → Bool
  | flag b => b
  | _ => false

def toText : Answer → String
  | text s => s
  | _ => ""

def toNumber : Answer → Int64
  | number n => n
  | _ => 0

def toPosition : Answer → Position
  | place l => l.position
  | _ => ⟨0, 0⟩

def toToken : Answer → Token
  | token t => t
  | _ => ⟨.eof, ⟨0, 0⟩⟩

end Answer

/-- A parser with all calls that it has made, the first one first. -/
structure Parser where
  cursor : Cursor
  calls : List Call
  session : Session

/-- The parser after one more call. -/
def Parser.called (p : Parser) (k : Call) : Parser :=
  { p with cursor := (ask k p.cursor).2, calls := p.calls ++ [k] }

/-- A computation that may fail, and that may not end. -/
abbrev Parsing := ExceptT CompileError (StateT Parser Option)

namespace Parsing

def on {α : Type} (x : Parsing α) (p : Parser) : Option (Except CompileError α × Parser) :=
  (ExceptT.run x).run p

def call {α : Type} (f : Answer → α) (k : Call) : Parsing α :=
  fun p => some ((ask k p.cursor).1.map f, p.called k)

/-- A refused declaration is reported where it stands. -/
def perform (a : Action) : Parsing Unit := fun p =>
  match p.session.perform a with
  | .ok session => some (.ok (), { p with session := session })
  | .error (e, place) => some (.error (.declaration e ⟨p.cursor.file, place⟩), p)

def refuse {α : Type} (f : ParseFault) (t : Token) : Parsing α :=
  fun p => some (.error (.parse f (p.cursor.locate t)), p)

def atEnd : Parsing Bool :=
  call Answer.toBool (.lookingAt .eof none)

def place : Parsing Position :=
  call Answer.toPosition .peekLocation

def eatPunct (c : Char) : Parsing Bool :=
  call Answer.toBool (.eatPunct c)

def eatKeyword (word : String) : Parsing Bool :=
  call Answer.toBool (.eatKeyword word)

def expectPunct (c : Char) : Parsing Unit :=
  call (fun _ => ()) (.expectPunct c)

def identifier : Parsing String :=
  call Answer.toText .identifier

def string : Parsing String :=
  call Answer.toText .string

def integer : Parsing Int64 :=
  call Answer.toNumber .integer

/-- The next token, which has to be what is asked for. -/
def take {α : Type} (what : String) (f : Lexeme → Option α) : Parsing α := do
  let t ← call Answer.toToken .read
  match f t.lexeme with
  | some a => pure a
  | none => refuse (.expected what t.lexeme.describe) t

end Parsing

/-- A loop, which goes on as long as `more` says so. -/
structure Loop (σ : Type) where
  more : Parsing Bool
  body : σ → Parsing σ

namespace Loop

/-- One round; `none` when the loop is over. -/
def round {σ : Type} (l : Loop σ) (a : σ) : Parsing (Option σ) := do
  if ← l.more then some <$> l.body a else pure none

def run {σ : Type} (l : Loop σ) (a : σ) : Parsing σ := do
  match ← l.round a with
  | some b => l |>.run b
  | none => pure a
partial_fixpoint

end Loop

/-! ## The grammar -/

namespace Parsing

/-- The first part of a type: a name, or an opening bracket. -/
def typeStart? : Lexeme → Option (Option String)
  | .id name => some (some name)
  | .punct '[' => some none
  | _ => none

def id? : Lexeme → Option String
  | .id name => some name
  | _ => none

def string? : Lexeme → Option String
  | .string _ contents => some contents
  | _ => none

def integer? : Lexeme → Option Int64
  | .integer _ n => some n
  | _ => none

def attribute? : Lexeme → Option String
  | .string _ contents => some contents
  | .id name => some name
  | _ => none

/-- A part that may be left out, behind a mark. -/
def part {α : Type} (mark : Char) (x : Parsing α) : Parsing (Option α) := do
  if ← eatPunct mark then some <$> x else pure none

def typeName : Parsing TypeName := do
  match ← take "type" typeStart? with
  | some name => return ⟨name, false⟩
  | none =>
    let element ← take "type" id?
    expectPunct ']'
    return ⟨element, true⟩

def metadataEntry (m : Metadata) : Parsing Metadata := do
  let key ← identifier
  let value ← part ':' (take "single value" Lexeme.value?)
  let _ ← eatPunct ','
  return m.insert key value

def metadataEntries : Loop Metadata where
  more := do return !(← eatPunct ')')
  body := metadataEntry

def metadata : Parsing (Option Metadata) :=
  part '(' (metadataEntries.run .empty)

def field : Parsing Unit := do
  let start ← place
  let name ← identifier
  expectPunct ':'
  let type ← typeName
  let literal ← part '=' (take "scalar" Lexeme.scalar?)
  let m ← metadata
  perform (.addField (.declare name type literal m) start)
  expectPunct ';'

def value : Parsing Unit := do
  let start ← place
  let name ← identifier
  let number ← part '=' integer
  perform (.addValue ⟨name, number⟩ start)
  let _ ← eatPunct ','

/-- The fields of a table or struct, or the values of an enum or union. -/
def members (body : Grammar.Body) : Loop Unit where
  more := do return !(← eatPunct '\x7d')
  body _ :=
    match body with
    | .fields => field
    | .values => value

def attach : Option Metadata → Parsing Unit
  | some m => perform (.attachMetadata m)
  | none => pure ()

def bodyOf (body : Grammar.Body) : Parsing Unit := do
  attach (← metadata)
  expectPunct '\x7b'
  (members body).run ()

def type (kind : Kind) (body : Grammar.Body) : Parsing Unit := do
  let start ← place
  let name ← identifier
  perform (.declareType name kind start)
  bodyOf body

def enum : Parsing Unit := do
  let start ← place
  let name ← identifier
  expectPunct ':'
  let base ← typeName
  perform (.declareEnum name base start)
  bodyOf .values

def setting {α : Type} (x : Parsing α) (act : α → Action) : Parsing Unit := do
  perform (act (← x))
  let _ ← eatPunct ';'

def fileIdentifier : Parsing Unit := do
  let start ← place
  setting string (.setFileIdentifier · start)

def closed {α : Type} (x : Parsing α) (act : α → Action) : Parsing Unit := do
  let a ← x
  expectPunct ';'
  perform (act a)

/-- What follows each keyword. -/
def declarationOf : List (String × Parsing Unit) :=
  [("namespace", closed identifier .enterNamespace),
    ("table", type .newTable .fields),
    ("struct", type .newStruct .fields),
    ("enum", enum),
    ("union", type .newUnion .values),
    ("root_type", setting identifier .setRootType),
    ("file_extension", setting string .setFileExtension),
    ("file_identifier", fileIdentifier),
    ("attribute", closed (take "attribute name" attribute?) .addAttribute)]

/-- The keywords are tried in order. -/
def choose : List (String × Parsing Unit) → Parsing Unit
  | [] => do
    let t ← call Answer.toToken .read
    refuse (.unexpected t.lexeme.text) t
  | (word, x) :: rest => do
    if ← eatKeyword word then x else choose rest

def includes : Loop Unit where
  more := do if ← atEnd then pure false else eatKeyword "include"
  body _ := closed string .includeFile

def declarations : Loop Unit where
  more := do return !(← atEnd)
  body _ := choose declarationOf

def document : Parsing Unit := do
  includes.run ()
  declarations.run ()

def file : Parsing FileHead := do
  document
  return (← get).session.head

end Parsing

/-- Parses a file by descent. -/
def Schema.descend (s : Schema) (file text : String) :
    Option (Except CompileError FileHead × Parser) :=
  Parsing.file.on ⟨.ofText file text, [], .start s⟩

end FlatSchema
