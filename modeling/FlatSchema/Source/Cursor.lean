import FlatSchema.Error
import FlatSchema.Source.Input

/-!
# Reading tokens one at a time

A cursor reads the tokens of a text on demand and can look one token ahead.  Looking ahead moves
its location to the token, past the layout before it, but consumes nothing; so does reading where
there is no token, and the same fault is then found again.
-/

namespace FlatSchema

structure Cursor where
  file : String
  input : Input
  ahead : Option Token
  deriving DecidableEq, Repr

/-- A step of a cursor; a failing step may still move it over layout, or over the token it
refuses. -/
abbrev Reading := EStateM CompileError Cursor

namespace Cursor

def ofText (file text : String) : Cursor :=
  ⟨file, .start text, none⟩

def location (c : Cursor) : Location :=
  ⟨c.file, c.input.position⟩

def locate (c : Cursor) (t : Token) : Location :=
  ⟨c.file, t.position⟩

/-- A fault at the current location. -/
def fault (c : Cursor) (f : ParseFault) : CompileError :=
  .parse f c.location

end Cursor

namespace Reading

/-- The next token, which stays to be read. -/
def peek : Reading Token := do
  let c ← get
  match c.ahead with
  | some t => pure t
  | none =>
    let next := c.input.skip
    match next.token with
    | .ok t =>
      set { c with input := next, ahead := some t }
      pure t
    | .error f =>
      set { c with input := next }
      throw (.ofScan ⟨c.file, next.position⟩ f)

/-- Passes over the token looked at. -/
def consume (t : Token) : Reading Unit :=
  modify fun c => { c with input := c.input.advance t.lexeme.text.utf8ByteSize, ahead := none }

def read : Reading Token := do
  let t ← peek
  consume t
  pure t

def fail {α : Type} (t : Token) (f : ParseFault) : Reading α := do
  throw (.parse f ((← get).locate t))

/-- Whether the next token is of the kind and, if a text is given, is spelled so. -/
def fits (kind : TokenKind) (text : Option String) (t : Token) : Bool :=
  t.lexeme.kind = kind && text.all (· = t.lexeme.text)

def lookingAt (kind : TokenKind) (text : Option String) : Reading Bool := do
  return fits kind text (← peek)

/-- Consumes the next token if it fits. -/
def eat (kind : TokenKind) (text : Option String) : Reading Bool := do
  let t ← peek
  if fits kind text t then
    consume t
    pure true
  else pure false

/-- Consumes the next token, which has to fit; one that does not is left. -/
def expect (kind : TokenKind) (text : Option String) : Reading Unit := do
  let t ← peek
  if t.lexeme.kind ≠ kind then fail t (.insteadOf t.lexeme.describe kind.name)
  else
    match text with
    | some w =>
      if t.lexeme.text ≠ w then fail t (.insteadOf t.lexeme.describe w) else consume t
    | none => consume t

/-- Consumes the next token whether or not it is what is asked for. -/
def take {α : Type} (what : String) (f : Lexeme → Option α) : Reading α := do
  let t ← read
  match f t.lexeme with
  | some a => pure a
  | none => fail t (.expected what t.lexeme.describe)

/-- The contents of a string token. -/
def string : Reading String :=
  take "string" fun
    | .string _ contents => some contents
    | _ => none

def identifier : Reading String :=
  take "identifier" fun
    | .id name => some name
    | _ => none

def integer : Reading Int64 :=
  take "integer" fun
    | .integer _ n => some n
    | _ => none

/-- The location of the next token. -/
def peekLocation : Reading Location := do
  let t ← peek
  return (← get).locate t

end Reading

end FlatSchema
