import FlatSchema.Grammar.Step
import FlatSchema.Source.Stream

/-!
# Parsing a file into a schema

The actions of a file are carried out in order; the first refusal is reported if there is one, and
otherwise the fault of the text if there is one.  Whatever was carried out before stays.
-/

namespace FlatSchema

namespace Grammar

/-- The actions that a stream settles, and the fault it ends with if it is no file. -/
structure Outline where
  actions : List Action
  fault : Option CompileError
  deriving DecidableEq, Repr

/-- The outline of the rest of a file, in state `q`. -/
def outline (file : String) (q : State) : Stream → Outline
  | .token t rest =>
    let s := step q t
    match s.next with
    | .ok q' =>
      let o := outline file q' rest
      ⟨s.actions ++ o.actions, o.fault⟩
    | .error f => ⟨s.actions, some (.parse f ⟨file, t.position⟩)⟩
  | .eof p =>
    let s := step q ⟨.eof, p⟩
    match s.next with
    | .ok _ => ⟨s.actions, none⟩
    | .error f => ⟨s.actions, some (.parse f ⟨file, p⟩)⟩
  | .fault e => ⟨[], some e⟩

end Grammar

namespace Schema

/-- Reads a stream of tokens into the schema. -/
def parseStream (s : Schema) (file : String) (tokens : Stream) :
    Schema × Except CompileError FileHead :=
  let o := Grammar.outline file (.declaration true) tokens
  let (session, refusal) := (Session.start s).performAll o.actions
  match refusal, o.fault with
  | some (e, p), _ => (session.schema, .error (.declaration e ⟨file, p⟩))
  | none, some e => (session.schema, .error e)
  | none, none => (session.schema, .ok session.head)

def parse (s : Schema) (file text : String) : Schema × Except CompileError FileHead :=
  s.parseStream file (.ofText file text)

end Schema

end FlatSchema
