/-!
# Lines of a script

A script is a list of lines, each with its depth.  A block is a line ending in an opening brace, its
body one level deeper, and a line starting with a closing brace.
-/

namespace FlatSchema

structure Line where
  depth : Nat
  text : String
  deriving DecidableEq, Repr

namespace Line

def blank : Line := ⟨0, ""⟩

def top (text : String) : Line := ⟨0, text⟩

def deeper (l : Line) : Line :=
  { l with depth := l.depth + 1 }

/-- Empty lines are not indented. -/
def render (l : Line) : String :=
  if l.text = "" then "" else String.ofList (List.replicate (4 * l.depth) ' ') ++ l.text

end Line

abbrev Script := List Line

namespace Script

def block (head : String) (body : Script) (tail : String) : Script :=
  .top (head ++ " \x7b") :: body.map Line.deeper ++ [.top ("\x7d" ++ tail)]

/-- Every line ends in a line feed. -/
def render (s : Script) : String :=
  String.join (s.map fun l => l.render ++ "\n")

end Script

end FlatSchema
