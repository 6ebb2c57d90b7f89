import FlatSchema.Text.Quoted

/-!
# Log entries

What a compilation reports on its way, by level and by the part of the program that reports it.
Characters of a message that could steer a terminal are written by number.
-/

namespace FlatSchema

inductive LogLevel where
  | debug
  | info
  | warn
  | off
  deriving DecidableEq, Repr

namespace LogLevel

def name : LogLevel → String
  | debug => "DEBUG"
  | info => "INFO"
  | warn => "WARN"
  | off => "OFF"

def rank : LogLevel → Nat
  | debug => 0
  | info => 1
  | warn => 2
  | off => 3

end LogLevel

inductive LogTarget where
  | compiler
  | command
  deriving DecidableEq, Repr

def LogTarget.name : LogTarget → String
  | compiler => "brine_fbs_compiler::compiler"
  | command => "bfbs"

structure LogEntry where
  level : LogLevel
  target : LogTarget
  message : String
  deriving DecidableEq, Repr

namespace LogEntry

/-- Escapes the bell, the backspace, the form feed, the escape, the delete and the controls above
it; line ends, tabs and the other controls stay as they are. -/
def escape (c : Char) : List Char :=
  match c with
  | '\x07' => ['\\', 'x', '0', '7']
  | '\x08' => ['\\', 'x', '0', '8']
  | '\x0c' => ['\\', 'x', '0', 'c']
  | '\x1b' => ['\\', 'x', '1', 'b']
  | '\x7f' => ['\\', 'x', '7', 'f']
  | c => if 0x80 ≤ c.toNat ∧ c.toNat < 0xa0 then Text.byNumber c else [c]

def text (e : LogEntry) : String :=
  e.level.name ++ " " ++ e.target.name ++ ": " ++ String.ofList (e.message.toList.flatMap escape)

/-- Whether an entry is shown where entries below `least` are left out. -/
def shownAt (least : LogLevel) (e : LogEntry) : Bool :=
  least.rank ≤ e.level.rank

/-! ## Examples -/

example : escape '\t' = ['\t'] := by decide
example : escape '\u009b' = ['\\', 'u', '\x7b', '9', 'b', '\x7d'] := by decide
example : escape '\u00a0' = ['\u00a0'] := by decide

end LogEntry

end FlatSchema
