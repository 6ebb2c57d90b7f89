import FlatSchema.Text.Hidden

/-!
# Quoted texts

Two ways to write a text between double quotes.  `quoteData` is the form of the schema dump: only
the quote, the backslash and the controls below the space are escaped.  `quoteDetail` is the form
of detailed error reports, where every character that does not show is written by its number.
-/

namespace FlatSchema.Text

def hexDigits (n : Nat) : List Char :=
  Nat.toDigits 16 n

/-- A character written by its number, in braces. -/
def byNumber (c : Char) : List Char :=
  ['\\', 'u', '\x7b'] ++ hexDigits c.toNat ++ ['\x7d']

/-! ## Algorithm -/

/-- A control below the space that has no short escape is `\u` and four digits. -/
def escapeData (c : Char) : List Char :=
  match c with
  | '"' => ['\\', '"']
  | '\\' => ['\\', '\\']
  | '\x08' => ['\\', 'b']
  | '\t' => ['\\', 't']
  | '\n' => ['\\', 'n']
  | '\x0c' => ['\\', 'f']
  | '\r' => ['\\', 'r']
  | c =>
    if c.toNat < 0x10 then ['\\', 'u', '0', '0', '0'] ++ hexDigits c.toNat
    else if c.toNat < 0x20 then ['\\', 'u', '0', '0'] ++ hexDigits c.toNat
    else [c]

def escapeDetail (c : Char) : List Char :=
  match c with
  | '"' => ['\\', '"']
  | '\\' => ['\\', '\\']
  | '\t' => ['\\', 't']
  | '\n' => ['\\', 'n']
  | '\r' => ['\\', 'r']
  | '\x00' => ['\\', '0']
  | c => if isHidden c then byNumber c else [c]

def quoteWith (escape : Char → List Char) (s : String) : String :=
  String.ofList ('"' :: s.toList.flatMap escape ++ ['"'])

def quoteData (s : String) : String :=
  quoteWith escapeData s

def quoteDetail (s : String) : String :=
  quoteWith escapeDetail s

/-! ## Examples -/

example : escapeData '\x1b' = ['\\', 'u', '0', '0', '1', 'b'] := by decide
example : escapeData '/' = ['/'] := by decide
example : escapeDetail '\'' = ['\''] := by decide +kernel

end FlatSchema.Text
