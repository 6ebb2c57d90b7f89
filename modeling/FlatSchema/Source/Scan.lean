import FlatSchema.Source.Fault
import FlatSchema.Source.Numeral
import FlatSchema.Text.Word

/-!
# Reading one lexeme

`scan cs` is the lexeme at the front of `cs`, where layout has been skipped.  The first rule that
applies decides; a character that none applies to is unknown.
-/

namespace FlatSchema

/-! ## Characters -/

def isSpace (c : Char) : Bool :=
  c = ' ' || c = '\t' || c = '\x0b' || c = '\x0c' || c = '\xa0'

def isNewline (c : Char) : Bool :=
  c = '\n' || c = '\r' || c = '\u2028' || c = '\u2029'

def isIdStart (c : Char) : Bool :=
  ('a' ≤ c && c ≤ 'z') || ('A' ≤ c && c ≤ 'Z') || c = '_'

def isIdRest (c : Char) : Bool :=
  isIdStart c || c.isDigit || c = '.'

def punctuation : List Char :=
  [';', ':', '\x7b', '\x7d', '[', ']', '(', ')', '=', ',']

/-! ## Rules -/

/-- What a rule makes of the front of a text: nothing if it does not apply, else a lexeme or the
fault that it finds. -/
abbrev Rule := List Char → Option (Except ScanFault Lexeme)

/-- A slash before a star opens a comment that is not supported. -/
def blockComment : Rule
  | '/' :: '*' :: _ => some (.error (.unsupported .blockComment))
  | _ => none

/-- `true` or `false`, unless a word character follows. -/
def booleanWord : Rule
  | 't' :: 'r' :: 'u' :: 'e' :: rest =>
    if rest.head?.any Text.isWord then none else some (.ok (.boolean true))
  | 'f' :: 'a' :: 'l' :: 's' :: 'e' :: rest =>
    if rest.head?.any Text.isWord then none else some (.ok (.boolean false))
  | _ => none

/-- A letter or underscore and the letters, digits, underscores and dots after it. -/
def identifier : Rule
  | c :: cs =>
    if isIdStart c then some (.ok (.id (String.ofList (c :: cs.takeWhile isIdRest)))) else none
  | [] => none

/-- From a quote to the next such quote, on one line. -/
def quotedString : Rule
  | quote :: cs =>
    let inner := cs.takeWhile fun c => c != quote && !isNewline c
    if (quote = '"' ∨ quote = '\'') ∧ (cs.drop inner.length).head? = some quote then
      some (.ok (.string quote (String.ofList inner)))
    else none
  | [] => none

def hexNumber : Rule := fun cs =>
  if startsWithHexFloat cs then some (.error (.unsupported .hexFloat))
  else if startsWithHexInteger cs then some (.error (.unsupported .hexInteger))
  else none

/-- A number without point and exponent has to fit 64 bits. -/
def decimalLexeme (n : Numeral) : Except ScanFault Lexeme :=
  let spelling := String.ofList n.spelling
  if n.isFloat then .ok (.float spelling n.float)
  else
    match int64? n.integer with
    | some i => .ok (.integer spelling i)
    | none => .error (.parse (.invalidInteger spelling))

def decimalNumber : Rule := fun cs =>
  (Numeral.read? cs).map decimalLexeme

def punctuationMark : Rule
  | c :: _ => if c ∈ punctuation then some (.ok (.punct c)) else none
  | [] => none

def rules : List Rule :=
  [blockComment, booleanWord, identifier, quotedString, hexNumber, decimalNumber, punctuationMark]

def scan : List Char → Except ScanFault Lexeme
  | [] => .ok .eof
  | c :: cs => (rules.findSome? (· (c :: cs))).getD (.error (.parse (.unknownCharacter c)))

end FlatSchema
