import FlatSchema.Grammar.State

/-!
# One token of the grammar

`step q t` says what token `t` means in state `q`: the actions that are settled by it, and the next
state or the fault.  An action is settled by the last token that it needs.  Where a part may be
left out, the token after it settles what came before and is then read as if that part had ended.
-/

namespace FlatSchema.Grammar

/-- Actions settled by a token, and where it leads. -/
structure Step where
  actions : List Action
  next : Except ParseFault State

namespace Step

def goto (q : State) : Step :=
  ⟨[], .ok q⟩

def emit (a : Action) (q : State) : Step :=
  ⟨[a], .ok q⟩

def fail (f : ParseFault) : Step :=
  ⟨[], .error f⟩

/-- The step, after an action that was settled before it. -/
def after (a : Action) (s : Step) : Step :=
  { s with actions := a :: s.actions }

end Step

open Step

/-- The token is none of what is expected. -/
def expected (what : String) (l : Lexeme) : Step :=
  fail (.expected what l.describe)

/-- Punctuation that has to come here. -/
def punct (c : Char) (l : Lexeme) (s : Step) : Step :=
  if l = .punct c then s else fail (.insteadOf l.describe c.toString)

/-! ## Declarations -/

/-- The state behind the keyword of a declaration. -/
def keyword? (head : Bool) (word : String) : Option State :=
  match word with
  | "include" => if head then some .includePath else none
  | "namespace" => some .namespaceName
  | "table" => some (.typeName .newTable .fields)
  | "struct" => some (.typeName .newStruct .fields)
  | "enum" => some .enumName
  | "union" => some (.typeName .newUnion .values)
  | "root_type" => some .rootTypeName
  | "file_extension" => some .fileExtension
  | "file_identifier" => some .fileIdentifier
  | "attribute" => some .attributeName
  | _ => none

def declaration (head : Bool) (l : Lexeme) : Step :=
  match l with
  | .eof => goto .finished
  | .id word =>
    match keyword? head word with
    | some q => goto q
    | none => fail (.unexpected word)
  | l => fail (.unexpected l.text)

def settingEnd (l : Lexeme) : Step :=
  if l = .punct ';' then goto (.declaration false) else declaration false l

/-! ## Metadata -/

/-- The closing parenthesis settles what the metadata is for. -/
def closeMetadata (bearer : Bearer) (m : Metadata) : Step :=
  match bearer with
  | .type body => emit (.attachMetadata m) (.bodyOpen body)
  | .field d => emit (.addField (d.field (some m)) d.place) .fieldEnd

def metadataKey (bearer : Bearer) (m : Metadata) (l : Lexeme) : Step :=
  match l with
  | .punct ')' => closeMetadata bearer m
  | .id key => goto (.metadataRest bearer m key)
  | l => expected "identifier" l

def metadataComma (bearer : Bearer) (m : Metadata) (l : Lexeme) : Step :=
  if l = .punct ',' then goto (.metadataKey bearer m) else metadataKey bearer m l

def metadataRest (bearer : Bearer) (m : Metadata) (key : String) (l : Lexeme) : Step :=
  if l = .punct ':' then goto (.metadataValue bearer m key)
  else metadataComma bearer (m.insert key none) l

def metadataValue (bearer : Bearer) (m : Metadata) (key : String) (l : Lexeme) : Step :=
  match l.value? with
  | some v => goto (.metadataComma bearer (m.insert key (some v)))
  | none => expected "single value" l

/-! ## Bodies -/

def bodyOpen (body : Body) (l : Lexeme) : Step :=
  punct '\x7b' l (goto (.inBody body))

def bodyOrMetadata (body : Body) (l : Lexeme) : Step :=
  if l = .punct '(' then goto (.metadataKey (.type body) .empty) else bodyOpen body l

def inBody (body : Body) (l : Lexeme) (place : Position) : Step :=
  match l with
  | .punct '\x7d' => goto (.declaration false)
  | .id name =>
    match body with
    | .fields => goto (.fieldColon name place)
    | .values => goto (.valueRest name place)
  | l => expected "identifier" l

/-! ## Fields -/

def fieldType (name : String) (place : Position) (l : Lexeme) : Step :=
  match l with
  | .id type => goto (.fieldRest ⟨name, place, ⟨type, false⟩, none⟩)
  | .punct '[' => goto (.fieldElement name place)
  | l => expected "type" l

def fieldElement (name : String) (place : Position) (l : Lexeme) : Step :=
  match l with
  | .id element => goto (.fieldBracket name place element)
  | l => expected "type" l

def fieldLiteral (d : Draft) (l : Lexeme) : Step :=
  match l with
  | .id name => goto (.fieldMetadata { d with literal := some (.ident name) })
  | .boolean b => goto (.fieldMetadata { d with literal := some (.bool b) })
  | .integer _ n => goto (.fieldMetadata { d with literal := some (.integer n) })
  | .float _ x => goto (.fieldMetadata { d with literal := some (.float x) })
  | l => expected "scalar" l

def fieldEnd (l : Lexeme) : Step :=
  punct ';' l (goto (.inBody .fields))

def fieldMetadata (d : Draft) (l : Lexeme) : Step :=
  if l = .punct '(' then goto (.metadataKey (.field d) .empty)
  else (fieldEnd l).after (.addField (d.field none) d.place)

def fieldRest (d : Draft) (l : Lexeme) : Step :=
  if l = .punct '=' then goto (.fieldLiteral d) else fieldMetadata d l

/-! ## Values -/

def valueComma (l : Lexeme) (place : Position) : Step :=
  if l = .punct ',' then goto (.inBody .values) else inBody .values l place

def valueRest (name : String) (start : Position) (l : Lexeme) (place : Position) : Step :=
  if l = .punct '=' then goto (.valueNumber name start)
  else (valueComma l place).after (.addValue ⟨name, none⟩ start)

def valueNumber (name : String) (place : Position) (l : Lexeme) : Step :=
  match l with
  | .integer _ n => emit (.addValue ⟨name, some n⟩ place) .valueComma
  | l => expected "integer" l

/-! ## Enums -/

def enumBase (name : String) (place : Position) (l : Lexeme) : Step :=
  match l with
  | .id base => emit (.declareEnum name ⟨base, false⟩ place) (.bodyOrMetadata .values)
  | .punct '[' => goto (.enumElement name place)
  | l => expected "type" l

def enumElement (name : String) (place : Position) (l : Lexeme) : Step :=
  match l with
  | .id base => goto (.enumBracket name place base)
  | l => expected "type" l

/-! ## All states -/

/-- An identifier that has to come here. -/
def identifier (l : Lexeme) (f : String → Step) : Step :=
  match l with
  | .id name => f name
  | l => expected "identifier" l

/-- A string that has to come here. -/
def quoted (l : Lexeme) (f : String → Step) : Step :=
  match l with
  | .string _ contents => f contents
  | l => expected "string" l

def attributeName (l : Lexeme) : Step :=
  match l with
  | .string _ contents => goto (.attributeEnd contents)
  | .id name => goto (.attributeEnd name)
  | l => expected "attribute name" l

def step (q : State) (t : Token) : Step :=
  let l := t.lexeme
  match q with
  | .declaration head => declaration head l
  | .includePath => quoted l fun s => goto (.includeEnd s)
  | .includeEnd s => punct ';' l (emit (.includeFile s) (.declaration true))
  | .namespaceName => identifier l fun n => goto (.namespaceEnd n)
  | .namespaceEnd n => punct ';' l (emit (.enterNamespace n) (.declaration false))
  | .typeName kind body =>
    identifier l fun n => emit (.declareType n kind t.position) (.bodyOrMetadata body)
  | .enumName => identifier l fun n => goto (.enumColon n t.position)
  | .enumColon n p => punct ':' l (goto (.enumBase n p))
  | .enumBase n p => enumBase n p l
  | .enumElement n p => enumElement n p l
  | .enumBracket n p base =>
    punct ']' l (emit (.declareEnum n ⟨base, true⟩ p) (.bodyOrMetadata .values))
  | .bodyOrMetadata body => bodyOrMetadata body l
  | .bodyOpen body => bodyOpen body l
  | .inBody body => inBody body l t.position
  | .fieldColon n p => punct ':' l (goto (.fieldType n p))
  | .fieldType n p => fieldType n p l
  | .fieldElement n p => fieldElement n p l
  | .fieldBracket n p element => punct ']' l (goto (.fieldRest ⟨n, p, ⟨element, true⟩, none⟩))
  | .fieldRest d => fieldRest d l
  | .fieldLiteral d => fieldLiteral d l
  | .fieldMetadata d => fieldMetadata d l
  | .fieldEnd => fieldEnd l
  | .valueRest n p => valueRest n p l t.position
  | .valueNumber n p => valueNumber n p l
  | .valueComma => valueComma l t.position
  | .metadataKey b m => metadataKey b m l
  | .metadataRest b m key => metadataRest b m key l
  | .metadataValue b m key => metadataValue b m key l
  | .metadataComma b m => metadataComma b m l
  | .rootTypeName => identifier l fun n => emit (.setRootType n) .settingEnd
  | .fileExtension => quoted l fun s => emit (.setFileExtension s) .settingEnd
  | .fileIdentifier => quoted l fun s => emit (.setFileIdentifier s t.position) .settingEnd
  | .settingEnd => settingEnd l
  | .attributeName => attributeName l
  | .attributeEnd n => punct ';' l (emit (.addAttribute n) (.declaration false))
  | .finished => fail (.unexpected l.text)

end FlatSchema.Grammar
