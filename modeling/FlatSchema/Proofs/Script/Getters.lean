import FlatSchema.Proofs.Script.Classes
import Mathlib.Algebra.Group.Nat.Defs

/-!
# Getters, as the text of a script shows them

A getter is read back from its lines (`Getter.ofLines?`): it throws, or it reads a field from its slot
or at its offset, in one of a few ways.  `getters?` reads all getters of a class from the text of a
script.

`Carries` says what a field of a resolved schema holds, and `Reads` and `ReadsAt` say which getter a
field of a table or of a struct needs for that.  The getters of a script are the ones that the fields need
(`getters?_reads`): nothing that resolution has to provide is left out.
-/

namespace FlatSchema

/-- The typed array for vectors of a primitive: `Int16Array` for `int16`, and so on. -/
def Primitive.viewName (p : Primitive) : String :=
  String.ofList (p.name.toList.modifyHead Char.toUpper) ++ "Array"

/-- What a getter does.  A field of a table is looked up in a slot, and one of a struct lies at an
offset.  Where the slot is empty a scalar falls back to its default, a vector of objects is empty, and
everything else is `null`. -/
inductive Getter where
  | throws (message : String)
  | scalar (slot : Nat) (p : Primitive) (fallback : String)
  | array (slot : Nat) (p : Primitive)
  | table (slot : Nat) (path : String)
  | struct (slot : Nat) (path : String)
  | tables (slot : Nat) (path : String)
  | structs (slot : Nat) (path : String) (step : Nat)
  | scalarAt (offset : Nat) (p : Primitive)
  | structAt (offset : Nat) (path : String)
  deriving DecidableEq, Repr

namespace Getter

/-! ## Reading -/

def number? (text : String) : Option Nat :=
  if text ≠ "" ∧ text.toList.all Char.isDigit then some (Nat.ofDigitChars 10 text.toList 0) else none

/-- What is called, and the rest from the parenthesis on. -/
def call (text : String) : String × String :=
  (String.ofList (text.toList.takeWhile (· ≠ '(')), String.ofList (text.toList.dropWhile (· ≠ '(')))

/-- The arguments of a typed array. -/
def viewArguments : String :=
  "(this._reader.buffer.buffer, "
    ++ "this._reader.buffer.byteOffset + this._reader.vector(this._offset + offset), "
    ++ "this._reader.length(this._offset + offset))"

def slot? (line : String) : Option Nat :=
  (within? "const offset = this._reader.offset(this._offset, " ");" line).bind number?

/-- A getter that returns what it finds in the slot. -/
def ofSlot? (slot : Nat) (line : String) : Option Getter :=
  match within? "return offset ? this._reader." ";" line with
  | some text => do
    let p ← Primitive.all.find? (·.name = (call text).1)
    let fallback ← within? "(this._offset + offset) : " "" (call text).2
    some (.scalar slot p fallback)
  | none => do
    let text ← within? "return offset ? new " " : null;" line
    let (path, arguments) := call text
    if arguments = "(this._reader, this._reader.indirect(this._offset + offset))" then
      some (.table slot path)
    else if arguments = "(this._reader, this._offset + offset)" then some (.struct slot path)
    else if arguments = viewArguments then
      (Primitive.all.find? (·.viewName = path)).map (.array slot)
    else none

/-- A getter that collects the elements of the vector in the slot. -/
def ofPush? (slot : Nat) (line : String) : Option Getter := do
  let text ← within? "vector.push(new " ");" line
  let (path, arguments) := call text
  if arguments =
      "(this._reader, this._reader.indirect(this._reader.vector(this._offset + offset) + i * 4))" then
    some (.tables slot path)
  else
    let step ← within? "(this._reader, this._reader.vector(this._offset + offset) + i * " ")" arguments
    (number? step).map (.structs slot path)

/-- A getter that looks nothing up. -/
def ofLine? (line : String) : Option Getter :=
  match within? "throw new Error(\"" "\");" line with
  | some message => some (.throws message)
  | none =>
    match within? "return this._reader." ");" line with
    | some text => do
      let p ← Primitive.all.find? (·.name = (call text).1)
      let offset ← within? "(this._offset + " "" (call text).2
      (number? offset).map (.scalarAt · p)
    | none => do
      let text ← within? "return new " ");" line
      let offset ← within? "(this._reader, this._offset + " "" (call text).2
      (number? offset).map (.structAt · (call text).1)

/-- The getter with these lines. -/
def ofLines? : List String → Option Getter
  | [line] => ofLine? line
  | [slot, line] => (slot? slot).bind fun n => ofSlot? n line
  | [slot, length, vector, loop, push, close, result] =>
    if length = "const length = offset ? this._reader.length(this._offset + offset) : 0;" ∧
        vector = "const vector = [];" ∧ loop = "for (let i = 0; i < length; i++) \x7b" ∧
        close = "\x7d" ∧ result = "return vector;" then
      (slot? slot).bind fun n => ofPush? n push
    else none
  | _ => none

/-! ## Writing -/

def slotLine (slot : Nat) : String :=
  "const offset = this._reader.offset(this._offset, " ++ toString slot ++ ");"

def loopLines (slot : Nat) (element : String) : List String :=
  [slotLine slot, "const length = offset ? this._reader.length(this._offset + offset) : 0;",
    "const vector = [];", "for (let i = 0; i < length; i++) \x7b",
    "vector.push(new " ++ element ++ ");", "\x7d", "return vector;"]

/-- The lines of a getter. -/
def lines : Getter → List String
  | throws message => ["throw new Error(\"" ++ message ++ "\");"]
  | scalar slot p fallback =>
    [slotLine slot,
      "return offset ? this._reader." ++ (p.name ++ ("(this._offset + offset) : " ++ fallback)) ++ ";"]
  | array slot p =>
    [slotLine slot, "return offset ? new " ++ (p.viewName ++ viewArguments) ++ " : null;"]
  | table slot path =>
    [slotLine slot, "return offset ? new "
      ++ (path ++ "(this._reader, this._reader.indirect(this._offset + offset))") ++ " : null;"]
  | struct slot path =>
    [slotLine slot, "return offset ? new " ++ (path ++ "(this._reader, this._offset + offset)")
      ++ " : null;"]
  | tables slot path =>
    loopLines slot (path ++
      "(this._reader, this._reader.indirect(this._reader.vector(this._offset + offset) + i * 4))")
  | structs slot path step =>
    loopLines slot (path ++ ("(this._reader, this._reader.vector(this._offset + offset) + i * " ++
      toString step ++ ")"))
  | scalarAt offset p =>
    ["return this._reader." ++ (p.name ++ ("(this._offset + " ++ toString offset)) ++ ");"]
  | structAt offset path =>
    ["return new " ++ (path ++ ("(this._reader, this._offset + " ++ toString offset)) ++ ");"]

/-- The path of a getter can be told from the arguments behind it. -/
def Plain : Getter → Prop
  | table _ path | struct _ path | tables _ path | structs _ path _ | structAt _ path =>
    '(' ∉ path.toList
  | _ => True

theorem number?_toString (n : Nat) : number? (toString n) = some n := by
  have hdigits : (toString n).toList = Nat.toDigits 10 n := Nat.toList_repr
  have hne : toString n ≠ "" := by
    intro hempty
    rw [hempty] at hdigits
    exact Nat.toDigits_ne_nil hdigits.symm
  have hall : (toString n).toList.all Char.isDigit = true := by
    rw [List.all_eq_true]
    exact fun c hc => isDigit_of_mem_repr hc
  rw [number?, if_pos ⟨hne, hall⟩, hdigits, Nat.ofDigitChars_ten_toDigits]

theorem slot?_slotLine (n : Nat) : slot? (slotLine n) = some n := by
  unfold slot? slotLine
  rw [within?_append, Option.bind_some, number?_toString]

theorem call_append {name arguments : String} (h : '(' ∉ name.toList)
    (hopen : arguments.toList.head? = some '(') : call (name ++ arguments) = (name, arguments) := by
  have hall : ∀ c ∈ name.toList, decide (c ≠ '(') = true := by
    intro c hc
    simp only [decide_eq_true_eq]
    rintro rfl
    exact h hc
  obtain ⟨cs, hcs⟩ : ∃ cs, arguments.toList = '(' :: cs := ⟨_, (List.eq_cons_of_mem_head? hopen)⟩
  rw [call, String.toList_append, List.takeWhile_append_of_pos hall, List.dropWhile_append_of_pos hall,
    hcs, List.takeWhile_cons_of_neg (by simp), List.dropWhile_cons_of_neg (by simp), ← hcs,
    List.append_nil, String.ofList_toList, String.ofList_toList]

theorem find?_name (p : Primitive) : Primitive.all.find? (·.name = p.name) = some p := by
  have hall : ∀ p ∈ Primitive.all, Primitive.all.find? (·.name = p.name) = some p := by decide
  exact hall p p.mem_all

theorem find?_viewName (p : Primitive) : Primitive.all.find? (·.viewName = p.viewName) = some p := by
  have hall : ∀ p ∈ Primitive.all, Primitive.all.find? (·.viewName = p.viewName) = some p := by
    decide +kernel
  exact hall p p.mem_all

theorem not_mem_name (p : Primitive) : '(' ∉ p.name.toList := by
  have hall : ∀ p ∈ Primitive.all, '(' ∉ p.name.toList := by decide
  exact hall p p.mem_all

theorem not_mem_viewName (p : Primitive) : '(' ∉ p.viewName.toList := by
  have hall : ∀ p ∈ Primitive.all, '(' ∉ p.viewName.toList := by decide +kernel
  exact hall p p.mem_all

theorem ofSlot?_scalar (slot : Nat) (p : Primitive) (fallback : String) :
    ofSlot? slot ("return offset ? this._reader."
      ++ (p.name ++ ("(this._offset + offset) : " ++ fallback)) ++ ";") =
        some (.scalar slot p fallback) := by
  have hcall : call (p.name ++ ("(this._offset + offset) : " ++ fallback)) =
      (p.name, "(this._offset + offset) : " ++ fallback) :=
    call_append (not_mem_name p) (head?_append_of_some rfl fallback)
  have hfallback : within? "(this._offset + offset) : " "" ("(this._offset + offset) : " ++ fallback) =
      some fallback := by
    rw [within?_eq_some_iff, String.append_empty]
  unfold ofSlot?
  rw [within?_append]
  simp only [hcall, find?_name, hfallback, Option.bind_eq_bind, Option.bind_some]

/-- A getter that makes something of what is in the slot. -/
theorem ofSlot?_new (slot : Nat) {path arguments : String} (hpath : '(' ∉ path.toList)
    (hopen : arguments.toList.head? = some '(') :
    ofSlot? slot ("return offset ? new " ++ (path ++ arguments) ++ " : null;") =
      if arguments = "(this._reader, this._reader.indirect(this._offset + offset))" then
        some (.table slot path)
      else if arguments = "(this._reader, this._offset + offset)" then some (.struct slot path)
      else if arguments = viewArguments then
        (Primitive.all.find? (·.viewName = path)).map (.array slot)
      else none := by
  have hreader : within? "return offset ? this._reader." ";"
      ("return offset ? new " ++ (path ++ arguments) ++ " : null;") = none := by
    rw [String.append_assoc]
    exact within?_eq_none_of_front _ _ (by decide) (by decide)
  unfold ofSlot?
  rw [hreader]
  simp only [within?_append, call_append hpath hopen, Option.bind_eq_bind, Option.bind_some]

theorem ofPush?_new (slot : Nat) {path arguments : String} (hpath : '(' ∉ path.toList)
    (hopen : arguments.toList.head? = some '(') :
    ofPush? slot ("vector.push(new " ++ (path ++ arguments) ++ ");") =
      if arguments =
          "(this._reader, this._reader.indirect(this._reader.vector(this._offset + offset) + i * 4))" then
        some (.tables slot path)
      else
        (within? "(this._reader, this._reader.vector(this._offset + offset) + i * " ")" arguments).bind
          fun step => (number? step).map (.structs slot path) := by
  unfold ofPush?
  simp only [within?_append, call_append hpath hopen, Option.bind_eq_bind, Option.bind_some]

theorem ofLine?_scalarAt (offset : Nat) (p : Primitive) :
    ofLine? ("return this._reader." ++ (p.name ++ ("(this._offset + " ++ toString offset)) ++ ");") =
      some (.scalarAt offset p) := by
  have hthrow : within? "throw new Error(\"" "\");"
      ("return this._reader." ++ (p.name ++ ("(this._offset + " ++ toString offset)) ++ ");") =
        none := by
    rw [String.append_assoc]
    exact within?_eq_none_of_front _ _ (by decide) (by decide)
  have hcall : call (p.name ++ ("(this._offset + " ++ toString offset)) =
      (p.name, "(this._offset + " ++ toString offset) :=
    call_append (not_mem_name p) (head?_append_of_some rfl _)
  have hoffset : within? "(this._offset + " "" ("(this._offset + " ++ toString offset) =
      some (toString offset) := by
    rw [within?_eq_some_iff, String.append_empty]
  unfold ofLine?
  rw [hthrow]
  simp only [within?_append, hcall, find?_name, hoffset, number?_toString, Option.bind_eq_bind,
    Option.bind_some, Option.map_some]

theorem ofLine?_structAt (offset : Nat) {path : String} (hpath : '(' ∉ path.toList) :
    ofLine? ("return new " ++ (path ++ ("(this._reader, this._offset + " ++ toString offset)) ++ ");") =
      some (.structAt offset path) := by
  have hthrow : within? "throw new Error(\"" "\");"
      ("return new " ++ (path ++ ("(this._reader, this._offset + " ++ toString offset)) ++ ");") =
        none := by
    rw [String.append_assoc]
    exact within?_eq_none_of_front _ _ (by decide) (by decide)
  have hreader : within? "return this._reader." ");"
      ("return new " ++ (path ++ ("(this._reader, this._offset + " ++ toString offset)) ++ ");") =
        none := by
    rw [String.append_assoc]
    exact within?_eq_none_of_front _ _ (by decide) (by decide)
  have hcall : call (path ++ ("(this._reader, this._offset + " ++ toString offset)) =
      (path, "(this._reader, this._offset + " ++ toString offset) :=
    call_append hpath (head?_append_of_some rfl _)
  have hoffset : within? "(this._reader, this._offset + " ""
      ("(this._reader, this._offset + " ++ toString offset) = some (toString offset) := by
    rw [within?_eq_some_iff, String.append_empty]
  unfold ofLine?
  rw [hthrow]
  simp only [hreader, within?_append, hcall, hoffset, number?_toString, Option.bind_eq_bind,
    Option.bind_some, Option.map_some]

/-- Reading a getter gives back what was written. -/
theorem ofLines?_lines {g : Getter} (h : g.Plain) : ofLines? g.lines = some g := by
  cases g with
  | throws message =>
    simp only [lines, ofLines?, ofLine?]
    rw [within?_append]
  | scalar slot p fallback =>
    simp only [lines, ofLines?, slot?_slotLine, Option.bind_some]
    exact ofSlot?_scalar slot p fallback
  | array slot p =>
    have hopen : viewArguments.toList.head? = some '(' :=
      head?_append_of_some (head?_append_of_some rfl _) _
    simp only [lines, ofLines?, slot?_slotLine, Option.bind_some]
    rw [ofSlot?_new slot (not_mem_viewName p) hopen, if_neg (by decide +kernel),
      if_neg (by decide +kernel), if_pos rfl, find?_viewName, Option.map_some]
  | table slot path =>
    simp only [lines, ofLines?, slot?_slotLine, Option.bind_some]
    rw [ofSlot?_new slot h (by decide +kernel), if_pos rfl]
  | struct slot path =>
    simp only [lines, ofLines?, slot?_slotLine, Option.bind_some]
    rw [ofSlot?_new slot h (by decide +kernel), if_neg (by decide +kernel), if_pos rfl]
  | tables slot path =>
    simp only [lines, loopLines, ofLines?, slot?_slotLine, Option.bind_some, and_self, if_true]
    rw [ofPush?_new slot h (by decide +kernel), if_pos rfl]
  | structs slot path step =>
    simp only [lines, loopLines, ofLines?, slot?_slotLine, Option.bind_some, and_self, if_true]
    rw [ofPush?_new slot h ?_, if_neg ?_, within?_append, Option.bind_some, number?_toString,
      Option.map_some]
    · rw [String.append_assoc]
      exact append_ne_of_front (by simp) _
    · exact head?_append_of_some (head?_append_of_some rfl _) _
  | scalarAt offset p =>
    simp only [lines, ofLines?]
    exact ofLine?_scalarAt offset p
  | structAt offset path =>
    simp only [lines, ofLines?]
    exact ofLine?_structAt offset h

end Getter

/-! ## What the fields need -/

/-- What a field holds; an enum is held as its base. -/
inductive Content where
  | scalar (p : Primitive)
  | table (id : TypeId)
  | struct (id : TypeId) (size : ByteCount)
  | union
  deriving DecidableEq, Repr

/-- The reader has no call for the content, or for a vector of it. -/
def Content.Unread (repeated : Bool) : Content → Prop
  | scalar p =>
    if repeated then p ∈ [Primitive.string, .bool, .int64, .uint64] else p ∈ [Primitive.int64, .uint64]
  | union => True
  | _ => False

/-- The type of which an object is made. -/
def Content.object? : Content → Option TypeId
  | table id => some id
  | struct id _ => some id
  | _ => none

def Content.access : Content → Access
  | scalar p => .scalar p
  | table id => .table id
  | struct id size => .struct id size
  | union => .unsupported

def Field.refusal (f : Field) : String :=
  "'" ++ f.name ++ "' is not supported."

namespace Schema

/-- What a reference leads to.  An enum without a base and a struct without a size are nothing to
read. -/
inductive Carries (s : Schema) : TypeRef → Content → Prop where
  | primitive (p : Primitive) : Carries s (.primitive p) (.scalar p)
  | enum {x : TypeId} {p : Primitive} {vs : List Entry} {d : Option Value}
      (h : s.kind? x = some (.enum (.primitive p) vs d)) : Carries s (.declared x) (.scalar p)
  | table {x : TypeId} {fs : List Field} (h : s.kind? x = some (.table fs)) :
      Carries s (.declared x) (.table x)
  | struct {x : TypeId} {fs : List Field} {n : ByteCount}
      (h : s.kind? x = some (.struct fs (some n))) : Carries s (.declared x) (.struct x n)
  | union {x : TypeId} {vs : List Entry} (h : s.kind? x = some (.union vs)) :
      Carries s (.declared x) .union

/-- The getter for a field in a slot of a table. -/
inductive Reads (s : Schema) (slot : Nat) (f : Field) : Content → Getter → Prop where
  | unread {c : Content} (h : c.Unread f.repeated) : Reads s slot f c (.throws f.refusal)
  | scalar {p : Primitive} {v : Value} (hf : f.repeated = false)
      (hp : p ∉ [Primitive.int64, .uint64]) (hv : f.default = some v) :
      Reads s slot f (.scalar p) (.scalar slot p v.script)
  | array {p : Primitive} (hf : f.repeated = true)
      (hp : p ∉ [Primitive.string, .bool, .int64, .uint64]) :
      Reads s slot f (.scalar p) (.array slot p)
  | table {x : TypeId} (hf : f.repeated = false) :
      Reads s slot f (.table x) (.table slot ("$root." ++ s.qualifiedName x))
  | struct {x : TypeId} {n : ByteCount} (hf : f.repeated = false) :
      Reads s slot f (.struct x n) (.struct slot ("$root." ++ s.qualifiedName x))
  | tables {x : TypeId} (hf : f.repeated = true) :
      Reads s slot f (.table x) (.tables slot ("$root." ++ s.qualifiedName x))
  | structs {x : TypeId} {n : ByteCount} (hf : f.repeated = true) :
      Reads s slot f (.struct x n) (.structs slot ("$root." ++ s.qualifiedName x) n.toNat)

/-- The getter for a field at an offset in a struct. -/
inductive ReadsAt (s : Schema) (offset : Nat) (f : Field) : Content → Getter → Prop where
  | unread {p : Primitive} (hp : p ∈ [Primitive.int64, .uint64]) :
      ReadsAt s offset f (.scalar p) (.throws f.refusal)
  | scalar {p : Primitive} (hp : p ∉ [Primitive.int64, .uint64]) :
      ReadsAt s offset f (.scalar p) (.scalarAt offset p)
  | struct {x : TypeId} {n : ByteCount} :
      ReadsAt s offset f (.struct x n) (.structAt offset ("$root." ++ s.qualifiedName x))

open Getter

variable {s : Schema} {f : Field} {c : Content} {o : ByteCount}

theorem isWide_iff (p : Primitive) : p.isWide = true ↔ p ∈ [Primitive.int64, .uint64] := by
  cases p <;> decide

theorem typedArray?_eq (p : Primitive) : p.typedArray? =
    if p ∈ [Primitive.string, .bool, .int64, .uint64] then none else some p.viewName := by
  cases p <;> decide +kernel

theorem Carries.access_eq (h : s.Carries f.type c) : s.access f = c.access := by
  unfold access
  generalize f.type = r at h
  cases h with
  | primitive p => rfl
  | enum h => simp only [h, Content.access]
  | table h => simp only [h, Content.access]
  | struct h => simp only [h, Content.access, Option.getD_some]
  | union h => simp only [h, Content.access]

theorem text_readSlot (ho : f.offset = some o) : (readSlot f).text = slotLine o.toNat := by
  unfold readSlot Field.offsetText slotLine
  rw [ho]
  rfl

theorem lines_unsupported (f : Field) :
    (unsupported f).map (·.text) = Getter.lines (.throws f.refusal) := by
  have hfront : "throw new Error(\"'" = "throw new Error(\"" ++ "'" := by simp
  have hback : "' is not supported.\");" = "' is not supported." ++ "\");" := by simp
  unfold unsupported Getter.lines Field.refusal
  rw [hfront, hback]
  simp only [List.map_cons, List.map_nil, Line.top, String.append_assoc]

theorem lines_vectorLoop (slot : Nat) (element : String) :
    slotLine slot :: (vectorLoop element).map (·.text) = loopLines slot element := by
  unfold vectorLoop loopLines Script.block
  rfl

theorem lines_vectorGetter (h : s.Carries f.type c) (ho : f.offset = some o) (hf : f.repeated = true) :
    ∃ g, s.Reads o.toNat f c g ∧ (s.vectorGetter f).map (·.text) = g.lines := by
  unfold vectorGetter
  rw [h.access_eq]
  cases c with
  | scalar p =>
    by_cases hp : p ∈ [Primitive.string, .bool, .int64, .uint64]
    · refine ⟨_, .unread (c := .scalar p) ?_, ?_⟩
      · rw [hf]
        exact hp
      · simp only [Content.access, typedArray?_eq, if_pos hp]
        exact lines_unsupported f
    · have hjoin : "this._reader.length(this._offset + offset))" ++ " : null;" =
        "this._reader.length(this._offset + offset)) : null;" := by simp
      refine ⟨_, .array hf hp, ?_⟩
      simp only [Content.access, typedArray?_eq, if_neg hp, List.map_cons, List.map_nil,
        text_readSlot ho, Line.top, Getter.lines]
      unfold viewArguments
      simp only [String.append_assoc, hjoin]
  | table x =>
    refine ⟨_, .tables hf, ?_⟩
    have hjoin : "(this._reader, "
        ++ "this._reader.indirect(this._reader.vector(this._offset + offset) + i * 4))" =
      "(this._reader, this._reader.indirect(this._reader.vector(this._offset + offset) + i * 4))" := by
      simp
    simp only [Content.access, List.map_cons, text_readSlot ho]
    rw [lines_vectorLoop, String.append_assoc, hjoin]
    rfl
  | struct x n =>
    refine ⟨_, .structs hf, ?_⟩
    have hjoin : "(this._reader, " ++ "this._reader.vector(this._offset + offset) + i * " =
      "(this._reader, this._reader.vector(this._offset + offset) + i * " := by simp
    simp only [Content.access, List.map_cons, text_readSlot ho]
    rw [lines_vectorLoop]
    simp only [Getter.lines, classPath, String.append_assoc, append_joined hjoin]
  | union => exact ⟨_, .unread (c := .union) trivial, lines_unsupported f⟩

theorem lines_singleGetter (h : s.Carries f.type c) (ho : f.offset = some o) (hf : f.repeated = false)
    (hd : ∀ p, c = .scalar p → ∃ v, f.default = some v) :
    ∃ g, s.Reads o.toNat f c g ∧ (s.singleGetter f).map (·.text) = g.lines := by
  unfold singleGetter
  rw [h.access_eq]
  cases c with
  | scalar p =>
    simp only [Content.access]
    split
    · next hp =>
      refine ⟨_, .unread (c := .scalar p) ?_, lines_unsupported f⟩
      rw [hf]
      exact (isWide_iff p).1 hp
    · next hp =>
      obtain ⟨v, hv⟩ := hd p rfl
      refine ⟨_, .scalar hf (mt (isWide_iff p).2 hp) hv, ?_⟩
      simp only [List.map_cons, List.map_nil, text_readSlot ho, Line.top, hv, Option.map_some,
        Option.getD_some, Getter.lines, String.append_assoc]
  | table x =>
    have hjoin : "(this._reader, this._reader.indirect(this._offset + offset))" ++ " : null;" =
      "(this._reader, this._reader.indirect(this._offset + offset)) : null;" := by simp
    refine ⟨_, .table hf, ?_⟩
    simp only [Content.access, List.map_cons, List.map_nil, text_readSlot ho, Line.top, Getter.lines,
      classPath, String.append_assoc, hjoin]
  | struct x n =>
    have hjoin : "(this._reader, this._offset + offset)" ++ " : null;" =
      "(this._reader, this._offset + offset) : null;" := by simp
    refine ⟨_, .struct hf, ?_⟩
    simp only [Content.access, List.map_cons, List.map_nil, text_readSlot ho, Line.top, Getter.lines,
      classPath, String.append_assoc, hjoin]
  | union => exact ⟨_, .unread (c := .union) trivial, lines_unsupported f⟩

/-- A field of a table has the getter it needs. -/
theorem lines_tableGetter (h : s.Carries f.type c) (ho : f.offset = some o)
    (hd : ∀ p, c = .scalar p → ∃ v, f.default = some v) :
    ∃ g, s.Reads o.toNat f c g ∧ (s.tableGetter f).map (·.text) = g.lines := by
  unfold tableGetter
  cases hf : f.repeated with
  | true => exact lines_vectorGetter h ho hf
  | false => exact lines_singleGetter h ho hf hd

/-- A field of a struct has the getter it needs. -/
theorem lines_structGetter (h : s.Carries f.type c) (ho : f.offset = some o)
    (hc : (∃ p, c = .scalar p) ∨ ∃ x n, c = .struct x n) :
    ∃ g, s.ReadsAt o.toNat f c g ∧ (s.structGetter f).map (·.text) = g.lines := by
  have hoffset : f.offsetText = toString o.toNat := by
    rw [Field.offsetText, ho]
    rfl
  unfold structGetter
  rw [h.access_eq]
  rcases hc with ⟨p, rfl⟩ | ⟨x, n, rfl⟩
  · simp only [Content.access]
    split
    · next hp => exact ⟨_, .unread ((isWide_iff p).1 hp), lines_unsupported f⟩
    · next hp =>
      refine ⟨_, .scalar (mt (isWide_iff p).2 hp), ?_⟩
      simp only [List.map_cons, List.map_nil, Line.top, hoffset, Getter.lines, String.append_assoc]
  · refine ⟨_, .struct, ?_⟩
    simp only [Content.access, List.map_cons, List.map_nil, Line.top, hoffset, Getter.lines, classPath,
      String.append_assoc]

/-! ## Getters of a class -/

theorem plain_path (hs : s.Spelled) (x : TypeId) : '(' ∉ ("$root." ++ s.qualifiedName x).toList := by
  rw [String.toList_append, List.mem_append]
  refine not_or.2 ⟨by decide, fun hmem => ?_⟩
  exact absurd (qualifiedName_idRest hs x _ hmem) (by decide)

theorem Reads.plain {slot : Nat} {g : Getter} (hs : s.Spelled) (h : s.Reads slot f c g) : g.Plain := by
  cases h with
  | table _ => exact plain_path hs _
  | struct _ => exact plain_path hs _
  | tables _ => exact plain_path hs _
  | structs _ => exact plain_path hs _
  | _ => trivial

theorem ReadsAt.plain {offset : Nat} {g : Getter} (hs : s.Spelled) (h : s.ReadsAt offset f c g) :
    g.Plain := by
  cases h with
  | struct => exact plain_path hs _
  | _ => trivial

/-- The getters of the class of a type, from the text of the script. -/
def getters? (s : Schema) (id : TypeId) : Option (List (String × Option Getter)) :=
  (s.members? id).map fun ms => ms.filterMap fun m =>
    (within? "get " "() \x7b" m.1).map fun name => (name, Getter.ofLines? m.2)

theorem within?_getter (name : String) :
    within? "get " "() \x7b" ("get " ++ name ++ "()" ++ " \x7b") = some name := by
  have hjoin : "()" ++ " \x7b" = "() \x7b" := by simp
  rw [within?_eq_some_iff, String.append_assoc, hjoin]

theorem within?_getter_rootParts {id : TypeId} {m : String × Script} (h : m ∈ s.rootParts id) :
    within? "get " "() \x7b" (m.1 ++ " \x7b") = none := by
  have hcreate : within? "get " "() \x7b" ("static create(reader)" ++ " \x7b") = none := by
    decide +kernel
  have hidentifier : within? "get " "() \x7b" ("static identifier(reader)" ++ " \x7b") = none := by
    decide +kernel
  unfold rootParts at h
  split at h
  · rcases List.mem_cons.1 h with rfl | h
    · exact hcreate
    · obtain ⟨text, -, rfl⟩ := List.mem_map.1 h
      exact hidentifier
  · exact absurd h List.not_mem_nil

variable {id : TypeId} {t : TypeDecl}

/-- The getters of a class, one for each field. -/
theorem getters?_eq_some (hs : s.Spelled) (hn : s.Numbered) (hkept : s.Kept)
    (ht : s.types[id]? = some t) (hk : t.kind.isTable = true ∨ t.kind.isStruct = true) :
    s.getters? id = some (t.fields.map fun f =>
      (f.name, Getter.ofLines? ((s.getterBody t.kind f).map (·.text)))) := by
  have hconstructor : within? "get " "() \x7b" ("constructor(reader, offset)" ++ " \x7b") = none := by
    decide +kernel
  have hroot : (if t.kind.isTable then s.rootParts id else []).filterMap (fun m =>
      (within? "get " "() \x7b" (m.1 ++ " \x7b")).map fun name =>
        (name, Getter.ofLines? (m.2.map (·.text)))) = [] := by
    rw [List.filterMap_eq_nil_iff]
    intro m hm
    split at hm
    · rw [within?_getter_rootParts hm, Option.map_none]
    · exact absurd hm List.not_mem_nil
  have hfields : (t.fields.map fun f => ("get " ++ f.name ++ "()", s.getterBody t.kind f)).filterMap
      (fun m => (within? "get " "() \x7b" (m.1 ++ " \x7b")).map fun name =>
        (name, Getter.ofLines? (m.2.map (·.text)))) =
      t.fields.map fun f => (f.name, Getter.ofLines? ((s.getterBody t.kind f).map (·.text))) := by
    have hsome : ∀ f ∈ t.fields, ((fun m : String × Script =>
        (within? "get " "() \x7b" (m.1 ++ " \x7b")).map fun name =>
          (name, Getter.ofLines? (m.2.map (·.text)))) ∘
            fun f => ("get " ++ f.name ++ "()", s.getterBody t.kind f)) f =
        some (f.name, Getter.ofLines? ((s.getterBody t.kind f).map (·.text))) := by
      intro f _
      simp only [Function.comp_apply, within?_getter, Option.map_some]
    rw [List.filterMap_map, List.filterMap_congr hsome]
    exact congrFun List.filterMap_eq_map' t.fields
  -- of the members, those of the fields are left
  rw [getters?, members?_eq_some hs hn hkept ht hk, Option.map_some, List.filterMap_map, parts,
    List.cons_append]
  simp only [Function.comp_def, List.filterMap_cons, hconstructor, Option.map_none,
    List.filterMap_append, hroot, hfields, List.nil_append]

/-! ## Resolved schemas -/

variable {s' : Schema} {i : Nat}

/-- Every field of a resolved schema holds something. -/
theorem Resolves.exists_carries (h : s.Resolves s') (hkept : s'.Kept)
    (hf : s'.field? id i = some f) : ∃ c, s'.Carries f.type c := by
  obtain ⟨t₀, f₀, -, -, ⟨w, -, hdenotes, -⟩, -⟩ := h.field hf
  generalize f.type = r at hdenotes
  cases hdenotes with
  | @primitive p hp => exact ⟨.scalar p, .primitive p⟩
  | @declared x hp hx =>
    have hlt : x < s'.types.length := by
      rw [← h.later.findType?] at hx
      exact hkept.refers.findType? hx
    have ht := List.getElem?_eq_getElem hlt
    have hkind : s'.kind? x = some s'.types[x].kind := by rw [kind?, ht, Option.map_some]
    cases hk : s'.types[x].kind with
    | enum base vs d =>
      -- the base is a primitive since resolution
      obtain ⟨t₁, -, w₁, p, vs₁, vs₂, d₁, -, hk', -⟩ := h.enum ht (by rw [hk]; rfl)
      exact ⟨.scalar p, .enum (hkind.trans (congrArg some hk'))⟩
    | table fs => exact ⟨.table x, .table (hkind.trans (congrArg some hk))⟩
    | struct fs n =>
      -- and the struct has been laid out
      obtain ⟨m, hm, -⟩ := h.size ht (by rw [hk]; rfl)
      rw [hk] at hm
      obtain rfl : n = some m := hm
      exact ⟨.struct x m, .struct (hkind.trans (congrArg some hk))⟩
    | union vs => exact ⟨.union, .union (hkind.trans (congrArg some hk))⟩

/-- A scalar has a default. -/
theorem DefaultsTo.exists_default {r : TypeRef} {p : Primitive} {d d' : Option Value}
    (h : s.DefaultsTo r d d') (hc : s.Carries r (.scalar p)) : ∃ v, d' = some v := by
  cases h with
  | primitive p => exact ⟨_, rfl⟩
  | literal p v => exact ⟨v, rfl⟩
  | enum _ _ => exact ⟨_, rfl⟩
  | named _ _ _ _ => exact ⟨_, rfl⟩
  | other literal h =>
    cases hc with
    | enum hk =>
      obtain ⟨t, ht, hk⟩ := Option.map_eq_some_iff.1 hk
      have henum := h t ht
      rw [hk] at henum
      cases henum

/-- A field of a struct holds a scalar or a struct. -/
theorem Carries.scalar_or_struct {l : Inline} (h : s.Carries f.type c) (hl : s.inline? f = some l) :
    (∃ p, c = .scalar p) ∨ ∃ x n, c = .struct x n := by
  generalize hr : f.type = r at h
  cases h with
  | primitive p => exact .inl ⟨p, rfl⟩
  | enum hk => exact .inl ⟨_, rfl⟩
  | struct hk => exact .inr ⟨_, _, rfl⟩
  | table hk =>
    obtain ⟨t, ht, hk⟩ := Option.map_eq_some_iff.1 hk
    simp [inline?, hr, ht, hk, Kind.isStruct, Kind.base?] at hl
  | union hk =>
    obtain ⟨t, ht, hk⟩ := Option.map_eq_some_iff.1 hk
    simp [inline?, hr, ht, hk, Kind.isStruct, Kind.base?] at hl

/-- The class of an object is in the text. -/
theorem Carries.exists_members {r : TypeRef} {x : TypeId} (h : s.Carries r c) (hx : c.object? = some x)
    (hs : s.Spelled) (hn : s.Numbered) (hkept : s.Kept) : ∃ ms, s.members? x = some ms := by
  cases h with
  | @table y fs hk =>
    obtain rfl := Option.some.inj hx
    obtain ⟨t, ht, hk⟩ := Option.map_eq_some_iff.1 hk
    exact ⟨_, members?_eq_some hs hn hkept ht (.inl (by rw [hk]; rfl))⟩
  | @struct y fs n hk =>
    obtain rfl := Option.some.inj hx
    obtain ⟨t, ht, hk⟩ := Option.map_eq_some_iff.1 hk
    exact ⟨_, members?_eq_some hs hn hkept ht (.inr (by rw [hk]; rfl))⟩
  | _ => cases hx

theorem field?_of_types (ht : s.types[id]? = some t) (i : Nat) : s.field? id i = t.fields[i]? := by
  rw [field?, ht, Option.bind_some]

theorem not_isTable_of_isStruct {k : Kind} (h : k.isStruct = true) : ¬ k.isTable = true := by
  obtain ⟨fs, n, rfl⟩ := Kind.eq_struct_of_isStruct h
  exact Bool.false_ne_true

theorem Resolves.exists_reads (h : s.Resolves s') (hs : s'.Spelled) (hkept : s'.Kept)
    (ht : s'.types[id]? = some t) (hk : t.kind.isTable = true) (hf : t.fields[i]? = some f) :
    ∃ c g, s'.Carries f.type c ∧ s'.Reads ((4 + 2 * i) % 2 ^ 64) f c g ∧
      Getter.ofLines? ((s'.getterBody t.kind f).map (·.text)) = some g := by
  have hfield : s'.field? id i = some f := (field?_of_types ht i).trans hf
  have hslot : f.offset = some (.ofNat (4 + 2 * i)) := h.slot ⟨t, ht, hk⟩ hfield
  obtain ⟨c, hc⟩ := h.exists_carries hkept hfield
  obtain ⟨t₀, f₀, -, -, -, hdefault⟩ := h.field hfield
  obtain ⟨g, hg, hlines⟩ := lines_tableGetter hc hslot fun p hp => hdefault.exists_default (hp ▸ hc)
  rw [UInt64.toNat_ofNat'] at hg
  refine ⟨c, g, hc, hg, ?_⟩
  rw [getterBody, if_pos hk, hlines, Getter.ofLines?_lines (hg.plain hs)]

theorem Resolves.exists_readsAt (h : s.Resolves s') (hs : s'.Spelled) (hkept : s'.Kept)
    (ht : s'.types[id]? = some t) (hk : t.kind.isStruct = true) (hf : t.fields[i]? = some f) :
    ∃ c g o, s'.Carries f.type c ∧ f.offset = some o ∧ s'.ReadsAt o.toNat f c g ∧
      Getter.ofLines? ((s'.getterBody t.kind f).map (·.text)) = some g := by
  have hfield : s'.field? id i = some f := (field?_of_types ht i).trans hf
  obtain ⟨c, hc⟩ := h.exists_carries hkept hfield
  obtain ⟨n, -, hlaid⟩ := h.size ht hk
  obtain ⟨f', l, hf', hl, hsome⟩ := hlaid.field i (List.getElem?_eq_some_iff.1 hf).1
  obtain rfl := Option.some.inj (hf'.symm.trans hfield)
  obtain ⟨o, ho⟩ := Option.isSome_iff_exists.1 hsome
  obtain ⟨g, hg, hlines⟩ := lines_structGetter hc ho (hc.scalar_or_struct hl)
  refine ⟨c, g, o, hc, ho, hg, ?_⟩
  rw [getterBody, if_neg (not_isTable_of_isStruct hk), hlines, Getter.ofLines?_lines (hg.plain hs)]

/-- The getters of a script are the ones that the fields need.  Field `i` of a table is in the slot
`4 + 2 * i`, counted in a word of 64 bits, and a field of a struct lies at its offset.  The class of
every object that a getter makes is in the text, too. -/
theorem getters?_reads (h : s.Parsed) (hok : s.resolve.2 = none) (ht : s.resolve.1.types[id]? = some t)
    (hk : t.kind.isTable = true ∨ t.kind.isStruct = true) :
    ∃ gs, s.resolve.1.getters? id = some gs ∧ gs.length = t.fields.length ∧
      ∀ i f, t.fields[i]? = some f → ∃ c g, s.resolve.1.Carries f.type c ∧
        gs[i]? = some (f.name, some g) ∧
        (t.kind.isTable = true → s.resolve.1.Reads ((4 + 2 * i) % 2 ^ 64) f c g) ∧
        (t.kind.isStruct = true → ∃ o, f.offset = some o ∧ s.resolve.1.ReadsAt o.toNat f c g) ∧
        ∀ x, c.object? = some x → ∃ ms, s.resolve.1.members? x = some ms := by
  have hresolves := h.registered.fresh.resolves hok
  have hspelled := h.spelled.resolves hresolves
  have hnumbered := hresolves.numbered
  have hkept := h.kept.resolve
  refine ⟨_, getters?_eq_some hspelled hnumbered hkept ht hk, List.length_map _, ?_⟩
  intro i f hf
  rw [List.getElem?_map, hf, Option.map_some]
  rcases hk with hk | hk
  · obtain ⟨c, g, hc, hg, hlines⟩ := hresolves.exists_reads hspelled hkept ht hk hf
    exact ⟨c, g, hc, by rw [hlines], fun _ => hg,
      fun hstruct => absurd hk (not_isTable_of_isStruct hstruct),
      fun x hx => hc.exists_members hx hspelled hnumbered hkept⟩
  · obtain ⟨c, g, o, hc, ho, hg, hlines⟩ := hresolves.exists_readsAt hspelled hkept ht hk hf
    exact ⟨c, g, hc, by rw [hlines], fun htable => absurd htable (not_isTable_of_isStruct hk),
      fun _ => ⟨o, ho, hg⟩, fun x hx => hc.exists_members hx hspelled hnumbered hkept⟩

/-- A vector of structs, and a number with a default. -/
def route : Schema :=
  ((empty "route").parse "route.fbs"
    "struct Point \x7b x : int; \x7d table Route \x7b points : [Point]; height : short = -12; \x7d").1

/-- The number is the second field, so in slot 6, and `-12` is what its getter falls back on. -/
theorem getters?_reads_route : route.Parsed ∧ route.resolve.2 = none ∧
    ∃ t gs, route.resolve.1.types[1]? = some t ∧ t.kind.isTable = true ∧
      route.resolve.1.getters? 1 = some gs ∧
      (∃ f c g, t.fields[0]? = some f ∧ f.type = .declared 0 ∧ f.repeated = true ∧
        route.resolve.1.Carries (.declared 0) c ∧ gs[0]? = some (f.name, some g) ∧
        route.resolve.1.Reads 4 f c g) ∧
      ∃ f, t.fields[1]? = some f ∧ f.default = some (.integer (-12)) ∧
        gs[1]? = some (f.name, some (.scalar 6 .int16 "-12")) := by
  have hparsed : route.Parsed := by
    rw [route]
    exact .parse (.empty "route") _ _
  have hresolve : route.resolve.2 = none ∧ route.resolve.1.types[1]?.map (fun t => (t.kind.isTable,
      t.fields.map fun f => (f.type, f.repeated, f.default))) = some (true,
        [(.declared 0, true, none), (.primitive .int16, false, some (.integer (-12)))]) := by
    decide +kernel
  obtain ⟨hok, htable⟩ := hresolve
  obtain ⟨t, ht, htable⟩ := Option.map_eq_some_iff.1 htable
  obtain ⟨hk, hfields⟩ := Prod.mk.inj htable
  have hfield (i : Nat) := congrArg (·[i]?) hfields
  simp only [List.getElem?_map] at hfield
  obtain ⟨points, hpoints, hpointsIs⟩ := Option.map_eq_some_iff.1 (hfield 0)
  obtain ⟨height, hheight, hheightIs⟩ := Option.map_eq_some_iff.1 (hfield 1)
  obtain ⟨hdeclared, hvector, -⟩ := by simpa using hpointsIs
  obtain ⟨hshort, hsingle, hdefault⟩ := by simpa using hheightIs
  obtain ⟨gs, hgs, -, hreads⟩ := getters?_reads hparsed hok ht (.inl hk)
  refine ⟨hparsed, hok, t, gs, ht, hk, hgs, ?_, height, hheight, hdefault, ?_⟩
  · obtain ⟨c, g, hc, hg, hslot, -⟩ := hreads 0 points hpoints
    rw [hdeclared] at hc
    exact ⟨points, c, g, hpoints, hdeclared, hvector, hc, hg, hslot hk⟩
  · obtain ⟨c, g, hc, hg, hslot, -⟩ := hreads 1 height hheight
    rw [hshort] at hc
    cases hc
    cases hslot hk with
    | unread h => simp [Content.Unread, hsingle] at h
    | scalar _ _ hv =>
      obtain rfl := Option.some.inj (hdefault.symm.trans hv)
      exact hg
    | array hvector => simp [hsingle] at hvector

end Schema

end FlatSchema
