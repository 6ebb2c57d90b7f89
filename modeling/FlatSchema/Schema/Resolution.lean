import FlatSchema.Schema.Error
import FlatSchema.Schema.Lookup
import FlatSchema.Schema.Numbering

/-!
# Resolving a schema

Resolution replaces written type names, numbers enum values, gives every table field its slot
`4 + 2 * i` and lays out structs.  It goes through the namespaces in order, through the types of
each, and then sets the root type from the namespace's `root_type`.  It stops at the first failure
and keeps what it did before, so resolving again fails the same way.

In a struct a scalar starts at the next multiple of its size and a nested struct right at the
end of the field before it.  Offsets and sizes are 64-bit words, so those of a struct too large
for them wrap around.  A struct may not reach itself through its fields.
-/

namespace FlatSchema

/-- The slot of the first table field. -/
def firstSlot : ByteCount := 4

/-- The width of a slot. -/
def slotSize : ByteCount := 2

namespace Schema

/-- What a written type name denotes in a namespace; primitive names come first. -/
def refer (s : Schema) (ns : NamespaceId) (name : String) : Except SchemaError TypeRef :=
  match Primitive.ofName? name with
  | some p => .ok (.primitive p)
  | none =>
    match s.findType? ns name with
    | some id => .ok (.declared id)
    | none => .error (.unresolvedType name)

/-- How a field lies in a struct. -/
inductive Inline where
  | scalar (size : ByteCount)
  | nested (id : TypeId)
  deriving DecidableEq, Repr

/-- Only sized primitives, enums with a sized base and structs lie inline, and no vectors. -/
def inline? (s : Schema) (f : Field) : Option Inline :=
  if f.repeated then none
  else
    match f.type with
    | .primitive p => p.size?.map .scalar
    | .declared id =>
      match s.types[id]? with
      | some t =>
        if t.kind.isStruct then some (.nested id)
        else (t.kind.base?.bind Primitive.size?).map .scalar
      | none => none
    | .unresolved _ => none

/-- The least multiple of `size` that is at least `offset`; past the last word it wraps around. -/
def align (offset size : ByteCount) : ByteCount :=
  if offset % size = 0 then offset else (offset / size + 1) * size

end Schema

/-- A computation that changes the schema; after a failure the changes made so far remain. -/
abbrev Resolving := EStateM SchemaError Schema

namespace Resolving

/-- The default of a field of enum type; a literal has to name one of the values. -/
def enumDefault (kind : Kind) : Option Value → Except SchemaError (Option Value)
  | none => .ok kind.enumDefault
  | some literal =>
    match literal.text?.bind kind.value? with
    | some n => .ok (some (.integer n))
    | none => .error (.unknownEnumValue literal.script)

end Resolving

namespace Resolver

variable {m : Type → Type} [Monad m] [MonadStateOf Schema m] [MonadExceptOf SchemaError m]

def ofExcept {α : Type} : Except SchemaError α → m α
  | .ok a => pure a
  | .error e => throw e

def updateField (owner : TypeId) (i : Nat) (f : Field → Field) : m Unit :=
  modify (·.updateField owner i f)

/-! ## Enums -/

def setBase (id : TypeId) (p : Primitive) : m Unit :=
  modify (·.updateType id (·.mapKind fun
    | .enum _ values _ => .enum (.primitive p) values (some p.default)
    | k => k))

def number (id : TypeId) (values : List Entry) : m Unit := do
  let (numbered, stop) := numberValues values
  modify (·.updateType id (·.mapKind (·.mapValues fun _ => numbered)))
  match stop with
  | some name => throw (.enumValueOutOfRange name)
  | none => pure ()

/-- Any primitive will do as the base of an enum. -/
def resolveEnum (id : TypeId) : m Unit := do
  let s ← get
  match s.types[id]? with
  | some ⟨name, home, _, .enum base values _⟩ =>
    match base with
    | .unresolved written =>
      match ← ofExcept (s.refer home written.name) with
      | .primitive p => setBase id p
      | _ => throw (.nonIntegralEnum name)
    | _ => pure ()
    number id values
  | _ => pure ()

/-! ## Fields -/

/-- The default that a field gets with its resolved type. -/
def fieldDefault (type : TypeRef) (literal : Option Value) : m (Option Value) := do
  match type with
  | .primitive p => pure (literal <|> some p.default)
  | .declared target =>
    if (← get).types[target]?.any (·.kind.isEnum) then
      resolveEnum target
      match (← get).types[target]? with
      | some t => ofExcept (Resolving.enumDefault t.kind literal)
      | none => pure literal
    else pure literal
  | .unresolved _ => pure literal

/-- Fields that are resolved already stay as they are. -/
def resolveField (owner : TypeId) (i : Nat) : m Unit := do
  let s ← get
  match s.types[owner]? with
  | some t =>
    match t.fields[i]? with
    | some ⟨_, .unresolved written, _, literal, _, _⟩ =>
      let type ← ofExcept (s.refer t.home written.name)
      let default ← fieldDefault type literal
      updateField owner i fun f =>
        { f with type := type, repeated := f.repeated || written.repeated, default := default }
    | _ => pure ()
  | none => pure ()

/-! ## Tables -/

def resolveTable (id : TypeId) (count : Nat) : m Unit :=
  (List.range count).forM fun i => do
    resolveField id i
    updateField id i fun f => { f with offset := some (firstSlot + slotSize * .ofNat i) }

/-! ## Structs -/

def fieldAt (owner : TypeId) (i : Nat) : m (Option Field) := do
  return (← get).types[owner]?.bind (·.fields[i]?)

def sizeOf? (id : TypeId) : m (Option ByteCount) := do
  return (← get).types[id]?.bind (·.kind.size?)

def setSize (id : TypeId) (size : ByteCount) : m Unit :=
  modify (·.updateType id (·.mapKind fun
    | .struct fields _ => .struct fields (some size)
    | k => k))

/-- Places field `i` behind `offset` bytes and answers the end of it; `layout` lays out a nested
struct first. -/
def placeField (layout : TypeId → m Unit) (owner : TypeId) (name : String)
    (offset : ByteCount) (i : Nat) : m ByteCount := do
  resolveField owner i
  match ← fieldAt owner i with
  | some field =>
    match (← get).inline? field with
    | some (.scalar size) =>
      let start := Schema.align offset size
      updateField owner i fun f => { f with offset := some start }
      pure (start + size)
    | some (.nested inner) =>
      layout inner
      let size := (← sizeOf? inner).getD 0
      updateField owner i fun f => { f with offset := some offset }
      pure (offset + size)
    | none => throw (.invalidStructField name field.name)
  | none => pure offset

/-- Lays out a struct.  `free` are the types not being laid out around it, so a struct that is not
free contains itself. -/
def layoutStruct (free : List TypeId) (id : TypeId) : m Unit := do
  match (← get).types[id]? with
  | some t =>
    if t.kind.size?.isSome then pure ()
    else if _ : id ∈ free then
      let layout := fun inner => layoutStruct (free.erase id) inner
      let size ← (List.range t.fields.length).foldlM (placeField layout id t.name) 0
      setSize id size
    else throw (.recursiveStruct t.name)
  | none => pure ()
termination_by free.length
decreasing_by
  rw [List.length_erase_of_mem ‹id ∈ free›]
  have := List.length_pos_of_mem ‹id ∈ free›
  omega

/-! ## Schemas -/

/-- Unions are left as they are. -/
def resolveType (id : TypeId) : m Unit := do
  let s ← get
  match s.types[id]? with
  | some t =>
    match t.kind with
    | .enum .. => resolveEnum id
    | .union .. => pure ()
    | .table fields => resolveTable id fields.length
    | .struct .. => layoutStruct (List.range s.types.length) id
  | none => pure ()

def resolveRoot (ns : NamespaceId) : m Unit := do
  let s ← get
  match s.namespaces[ns]?.bind (·.rootName) with
  | some name =>
    match s.findType? ns name with
    | some id => set { s with rootType := some id }
    | none => throw (.unresolvedRootType name)
  | none => pure ()

def resolveNamespace (ns : NamespaceId) : m Unit := do
  ((← get).children ns).forM resolveType
  resolveRoot ns

def resolveAll : m Unit := do
  (List.range (← get).namespaces.length).forM resolveNamespace

end Resolver

/-! ## On a schema -/

namespace Resolving

abbrev setBase (id : TypeId) (p : Primitive) : Resolving Unit :=
  Resolver.setBase id p

abbrev number (id : TypeId) (values : List Entry) : Resolving Unit :=
  Resolver.number id values

abbrev resolveEnum (id : TypeId) : Resolving Unit :=
  Resolver.resolveEnum id

abbrev fieldDefault (type : TypeRef) (literal : Option Value) : Resolving (Option Value) :=
  Resolver.fieldDefault type literal

abbrev resolveField (owner : TypeId) (i : Nat) : Resolving Unit :=
  Resolver.resolveField owner i

abbrev resolveTable (id : TypeId) (count : Nat) : Resolving Unit :=
  Resolver.resolveTable id count

abbrev setSize (id : TypeId) (size : ByteCount) : Resolving Unit :=
  Resolver.setSize id size

abbrev placeField (layout : TypeId → Resolving Unit) (owner : TypeId) (name : String)
    (offset : ByteCount) (i : Nat) : Resolving ByteCount :=
  Resolver.placeField layout owner name offset i

abbrev layoutStruct (free : List TypeId) (id : TypeId) : Resolving Unit :=
  Resolver.layoutStruct free id

abbrev resolveType (id : TypeId) : Resolving Unit :=
  Resolver.resolveType id

abbrev resolveRoot (ns : NamespaceId) : Resolving Unit :=
  Resolver.resolveRoot ns

abbrev resolveNamespace (ns : NamespaceId) : Resolving Unit :=
  Resolver.resolveNamespace ns

abbrev resolveAll : Resolving Unit :=
  Resolver.resolveAll

end Resolving

/-- The schema after resolution, with the failure that ended it early if there was one. -/
def Schema.resolve (s : Schema) : Schema × Option SchemaError :=
  match Resolving.resolveAll.run s with
  | .ok _ s' => (s', none)
  | .error e s' => (s', some e)

end FlatSchema
