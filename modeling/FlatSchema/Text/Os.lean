import FlatSchema.Text.Split

/-!
# Texts of the operating system

The names on a disk are bytes.  Most are the encoding of a text, but they need not be.  To be shown, they
are decoded: what does not begin a character, or breaks off inside one, shows as the replacement
character, up to where it goes wrong.
-/

namespace FlatSchema

structure OsText where
  bytes : List UInt8
  deriving DecidableEq, Repr

namespace OsText

def ofText (s : String) : OsText :=
  ⟨s.toList.flatMap String.utf8EncodeChar⟩

instance : Coe String OsText :=
  ⟨ofText⟩

instance : Append OsText :=
  ⟨fun a b => ⟨a.bytes ++ b.bytes⟩⟩

def slash : UInt8 := 0x2f

/-- The parts between the slashes. -/
def segments (t : OsText) : List OsText :=
  (Text.cut slash t.bytes).map OsText.mk

/-- Puts slashes between the parts. -/
def joined (ts : List OsText) : OsText :=
  ⟨Text.glue slash (ts.map bytes)⟩

/-! ## Decoding -/

def replacement : Char := '�'

/-- A character that has begun: what its bytes are worth so far, how many are to come behind the next, and
what the next has to be worth. -/
structure Begun where
  value : Nat
  behind : Nat
  low : Nat
  high : Nat
  deriving DecidableEq, Repr

/-- The character that a byte begins.  The bounds rule out longer encodings than needed, surrogates, and
what is beyond the last character. -/
def begun? (b : Nat) : Option Begun :=
  if 0xc2 ≤ b ∧ b < 0xe0 then some ⟨b - 0xc0, 0, 0, 0x3f⟩
  else if 0xe0 ≤ b ∧ b < 0xf0 then
    some ⟨b - 0xe0, 1, if b = 0xe0 then 0x20 else 0, if b = 0xed then 0x1f else 0x3f⟩
  else if 0xf0 ≤ b ∧ b < 0xf5 then
    some ⟨b - 0xf0, 2, if b = 0xf0 then 0x10 else 0, if b = 0xf4 then 0x0f else 0x3f⟩
  else none

/-- What a byte shows where no character has begun, and what it begins. -/
def first (b : Nat) : List Char × Option Begun :=
  if b < 0x80 then ([Char.ofNat b], none)
  else
    match begun? b with
    | some begun => ([], some begun)
    | none => ([replacement], none)

/-- What a begun character shows that breaks off. -/
def ended : Option Begun → List Char
  | none => []
  | some _ => [replacement]

/-- A byte that a begun character cannot go on with starts anew. -/
def step : Option Begun → Nat → List Char × Option Begun
  | none, b => first b
  | some begun, b =>
    if 0x80 + begun.low ≤ b ∧ b ≤ 0x80 + begun.high then
      let value := 64 * begun.value + (b - 0x80)
      match begun.behind with
      | 0 => ([Char.ofNat value], none)
      | behind + 1 => ([], some ⟨value, behind, 0, 0x3f⟩)
    else (replacement :: (first b).1, (first b).2)

def decode (begun : Option Begun) : List UInt8 → List Char
  | [] => ended begun
  | b :: bs => (step begun b.toNat).1 ++ decode (step begun b.toNat).2 bs

def display (t : OsText) : String :=
  String.ofList (decode none t.bytes)

/-- The text whose encoding this is. -/
def text? (t : OsText) : Option String :=
  if ofText t.display = t then some t.display else none

/-! ## Examples -/

example : (ofText "a/é.fbs").display = "a/é.fbs" := by decide +kernel
example : display ⟨[0x61, 0xff, 0x62]⟩ = "a�b" := by decide +kernel
example : display ⟨[0xe2, 0x82, 0x41]⟩ = "�A" := by decide +kernel
example : display ⟨[0xed, 0xa0, 0x80]⟩ = "���" := by decide +kernel

end OsText

end FlatSchema
