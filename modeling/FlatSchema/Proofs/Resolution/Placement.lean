import FlatSchema.Proofs.Resolution.Outcome
import FlatSchema.Proofs.Source.Places
import Mathlib.Algebra.Group.Nat.Defs
import Mathlib.Order.Bounds.Basic

/-!
# Where the fields of a struct lie

In numbers without bound a scalar starts at the least multiple of its size behind the field before
it, and a nested struct right there (`Inline.start`), so that the first `i` fields of a struct take
`reach i` bytes.  Offsets and sizes are 64-bit words, and sizes of scalars divide the number of
words, so that rounding up and wrapping around can be done in either order:

    align (.ofNat e) n = .ofNat (roundUp e n.toNat)                        (align_ofNat)

Hence a layout is that without bound modulo `2 ^ 64`, and the fields of a struct lie as they should
(`Exact`) if and only if its `reach` is below `2 ^ 64` (`exact_resolve_iff`).
-/

namespace FlatSchema

/-! ## Rounding up -/

/-- The least multiple of `n` that is at least `e`. -/
def roundUp (e n : Nat) : Nat :=
  if e % n = 0 then e else (e / n + 1) * n

theorem dvd_roundUp (e n : Nat) : n ∣ roundUp e n := by
  unfold roundUp
  split
  · next h => exact Nat.dvd_of_mod_eq_zero h
  · exact Nat.dvd_mul_left n (e / n + 1)

theorem le_roundUp (e : Nat) {n : Nat} (hn : 0 < n) : e ≤ roundUp e n := by
  unfold roundUp
  split
  · exact Nat.le_refl e
  · rw [Nat.mul_comm]
    exact Nat.le_of_lt (Nat.lt_mul_div_succ e hn)

theorem roundUp_le {e n m : Nat} (hm : n ∣ m) (he : e ≤ m) : roundUp e n ≤ m := by
  unfold roundUp
  split
  · exact he
  · next h =>
    obtain ⟨k, rfl⟩ := hm
    have hlt : e < n * k := by
      refine Nat.lt_of_le_of_ne he ?_
      rintro rfl
      exact h (Nat.mul_mod_right n k)
    rw [Nat.mul_comm n k]
    exact Nat.mul_le_mul_right n (Nat.div_lt_of_lt_mul hlt)

theorem isLeast_roundUp (e : Nat) {n : Nat} (hn : 0 < n) :
    IsLeast {m | n ∣ m ∧ e ≤ m} (roundUp e n) :=
  ⟨⟨dvd_roundUp e n, le_roundUp e hn⟩, fun _ h => roundUp_le h.1 h.2⟩

theorem Primitive.size?_dvd {p : Primitive} {n : ByteCount} (h : p.size? = some n) :
    0 < n.toNat ∧ n.toNat ∣ 8 := by
  have hn : n = 1 ∨ n = 2 ∨ n = 4 ∨ n = 8 := by
    cases p <;> simp_all [size?]
  rcases hn with rfl | rfl | rfl | rfl <;> decide

theorem mod_div_succ_mul (e d q : Nat) :
    (e % (d * q) / d + 1) * d % (d * q) = (e / d + 1) * d % (d * q) := by
  rw [Nat.mod_mul_right_div_self, Nat.mul_comm d q, Nat.mul_mod_mul_right, Nat.mul_mod_mul_right,
    Nat.mod_add_mod]

/-- The size divides the number of words, so that no multiple of it is lost. -/
theorem align_ofNat {n : ByteCount} (hn : n.toNat ∣ 8) (e : Nat) :
    Schema.align (.ofNat e) n = .ofNat (roundUp e n.toNat) := by
  obtain ⟨q, hq⟩ := Nat.dvd_trans hn (by decide : 8 ∣ 2 ^ 64)
  have hzero : UInt64.ofNat e % n = 0 ↔ e % n.toNat = 0 := by
    rw [← UInt64.toNat_inj, UInt64.toNat_mod, UInt64.toNat_ofNat', UInt64.toNat_zero,
      Nat.mod_mod_of_dvd _ ⟨q, hq⟩]
  unfold Schema.align roundUp
  by_cases h : e % n.toNat = 0
  · rw [if_pos h, if_pos (hzero.2 h)]
  · rw [if_neg h, if_neg (fun h' => h (hzero.1 h')), ← UInt64.toNat_inj, UInt64.toNat_mul,
      UInt64.toNat_add, UInt64.toNat_div, UInt64.toNat_ofNat', UInt64.toNat_ofNat', UInt64.toNat_one,
      Nat.mod_mul_mod, hq, mod_div_succ_mul]

namespace Schema

/-! ## Places -/

/-- Where a field starts behind `e` bytes. -/
def Inline.start (e : Nat) : Inline → Nat
  | .scalar n => roundUp e n.toNat
  | .nested _ => e

/-- The bytes that a field takes, by the sizes that the schema has for its structs. -/
def bytes (s : Schema) : Inline → Nat
  | .scalar n => n.toNat
  | .nested x => ((s.types[x]?.bind (·.kind.size?)).getD 0).toNat

/-- Field `i` of the struct `id` is of the form `l` and has the offset `o`. -/
def Lies (s : Schema) (id : TypeId) (i : Nat) (l : Inline) (o : ByteCount) : Prop :=
  ∃ f, s.field? id i = some f ∧ s.inline? f = some l ∧ f.offset = some o

/-- The field before field `i` ends at `e`; before the first one there is nothing. -/
inductive EndsAt (s : Schema) (id : TypeId) : Nat → Nat → Prop where
  | nil : EndsAt s id 0 0
  | field {i : Nat} {l : Inline} {o : ByteCount} (h : s.Lies id i l o) :
      EndsAt s id (i + 1) (o.toNat + s.bytes l)

/-- A scalar starts at the least multiple of its size that is not before the end of the field before
it, a nested struct at that end, and the struct ends with its last field. -/
structure Exact (s : Schema) (id : TypeId) (t : TypeDecl) : Prop where
  placed : ∀ i < t.fields.length, ∃ l o, s.Lies id i l o
  scalar : ∀ {i n o e}, s.Lies id i (.scalar n) o → s.EndsAt id i e →
    IsLeast {m | n.toNat ∣ m ∧ e ≤ m} o.toNat
  nested : ∀ {i x o e}, s.Lies id i (.nested x) o → s.EndsAt id i e → o.toNat = e
  size : ∃ z, t.kind.size? = some z ∧ s.EndsAt id t.fields.length z.toNat

/-- The fields lie apart from each other, in their order and inside the struct. -/
structure Separate (s : Schema) (id : TypeId) (t : TypeDecl) : Prop where
  order : ∀ {i j l l' o o'}, i < j → s.Lies id i l o → s.Lies id j l' o' →
    o.toNat + s.bytes l ≤ o'.toNat
  inside : ∀ {i l o z}, s.Lies id i l o → t.kind.size? = some z → o.toNat + s.bytes l ≤ z.toNat

/-- Where the first `i` fields of a struct end, in numbers without bound. -/
def reach (s : Schema) (id : TypeId) : Nat → Nat
  | 0 => 0
  | i + 1 =>
    match (s.field? id i).bind s.inline? with
    | some l => l.start (s.reach id i) + s.bytes l
    | none => s.reach id i

variable {s : Schema} {id : TypeId} {i : Nat} {l : Inline} {o e : ByteCount}

theorem Lies.unique {l' : Inline} {o' : ByteCount} (h : s.Lies id i l o) (h' : s.Lies id i l' o') :
    l = l' ∧ o = o' := by
  obtain ⟨f, hf, hl, ho⟩ := h
  obtain ⟨f', hf', hl', ho'⟩ := h'
  obtain rfl := Option.some.inj (hf.symm.trans hf')
  exact ⟨Option.some.inj (hl.symm.trans hl'), Option.some.inj (ho.symm.trans ho')⟩

theorem lt_of_field? {t : TypeDecl} {f : Field} (ht : s.types[id]? = some t)
    (hf : s.field? id i = some f) : i < t.fields.length := by
  rw [field?, ht] at hf
  exact (List.getElem?_eq_some_iff.1 hf).1

theorem Lies.lt {t : TypeDecl} (h : s.Lies id i l o) (ht : s.types[id]? = some t) :
    i < t.fields.length := by
  obtain ⟨f, hf, -⟩ := h
  exact lt_of_field? ht hf

theorem size_of_inline? {f : Field} {n : ByteCount} (h : s.inline? f = some (.scalar n)) :
    0 < n.toNat ∧ n.toNat ∣ 8 := by
  obtain ⟨-, p, hp, -⟩ := inline?_eq_scalar_iff.1 h
  exact Primitive.size?_dvd hp

theorem Lies.size {n : ByteCount} (h : s.Lies id i (.scalar n) o) :
    0 < n.toNat ∧ n.toNat ∣ 8 := by
  obtain ⟨f, -, hl, -⟩ := h
  exact size_of_inline? hl

theorem Inline.le_start {f : Field} (h : s.inline? f = some l) (e : Nat) : e ≤ l.start e := by
  cases l with
  | scalar n => exact le_roundUp e (size_of_inline? h).1
  | nested x => exact Nat.le_refl e

theorem reach_succ {f : Field} (hf : s.field? id i = some f) (hl : s.inline? f = some l) :
    s.reach id (i + 1) = l.start (s.reach id i) + s.bytes l := by
  rw [reach, hf, Option.bind_some, hl]

theorem reach_le_succ (s : Schema) (id : TypeId) (i : Nat) : s.reach id i ≤ s.reach id (i + 1) := by
  rw [reach]
  split
  · next l h =>
    obtain ⟨f, -, hl⟩ := Option.bind_eq_some_iff.1 h
    have := Inline.le_start hl (s.reach id i)
    omega
  · exact Nat.le_refl _

theorem reach_mono (s : Schema) (id : TypeId) {i j : Nat} (h : i ≤ j) :
    s.reach id i ≤ s.reach id j :=
  monotone_nat_of_le_succ (reach_le_succ s id) h

/-! ## Layouts modulo the number of words -/

theorem Laid.eq_reach (h : s.Laid id i e) : e = .ofNat (s.reach id i) := by
  induction h with
  | nil id => rfl
  | @scalar id i e n f _ hf hi _ ih =>
    rw [reach_succ hf hi, ih, align_ofNat (size_of_inline? hi).2, UInt64.ofNat_add]
    rw [Inline.start, bytes, UInt64.ofNat_toNat]
  | @nested id x i e n f t _ hf hi _ ht hn _ ih _ =>
    rw [reach_succ hf hi, ih, UInt64.ofNat_add]
    simp only [Inline.start, bytes, ht, Option.bind_some, hn, Option.getD_some, UInt64.ofNat_toNat]

/-- Every field that is laid out has the offset that it has without bound, wrapped around. -/
theorem Laid.lies (h : s.Laid id i e) :
    ∀ j < i, ∃ l, s.Lies id j l (.ofNat (l.start (s.reach id j))) := by
  induction h with
  | nil id => exact fun j hj => absurd hj (Nat.not_lt_zero j)
  | @scalar id i e n f h hf hi ho ih =>
    intro j hj
    rcases Nat.lt_succ_iff_lt_or_eq.1 hj with hj | rfl
    · exact ih j hj
    · refine ⟨.scalar n, f, hf, hi, ?_⟩
      rw [ho, h.eq_reach, align_ofNat (size_of_inline? hi).2]
      rfl
  | @nested id x i e n f t h hf hi ho _ _ _ ih _ =>
    intro j hj
    rcases Nat.lt_succ_iff_lt_or_eq.1 hj with hj | rfl
    · exact ih j hj
    · refine ⟨.nested x, f, hf, hi, ?_⟩
      rw [ho, h.eq_reach]
      rfl

theorem Laid.offset_eq {n : Nat} {z : ByteCount} (h : s.Laid id n z) (hi : i < n)
    (hl : s.Lies id i l o) : o = .ofNat (l.start (s.reach id i)) := by
  obtain ⟨l', hl'⟩ := h.lies i hi
  obtain ⟨rfl, rfl⟩ := hl.unique hl'
  rfl

/-- Wrapped around or not, a scalar is aligned. -/
theorem Laid.aligned {n : Nat} {z k : ByteCount} (h : s.Laid id n z) (hi : i < n)
    (hl : s.Lies id i (.scalar k) o) : k.toNat ∣ o.toNat := by
  have hdvd : k.toNat ∣ 2 ^ 64 := Nat.dvd_trans hl.size.2 (by decide)
  rw [h.offset_eq hi hl, UInt64.toNat_ofNat', Nat.dvd_mod_iff hdvd]
  exact dvd_roundUp _ _

/-! ## Layouts that fit -/

theorem EndsAt.unique {m m' : Nat} (h : s.EndsAt id i m) (h' : s.EndsAt id i m') : m = m' := by
  cases h with
  | nil => cases h'; rfl
  | field hl =>
    cases h' with
    | field hl' =>
      obtain ⟨rfl, rfl⟩ := hl.unique hl'
      rfl

theorem Lies.reach_succ (h : s.Lies id i l o) :
    s.reach id (i + 1) = l.start (s.reach id i) + s.bytes l := by
  obtain ⟨f, hf, hl, -⟩ := h
  exact Schema.reach_succ hf hl

section

variable {n : Nat} {z : ByteCount} (h : s.Laid id n z) (hfit : s.reach id n < 2 ^ 64)
include h hfit

theorem Laid.toNat_offset (hi : i < n) (hl : s.Lies id i l o) :
    o.toNat = l.start (s.reach id i) := by
  have hsucc := hl.reach_succ
  have hle := reach_mono s id (show i + 1 ≤ n from hi)
  rw [h.offset_eq hi hl, UInt64.toNat_ofNat', Nat.mod_eq_of_lt (by omega)]

theorem Laid.endsAt (hi : i ≤ n) : s.EndsAt id i (s.reach id i) := by
  cases i with
  | zero => exact .nil
  | succ i =>
    obtain ⟨l, hl⟩ := h.lies i hi
    rw [hl.reach_succ, ← h.toNat_offset hfit hi hl]
    exact .field hl

theorem Laid.toNat_size : z.toNat = s.reach id n := by
  rw [h.eq_reach, UInt64.toNat_ofNat', Nat.mod_eq_of_lt hfit]

theorem Laid.separate {t : TypeDecl} (ht : s.types[id]? = some t) (hn : n = t.fields.length)
    (hz : t.kind.size? = some z) : s.Separate id t := by
  subst hn
  refine ⟨fun {i j l l' o o'} hij hl hl' => ?_, fun {i l o z'} hl hz' => ?_⟩
  · have hmono := reach_mono s id (show i + 1 ≤ j from hij)
    have hstart : s.reach id j ≤ l'.start (s.reach id j) := by
      obtain ⟨f, -, hinline, -⟩ := hl'
      exact Inline.le_start hinline _
    rw [h.toNat_offset hfit (hl.lt ht) hl, h.toNat_offset hfit (hl'.lt ht) hl', ← hl.reach_succ]
    omega
  · obtain rfl := Option.some.inj (hz.symm.trans hz')
    rw [h.toNat_size hfit, h.toNat_offset hfit (hl.lt ht) hl, ← hl.reach_succ]
    exact reach_mono s id (hl.lt ht)

theorem Laid.exact {t : TypeDecl} (ht : s.types[id]? = some t) (hn : n = t.fields.length)
    (hz : t.kind.size? = some z) : s.Exact id t := by
  subst hn
  refine ⟨fun i hi => ?_, fun {i k o e} hl he => ?_, fun {i x o e} hl he => ?_, z, hz, ?_⟩
  · obtain ⟨l, hl⟩ := h.lies i hi
    exact ⟨l, _, hl⟩
  · rw [h.toNat_offset hfit (hl.lt ht) hl, he.unique (h.endsAt hfit (Nat.le_of_lt (hl.lt ht)))]
    exact isLeast_roundUp _ hl.size.1
  · rw [h.toNat_offset hfit (hl.lt ht) hl, he.unique (h.endsAt hfit (Nat.le_of_lt (hl.lt ht)))]
    rfl
  · rw [h.toNat_size hfit]
    exact h.endsAt hfit (Nat.le_refl _)

end

/-- Fields that lie as they should end where they do without bound. -/
theorem Exact.endsAt {t : TypeDecl} (h : s.Exact id t) :
    ∀ i ≤ t.fields.length, s.EndsAt id i (s.reach id i) := by
  intro i
  induction i with
  | zero => exact fun _ => .nil
  | succ i ih =>
    intro hi
    obtain ⟨l, o, hl⟩ := h.placed i hi
    have hend := ih (by omega)
    have hstart : o.toNat = l.start (s.reach id i) := by
      cases l with
      | scalar n => exact (h.scalar hl hend).unique (isLeast_roundUp _ hl.size.1)
      | nested x => exact h.nested hl hend
    rw [hl.reach_succ, ← hstart]
    exact .field hl

theorem Exact.reach_lt {t : TypeDecl} (h : s.Exact id t) : s.reach id t.fields.length < 2 ^ 64 := by
  obtain ⟨z, -, hz⟩ := h.size
  rw [(h.endsAt _ (Nat.le_refl _)).unique hz]
  exact z.toNat_lt

/-! ## Top theorem -/

/-- After a successful resolution the fields of a struct lie where they should, and so in their order,
apart from each other and inside the struct, exactly if all of them end below `2 ^ 64`.  In any case
scalars are aligned, and offsets and size are right modulo `2 ^ 64`. -/
theorem exact_resolve_iff (h : s.Registered) (hok : s.resolve.2 = none) {t : TypeDecl}
    (ht : s.resolve.1.types[id]? = some t) (hk : t.kind.isStruct = true) :
    (s.resolve.1.Exact id t ↔ s.resolve.1.reach id t.fields.length < 2 ^ 64) ∧
      (s.resolve.1.Exact id t → s.resolve.1.Separate id t) ∧
      (∀ {i n o}, s.resolve.1.Lies id i (.scalar n) o → n.toNat ∣ o.toNat) ∧
      (∀ {i l o}, s.resolve.1.Lies id i l o →
        o.toNat = l.start (s.resolve.1.reach id i) % 2 ^ 64) ∧
      ∃ z, t.kind.size? = some z ∧ z.toNat = s.resolve.1.reach id t.fields.length % 2 ^ 64 := by
  obtain ⟨z, hz, hlaid⟩ := (h.fresh.resolves hok).size ht hk
  refine ⟨⟨Exact.reach_lt, fun hfit => hlaid.exact hfit ht rfl hz⟩,
    fun hexact => hlaid.separate hexact.reach_lt ht rfl hz, fun hl => hlaid.aligned (hl.lt ht) hl,
    fun {i l o} hl => ?_, z, hz, ?_⟩
  · rw [hlaid.offset_eq (hl.lt ht) hl, UInt64.toNat_ofNat']
  · rw [hlaid.eq_reach, UInt64.toNat_ofNat']

/-- The schema that a text on its own is read into. -/
def readAlone (text : String) : Schema :=
  (((empty "default").markFile "schema.fbs").parse "schema.fbs" text).1

theorem registered_readAlone (text : String) : (readAlone text).Registered :=
  .parse (.call (.empty "default") (.markFile _ _)) _ _

/-- A text that is given by its characters is read from them. -/
theorem parse_ofList (s : Schema) (file : String) (cs : List Char) :
    s.parse file (.ofList cs) = s.parseStream file (.readChars file ⟨1, 1⟩ cs) := by
  rw [parse, Stream.ofText_eq_readChars, String.toList_ofList]

/-- A scalar behind a nested struct that is laid out on demand. -/
def crate : String :=
  "struct Outer \x7b flag: bool; inner: Inner; tail: short; \x7d struct Inner \x7b x: int; y: byte; \x7d"

/-- A byte, a struct of five bytes and a short take eight bytes. -/
theorem exact_resolve_crate : ∃ t, (readAlone crate).resolve.1.types[0]? = some t ∧
    t.kind.size? = some 8 ∧ (readAlone crate).resolve.1.Exact 0 t ∧
      (readAlone crate).resolve.1.Separate 0 t := by
  have hfacts : (readAlone crate).resolve.2 = none ∧ (readAlone crate).resolve.1.reach 0 3 < 2 ^ 64 ∧
      (readAlone crate).resolve.1.types[0]?.map
        (fun t => (t.kind.isStruct, t.kind.size?, t.fields.length)) = some (true, some 8, 3) := by
    decide +kernel
  obtain ⟨hok, hreach, hmap⟩ := hfacts
  obtain ⟨t, ht, hshape⟩ := Option.map_eq_some_iff.1 hmap
  simp only [Prod.mk.injEq] at hshape
  obtain ⟨hk, hz, hlen⟩ := hshape
  have hexact := exact_resolve_iff (registered_readAlone crate) hok ht hk
  have hfit := hexact.1.2 (by rw [hlen]; exact hreach)
  exact ⟨t, ht, hz, hfit, hexact.2.1 hfit⟩

/-! ## Towers of structs -/

/-- The text of a struct whose fields are all of one type. -/
def storey (fields type : List Char) (name : Char) : List Char :=
  "struct ".toList ++ name :: '\x7b' ::
    (fields.flatMap fun field => field :: ':' :: type ++ [';']) ++ ['\x7d']

/-- A struct with fields of eight bytes, and above it structs with fields of the one below. -/
def storeys (ground upper : String) : List Char → List Char
  | [] => []
  | name :: names => storey ground.toList "long".toList name ++
      (names.zip (name :: names)).flatMap fun (above, below) => storey upper.toList [below] above

/-- `struct A` with one field, and `B` to `V` with eight fields each. -/
def tower : String :=
  .ofList (storeys "a" "abcdefgh" "ABCDEFGHIJKLMNOPQRSTUV".toList)

theorem resolve_tower {s : Schema} (hs : readAlone tower = s) : s.resolve.2 = none ∧
    s.resolve.1.types[21]?.map (·.kind.isStruct) = some true ∧
    (∀ i < 3, (s.resolve.1.field? 21 i).bind s.resolve.1.inline? = some (.nested 20) ∧
      (s.resolve.1.field? 21 i).bind (·.offset) = some (if i = 1 then .ofNat (2 ^ 63) else 0)) ∧
    s.resolve.1.types[20]?.bind (·.kind.size?) = some (.ofNat (2 ^ 63)) := by
  subst hs
  rw [readAlone, tower, parse_ofList]
  decide +kernel

/-- The first and the third field of `V`, a struct of `2 ^ 63` bytes each, have the same offset. -/
theorem not_exact_tower : (readAlone tower).Registered ∧ (readAlone tower).resolve.2 = none ∧
    ∃ t, (readAlone tower).resolve.1.types[21]? = some t ∧ t.kind.isStruct = true ∧
      (readAlone tower).resolve.1.Lies 21 0 (.nested 20) 0 ∧
      (readAlone tower).resolve.1.Lies 21 2 (.nested 20) 0 ∧
      (readAlone tower).resolve.1.bytes (.nested 20) = 2 ^ 63 ∧
      ¬ (readAlone tower).resolve.1.Exact 21 t ∧ ¬ (readAlone tower).resolve.1.Separate 21 t := by
  have hregistered := registered_readAlone tower
  obtain ⟨s, hs⟩ : ∃ s, readAlone tower = s := ⟨_, rfl⟩
  rw [hs] at hregistered ⊢
  obtain ⟨hok, hkind, hfields, hsize⟩ := resolve_tower hs
  obtain ⟨t, ht, hk⟩ := Option.map_eq_some_iff.1 hkind
  have hlies : ∀ i < 3, s.resolve.1.Lies 21 i (.nested 20) (if i = 1 then .ofNat (2 ^ 63) else 0) := by
    intro i hi
    obtain ⟨hinline, hoffset⟩ := hfields i hi
    obtain ⟨f, hf, hinline⟩ := Option.bind_eq_some_iff.1 hinline
    rw [hf] at hoffset
    exact ⟨f, hf, hinline, hoffset⟩
  have hbytes : s.resolve.1.bytes (.nested 20) = 2 ^ 63 := by
    rw [bytes, hsize]
    rfl
  have hzero := hlies 0 (by decide)
  have hone := hlies 1 (by decide)
  have htwo := hlies 2 (by decide)
  refine ⟨hregistered, hok, t, ht, hk, hzero, htwo, hbytes, fun hexact => ?_, fun hseparate => ?_⟩
  · have hplace := hexact.nested htwo (.field hone)
    rw [hbytes] at hplace
    exact absurd hplace (by decide)
  · have horder := hseparate.order (by decide : 0 < 2) hzero htwo
    rw [hbytes] at horder
    exact absurd horder (by decide)

end Schema

end FlatSchema
