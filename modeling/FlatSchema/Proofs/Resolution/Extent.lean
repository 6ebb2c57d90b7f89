import FlatSchema.Proofs.Resolution.Placement
import Mathlib.Algebra.Order.BigOperators.Group.Finset
import Mathlib.Tactic.NormNum
import Mathlib.Tactic.Ring

/-!
# How large structs become

`Spans id i m` lays out the first `i` fields of a struct in numbers without bound, nested structs
included; `Forms id v` are the numbers that come up on the way.  All of them are at most the size of
the struct, so they fit into a word if and only if the size does.

Structs share nested structs, so sizes grow exponentially with the number of fields.  Counted in
blocks of eight bytes, a scalar adds at most one block and a nested struct at most its own:

* a struct with `k` fields has at most `k * q` blocks, if each struct in it has at most `q`;
* the fields of the structs below are others than its own, as structs do not contain themselves.

Hence, with `k ^ 3 ≤ 3 ^ k`, a struct of `c` blocks needs fields `F` with `c ^ 3 ≤ 3 ^ F`
(`Spans.blocks`).  All sizes fit if the schema has at most 115 fields in structs (`forms_lt_iff`),
and with 116 fields one may not (`overflow_spire`).
-/

open Relation

namespace FlatSchema

/-! ## Cubes -/

theorem cube_le_three_pow (k : Nat) : k ^ 3 ≤ 3 ^ k := by
  rcases Nat.lt_or_ge k 3 with hk | hk
  · exact (by decide : ∀ k < 3, k ^ 3 ≤ 3 ^ k) k hk
  · induction k, hk using Nat.le_induction with
    | base => decide
    | succ k hk ih =>
      have hsquare : 3 * k ≤ k * k := Nat.mul_le_mul_right k hk
      have hcube : 3 * (k * k) ≤ k * k * k := by
        rw [Nat.mul_comm (k * k) k]
        exact Nat.mul_le_mul_right (k * k) hk
      calc (k + 1) ^ 3 = k * k * k + 3 * (k * k) + 3 * k + 1 := by ring
        _ ≤ 3 * (k * k * k) := by omega
        _ = k ^ 3 * 3 := by ring
        _ ≤ 3 ^ k * 3 := Nat.mul_le_mul_right 3 ih
        _ = 3 ^ (k + 1) := (Nat.pow_succ _ _).symm

/-- If `a` is at most `i` cube roots of `b`, and `d` at most one, they are at most `i + 1` together. -/
theorem cube_add_le {a d i b : Nat} (ha : a ^ 3 ≤ i ^ 3 * b) (hd : d ^ 3 ≤ b) :
    (a + d) ^ 3 ≤ (i + 1) ^ 3 * b := by
  have hsquare : a ^ 2 * d ≤ i ^ 2 * b := by
    refine (Nat.pow_le_pow_iff_left (by decide : 3 ≠ 0)).1 ?_
    calc (a ^ 2 * d) ^ 3 = (a ^ 3) ^ 2 * d ^ 3 := by ring
      _ ≤ (i ^ 3 * b) ^ 2 * b := Nat.mul_le_mul (Nat.pow_le_pow_left ha 2) hd
      _ = (i ^ 2 * b) ^ 3 := by ring
  have hmixed : a * d ^ 2 ≤ i * b := by
    refine (Nat.pow_le_pow_iff_left (by decide : 3 ≠ 0)).1 ?_
    calc (a * d ^ 2) ^ 3 = a ^ 3 * (d ^ 3) ^ 2 := by ring
      _ ≤ i ^ 3 * b * b ^ 2 := Nat.mul_le_mul ha (Nat.pow_le_pow_left hd 2)
      _ = (i * b) ^ 3 := by ring
  calc (a + d) ^ 3 = a ^ 3 + 3 * (a ^ 2 * d) + 3 * (a * d ^ 2) + d ^ 3 := by ring
    _ ≤ i ^ 3 * b + 3 * (i ^ 2 * b) + 3 * (i * b) + b := by omega
    _ = (i + 1) ^ 3 * b := by ring

namespace Schema

/-! ## Layouts without bound -/

/-- The first `i` fields of the struct `id` take `m` bytes. -/
inductive Spans (s : Schema) : TypeId → Nat → Nat → Prop where
  | nil (id : TypeId) : Spans s id 0 0
  | scalar {id : TypeId} {i e : Nat} {n : ByteCount} {f : Field} (h : Spans s id i e)
      (hf : s.field? id i = some f) (hi : s.inline? f = some (.scalar n)) :
      Spans s id (i + 1) (roundUp e n.toNat + n.toNat)
  | nested {id x : TypeId} {i e m : Nat} {f : Field} {t : TypeDecl} (h : Spans s id i e)
      (hf : s.field? id i = some f) (hi : s.inline? f = some (.nested x))
      (ht : s.types[x]? = some t) (hx : Spans s x t.fields.length m) : Spans s id (i + 1) (e + m)

/-- The numbers that come up when the struct `id` is laid out: ends and starts of its fields, and
quotients that are rounded up. -/
inductive Forms (s : Schema) (id : TypeId) : Nat → Prop where
  | total {i e : Nat} (h : s.Spans id i e) : Forms s id e
  | start {i e : Nat} {f : Field} {l : Inline} (h : s.Spans id i e) (hf : s.field? id i = some f)
      (hl : s.inline? f = some l) : Forms s id (l.start e)
  | quotient {i e : Nat} {f : Field} {n : ByteCount} (h : s.Spans id i e)
      (hf : s.field? id i = some f) (hl : s.inline? f = some (.scalar n)) (hn : e % n.toNat ≠ 0) :
      Forms s id (e / n.toNat + 1)

variable {s : Schema} {id x : TypeId} {i m : Nat} {l : Inline} {t : TypeDecl}

theorem Spans.unique (h : s.Spans id i m) : ∀ {m'}, s.Spans id i m' → m = m' := by
  induction h with
  | nil id =>
    intro m' h'
    cases h'
    rfl
  | scalar _ hf hi ih =>
    intro m' h'
    cases h' with
    | scalar h' hf' hi' =>
      obtain rfl := Option.some.inj (hf.symm.trans hf')
      obtain rfl := Inline.scalar.inj (Option.some.inj (hi.symm.trans hi'))
      rw [ih h']
    | nested _ hf' hi' _ _ =>
      obtain rfl := Option.some.inj (hf.symm.trans hf')
      cases hi.symm.trans hi'
  | nested _ hf hi ht _ ih ihx =>
    intro m' h'
    cases h' with
    | scalar _ hf' hi' =>
      obtain rfl := Option.some.inj (hf.symm.trans hf')
      cases hi.symm.trans hi'
    | nested h' hf' hi' ht' hx' =>
      obtain rfl := Option.some.inj (hf.symm.trans hf')
      obtain rfl := Inline.nested.inj (Option.some.inj (hi.symm.trans hi'))
      obtain rfl := Option.some.inj (ht.symm.trans ht')
      rw [ih h', ihx hx']

/-- Behind its start a field is laid out next. -/
theorem Spans.start_le {e : Nat} {f : Field} (h : s.Spans id (i + 1) m) (he : s.Spans id i e)
    (hf : s.field? id i = some f) (hl : s.inline? f = some l) : l.start e ≤ m := by
  cases h with
  | scalar h hf' hi =>
    obtain rfl := Option.some.inj (hf.symm.trans hf')
    obtain rfl := Option.some.inj (hl.symm.trans hi)
    rw [he.unique h]
    exact Nat.le_add_right _ _
  | nested h hf' hi _ _ =>
    obtain rfl := Option.some.inj (hf.symm.trans hf')
    obtain rfl := Option.some.inj (hl.symm.trans hi)
    rw [he.unique h]
    exact Nat.le_add_right _ _

theorem Spans.exists_le {n : Nat} (h : s.Spans id n m) : ∀ i ≤ n, ∃ e, s.Spans id i e ∧ e ≤ m := by
  induction h with
  | nil id =>
    intro i hi
    obtain rfl := Nat.le_zero.1 hi
    exact ⟨0, .nil id, Nat.le_refl 0⟩
  | @scalar id n e k f h hf hk ih =>
    intro i hi
    rcases Nat.le_succ_iff.1 hi with hi | rfl
    · obtain ⟨e', he', hle⟩ := ih i hi
      have := le_roundUp e (size_of_inline? hk).1
      exact ⟨e', he', by omega⟩
    · exact ⟨_, .scalar h hf hk, Nat.le_refl _⟩
  | @nested id x n e m f t h hf hk ht hx ih _ =>
    intro i hi
    rcases Nat.le_succ_iff.1 hi with hi | rfl
    · obtain ⟨e', he', hle⟩ := ih i hi
      exact ⟨e', he', by omega⟩
    · exact ⟨_, .nested h hf hk ht hx, Nat.le_refl _⟩

theorem Spans.le_length (h : s.Spans id i m) (ht : s.types[id]? = some t) : i ≤ t.fields.length := by
  cases h with
  | nil => exact Nat.zero_le _
  | scalar _ hf _ => exact lt_of_field? ht hf
  | nested _ hf _ _ _ => exact lt_of_field? ht hf

/-- Nothing that comes up exceeds the size. -/
theorem Forms.le {v : Nat} (hv : s.Forms id v) (ht : s.types[id]? = some t)
    (h : s.Spans id t.fields.length m) : v ≤ m := by
  have hstart : ∀ {i e f l}, s.Spans id i e → s.field? id i = some f → s.inline? f = some l →
      l.start e ≤ m := by
    intro i e f l he hf hl
    obtain ⟨e', he', hle⟩ := h.exists_le (i + 1) (lt_of_field? ht hf)
    exact Nat.le_trans (he'.start_le he hf hl) hle
  cases hv with
  | total he =>
    obtain ⟨e', he', hle⟩ := h.exists_le _ (he.le_length ht)
    rwa [he.unique he']
  | start he hf hl => exact hstart he hf hl
  | @quotient i e f n he hf hl hn =>
    -- The quotient is a factor of the start that it gives.
    have hle : (e / n.toNat + 1) * n.toNat ≤ m := by
      have := hstart he hf hl
      rwa [Inline.start, roundUp, if_neg hn] at this
    exact Nat.le_trans (Nat.le_mul_of_pos_right _ (size_of_inline? hl).1) hle

/-! ## Layouts modulo the number of words -/

/-- Words are the numbers without bound, wrapped around. -/
theorem Laid.spans {e : ByteCount} (h : s.Laid id i e) :
    (∃ m, s.Spans id i m ∧ e = .ofNat m) ∧
      ∀ j < i, ∃ l m, s.Spans id j m ∧ s.Lies id j l (.ofNat (l.start m)) := by
  induction h with
  | nil id => exact ⟨⟨0, .nil id, rfl⟩, fun j hj => absurd hj (Nat.not_lt_zero j)⟩
  | @scalar id i e n f _ hf hi ho ih =>
    obtain ⟨⟨m, hm, rfl⟩, hlies⟩ := ih
    rw [align_ofNat (size_of_inline? hi).2] at ho ⊢
    refine ⟨⟨_, .scalar hm hf hi, ?_⟩, fun j hj => ?_⟩
    · rw [UInt64.ofNat_add, UInt64.ofNat_toNat]
    · rcases Nat.lt_succ_iff_lt_or_eq.1 hj with hj | rfl
      · exact hlies j hj
      · exact ⟨.scalar n, m, hm, f, hf, hi, ho⟩
  | @nested id x i e n f t _ hf hi ho ht _ _ ih ihx =>
    obtain ⟨⟨m, hm, rfl⟩, hlies⟩ := ih
    obtain ⟨⟨k, hk, rfl⟩, -⟩ := ihx
    refine ⟨⟨m + k, .nested hm hf hi ht hk, (UInt64.ofNat_add m k).symm⟩, fun j hj => ?_⟩
    rcases Nat.lt_succ_iff_lt_or_eq.1 hj with hj | rfl
    · exact hlies j hj
    · exact ⟨.nested x, m, hm, f, hf, hi, ho⟩

/-! ## Fields below a struct -/

/-- The struct `a` has a field in which the struct `b` lies. -/
def Inlines (s : Schema) (a b : TypeId) : Prop :=
  ∃ i f, s.field? a i = some f ∧ s.inline? f = some (.nested b)

/-- The number of fields of a struct; other types have no part in layouts. -/
def width (s : Schema) (id : TypeId) : Nat :=
  match s.types[id]? with
  | some t => if t.kind.isStruct then t.fields.length else 0
  | none => 0

/-- The number of fields of all structs. -/
def structFields (s : Schema) : Nat :=
  ∑ id ∈ Finset.range s.types.length, s.width id

open Classical in
/-- The structs inside a struct, at any depth. -/
noncomputable def below (s : Schema) (id : TypeId) : Finset TypeId :=
  {x ∈ Finset.range s.types.length | TransGen s.Inlines id x}

open Classical in
theorem mem_below : x ∈ s.below id ↔ x < s.types.length ∧ TransGen s.Inlines id x := by
  rw [below, Finset.mem_filter, Finset.mem_range]

theorem width_of_struct (ht : s.types[id]? = some t) (hk : t.kind.isStruct = true) :
    s.width id = t.fields.length := by
  rw [width, ht]
  exact if_pos hk

theorem width_of_nested {f : Field} (hi : s.inline? f = some (.nested x))
    (ht : s.types[x]? = some t) : s.width x = t.fields.length := by
  obtain ⟨-, -, t', ht', hk⟩ := inline?_eq_nested_iff.1 hi
  obtain rfl := Option.some.inj (ht.symm.trans ht')
  exact width_of_struct ht hk

/-- A layout is finite, so no struct in it contains itself. -/
theorem Spans.acc_nested (h : s.Spans id i m) : ∀ j < i, ∀ f y, s.field? id j = some f →
    s.inline? f = some (.nested y) → Acc (fun b a => s.Inlines a b) y := by
  induction h with
  | nil id => exact fun j hj => absurd hj (Nat.not_lt_zero j)
  | @scalar id i e n f _ hf hi ih =>
    intro j hj f' y hf' hy
    rcases Nat.lt_succ_iff_lt_or_eq.1 hj with hj | rfl
    · exact ih j hj f' y hf' hy
    · obtain rfl := Option.some.inj (hf.symm.trans hf')
      cases hi.symm.trans hy
  | @nested id x i e m f t _ hf hi ht _ ih ihx =>
    intro j hj f' y hf' hy
    rcases Nat.lt_succ_iff_lt_or_eq.1 hj with hj | rfl
    · exact ih j hj f' y hf' hy
    · obtain rfl := Option.some.inj (hf.symm.trans hf')
      obtain rfl := Inline.nested.inj (Option.some.inj (hi.symm.trans hy))
      refine .intro x fun z ⟨k, g, hg, hz⟩ => ?_
      exact ihx k (lt_of_field? ht hg) g z hg hz

theorem Spans.acc (h : s.Spans id t.fields.length m) (ht : s.types[id]? = some t) :
    Acc (fun b a => s.Inlines a b) id :=
  .intro id fun y ⟨j, f, hf, hy⟩ => h.acc_nested j (lt_of_field? ht hf) f y hf hy

/-! ## Blocks of eight bytes -/

/-- A struct is not below itself, so its fields come on top of those below. -/
theorem cube_le_of_below {r : Finset TypeId} {c : Nat} (h : Acc (fun b a => s.Inlines a b) id)
    (hid : id ∈ r) (hr : s.below id ⊆ r)
    (hc : c ^ 3 ≤ s.width id ^ 3 * 3 ^ ∑ x ∈ s.below id, s.width x) :
    c ^ 3 ≤ 3 ^ ∑ x ∈ r, s.width x := by
  have hnot : id ∉ s.below id := fun hmem => not_transGen_of_acc h (mem_below.1 hmem).2
  have hsum : s.width id + ∑ x ∈ s.below id, s.width x ≤ ∑ x ∈ r, s.width x := by
    rw [← Finset.sum_insert hnot]
    exact Finset.sum_le_sum_of_subset (Finset.insert_subset hid hr)
  calc c ^ 3 ≤ s.width id ^ 3 * 3 ^ ∑ x ∈ s.below id, s.width x := hc
    _ ≤ 3 ^ s.width id * 3 ^ ∑ x ∈ s.below id, s.width x :=
      Nat.mul_le_mul_right _ (cube_le_three_pow _)
    _ = 3 ^ (s.width id + ∑ x ∈ s.below id, s.width x) := (Nat.pow_add 3 _ _).symm
    _ ≤ 3 ^ ∑ x ∈ r, s.width x := Nat.pow_le_pow_right (by decide) hsum

/-- The blocks of the first `i` fields, by the number of fields below. -/
theorem Spans.blocks (h : s.Spans id i m) :
    ∃ c, m ≤ 8 * c ∧ c ^ 3 ≤ i ^ 3 * 3 ^ ∑ x ∈ s.below id, s.width x := by
  induction h with
  | nil id => exact ⟨0, Nat.le_refl 0, Nat.zero_le _⟩
  | @scalar id i e n f _ _ hi ih =>
    obtain ⟨c, hm, hc⟩ := ih
    refine ⟨c + 1, ?_, cube_add_le hc (Nat.one_le_pow _ _ (by decide))⟩
    have hdvd := (size_of_inline? hi).2
    have hup : roundUp e n.toNat ≤ 8 * c := roundUp_le (Nat.dvd_mul_right_of_dvd hdvd c) hm
    have hn : n.toNat ≤ 8 := Nat.le_of_dvd (by decide) hdvd
    omega
  | @nested id x i e m f t _ hf hi ht hx ih ihx =>
    obtain ⟨c, he, hc⟩ := ih
    obtain ⟨d, hm, hd⟩ := ihx
    refine ⟨c + d, by omega, cube_add_le hc ?_⟩
    -- The struct `x` and all below it are below `id`.
    have hedge : s.Inlines id x := ⟨i, f, hf, hi⟩
    have hlt : x < s.types.length := (List.getElem?_eq_some_iff.1 ht).1
    have hsub : s.below x ⊆ s.below id := fun y hy =>
      mem_below.2 ⟨(mem_below.1 hy).1, .head hedge (mem_below.1 hy).2⟩
    rw [← width_of_nested hi ht] at hd
    exact cube_le_of_below (hx.acc ht) (mem_below.2 ⟨hlt, .single hedge⟩) hsub hd

theorem Spans.lt_word (h : s.Spans id t.fields.length m) (ht : s.types[id]? = some t)
    (hk : t.kind.isStruct = true) (hfew : s.structFields ≤ 115) : m < 2 ^ 64 := by
  obtain ⟨c, hm, hc⟩ := h.blocks
  have hlt : id < s.types.length := (List.getElem?_eq_some_iff.1 ht).1
  have hsub : s.below id ⊆ Finset.range s.types.length := fun y hy =>
    Finset.mem_range.2 (mem_below.1 hy).1
  rw [← width_of_struct ht hk] at hc
  have hblocks : c < 2 ^ 61 := by
    -- `2 ^ 183` lies between `3 ^ 115` and `3 ^ 116`.
    refine lt_of_pow_lt_pow_left₀ 3 (Nat.zero_le _) ?_
    calc c ^ 3 ≤ 3 ^ s.structFields := cube_le_of_below (h.acc ht) (Finset.mem_range.2 hlt) hsub hc
      _ ≤ 3 ^ 115 := Nat.pow_le_pow_right (by decide) hfew
      _ < (2 ^ 61) ^ 3 := by norm_num
  omega

/-! ## Top theorem -/

/-- After a successful resolution every struct has a size without bound, of which its own size and
its offsets are what fits into a word.  Every number that comes up when it is laid out is below
`2 ^ 64` exactly if its size is, and it is if the structs of the schema have at most 115 fields. -/
theorem forms_lt_iff (h : s.Registered) (hok : s.resolve.2 = none)
    (ht : s.resolve.1.types[id]? = some t) (hk : t.kind.isStruct = true) :
    ∃ m, s.resolve.1.Spans id t.fields.length m ∧
      ((∀ v, s.resolve.1.Forms id v → v < 2 ^ 64) ↔ m < 2 ^ 64) ∧
      (s.resolve.1.structFields ≤ 115 → m < 2 ^ 64) ∧
      (∃ z, t.kind.size? = some z ∧ z.toNat = m % 2 ^ 64) ∧
      ∀ i < t.fields.length, ∃ l o e, s.resolve.1.Lies id i l o ∧ s.resolve.1.Spans id i e ∧
        o.toNat = l.start e % 2 ^ 64 := by
  obtain ⟨z, hz, hlaid⟩ := (h.fresh.resolves hok).size ht hk
  obtain ⟨⟨m, hm, rfl⟩, hlies⟩ := hlaid.spans
  refine ⟨m, hm, ⟨fun hall => hall m (.total hm), fun hfit v hv => ?_⟩, fun hfew => ?_, ?_,
    fun i hi => ?_⟩
  · exact Nat.lt_of_le_of_lt (hv.le ht hm) hfit
  · exact hm.lt_word ht hk hfew
  · exact ⟨_, hz, UInt64.toNat_ofNat'⟩
  · obtain ⟨l, e, he, hl⟩ := hlies i hi
    exact ⟨l, _, e, hl, he, UInt64.toNat_ofNat'⟩

/-- The struct that is laid out first takes five of the eight bytes. -/
theorem forms_lt_iff_crate : (readAlone crate).resolve.1.structFields = 5 ∧
    ∃ t m, (readAlone crate).resolve.1.types[0]? = some t ∧ t.kind.size? = some 8 ∧
      (readAlone crate).resolve.1.Spans 0 t.fields.length m ∧ m < 2 ^ 64 ∧ m % 2 ^ 64 = 8 := by
  have hfacts : (readAlone crate).resolve.2 = none ∧ (readAlone crate).resolve.1.structFields = 5 ∧
      (readAlone crate).resolve.1.types[0]?.map (fun t => (t.kind.isStruct, t.kind.size?)) =
        some (true, some 8) := by
    decide +kernel
  obtain ⟨hok, hfew, hmap⟩ := hfacts
  obtain ⟨t, ht, hshape⟩ := Option.map_eq_some_iff.1 hmap
  obtain ⟨hk, hz⟩ := Prod.mk.inj hshape
  obtain ⟨m, hm, -, hfit, ⟨z, hz', hsize⟩, -⟩ := forms_lt_iff (registered_readAlone crate) hok ht hk
  obtain rfl := Option.some.inj (hz.symm.trans hz')
  exact ⟨hfew, t, m, ht, hz, hm, hfit (by rw [hfew]; decide), hsize.symm⟩

/-! ## A spire -/

/-- Fields of one struct lie one behind the other. -/
theorem spans_same {k : Nat} (ht : s.types[x]? = some t) (hx : s.Spans x t.fields.length m)
    (h : ∀ i < k, (s.field? id i).bind s.inline? = some (.nested x)) :
    ∀ i ≤ k, s.Spans id i (i * m) := by
  intro i
  induction i with
  | zero =>
    intro _
    rw [Nat.zero_mul]
    exact .nil id
  | succ i ih =>
    intro hi
    obtain ⟨f, hf, hinline⟩ := Option.bind_eq_some_iff.1 (h i hi)
    rw [Nat.succ_mul]
    exact .nested (ih (by omega)) hf hinline ht hx

/-- `struct A` with two fields of eight bytes, and 38 structs with three fields each. -/
def spire : String :=
  .ofList (storeys "ab" "abc" "ABCDEFGHIJKLMNOPQRSTUVWXYZabcdefghijklm".toList)

theorem resolve_spire {s : Schema} (hs : readAlone spire = s) :
    (((empty "default").markFile "schema.fbs").parse "schema.fbs" spire).2.isOk = true ∧
      s.resolve.2 = none ∧ s.resolve.1.structFields = 116 ∧
      (∀ k < 39, s.resolve.1.types[k]?.map (fun t => (t.kind.isStruct, t.fields.length)) =
        some (true, if k = 0 then 2 else 3)) ∧
      (∀ i < 2, (s.resolve.1.field? 0 i).bind s.resolve.1.inline? = some (.scalar 8)) ∧
      ∀ k < 38, ∀ i < 3,
        (s.resolve.1.field? (k + 1) i).bind s.resolve.1.inline? = some (.nested k) := by
  subst hs
  rw [readAlone, spire, parse_ofList]
  decide +kernel

/-- Each storey is three times as large as the one below. -/
theorem spans_spire {s : Schema} (hs : readAlone spire = s) : ∀ k : Nat, k < 39 → ∃ t,
    s.resolve.1.types[k]? = some t ∧ t.kind.isStruct = true ∧
      s.resolve.1.Spans k t.fields.length (16 * 3 ^ k) := by
  obtain ⟨-, -, -, hkinds, hground, hupper⟩ := resolve_spire hs
  intro k
  induction k with
  | zero =>
    intro hk
    obtain ⟨t, ht, hshape⟩ := Option.map_eq_some_iff.1 (hkinds 0 hk)
    obtain ⟨hstruct, hlen⟩ := Prod.mk.inj hshape
    obtain ⟨f, hf, hf8⟩ := Option.bind_eq_some_iff.1 (hground 0 (by decide))
    obtain ⟨g, hg, hg8⟩ := Option.bind_eq_some_iff.1 (hground 1 (by decide))
    refine ⟨t, ht, hstruct, ?_⟩
    rw [hlen]
    exact .scalar (.scalar (.nil 0) hf hf8) hg hg8
  | succ k ih =>
    intro hk
    obtain ⟨t, ht, hshape⟩ := Option.map_eq_some_iff.1 (hkinds (k + 1) hk)
    obtain ⟨hstruct, hlen⟩ := Prod.mk.inj hshape
    obtain ⟨u, hu, -, hbelow⟩ := ih (by omega)
    have hsame := spans_same hu hbelow (hupper k (Nat.lt_of_succ_lt_succ hk)) 3 (Nat.le_refl 3)
    refine ⟨t, ht, hstruct, ?_⟩
    rw [hlen, if_neg (Nat.succ_ne_zero k), Nat.pow_succ]
    rwa [Nat.mul_left_comm, Nat.mul_comm 3] at hsame

/-- With 116 fields the size of a struct need not fit into a word. -/
theorem overflow_spire : (readAlone spire).Registered ∧
    (((empty "default").markFile "schema.fbs").parse "schema.fbs" spire).2.isOk = true ∧
    (readAlone spire).resolve.2 = none ∧ (readAlone spire).resolve.1.structFields = 116 ∧
    ∃ t, (readAlone spire).resolve.1.types[38]? = some t ∧ t.kind.isStruct = true ∧
      (readAlone spire).resolve.1.Spans 38 t.fields.length (16 * 3 ^ 38) ∧
      (readAlone spire).resolve.1.Forms 38 (16 * 3 ^ 38) ∧ 2 ^ 64 ≤ 16 * 3 ^ 38 ∧
      t.kind.size? = some (.ofNat (16 * 3 ^ 38)) := by
  have hregistered := registered_readAlone spire
  obtain ⟨s, hs⟩ : ∃ s, readAlone spire = s := ⟨_, rfl⟩
  rw [hs] at hregistered ⊢
  obtain ⟨hparse, hok, hcount, -⟩ := resolve_spire hs
  obtain ⟨t, ht, hk, hspans⟩ := spans_spire hs 38 (by decide)
  obtain ⟨z, hz, hlaid⟩ := (hregistered.fresh.resolves hok).size ht hk
  obtain ⟨⟨m, hm, rfl⟩, -⟩ := hlaid.spans
  rw [hm.unique hspans] at hz
  exact ⟨hregistered, hparse, hok, hcount, t, ht, hk, hspans, .total hspans, by decide, hz⟩

end Schema

end FlatSchema
