import FlatSchema.Proofs.Numbering

/-!
# The value of an entry, counted from the last one that was set

An entry without a value is counted from the nearest entry in front of it that has one, its anchor, or from
zero where there is none (`reckoned`).  Numbering gives every entry this value up to the first that would
be past the largest integer, and leaves that one and all behind it as they are:

    (numberValues es).2 = none ↔ ∀ i, ¬ Overflows es i        (reckons_numberValues)

The numbering loop is followed by `numbered_upto`, in the values that it hands on from entry to entry
(`counted`); these are the reckoned ones (`getElem?_counted`).
-/

namespace FlatSchema

/-! ## Anchors -/

/-- The nearest entry in front of `i` that has a value: its place and its value. -/
def anchor? (es : List Entry) (i : Nat) : Option (Nat × Int64) :=
  (List.range i).reverse.findSome? fun j => (es[j]?.bind (·.value)).map (j, ·)

/-- The value that entry `i` should have if it has none of its own. -/
def reckoned (es : List Entry) (i : Nat) : Int :=
  match anchor? es i with
  | some (j, v) => v.toInt + (i - j : Nat)
  | none => i

/-- Entry `i` needs a value, and the one it should have is past the largest. -/
def Overflows (es : List Entry) (i : Nat) : Prop :=
  ∃ e, es[i]? = some e ∧ e.value = none ∧ greatest < reckoned es i

/-- Entry `i` has the value it had, or else the one it should have. -/
def FilledAt (es es' : List Entry) (i : Nat) : Prop :=
  ∀ e, es[i]? = some e → ∃ v, es'[i]? = some { e with value := some v } ∧
    (e.value = some v ∨ e.value = none ∧ v.toInt = reckoned es i)

/-- `es'` are the entries `es` with their values, and `stop` names the first that could not be given one. -/
structure Reckons (es es' : List Entry) (stop : Option String) : Prop where
  length : es'.length = es.length
  succeeds : stop = none ↔ ∀ i, ¬ Overflows es i
  filled : stop = none → ∀ i, FilledAt es es' i
  stops : ∀ name, stop = some name → ∃ i, Overflows es i ∧ (∀ j < i, ¬ Overflows es j) ∧
    es[i]?.map (·.name) = some name ∧ (∀ j < i, FilledAt es es' j) ∧ ∀ j, i ≤ j → es'[j]? = es[j]?

variable {es : List Entry} {i : Nat} {e : Entry}

theorem anchor?_succ (es : List Entry) (i : Nat) :
    anchor? es (i + 1) = ((es[i]?.bind (·.value)).map (i, ·)).or (anchor? es i) := by
  unfold anchor?
  rw [List.range_succ, List.reverse_append, List.reverse_singleton, List.singleton_append,
    List.findSome?_cons]
  cases es[i]?.bind (·.value) with
  | none => rfl
  | some v => rfl

theorem lt_of_anchor? {j : Nat} {v : Int64} (h : anchor? es i = some (j, v)) : j < i := by
  obtain ⟨k, hk, hv⟩ := List.exists_of_findSome?_eq_some h
  obtain ⟨w, -, hw⟩ := Option.map_eq_some_iff.1 hv
  obtain ⟨rfl, -⟩ := Prod.mk.inj hw
  simpa using hk

/-- Behind an entry the count goes on by one. -/
theorem reckoned_succ (he : es[i]? = some e) :
    reckoned es (i + 1) = e.value.elim (reckoned es i) Int64.toInt + 1 := by
  have hsucc := anchor?_succ es i
  rw [he, Option.bind_some] at hsucc
  unfold reckoned
  rw [hsucc]
  cases hv : e.value with
  | some v => simp
  | none =>
    cases ha : anchor? es i with
    | none => simp
    | some jv =>
      obtain ⟨j, v⟩ := jv
      have := lt_of_anchor? ha
      simp only [Option.map_none, Option.none_or, Option.elim_none]
      omega

/-! ## Counted values -/

/-- An entry with a value counts as that. -/
theorem getElem?_counted_of_value {v : Int64} (next : Int) (he : es[i]? = some e)
    (hv : e.value = some v) : (counted next es)[i]? = some v.toInt := by
  induction es generalizing next i with
  | nil => simp at he
  | cons a es ih =>
    rw [counted]
    cases i with
    | zero =>
      obtain rfl : a = e := by simpa using he
      rw [hv]
      rfl
    | succ i => exact ih _ (by simpa using he)

theorem getElem?_counted (he : es[i]? = some e) :
    (counted 0 es)[i]? = some (e.value.elim (reckoned es i) Int64.toInt) := by
  induction i generalizing e with
  | zero =>
    cases es with
    | nil => simp at he
    | cons a es =>
      obtain rfl : a = e := by simpa using he
      rfl
  | succ i ih =>
    cases hv : e.value with
    | some v => exact getElem?_counted_of_value 0 he hv
    | none =>
      obtain ⟨a, ha⟩ : ∃ a, es[i]? = some a := by
        have := (List.getElem?_eq_some_iff.1 he).1
        exact ⟨_, List.getElem?_eq_getElem (by omega)⟩
      rw [counted_succ 0 es i e he hv, ih ha, reckoned_succ ha]
      rfl

/-! ## The loop -/

/-- The first `n` entries get what is counted for them; the next one needs a value and there is none left, or
there is no next one. -/
structure NumberedUpto (n : Nat) (next : Int) (es es' : List Entry) (stop : Option String) : Prop where
  le : n ≤ es.length
  front : ∀ i e, i < n → es[i]? = some e → ∃ v, es'[i]? = some { e with value := some v } ∧
    (e.value = some v ∨ e.value = none ∧ (counted next es)[i]? = some v.toInt)
  back : ∀ i, n ≤ i → es'[i]? = es[i]?
  stop : n = es.length ∧ stop = none ∨ ∃ e, es[n]? = some e ∧ e.value = none ∧
    (counted next es)[n]? = some (greatest + 1) ∧ stop = some e.name

/-- One more entry in front, with its value. -/
theorem NumberedUpto.cons {n : Nat} {next : Int} {es' : List Entry} {stop : Option String} {a : Entry}
    {v : Int64} (h : NumberedUpto n (v.toInt + 1) es es' stop)
    (hv : a.value = some v ∨ a.value = none ∧ next = v.toInt) :
    NumberedUpto (n + 1) next (a :: es) ({ a with value := some v } :: es') stop := by
  have hcounted : counted next (a :: es) = v.toInt :: counted (v.toInt + 1) es := by
    rw [counted]
    rcases hv with hv | ⟨hv, rfl⟩
    · rw [hv]
      rfl
    · rw [hv]
      rfl
  refine ⟨Nat.succ_le_succ h.le, fun i e hi he => ?_, fun i hi => ?_, ?_⟩
  · rw [hcounted]
    cases i with
    | zero =>
      obtain rfl : a = e := by simpa using he
      refine ⟨v, rfl, ?_⟩
      rcases hv with hv | ⟨hv, -⟩
      · exact .inl hv
      · exact .inr ⟨hv, rfl⟩
    | succ i => exact h.front i e (by omega) (by simpa using he)
  · cases i with
    | zero => omega
    | succ i => exact h.back i (by omega)
  · rw [hcounted]
    rcases h.stop with ⟨hn, hstop⟩ | ⟨e, he, hnone, hlast, hstop⟩
    · exact .inl ⟨by rw [hn, List.length_cons], hstop⟩
    · exact .inr ⟨e, he, hnone, hlast, hstop⟩

theorem numbered_upto (next : Option Int64) (es : List Entry) : ∃ n,
    NumberedUpto n (nextInt next) es (numberFrom next es).1 (numberFrom next es).2 := by
  induction es generalizing next with
  | nil => exact ⟨0, ⟨Nat.le_refl _, fun i e hi => by omega, fun i _ => rfl, .inl ⟨rfl, rfl⟩⟩⟩
  | cons a es ih =>
    cases hv : a.value with
    | some v =>
      obtain ⟨n, hn⟩ := ih (successor? v)
      rw [nextInt_successor?] at hn
      have hsame : a = { a with value := some v } := by rw [← hv]
      rw [numberFrom_some hv]
      refine ⟨n + 1, ?_⟩
      have hcons : NumberedUpto (n + 1) (nextInt next) (a :: es) (_ :: _) _ := hn.cons (.inl hv)
      rwa [← hsame] at hcons
    | none =>
      cases next with
      | some v =>
        obtain ⟨n, hn⟩ := ih (successor? v)
        rw [nextInt_successor?] at hn
        rw [numberFrom_none hv]
        exact ⟨n + 1, hn.cons (.inr ⟨hv, rfl⟩)⟩
      | none =>
        rw [numberFrom_stop hv]
        refine ⟨0, Nat.zero_le _, fun i e hi => by omega, fun i _ => rfl, .inr ⟨a, rfl, hv, ?_, rfl⟩⟩
        rw [counted, hv]
        rfl

/-! ## Top theorem -/

theorem NumberedUpto.filledAt {n : Nat} {es' : List Entry} {stop : Option String}
    (h : NumberedUpto n 0 es es' stop) (hi : i < n) : FilledAt es es' i ∧ ¬ Overflows es i := by
  constructor
  · intro e he
    obtain ⟨v, hv, hset | ⟨hnone, hcounted⟩⟩ := h.front i e hi he
    · exact ⟨v, hv, .inl hset⟩
    · refine ⟨v, hv, .inr ⟨hnone, ?_⟩⟩
      rw [getElem?_counted he, hnone] at hcounted
      exact (Option.some.inj hcounted).symm
  · rintro ⟨e, he, hnone, hlt⟩
    obtain ⟨v, -, hset | ⟨-, hcounted⟩⟩ := h.front i e hi he
    · rw [hnone] at hset
      cases hset
    · rw [getElem?_counted he, hnone, Option.elim_none] at hcounted
      have : v.toInt ≤ greatest := Int64.toInt_le v
      have := Option.some.inj hcounted
      omega

theorem NumberedUpto.reckons {n : Nat} {es' : List Entry} {stop : Option String}
    (h : NumberedUpto n 0 es es' stop) (hlength : es'.length = es.length) : Reckons es es' stop := by
  rcases h.stop with ⟨rfl, rfl⟩ | ⟨e, he, hnone, hcounted, rfl⟩
  · -- All entries are numbered; behind them there are none.
    have hall : ∀ i, FilledAt es es' i ∧ ¬ Overflows es i := by
      intro i
      by_cases hi : i < es.length
      · exact h.filledAt hi
      · have hout : es[i]? = none := List.getElem?_eq_none (Nat.le_of_not_lt hi)
        refine ⟨fun e he => ?_, fun ⟨e, he, _⟩ => ?_⟩ <;> simp [hout] at he
    exact ⟨hlength, iff_of_true rfl fun i => (hall i).2, fun _ i => (hall i).1, fun _ h => nomatch h⟩
  · have hover : Overflows es n := by
      rw [getElem?_counted he, hnone, Option.elim_none] at hcounted
      have := Option.some.inj hcounted
      exact ⟨e, he, hnone, by omega⟩
    refine ⟨hlength, iff_of_false (by simp) fun hno => hno n hover, (nomatch ·), fun name hname => ?_⟩
    refine ⟨n, hover, fun j hj => (h.filledAt hj).2, ?_, fun j hj => (h.filledAt hj).1, h.back⟩
    rw [he, Option.map_some]
    exact hname

/-- Numbering succeeds exactly if no entry overflows; each entry up to the first that does keeps its value or
gets the reckoned one, and the rest stays.  Numbering again changes nothing and ends the same way. -/
theorem reckons_numberValues (es : List Entry) :
    Reckons es (numberValues es).1 (numberValues es).2 ∧
      numberValues (numberValues es).1 = numberValues es := by
  obtain ⟨n, hn⟩ := numbered_upto (some 0) es
  exact ⟨hn.reckons (numberFrom_keeps (some 0) es).1, numberValues_numberValues es⟩

example : reckoned [⟨"A", none⟩, ⟨"B", some 5⟩, ⟨"C", none⟩, ⟨"D", none⟩] 3 = 7 := by decide
example : numberValues [⟨"A", none⟩, ⟨"B", some .maxValue⟩, ⟨"C", none⟩, ⟨"D", none⟩] =
    ([⟨"A", some 0⟩, ⟨"B", some .maxValue⟩, ⟨"C", none⟩, ⟨"D", none⟩], some "C") := by decide

end FlatSchema
