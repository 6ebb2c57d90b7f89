import FlatSchema.Schema.Numbering

/-!
# Numbered enum values

`counted` gives the values of enum entries as integers without bound.  Numbering gives every entry
its counted value, and fails exactly where an entry without a value follows the largest 64-bit
integer; entries that have a value already keep it, so numbering again changes nothing.

    numberValues es = (es', none) → es'.map (·.value.map toInt) = (counted 0 es).map some
    (numberValues es).2 = none ↔ Numberable es
-/

namespace FlatSchema

/-! ## Algorithm -/

/-- An entry without a value of its own has the one after the entry before it; the first has
`next`. -/
def counted (next : Int) : List Entry → List Int
  | [] => []
  | e :: es => (e.value.elim next Int64.toInt) :: counted (e.value.elim next Int64.toInt + 1) es

/-- The largest value there is. -/
def greatest : Int := Int64.maxValue.toInt

/-- No entry without a value follows one with the largest. -/
def Numberable (es : List Entry) : Prop :=
  ∀ i e, es[i + 1]? = some e → e.value = none → (counted 0 es)[i]? ≠ some greatest

/-! ## Lemmas -/

theorem numberFrom_some {e : Entry} {v : Int64} (h : e.value = some v) (next : Option Int64)
    (es : List Entry) : numberFrom next (e :: es) =
      (e :: (numberFrom (successor? v) es).1, (numberFrom (successor? v) es).2) := by
  simp only [numberFrom, h]

theorem numberFrom_none {e : Entry} (h : e.value = none) (v : Int64) (es : List Entry) :
    numberFrom (some v) (e :: es) =
      ({ e with value := some v } :: (numberFrom (successor? v) es).1,
        (numberFrom (successor? v) es).2) := by
  simp only [numberFrom, h]

theorem numberFrom_stop {e : Entry} (h : e.value = none) (es : List Entry) :
    numberFrom none (e :: es) = (e :: es, some e.name) := by
  simp only [numberFrom, h]

/-- Entries keep their places and names, and the values they have. -/
theorem numberFrom_keeps (next : Option Int64) (es : List Entry) :
    (numberFrom next es).1.length = es.length ∧
      ∀ (i : Nat) (e e' : Entry), es[i]? = some e → (numberFrom next es).1[i]? = some e' →
        e'.name = e.name ∧ (e.value = none ∨ e'.value = e.value) := by
  induction es generalizing next with
  | nil => simp [numberFrom]
  | cons a es ih =>
    -- The tail is numbered from the value of the head, whichever way that came about.
    have cons : ∀ (a' : Entry) (v : Int64), a'.name = a.name → (a.value = none ∨ a'.value = a.value) →
        (a' :: (numberFrom (successor? v) es).1).length = (a :: es).length ∧
        ∀ (i : Nat) (e e' : Entry), (a :: es)[i]? = some e →
          (a' :: (numberFrom (successor? v) es).1)[i]? = some e' →
          e'.name = e.name ∧ (e.value = none ∨ e'.value = e.value) := by
      intro a' v hn hv
      obtain ⟨hl, hk⟩ := ih (successor? v)
      refine ⟨by simp [hl], fun i e e' he he' => ?_⟩
      cases i with
      | zero =>
        simp only [List.getElem?_cons_zero, Option.some.injEq] at he he'
        subst he he'
        exact ⟨hn, hv⟩
      | succ i =>
        rw [List.getElem?_cons_succ] at he he'
        exact hk i e e' he he'
    cases hv : a.value with
    | some v =>
      rw [numberFrom_some hv]
      exact cons a v rfl (.inr rfl)
    | none =>
      cases next with
      | some n =>
        rw [numberFrom_none hv]
        exact cons _ n rfl (.inl hv)
      | none =>
        rw [numberFrom_stop hv]
        refine ⟨rfl, fun i e e' he he' => ?_⟩
        obtain rfl := Option.some.inj (he.symm.trans he')
        exact ⟨rfl, .inr rfl⟩

/-- Numbering again finds all as it left it, and stops where it stopped. -/
theorem numberFrom_numberFrom (next : Option Int64) (es : List Entry) :
    numberFrom next (numberFrom next es).1 = numberFrom next es := by
  induction es generalizing next with
  | nil => rfl
  | cons e es ih =>
    cases hv : e.value with
    | some v =>
      rw [numberFrom_some hv, numberFrom_some hv, ih]
    | none =>
      cases next with
      | some n =>
        rw [numberFrom_none hv, numberFrom_some rfl, ih]
      | none => rw [numberFrom_stop hv, numberFrom_stop hv]

theorem numberValues_numberValues (es : List Entry) :
    numberValues (numberValues es).1 = numberValues es :=
  numberFrom_numberFrom (some 0) es

/-- Entries that all have a value are numbered as they are. -/
theorem numberFrom_eq_self (next : Option Int64) (es : List Entry)
    (h : ∀ e ∈ es, e.value ≠ none) : numberFrom next es = (es, none) := by
  induction es generalizing next with
  | nil => rfl
  | cons e es ih =>
    cases hv : e.value with
    | none => exact absurd hv (h e (by simp))
    | some v => rw [numberFrom_some hv, ih _ fun x hx => h x (by simp [hx])]

theorem value_ne_none_of_numberFrom (next : Option Int64) (es : List Entry)
    (h : (numberFrom next es).2 = none) : ∀ e ∈ (numberFrom next es).1, e.value ≠ none := by
  induction es generalizing next with
  | nil => simp [numberFrom]
  | cons e es ih =>
    cases hv : e.value with
    | some v =>
      rw [numberFrom_some hv] at h ⊢
      intro x hx
      rcases List.mem_cons.1 hx with rfl | hx
      · simp [hv]
      · exact ih _ h x hx
    | none =>
      cases next with
      | some n =>
        rw [numberFrom_none hv] at h ⊢
        intro x hx
        rcases List.mem_cons.1 hx with rfl | hx
        · simp
        · exact ih _ h x hx
      | none => rw [numberFrom_stop hv] at h; cases h

/-! ### Counted values -/

/-- `next` as an integer: one past the largest when there is none. -/
def nextInt (next : Option Int64) : Int :=
  next.elim (greatest + 1) Int64.toInt

theorem nextInt_successor? (v : Int64) : nextInt (successor? v) = v.toInt + 1 := by
  cases h : successor? v with
  | some n => simpa [nextInt] using toInt_successor? h
  | none =>
    have hv : v = Int64.maxValue := by
      unfold successor? at h
      split at h
      · assumption
      · cases h
    subst hv
    decide

/-- Every entry gets its counted value. -/
theorem numberFrom_eq_counted (next : Option Int64) (es : List Entry)
    (h : (numberFrom next es).2 = none) :
    (numberFrom next es).1.map (·.value.map Int64.toInt) =
      (counted (nextInt next) es).map some := by
  induction es generalizing next with
  | nil => rfl
  | cons e es ih =>
    cases hv : e.value with
    | some v =>
      rw [numberFrom_some hv] at h ⊢
      simp only [List.map_cons, counted, hv, Option.map_some, Option.elim_some, ih _ h,
        nextInt_successor?]
    | none =>
      cases next with
      | some n =>
        rw [numberFrom_none hv] at h ⊢
        simp only [List.map_cons, counted, hv, Option.map_some, Option.elim_none, ih _ h,
          nextInt_successor?]
        rfl
      | none => rw [numberFrom_stop hv] at h; cases h

/-- A numbering that stops names an entry without a value, behind the largest integer. -/
theorem numberFrom_stops (next : Option Int64) (es : List Entry) (name : String)
    (h : (numberFrom next es).2 = some name) :
    (∃ e, es[0]? = some e ∧ e.value = none ∧ e.name = name ∧ next = none) ∨
      ∃ i e, es[i + 1]? = some e ∧ e.value = none ∧ e.name = name ∧
        (counted (nextInt next) es)[i]? = some greatest := by
  induction es generalizing next with
  | nil => cases h
  | cons a es ih =>
    -- Behind a head with the value `v`, a stop in the tail is a stop one place further on.
    have tail : ∀ v : Int64, a.value.elim (nextInt next) Int64.toInt = v.toInt →
        (numberFrom (successor? v) es).2 = some name →
        ∃ i e, (a :: es)[i + 1]? = some e ∧ e.value = none ∧ e.name = name ∧
          (counted (nextInt next) (a :: es))[i]? = some greatest := by
      intro v hv hs
      rcases ih _ hs with ⟨e, he, hen, hname, hnext⟩ | ⟨i, e, he, hen, hname, hc⟩
      · refine ⟨0, e, by simpa using he, hen, hname, ?_⟩
        have := nextInt_successor? v
        rw [hnext] at this
        simp only [nextInt, Option.elim_none] at this
        simp only [counted, List.getElem?_cons_zero, hv]
        congr 1
        omega
      · refine ⟨i + 1, e, by simpa using he, hen, hname, ?_⟩
        rw [nextInt_successor?] at hc
        simpa only [counted, List.getElem?_cons_succ, hv] using hc
    cases hv : a.value with
    | some v =>
      rw [numberFrom_some hv] at h
      exact .inr (tail v (by rw [hv]; rfl) h)
    | none =>
      cases next with
      | some n =>
        rw [numberFrom_none hv] at h
        exact .inr (tail n (by rw [hv]; rfl) h)
      | none =>
        rw [numberFrom_stop hv] at h
        exact .inl ⟨a, rfl, hv, Option.some.inj h, rfl⟩

/-- An entry without a value counts one more than the entry before it. -/
theorem counted_succ (next : Int) (es : List Entry) (i : Nat) (e : Entry)
    (he : es[i + 1]? = some e) (hv : e.value = none) :
    (counted next es)[i + 1]? = (counted next es)[i]?.map (· + 1) := by
  induction es generalizing next i with
  | nil => simp at he
  | cons a es ih =>
    rw [List.getElem?_cons_succ] at he
    cases i with
    | succ i => simpa [counted] using ih _ i he
    | zero =>
      cases es with
      | nil => simp at he
      | cons b es =>
        simp only [List.getElem?_cons_zero, Option.some.injEq] at he
        subst he
        simp [counted, hv]

/-! ## Top theorems -/

theorem numberValues_eq_counted {es es' : List Entry} (h : numberValues es = (es', none)) :
    es'.map (·.value.map Int64.toInt) = (counted 0 es).map some := by
  have := numberFrom_eq_counted (some 0) es (congrArg Prod.snd h)
  rwa [show numberFrom (some 0) es = (es', none) from h] at this

theorem numberValues_stops {es : List Entry} {name : String} (h : (numberValues es).2 = some name) :
    ∃ i e, es[i + 1]? = some e ∧ e.value = none ∧ e.name = name ∧
      (counted 0 es)[i]? = some greatest := by
  rcases numberFrom_stops (some 0) es name h with ⟨e, -, -, -, hn⟩ | h
  · cases hn
  · exact h

/-- Values that fit their words do not run past the largest integer. -/
theorem numberable_of_counted {es es' : List Entry}
    (h : es'.map (·.value.map Int64.toInt) = (counted 0 es).map some) : Numberable es := by
  intro i e he hv hc
  have hi := counted_succ 0 es i e he hv
  rw [hc, Option.map_some] at hi
  have hi' : (es'.map (·.value.map Int64.toInt))[i + 1]? = some (some (greatest + 1)) := by
    rw [h, List.getElem?_map, hi, Option.map_some]
  rw [List.getElem?_map] at hi'
  obtain ⟨e', -, he'⟩ := Option.map_eq_some_iff.1 hi'
  obtain ⟨v, -, hv'⟩ := Option.map_eq_some_iff.1 he'
  have : v.toInt ≤ greatest := Int64.toInt_le v
  omega

end FlatSchema
