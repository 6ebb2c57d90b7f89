import FlatSchema.Source.Numeral
import Mathlib.Data.List.TakeWhile

/-!
# Numbers at the front of a text

`Numeral.read?` finds a number exactly where one is written and cannot be made longer by what follows:

    read? cs = some n ↔ n.Valid ∧ ∃ rest, cs = n.spelling ++ rest ∧ n.Ends rest

(`read?_eq_some_iff`).  A number is no hexadecimal one unless an `x` follows it (`hexBody?_spelling`).
-/

namespace FlatSchema

/-! ## Fronts of a text -/

/-- Nothing follows, or a character that is not of the kind. -/
def StopsAt (p : Char → Bool) (rest : List Char) : Prop :=
  ∀ c ∈ rest.head?, p c = false

section Front

variable {p : Char → Bool} {cs xs ys : List Char}

theorem stopsAt_nil (p : Char → Bool) : StopsAt p [] :=
  fun _ h => by cases h

theorem stopsAt_cons {c : Char} : StopsAt p (c :: cs) ↔ p c = false :=
  ⟨fun h => h c rfl, fun h _ hd => by cases hd; exact h⟩

/-- The characters of a kind at the front, and the rest. -/
theorem takeWhile_dropWhile_iff : cs.takeWhile p = xs ∧ cs.dropWhile p = ys ↔
    cs = xs ++ ys ∧ (∀ c ∈ xs, p c = true) ∧ StopsAt p ys := by
  constructor
  · rintro ⟨rfl, rfl⟩
    refine ⟨List.takeWhile_append_dropWhile.symm, fun c hc => List.mem_takeWhile_imp hc, ?_⟩
    intro c hc
    have hstop := List.head?_dropWhile_not p cs
    rw [hc] at hstop
    exact hstop
  · rintro ⟨rfl, hxs, hys⟩
    have hnone : ys.takeWhile p = [] ∧ ys.dropWhile p = ys := by
      cases ys with
      | nil => exact ⟨rfl, rfl⟩
      | cons c ys => simp [stopsAt_cons.1 hys]
    rw [List.takeWhile_append_of_pos hxs, List.dropWhile_append_of_pos hxs, hnone.1, hnone.2]
    exact ⟨List.append_nil _, rfl⟩

end Front

/-! ## Signs -/

/-- A sign, or none. -/
def SignPart (s : List Char) : Prop :=
  s = [] ∨ ∃ c, isSign c = true ∧ s = [c]

theorem splitSign_eq_iff {cs s rest : List Char} : splitSign cs = (s, rest) ↔
    cs = s ++ rest ∧ SignPart s ∧ (s = [] → StopsAt isSign rest) := by
  cases cs with
  | nil =>
    constructor
    · intro h
      cases h
      exact ⟨rfl, .inl rfl, fun _ => stopsAt_nil _⟩
    · rintro ⟨h, -, -⟩
      obtain ⟨rfl, rfl⟩ := List.append_eq_nil_iff.1 h.symm
      rfl
  | cons c cs =>
    unfold splitSign
    dsimp only
    by_cases hc : isSign c = true
    · rw [if_pos hc]
      constructor
      · intro h
        cases h
        exact ⟨rfl, .inr ⟨c, hc, rfl⟩, fun h => by cases h⟩
      · rintro ⟨h, rfl | ⟨d, -, rfl⟩, hstop⟩
        · have hrest := hstop rfl
          rw [← show c :: cs = rest from h, stopsAt_cons, hc] at hrest
          cases hrest
        · cases h
          rfl
    · rw [if_neg hc]
      constructor
      · intro h
        cases h
        exact ⟨rfl, .inl rfl, fun _ => stopsAt_cons.2 (by simpa using hc)⟩
      · rintro ⟨h, rfl | ⟨d, hd, rfl⟩, -⟩
        · rw [h]
          rfl
        · cases h
          exact absurd hd hc

theorem isSign_of_isDigit {c : Char} (h : c.isDigit = true) : isSign c = false := by
  rw [isSign, Bool.or_eq_false_iff, decide_eq_false_iff_not, decide_eq_false_iff_not]
  constructor <;> rintro rfl <;> revert h <;> decide

/-- What a number can start with. -/
def isNumberStart (c : Char) : Bool :=
  c.isDigit || isSign c || c = '.'

theorem isNumberStart_iff {c : Char} :
    isNumberStart c = true ↔ c.isDigit = true ∨ c = '+' ∨ c = '-' ∨ c = '.' := by
  simp only [isNumberStart, isSign, Bool.or_eq_true, decide_eq_true_eq, or_assoc]

namespace Numeral

/-! ## Parts of a number -/

def Digits (ds : List Char) : Prop :=
  ∀ d ∈ ds, d.isDigit = true

theorem front_digits (cs : List Char) : ∃ ds rest, cs = ds ++ rest ∧ cs.takeWhile Char.isDigit = ds ∧
    Digits ds ∧ StopsAt Char.isDigit rest := by
  have hfront := (@takeWhile_dropWhile_iff Char.isDigit cs _ _).1 ⟨rfl, rfl⟩
  exact ⟨_, _, hfront.1, rfl, hfront.2.1, hfront.2.2⟩

/-- A mark, a sign if there is one, and digits. -/
def IsExponent : Char × List Char × List Char → Prop
  | (mark, sign, ds) => (mark = 'e' ∨ mark = 'E') ∧ SignPart sign ∧ Digits ds ∧ ds ≠ []

/-- What makes up a number: at least one digit stands before the exponent. -/
structure Valid (n : Numeral) : Prop where
  sign : SignPart n.sign
  whole : Digits n.whole
  fraction : ∀ ds, n.fraction = some ds → Digits ds
  digits : n.whole ≠ [] ∨ ∃ ds, n.fraction = some ds ∧ ds ≠ []
  exponent : ∀ e, n.exponent = some e → IsExponent e

/-- The number cannot be made longer by what follows it. -/
structure Ends (n : Numeral) (rest : List Char) : Prop where
  digit : StopsAt Char.isDigit rest
  exponent : n.exponent = none → readExponent rest = none
  point : n.exponent = none → n.fraction = none → rest.head? ≠ some '.'

def fractionText : Option (List Char) → List Char
  | some ds => '.' :: ds
  | none => []

def exponentText : Option (Char × List Char × List Char) → List Char
  | some (mark, sign, ds) => mark :: (sign ++ ds)
  | none => []

theorem spelling_append (n : Numeral) (rest : List Char) : n.spelling ++ rest =
    n.sign ++ (n.whole ++ (fractionText n.fraction ++ (exponentText n.exponent ++ rest))) := by
  unfold spelling fractionText exponentText
  cases n.fraction <;> cases n.exponent <;> simp

/-- The sign of a number does not run on into its digits. -/
theorem splitSign_spelling {n : Numeral} (hn : n.Valid) (rest : List Char) :
    splitSign (n.spelling ++ rest) =
      (n.sign, n.whole ++ (fractionText n.fraction ++ (exponentText n.exponent ++ rest))) := by
  refine splitSign_eq_iff.2 ⟨spelling_append n rest, hn.sign, fun _ => ?_⟩
  cases hwhole : n.whole with
  | cons d ds =>
    exact stopsAt_cons.2 (isSign_of_isDigit (hn.whole d (hwhole ▸ List.mem_cons_self)))
  | nil =>
    rcases hn.digits with h | ⟨ds, h, -⟩
    · exact absurd hwhole h
    · rw [h]
      exact stopsAt_cons.2 rfl

/-- A number starts with one of these. -/
theorem Valid.head {n : Numeral} (hn : n.Valid) (rest : List Char) :
    ∃ c cs, n.spelling ++ rest = c :: cs ∧ isNumberStart c = true := by
  rw [spelling_append]
  rcases hn.sign with hsign | ⟨c, hc, hsign⟩
  · cases hwhole : n.whole with
    | cons d ds =>
      have hd := hn.whole d (hwhole ▸ List.mem_cons_self)
      exact ⟨d, _, by rw [hsign]; rfl, by simp [isNumberStart, hd]⟩
    | nil =>
      rcases hn.digits with h | ⟨ds, h, -⟩
      · exact absurd hwhole h
      · exact ⟨'.', _, by rw [hsign, h]; rfl, rfl⟩
  · exact ⟨c, _, by rw [hsign]; rfl, by simp [isNumberStart, hc]⟩

theorem Valid.mem {n : Numeral} (hn : n.Valid) :
    ∀ c ∈ n.spelling, isNumberStart c = true ∨ c = 'e' ∨ c = 'E' := by
  have hdigits : ∀ {ds : List Char}, Digits ds → ∀ c ∈ ds, isNumberStart c = true :=
    fun hds c hc => isNumberStart_iff.2 (.inl (hds c hc))
  have hsign : ∀ {s : List Char}, SignPart s → ∀ c ∈ s, isNumberStart c = true := by
    rintro s (rfl | ⟨d, hd, rfl⟩) c hc
    · cases hc
    · obtain rfl := List.mem_singleton.1 hc
      simp [isNumberStart, hd]
  intro c hc
  rw [← List.append_nil n.spelling, spelling_append] at hc
  simp only [List.mem_append] at hc
  rcases hc with hc | hc | hc | hc | hc
  · exact .inl (hsign hn.sign c hc)
  · exact .inl (hdigits hn.whole c hc)
  · cases hf : n.fraction with
    | none =>
      rw [hf] at hc
      cases hc
    | some ds =>
      rw [hf] at hc
      rcases List.mem_cons.1 hc with rfl | hc
      · exact .inl rfl
      · exact .inl (hdigits (hn.fraction ds hf) c hc)
  · cases he : n.exponent with
    | none =>
      rw [he] at hc
      cases hc
    | some e =>
      obtain ⟨mark, sign, ds⟩ := e
      obtain ⟨hmark, hesign, hds, -⟩ := hn.exponent _ he
      rw [he] at hc
      rcases List.mem_cons.1 hc with rfl | hc
      · exact .inr hmark
      · rcases List.mem_append.1 hc with hc | hc
        · exact .inl (hsign hesign c hc)
        · exact .inl (hdigits hds c hc)
  · cases hc

/-! ## Exponents -/

theorem readExponent_eq_some_iff {cs : List Char} {e : Char × List Char × List Char} :
    readExponent cs = some e ↔
      IsExponent e ∧ ∃ rest, cs = exponentText (some e) ++ rest ∧ StopsAt Char.isDigit rest := by
  obtain ⟨mark, sign, ds⟩ := e
  constructor
  · intro h
    unfold readExponent at h
    split at h
    · next c cs =>
      split at h
      · next hmark =>
        rcases hsplit : splitSign cs with ⟨s, after⟩
        obtain ⟨rfl, hsign, -⟩ := splitSign_eq_iff.1 hsplit
        obtain ⟨digits, rest, rfl, htake, hdigits, hstop⟩ := front_digits after
        rw [hsplit] at h
        dsimp only at h
        rw [htake] at h
        split at h
        · cases h
        · next hne =>
          cases h
          exact ⟨⟨hmark, hsign, hdigits, by simpa using hne⟩, rest, by simp [exponentText], hstop⟩
      · cases h
    · cases h
  · rintro ⟨⟨hmark, hsign, hdigits, hne⟩, rest, rfl, hstop⟩
    obtain ⟨d, ds, rfl⟩ := List.exists_cons_of_ne_nil hne
    have hsplit : splitSign (sign ++ (d :: ds ++ rest)) = (sign, d :: ds ++ rest) :=
      splitSign_eq_iff.2 ⟨rfl, hsign, fun _ => stopsAt_cons.2
        (isSign_of_isDigit (hdigits d List.mem_cons_self))⟩
    obtain ⟨htake, -⟩ := takeWhile_dropWhile_iff.2 ⟨rfl, hdigits, hstop⟩
    unfold exponentText readExponent
    rw [List.cons_append]
    dsimp only
    rw [if_pos hmark, List.append_assoc, hsplit]
    dsimp only
    rw [htake]
    rfl

/-- The exponent at the front, if there is one, and the rest. -/
theorem exists_readExponent {cs : List Char} (h : StopsAt Char.isDigit cs) : ∃ rest,
    cs = exponentText (readExponent cs) ++ rest ∧ StopsAt Char.isDigit rest ∧
      (readExponent cs = none → rest = cs) := by
  cases he : readExponent cs with
  | none => exact ⟨cs, rfl, h, fun _ => rfl⟩
  | some e =>
    obtain ⟨-, rest, hcs, hstop⟩ := readExponent_eq_some_iff.1 he
    exact ⟨rest, hcs, hstop, fun h => by cases h⟩

theorem readExponent_append {e : Option (Char × List Char × List Char)} {rest : List Char}
    (he : ∀ e', e = some e' → IsExponent e') (hstop : StopsAt Char.isDigit rest)
    (hnone : e = none → readExponent rest = none) : readExponent (exponentText e ++ rest) = e := by
  cases e with
  | none => exact hnone rfl
  | some e => exact readExponent_eq_some_iff.2 ⟨he e rfl, rest, rfl, hstop⟩

theorem IsExponent.head {e : Char × List Char × List Char} (h : IsExponent e) :
    ∃ mark cs, exponentText (some e) = mark :: cs ∧ (mark = 'e' ∨ mark = 'E') := by
  obtain ⟨mark, sign, ds⟩ := e
  exact ⟨mark, _, rfl, h.1⟩

/-! ## Numbers -/

/-- With a point behind the whole part. -/
theorem read?_of_point {cs sign whole ds more : List Char}
    (hsplit : splitSign cs = (sign, whole ++ '.' :: (ds ++ more))) (hwhole : Digits whole)
    (hds : Digits ds) (hmore : StopsAt Char.isDigit more) :
    read? cs = if whole = [] ∧ ds = [] then none
      else some ⟨sign, whole, some ds, readExponent more⟩ := by
  have hpoint : StopsAt Char.isDigit ('.' :: (ds ++ more)) := stopsAt_cons.2 rfl
  obtain ⟨htake, hdrop⟩ := takeWhile_dropWhile_iff.2 ⟨rfl, hwhole, hpoint⟩
  obtain ⟨htake', hdrop'⟩ := takeWhile_dropWhile_iff.2 ⟨rfl, hds, hmore⟩
  unfold read?
  rw [hsplit]
  dsimp only
  rw [hdrop, htake]
  simp only [htake', hdrop', List.isEmpty_iff]

/-- Without a point there. -/
theorem read?_of_plain {cs sign whole more : List Char}
    (hsplit : splitSign cs = (sign, whole ++ more)) (hwhole : Digits whole)
    (hmore : StopsAt Char.isDigit more) (hpoint : more.head? ≠ some '.') :
    read? cs = if whole = [] then none else some ⟨sign, whole, none, readExponent more⟩ := by
  obtain ⟨htake, hdrop⟩ := takeWhile_dropWhile_iff.2 ⟨rfl, hwhole, hmore⟩
  unfold read?
  rw [hsplit]
  dsimp only
  rw [hdrop, htake]
  split
  · exact absurd rfl hpoint
  · simp only [List.isEmpty_iff]

/-- A number that is found is spelled at the front, as far as it goes. -/
theorem exists_of_read? {cs : List Char} {n : Numeral} (h : read? cs = some n) :
    n.Valid ∧ ∃ rest, cs = n.spelling ++ rest ∧ n.Ends rest := by
  rcases hsplit : splitSign cs with ⟨sign, body⟩
  obtain ⟨rfl, hsign, -⟩ := splitSign_eq_iff.1 hsplit
  obtain ⟨whole, more, rfl, -, hwhole, hstop⟩ := front_digits body
  have hexponent : ∀ more e, readExponent more = some e → IsExponent e :=
    fun _ _ he => (readExponent_eq_some_iff.1 he).1
  by_cases hpoint : more.head? = some '.'
  · obtain ⟨after, rfl⟩ := List.head?_eq_some_iff.1 hpoint
    obtain ⟨ds, more, rfl, -, hds, hmore⟩ := front_digits after
    obtain ⟨rest, hrest, hend, hnone⟩ := exists_readExponent hmore
    rw [read?_of_point hsplit hwhole hds hmore] at h
    split at h
    · cases h
    · next hdigits =>
      cases h
      refine ⟨⟨hsign, hwhole, ?_, ?_, hexponent more⟩, rest, ?_, hend, ?_, ?_⟩
      · intro ds' h
        cases h
        exact hds
      · rw [not_and_or] at hdigits
        exact hdigits.imp id fun hne => ⟨ds, rfl, hne⟩
      · rw [spelling_append, ← hrest]
        rfl
      · intro he
        rw [hnone he]
        exact he
      · intro _ hf
        cases hf
  · obtain ⟨rest, hrest, hend, hnone⟩ := exists_readExponent hstop
    rw [read?_of_plain hsplit hwhole hstop hpoint] at h
    split at h
    · cases h
    · next hdigits =>
      cases h
      refine ⟨⟨hsign, hwhole, ?_, .inl hdigits, hexponent more⟩, rest, ?_, hend, ?_, ?_⟩
      · intro ds h
        cases h
      · rw [spelling_append, ← hrest]
        rfl
      · intro he
        rw [hnone he]
        exact he
      · intro he _
        rw [hnone he]
        exact hpoint

/-- A number that is spelled at the front is found. -/
theorem read?_spelling {n : Numeral} {rest : List Char} (hn : n.Valid) (hrest : n.Ends rest) :
    read? (n.spelling ++ rest) = some n := by
  have hsplit := splitSign_spelling hn rest
  have hread := readExponent_append hn.exponent hrest.digit hrest.exponent
  -- Behind the digits stands an exponent, or what follows the number.
  have hmore : StopsAt Char.isDigit (exponentText n.exponent ++ rest) ∧
      (n.fraction = none → (exponentText n.exponent ++ rest).head? ≠ some '.') := by
    cases he : n.exponent with
    | none => exact ⟨hrest.digit, hrest.point he⟩
    | some e =>
      obtain ⟨mark, cs, htext, rfl | rfl⟩ := (hn.exponent e he).head
      · rw [htext]
        exact ⟨stopsAt_cons.2 rfl, fun _ => by simp⟩
      · rw [htext]
        exact ⟨stopsAt_cons.2 rfl, fun _ => by simp⟩
  obtain ⟨sign, whole, fraction, exponent⟩ := n
  dsimp only at hsplit hread hmore
  cases fraction with
  | some ds =>
    have hdigits : ¬ (whole = [] ∧ ds = []) := by
      rintro ⟨hw, hd⟩
      rcases hn.digits with h | ⟨_, h, hne⟩
      · exact h hw
      · cases h
        exact hne hd
    rw [read?_of_point hsplit hn.whole (hn.fraction ds rfl) hmore.1, if_neg hdigits, hread]
  | none =>
    have hdigits : whole ≠ [] := by
      rcases hn.digits with h | ⟨_, h, -⟩
      · exact h
      · cases h
    rw [show fractionText none = [] from rfl, List.nil_append] at hsplit
    rw [read?_of_plain hsplit hn.whole hmore.1 (hmore.2 rfl), if_neg hdigits, hread]

theorem read?_eq_some_iff {cs : List Char} {n : Numeral} : read? cs = some n ↔
    n.Valid ∧ ∃ rest, cs = n.spelling ++ rest ∧ n.Ends rest := by
  constructor
  · exact exists_of_read?
  · rintro ⟨hn, rest, rfl, hrest⟩
    exact read?_spelling hn hrest

/-- Behind a number without an exponent, only a digit, a point or the mark of an exponent is read on. -/
theorem ends_of_head {n : Numeral} {rest : List Char} (hdigit : StopsAt Char.isDigit rest)
    (h : ∀ c ∈ rest.head?, c ≠ '.' ∧ c ≠ 'e' ∧ c ≠ 'E') : n.Ends rest := by
  refine ⟨hdigit, fun _ => ?_, fun _ _ hpoint => (h '.' hpoint).1 rfl⟩
  cases rest with
  | nil => rfl
  | cons c cs =>
    obtain ⟨-, he, hE⟩ := h c rfl
    unfold readExponent
    exact if_neg (not_or.2 ⟨he, hE⟩)

/-! ## Hexadecimal numbers -/

theorem hexBody?_spelling {n : Numeral} {rest : List Char} (hn : n.Valid)
    (hrest : ∀ c ∈ rest.head?, c ≠ 'x' ∧ c ≠ 'X') : hexBody? (n.spelling ++ rest) = none := by
  unfold hexBody?
  rw [splitSign_spelling hn]
  dsimp only
  split
  · next x body hbody =>
    refine if_neg fun hx => ?_
    -- The zero is the whole part, and the `x` stands behind the number.
    have hexponent : ∀ cs, exponentText n.exponent ++ rest ≠ x :: cs := by
      intro cs h
      cases he : n.exponent with
      | none =>
        rw [he] at h
        obtain rfl : rest = x :: cs := h
        exact hx.elim (hrest x rfl).1 (hrest x rfl).2
      | some e =>
        obtain ⟨mark, more, htext, hmark⟩ := (hn.exponent e he).head
        rw [he, htext] at h
        obtain rfl : mark = x := (List.cons.inj h).1
        rcases hmark with rfl | rfl <;> simp at hx
    cases hwhole : n.whole with
    | nil =>
      rcases hn.digits with h | ⟨ds, h, -⟩
      · exact h hwhole
      · rw [hwhole, h] at hbody
        cases hbody
    | cons d ds =>
      rw [hwhole] at hbody
      obtain ⟨rfl, htail⟩ := List.cons.inj hbody
      cases ds with
      | cons d ds =>
        obtain rfl : d = x := (List.cons.inj htail).1
        have hd := hn.whole d (by simp [hwhole])
        rcases hx with rfl | rfl <;> revert hd <;> decide
      | nil =>
        cases hf : n.fraction with
        | none =>
          rw [hf] at htail
          exact hexponent body htail
        | some fs =>
          rw [hf] at htail
          obtain rfl : '.' = x := (List.cons.inj htail).1
          simp at hx
  · rfl

end Numeral

end FlatSchema
