/-!
# Texts cut at a byte

Offsets into a text count the bytes of its encoding.  A text can be cut between two of its characters
only: `dropBytes?` and `slice?` have no answer inside a character and behind the end.
-/

namespace FlatSchema.Text

/-! ## Algorithm -/

/-- How many bytes the characters take. -/
def width : List Char → Nat
  | [] => 0
  | c :: cs => c.utf8Size + width cs

/-- What follows the first `n` bytes. -/
def dropBytes? : Nat → List Char → Option (List Char)
  | 0, cs => some cs
  | _ + 1, [] => none
  | n + 1, c :: cs => if c.utf8Size ≤ n + 1 then dropBytes? (n + 1 - c.utf8Size) cs else none

/-- The bytes from `start` up to `stop`. -/
def slice? (start stop : Nat) (cs : List Char) : Option (List Char) := do
  if stop < start then none
  else
    let behind ← dropBytes? start cs
    let rest ← dropBytes? (stop - start) behind
    return behind.take (behind.length - rest.length)

/-! ## Lemmas -/

@[simp] theorem width_nil : width [] = 0 :=
  rfl

@[simp] theorem width_cons (c : Char) (cs : List Char) : width (c :: cs) = c.utf8Size + width cs :=
  rfl

@[simp] theorem width_append (a b : List Char) : width (a ++ b) = width a + width b := by
  induction a with
  | nil => simp
  | cons c cs ih => rw [List.cons_append, width_cons, ih, width_cons, Nat.add_assoc]

theorem width_pos {cs : List Char} (h : cs ≠ []) : 0 < width cs := by
  cases cs with
  | nil => exact absurd rfl h
  | cons c cs => exact Nat.add_pos_left c.utf8Size_pos _

theorem width_ofList (cs : List Char) : width cs = (String.ofList cs).utf8ByteSize := by
  induction cs with
  | nil => rw [String.ofList_nil, String.utf8ByteSize_empty, width_nil]
  | cons c cs ih =>
    have hcons : String.ofList (c :: cs) = String.singleton c ++ String.ofList cs := by
      rw [String.singleton_eq_ofList, ← String.ofList_append, List.singleton_append]
    rw [width_cons, ih, hcons, String.utf8ByteSize_append, String.utf8ByteSize_singleton]

theorem width_toList (s : String) : width s.toList = s.utf8ByteSize := by
  rw [width_ofList, String.ofList_toList]

/-- Dropping whole characters and then more bytes. -/
theorem dropBytes?_width_add (a b : List Char) (n : Nat) :
    dropBytes? (width a + n) (a ++ b) = dropBytes? n b := by
  induction a with
  | nil => rw [width_nil, Nat.zero_add, List.nil_append]
  | cons c a ih =>
    obtain ⟨k, hk⟩ : ∃ k, width (c :: a) + n = k + 1 :=
      Nat.exists_eq_add_one.2 (Nat.add_pos_left (width_pos (List.cons_ne_nil c a)) n)
    rw [width_cons] at hk
    rw [width_cons, hk, List.cons_append, dropBytes?, if_pos (by omega), ← ih]
    congr 1
    omega

theorem dropBytes?_zero (cs : List Char) : dropBytes? 0 cs = some cs := by
  cases cs <;> rfl

theorem dropBytes?_eq_some_iff {n : Nat} {cs rest : List Char} :
    dropBytes? n cs = some rest ↔ ∃ front, cs = front ++ rest ∧ width front = n := by
  constructor
  · intro h
    fun_induction dropBytes? n cs with
    | case1 cs =>
      cases h
      exact ⟨[], rfl, rfl⟩
    | case2 n => cases h
    | case3 n c cs hc ih =>
      obtain ⟨front, rfl, hfront⟩ := ih h
      exact ⟨c :: front, rfl, by rw [width_cons]; omega⟩
    | case4 n c cs hc => cases h
  · rintro ⟨front, rfl, rfl⟩
    exact (dropBytes?_width_add front rest 0).trans (dropBytes?_zero rest)

theorem dropBytes?_add {n : Nat} {cs rest : List Char} (h : dropBytes? n cs = some rest) (m : Nat) :
    dropBytes? (n + m) cs = dropBytes? m rest := by
  obtain ⟨front, rfl, rfl⟩ := dropBytes?_eq_some_iff.1 h
  exact dropBytes?_width_add front rest m

theorem slice?_eq_some_iff {start stop : Nat} {cs mid : List Char} :
    slice? start stop cs = some mid ↔
      ∃ front rest, cs = front ++ (mid ++ rest) ∧ width front = start ∧ start + width mid = stop := by
  unfold slice?
  by_cases hle : stop < start
  · rw [if_pos hle]
    refine iff_of_false nofun ?_
    rintro ⟨front, rest, -, -, hstop⟩
    omega
  · rw [if_neg hle]
    constructor
    · intro h
      obtain ⟨behind, hbehind, htake⟩ := Option.bind_eq_some_iff.1 h
      obtain ⟨rest, hrest, hmid⟩ := Option.bind_eq_some_iff.1 htake
      obtain ⟨front, rfl, hfront⟩ := dropBytes?_eq_some_iff.1 hbehind
      obtain ⟨mid', rfl, hwidth⟩ := dropBytes?_eq_some_iff.1 hrest
      obtain rfl : mid' = mid := by simpa using hmid
      exact ⟨front, rest, rfl, hfront, by omega⟩
    · rintro ⟨front, rest, rfl, rfl, rfl⟩
      have hbehind : dropBytes? (width front) (front ++ (mid ++ rest)) = some (mid ++ rest) :=
        dropBytes?_eq_some_iff.2 ⟨front, rfl, rfl⟩
      have hrest : dropBytes? (width front + width mid - width front) (mid ++ rest) = some rest :=
        dropBytes?_eq_some_iff.2 ⟨mid, rfl, by omega⟩
      rw [hbehind, Option.bind_eq_bind, Option.bind_some, hrest]
      simp

end FlatSchema.Text
