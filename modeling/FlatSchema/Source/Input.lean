import FlatSchema.Source.Scan
import FlatSchema.Text.Bytes

/-!
# A place in a text, and the way to the next token

A place is a byte of its text.  Everything else about it is read from slices of the text, and a slice
that would cut a character or leave the text has no answer.

`skip` passes over layout: spaces, line breaks and comments from `//` to the end of the line.  A
line feed and a carriage return next to each other, in either order, are one line break.
-/

namespace FlatSchema

/-- A byte of a text, the line it is on, counted from 0, and the byte where that line starts. -/
structure Input where
  text : List Char
  offset : Nat
  line : Nat
  lineStart : Nat
  deriving DecidableEq, Repr

namespace Input

def start (text : String) : Input :=
  ⟨text.toList, 0, 0, 0⟩

/-- The text from the place on. -/
def rest? (i : Input) : Option (List Char) :=
  Text.dropBytes? i.offset i.text

/-- The text in front of the place on its line. -/
def before? (i : Input) : Option (List Char) :=
  Text.slice? i.lineStart i.offset i.text

def rest (i : Input) : List Char :=
  i.rest?.getD []

/-- Lines and columns count from 1; a column counts characters. -/
def position (i : Input) : Position :=
  ⟨i.line + 1, (i.before?.getD []).length + 1⟩

def advance (i : Input) (bytes : Nat) : Input :=
  { i with offset := i.offset + bytes }

/-- Two characters that together are one line break. -/
def isBreakPair (c d : Char) : Bool :=
  (c = '\n' && d = '\r') || (c = '\r' && d = '\n')

/-- The place behind the line break that starts with `c`. -/
def newLine (i : Input) (c : Char) : Input :=
  let next := i.advance c.utf8Size
  let next := if next.rest.head?.any (isBreakPair c) then next.advance 1 else next
  { next with line := i.line + 1, lineStart := next.offset }

/-! ## Slices of a place that moves -/

section Moves

variable {i : Input} {c d : Char} {ts cs : List Char}

theorem rest_of_rest? (h : i.rest? = some cs) : i.rest = cs := by
  rw [rest, h, Option.getD_some]

theorem rest?_advance (h : i.rest? = some cs) (bytes : Nat) :
    (i.advance bytes).rest? = Text.dropBytes? bytes cs :=
  Text.dropBytes?_add h bytes

theorem rest?_advance_width (h : i.rest? = some (ts ++ cs)) :
    (i.advance (Text.width ts)).rest? = some cs :=
  (rest?_advance h _).trans (Text.dropBytes?_eq_some_iff.2 ⟨ts, rfl, rfl⟩)

theorem rest?_advance_char (h : i.rest? = some (c :: cs)) : (i.advance c.utf8Size).rest? = some cs :=
  rest?_advance_width (show i.rest? = some ([c] ++ cs) from h)

/-- The second character of a line break takes one byte. -/
theorem utf8Size_of_isBreakPair (h : isBreakPair c d = true) : d.utf8Size = 1 := by
  simp only [isBreakPair, Bool.or_eq_true, Bool.and_eq_true, decide_eq_true_eq] at h
  rcases h with ⟨-, rfl⟩ | ⟨-, rfl⟩ <;> rfl

theorem newLine_of_pair (h : i.rest? = some (c :: d :: cs)) (hpair : isBreakPair c d = true) :
    i.newLine c = ⟨i.text, i.offset + Text.width [c, d], i.line + 1, i.offset + Text.width [c, d]⟩ := by
  have hrest : (i.advance c.utf8Size).rest = d :: cs := rest_of_rest? (rest?_advance_char h)
  have hwidth : i.offset + Text.width [c, d] = i.offset + c.utf8Size + 1 := by
    simp [utf8Size_of_isBreakPair hpair, Nat.add_assoc]
  rw [newLine, hrest, if_pos (by simpa using hpair), hwidth]
  rfl

theorem newLine_of_single (h : i.rest? = some (c :: cs))
    (hcs : ∀ d ∈ cs.head?, isBreakPair c d = false) :
    i.newLine c = ⟨i.text, i.offset + Text.width [c], i.line + 1, i.offset + Text.width [c]⟩ := by
  have hrest : (i.advance c.utf8Size).rest = cs := rest_of_rest? (rest?_advance_char h)
  have hpair : ¬ cs.head?.any (isBreakPair c) = true := by
    cases cs with
    | nil => exact Bool.false_ne_true
    | cons d cs => simpa using hcs d rfl
  rw [newLine, hrest, if_neg hpair]
  rfl

/-- A line break is one character or two. -/
theorem exists_newLine (h : i.rest? = some (c :: cs)) :
    ∃ br more, c :: cs = br ++ more ∧ br ≠ [] ∧ (i.newLine c).rest? = some more := by
  by_cases hcs : ∀ d ∈ cs.head?, isBreakPair c d = false
  · refine ⟨[c], cs, rfl, List.cons_ne_nil _ _, ?_⟩
    rw [newLine_of_single h hcs]
    exact rest?_advance_char h
  · obtain ⟨d, hd, hpair⟩ : ∃ d ∈ cs.head?, isBreakPair c d = true := by simpa using hcs
    obtain ⟨cs, rfl⟩ := List.head?_eq_some_iff.1 hd
    refine ⟨[c, d], cs, rfl, List.cons_ne_nil _ _, ?_⟩
    rw [newLine_of_pair h hpair]
    exact rest?_advance_width (show i.rest? = some ([c, d] ++ cs) from h)

theorem length_rest_advance_char (h : i.rest? = some (c :: cs)) :
    (i.advance c.utf8Size).rest.length < i.rest.length := by
  rw [rest_of_rest? h, rest_of_rest? (rest?_advance_char h)]
  exact Nat.lt_succ_self _

theorem length_rest_newLine (h : i.rest? = some (c :: cs)) :
    (i.newLine c).rest.length < i.rest.length := by
  obtain ⟨br, more, heq, hbr, hmore⟩ := exists_newLine h
  have := List.length_pos_iff.2 hbr
  rw [rest_of_rest? h, rest_of_rest? hmore, heq, List.length_append]
  omega

/-- Any number of bytes takes a character, or all that is left. -/
theorem length_rest_advance (i : Input) {bytes : Nat} (hbytes : 0 < bytes) (h : i.rest ≠ []) :
    (i.advance bytes).rest.length < i.rest.length := by
  have hpos := List.length_pos_iff.2 h
  cases hi : i.rest? with
  | none =>
    rw [rest, hi] at h
    exact absurd rfl h
  | some cs =>
    cases hnext : Text.dropBytes? bytes cs with
    | none => rwa [rest, rest?_advance hi, hnext]
    | some more =>
      obtain ⟨front, rfl, rfl⟩ := Text.dropBytes?_eq_some_iff.1 hnext
      have hfront : front ≠ [] := by
        rintro rfl
        exact absurd hbytes (Nat.lt_irrefl 0)
      have := List.length_pos_iff.2 hfront
      rw [rest_of_rest? hi, rest, rest?_advance hi, hnext, Option.getD_some, List.length_append]
      omega

end Moves

/-! ## Layout -/

/-- Passes over layout; `comment` says that a comment is open.  There is no answer if the slice at one of
the places on the way has none. -/
def skipFrom? (comment : Bool) (i : Input) : Option Input :=
  match _ : i.rest? with
  | none => none
  | some [] => some i
  | some (c :: cs) =>
    if isNewline c then skipFrom? false (i.newLine c)
    else if comment || isSpace c then skipFrom? comment (i.advance c.utf8Size)
    else if c = '/' ∧ cs.head? = some '/' then skipFrom? true (i.advance c.utf8Size)
    else some i
termination_by i.rest.length
decreasing_by
  · exact length_rest_newLine ‹_›
  · exact length_rest_advance_char ‹_›
  · exact length_rest_advance_char ‹_›

def skip? (i : Input) : Option Input :=
  skipFrom? false i

def skip (i : Input) : Input :=
  i.skip?.getD i

/-- The token at a place where layout has been skipped. -/
def token (i : Input) : Except ScanFault Token :=
  (scan i.rest).map fun l => ⟨l, i.position⟩

section Skip

variable {i : Input} {c : Char} {cs : List Char} (comment : Bool)

theorem skipFrom?_of_none (h : i.rest? = none) : skipFrom? comment i = none := by
  unfold skipFrom?
  split
  · rfl
  · next h' => exact nomatch h.symm.trans h'
  · next h' => exact nomatch h.symm.trans h'

theorem skipFrom?_of_nil (h : i.rest? = some []) : skipFrom? comment i = some i := by
  unfold skipFrom?
  split
  · next h' => exact nomatch h.symm.trans h'
  · rfl
  · next h' => exact nomatch h.symm.trans h'

theorem skipFrom?_of_cons (h : i.rest? = some (c :: cs)) :
    skipFrom? comment i =
      if isNewline c then skipFrom? false (i.newLine c)
      else if comment || isSpace c then skipFrom? comment (i.advance c.utf8Size)
      else if c = '/' ∧ cs.head? = some '/' then skipFrom? true (i.advance c.utf8Size)
      else some i := by
  conv => lhs; unfold skipFrom?
  split
  · next h' => exact nomatch h.symm.trans h'
  · next h' => exact nomatch h.symm.trans h'
  · next h' =>
    cases h.symm.trans h'
    rfl

end Skip

theorem length_rest_of_skipFrom? {comment : Bool} {i j : Input} (h : skipFrom? comment i = some j) :
    j.rest.length ≤ i.rest.length := by
  fun_induction skipFrom? comment i with
  | case1 => cases h
  | case2 => cases h; exact Nat.le_refl _
  | case3 _ i c cs hi _ ih => exact Nat.le_trans (ih h) (Nat.le_of_lt (length_rest_newLine hi))
  | case4 _ i c cs hi _ _ ih => exact Nat.le_trans (ih h) (Nat.le_of_lt (length_rest_advance_char hi))
  | case5 _ i c cs hi _ _ _ ih => exact Nat.le_trans (ih h) (Nat.le_of_lt (length_rest_advance_char hi))
  | case6 => cases h; exact Nat.le_refl _

theorem length_rest_skip (i : Input) : i.skip.rest.length ≤ i.rest.length := by
  cases h : i.skip? with
  | none => rw [skip, h]; exact Nat.le_refl _
  | some j => rw [skip, h]; exact length_rest_of_skipFrom? h

end Input

end FlatSchema
