import FlatSchema.Proofs.Lookahead
import FlatSchema.Proofs.Source.Lexemes

/-!
# The place of a cursor in its text

An input is a place of its text if its line starts where its byte counter for that says, right behind a
line break or at the start of the text, and is followed by its byte counter without one (`Input.At`).  At a
place both slices have an answer, and the column is the number of characters since the start of the line.

Each way in which an input moves leads from places to places: over a character or a lexeme
(`At.advance`), over a line break (`At.newLine`), and so over layout (`IsPlace.exists_skipFrom?`).  Every
call on a cursor therefore leaves it at a place of its text (`Cursor.Shows.inText_after`).
-/

namespace FlatSchema

/-! ## Positions behind a text -/

theorem isNewline_of_isBreakPair {c d : Char} (h : Input.isBreakPair c d = true) :
    isNewline c = true ∧ isNewline d = true := by
  simp only [Input.isBreakPair, Bool.or_eq_true, Bool.and_eq_true, decide_eq_true_eq] at h
  rcases h with ⟨rfl, rfl⟩ | ⟨rfl, rfl⟩ <;> decide

/-- The position behind a text that starts at a position. -/
def Position.past (p : Position) : List Char → Position
  | [] => p
  | [c] => if isNewline c then ⟨p.line + 1, 1⟩ else ⟨p.line, p.column + 1⟩
  | c :: d :: cs =>
    if Input.isBreakPair c d then past ⟨p.line + 1, 1⟩ cs
    else if isNewline c then past ⟨p.line + 1, 1⟩ (d :: cs)
    else past ⟨p.line, p.column + 1⟩ (d :: cs)

section Past

variable {c : Char} {cs ts : List Char}

theorem past_cons_of_not (p : Position) (hc : isNewline c = false) (cs : List Char) :
    p.past (c :: cs) = Position.past ⟨p.line, p.column + 1⟩ cs := by
  cases cs with
  | nil => simp [Position.past, hc]
  | cons d cs =>
    have hpair : ¬ Input.isBreakPair c d = true := by
      intro h
      rw [(isNewline_of_isBreakPair h).1] at hc
      cases hc
    rw [Position.past, if_neg hpair, if_neg (by simp [hc])]

theorem past_cons_newline (p : Position) (hc : isNewline c = true)
    (hcs : ∀ d ∈ cs.head?, Input.isBreakPair c d = false) :
    p.past (c :: cs) = Position.past ⟨p.line + 1, 1⟩ cs := by
  cases cs with
  | nil => simp [Position.past, hc]
  | cons d cs => rw [Position.past, if_neg (by simp [hcs d rfl]), if_pos hc]

/-- A text on one line is as wide as it is long. -/
theorem past_line (p : Position) (hts : ∀ c ∈ ts, isNewline c = false) (cs : List Char) :
    p.past (ts ++ cs) = Position.past ⟨p.line, p.column + ts.length⟩ cs := by
  induction ts generalizing p with
  | nil => rfl
  | cons c ts ih =>
    rw [List.cons_append, past_cons_of_not p (hts c List.mem_cons_self),
      ih _ fun d hd => hts d (List.mem_cons_of_mem c hd)]
    simp [Nat.add_assoc, Nat.add_comm 1]

/-- Behind a line break the next character may belong to the same line break; not if it is none. -/
theorem past_append (p : Position) (hcs : ∀ c ∈ cs.head?, isNewline c = false) (g : List Char) :
    p.past (g ++ cs) = (p.past g).past cs := by
  have hlast : ∀ c, isNewline c = true → ∀ d ∈ cs.head?, Input.isBreakPair c d = false := by
    intro c hc d hd
    refine Bool.eq_false_iff.2 fun hpair => ?_
    exact nomatch (hcs d hd).symm.trans (isNewline_of_isBreakPair hpair).2
  fun_induction Position.past p g with
  | case1 p => rfl
  | case2 p c hc => exact past_cons_newline p hc (hlast c hc)
  | case3 p c hc => exact past_cons_of_not p (Bool.eq_false_iff.2 hc) cs
  | case4 p c d g hpair ih =>
    rw [← ih, List.cons_append, List.cons_append, Position.past, if_pos hpair]
  | case5 p c d g hpair hc ih =>
    rw [← ih, List.cons_append, List.cons_append, Position.past, if_neg hpair, if_pos hc]
  | case6 p c d g hpair hc ih =>
    rw [← ih, List.cons_append, List.cons_append, Position.past, if_neg hpair, if_neg hc]

end Past

/-- What is left behind layout, and its position; `comment` says that a comment is open. -/
def pastLayout (comment : Bool) (p : Position) : List Char → List Char × Position
  | [] => ([], p)
  | [c] =>
    if isNewline c then ([], ⟨p.line + 1, 1⟩)
    else if comment || isSpace c then ([], ⟨p.line, p.column + 1⟩)
    else ([c], p)
  | c :: d :: cs =>
    if Input.isBreakPair c d then pastLayout false ⟨p.line + 1, 1⟩ cs
    else if isNewline c then pastLayout false ⟨p.line + 1, 1⟩ (d :: cs)
    else if comment || isSpace c then pastLayout comment ⟨p.line, p.column + 1⟩ (d :: cs)
    else if c = '/' ∧ d = '/' then pastLayout true ⟨p.line, p.column + 1⟩ (d :: cs)
    else (c :: d :: cs, p)

theorem exists_past_pastLayout (comment : Bool) (p : Position) (cs : List Char) :
    ∃ g, cs = g ++ (pastLayout comment p cs).1 ∧ (pastLayout comment p cs).2 = p.past g := by
  fun_induction pastLayout comment p cs with
  | case1 => exact ⟨[], rfl, rfl⟩
  | case2 _ p c hc => exact ⟨[c], rfl, by simp [Position.past, hc]⟩
  | case3 _ p c hc => exact ⟨[c], rfl, by simp [Position.past, hc]⟩
  | case4 => exact ⟨[], rfl, rfl⟩
  | case5 _ p c d cs hpair ih =>
    obtain ⟨g, hcs, hp⟩ := ih
    refine ⟨c :: d :: g, by rw [List.cons_append, List.cons_append, ← hcs], ?_⟩
    rw [hp, Position.past, if_pos hpair]
  | case6 _ p c d cs hpair hc ih =>
    obtain ⟨g, hcs, hp⟩ := ih
    refine ⟨c :: g, by rw [List.cons_append, ← hcs], ?_⟩
    rw [hp, past_cons_newline _ hc]
    intro d' hd'
    cases g with
    | nil => cases hd'
    | cons d'' g =>
      cases hd'
      obtain ⟨rfl, -⟩ := List.cons.inj hcs
      exact Bool.eq_false_iff.2 hpair
  | case7 _ p c d cs hpair hc hspace ih | case8 _ p c d cs hpair hc hspace hslash ih =>
    obtain ⟨g, hcs, hp⟩ := ih
    refine ⟨c :: g, by rw [List.cons_append, ← hcs], ?_⟩
    rw [hp, past_cons_of_not _ (Bool.eq_false_iff.2 hc)]
  | case9 => exact ⟨[], rfl, rfl⟩

section PastLayout

variable {comment : Bool} {c d : Char} {cs : List Char} (p : Position)

theorem pastLayout_newline (hc : isNewline c = true)
    (hcs : ∀ d ∈ cs.head?, Input.isBreakPair c d = false) :
    pastLayout comment p (c :: cs) = pastLayout false ⟨p.line + 1, 1⟩ cs := by
  cases cs with
  | nil => simp [pastLayout, hc]
  | cons d cs => rw [pastLayout, if_neg (by simp [hcs d rfl]), if_pos hc]

theorem not_isBreakPair (hc : ¬ isNewline c = true) (d : Char) : ¬ Input.isBreakPair c d = true :=
  fun h => hc (isNewline_of_isBreakPair h).1

theorem pastLayout_blank (hc : ¬ isNewline c = true) (hblank : (comment || isSpace c) = true) :
    pastLayout comment p (c :: cs) = pastLayout comment ⟨p.line, p.column + 1⟩ cs := by
  cases cs with
  | nil => simp only [pastLayout, if_neg hc, if_pos hblank]
  | cons d cs => rw [pastLayout, if_neg (not_isBreakPair hc d), if_neg hc, if_pos hblank]

/-- What is no layout is left. -/
theorem pastLayout_stay (hc : ¬ isNewline c = true) (hblank : ¬ (comment || isSpace c) = true)
    (hslash : ¬ (c = '/' ∧ cs.head? = some '/')) : pastLayout comment p (c :: cs) = (c :: cs, p) := by
  cases cs with
  | nil => rw [pastLayout, if_neg hc, if_neg hblank]
  | cons d cs =>
    rw [pastLayout, if_neg (not_isBreakPair hc d), if_neg hc, if_neg hblank,
      if_neg (by simpa using hslash)]

end PastLayout

/-! ## Places of a text -/

namespace Input

/-- Over a text that is next, wherever the input is. -/
theorem rest_advance {i : Input} {s : String} {cs : List Char} (h : i.rest = s.toList ++ cs) :
    (i.advance s.utf8ByteSize).rest = cs := by
  rw [← Text.width_toList]
  cases hi : i.rest? with
  | none =>
    rw [rest, hi, Option.getD_none, eq_comm, List.append_eq_nil_iff] at h
    rw [h.1, h.2]
    exact congrArg (Option.getD · []) hi
  | some more =>
    rw [rest_of_rest? hi] at h
    exact rest_of_rest? (rest?_advance_width (h ▸ hi))

/-- The text is cut at the start of the line and at the place. -/
structure At (i : Input) (before line rest : List Char) : Prop where
  text : i.text = before ++ (line ++ rest)
  lineStart : i.lineStart = Text.width before
  offset : i.offset = i.lineStart + Text.width line
  line : ∀ c ∈ line, isNewline c = false
  before : ∀ c ∈ before.getLast?, isNewline c = true

def IsPlace (i : Input) : Prop :=
  ∃ before line rest, i.At before line rest

variable {i : Input} {before line rest ts cs : List Char} {c d : Char}

theorem at_start (text : String) : (start text).At [] [] text.toList :=
  ⟨rfl, rfl, rfl, List.forall_mem_nil _, nofun⟩

theorem isPlace_start (text : String) : (start text).IsPlace :=
  ⟨_, _, _, at_start text⟩

theorem At.rest? (h : i.At before line rest) : i.rest? = some rest := by
  refine Text.dropBytes?_eq_some_iff.2 ⟨before ++ line, ?_, ?_⟩
  · rw [h.text, List.append_assoc]
  · rw [Text.width_append, h.offset, h.lineStart]

theorem At.before? (h : i.At before line rest) : i.before? = some line :=
  Text.slice?_eq_some_iff.2 ⟨before, rest, h.text, h.lineStart.symm, h.offset.symm⟩

theorem At.position (h : i.At before line rest) : i.position = ⟨i.line + 1, line.length + 1⟩ := by
  rw [Input.position, h.before?, Option.getD_some]

theorem rest_start (text : String) : (start text).rest = text.toList :=
  rest_of_rest? (at_start text).rest?

theorem position_start (text : String) : (start text).position = ⟨1, 1⟩ :=
  (at_start text).position

theorem IsPlace.rest? (h : i.IsPlace) : i.rest? = some i.rest := by
  obtain ⟨before, line, rest, h⟩ := h
  rw [h.rest?, rest_of_rest? h.rest?]

/-- Along a line. -/
theorem At.advance (h : i.At before line (ts ++ rest)) (hts : ∀ c ∈ ts, isNewline c = false) :
    (i.advance (Text.width ts)).At before (line ++ ts) rest where
  text := by simpa [Input.advance] using h.text
  lineStart := h.lineStart
  offset := by simp [Input.advance, h.offset, Nat.add_assoc]
  line := fun c hc => (List.mem_append.1 hc).elim (h.line c) (hts c)
  before := h.before

/-- To the next line. -/
theorem At.break {br : List Char} (h : i.At before line (br ++ rest))
    (hbr : ∃ c, br.getLast? = some c ∧ isNewline c = true) (l : Nat) :
    At ⟨i.text, i.offset + Text.width br, l, i.offset + Text.width br⟩ (before ++ line ++ br) [] rest where
  text := by simpa using h.text
  lineStart := by simp [h.offset, h.lineStart, Nat.add_assoc]
  offset := rfl
  line := List.forall_mem_nil _
  before := by
    obtain ⟨c, hlast, hc⟩ := hbr
    simpa [List.getLast?_append, hlast] using hc

/-- One character or two are passed, and the next line starts behind them. -/
theorem At.newLine (h : i.At before line (c :: cs)) (hc : isNewline c = true) :
    ∃ front rest, (i.newLine c).At front [] rest ∧ (i.newLine c).text = i.text ∧
      ∀ comment, pastLayout comment i.position (c :: cs) = pastLayout false (i.newLine c).position rest := by
  have hposition {front rest : List Char} (hnext : (i.newLine c).At front [] rest)
      (hline : (i.newLine c).line = i.line + 1) : (i.newLine c).position = ⟨i.position.line + 1, 1⟩ := by
    rw [hnext.position, hline]
    rfl
  by_cases hcs : ∀ d ∈ cs.head?, isBreakPair c d = false
  · have hmove := newLine_of_single h.rest? hcs
    have hnext : (i.newLine c).At (before ++ line ++ [c]) [] cs := hmove ▸ At.break h ⟨c, rfl, hc⟩ _
    refine ⟨_, cs, hnext, by rw [hmove], fun comment => ?_⟩
    rw [pastLayout_newline _ hc hcs, hposition hnext (by rw [hmove])]
  · obtain ⟨d, hd, hpair⟩ : ∃ d ∈ cs.head?, isBreakPair c d = true := by simpa using hcs
    obtain ⟨cs, rfl⟩ := List.head?_eq_some_iff.1 hd
    have hmove := newLine_of_pair h.rest? hpair
    have hnext : (i.newLine c).At (before ++ line ++ [c, d]) [] cs :=
      hmove ▸ At.break h ⟨d, rfl, (isNewline_of_isBreakPair hpair).2⟩ _
    refine ⟨_, cs, hnext, by rw [hmove], fun comment => ?_⟩
    rw [pastLayout, if_pos hpair, hposition hnext (by rw [hmove])]

/-- Over one character of the line. -/
theorem At.step (h : i.At before line (c :: cs)) (hc : ¬ isNewline c = true) :
    (i.advance c.utf8Size).At before (line ++ [c]) cs ∧
      (i.advance c.utf8Size).position = ⟨i.position.line, i.position.column + 1⟩ := by
  have hnext : (i.advance c.utf8Size).At before (line ++ [c]) cs :=
    At.advance (show i.At before line ([c] ++ cs) from h)
      (List.forall_mem_singleton.2 (Bool.eq_false_iff.2 hc))
  refine ⟨hnext, ?_⟩
  rw [hnext.position, h.position, List.length_append]
  rfl

/-- Passing over layout leads from places to places, so that no slice on the way fails, and to what the
characters alone lead to. -/
theorem IsPlace.exists_skipFrom? (comment : Bool) (h : i.IsPlace) :
    ∃ j, skipFrom? comment i = some j ∧ j.IsPlace ∧ j.text = i.text ∧
      pastLayout comment i.position i.rest = (j.rest, j.position) := by
  fun_induction skipFrom? comment i with
  | case1 comment i hi =>
    rw [h.rest?] at hi
    cases hi
  | case2 comment i hi => exact ⟨i, rfl, h, rfl, by rw [rest_of_rest? hi, pastLayout]⟩
  | case3 comment i c cs hi hc ih =>
    obtain ⟨before, line, rest, h⟩ := h
    obtain rfl : rest = c :: cs := Option.some.inj (h.rest?.symm.trans hi)
    obtain ⟨front, rest, hnext, htext, hpast⟩ := h.newLine hc
    obtain ⟨j, hj, hplace, hjtext, hjpast⟩ := ih ⟨_, _, _, hnext⟩
    refine ⟨j, hj, hplace, hjtext.trans htext, ?_⟩
    rw [rest_of_rest? hi, hpast, ← rest_of_rest? hnext.rest?, hjpast]
  | case4 comment i c cs hi hc hspace ih =>
    obtain ⟨before, line, rest, h⟩ := h
    obtain rfl : rest = c :: cs := Option.some.inj (h.rest?.symm.trans hi)
    obtain ⟨hnext, hp⟩ := h.step hc
    obtain ⟨j, hj, hplace, htext, hjpast⟩ := ih ⟨_, _, _, hnext⟩
    refine ⟨j, hj, hplace, htext, ?_⟩
    rw [rest_of_rest? hi, pastLayout_blank _ hc hspace, ← hp, ← rest_of_rest? hnext.rest?, hjpast]
  | case5 comment i c cs hi hc hspace hslash ih =>
    obtain ⟨before, line, rest, h⟩ := h
    obtain rfl : rest = c :: cs := Option.some.inj (h.rest?.symm.trans hi)
    obtain ⟨hnext, hp⟩ := h.step hc
    obtain ⟨j, hj, hplace, htext, hjpast⟩ := ih ⟨_, _, _, hnext⟩
    refine ⟨j, hj, hplace, htext, ?_⟩
    obtain ⟨rfl, hhead⟩ := hslash
    obtain ⟨cs, rfl⟩ := List.head?_eq_some_iff.1 hhead
    rw [rest_of_rest? hi, pastLayout, if_neg (not_isBreakPair hc _), if_neg hc, if_neg hspace,
      if_pos ⟨rfl, rfl⟩, ← hp, ← rest_of_rest? hnext.rest?, hjpast]
  | case6 comment i c cs hi hc hspace hslash =>
    exact ⟨i, rfl, h, rfl, by rw [rest_of_rest? hi, pastLayout_stay _ hc hspace hslash]⟩

theorem IsPlace.skip (h : i.IsPlace) :
    i.skip? = some i.skip ∧ i.skip.IsPlace ∧ i.skip.text = i.text ∧
      pastLayout false i.position i.rest = (i.skip.rest, i.skip.position) := by
  obtain ⟨j, hj, hplace, htext, hpast⟩ := h.exists_skipFrom? false
  have hskip : i.skip = j := by rw [Input.skip, skip?, hj, Option.getD_some]
  rw [hskip]
  exact ⟨hj, hplace, htext, hpast⟩

/-- A token in front of an input is spelled there. -/
theorem spelled_of_token {t : Token} (h : i.token = .ok t) :
    ∃ rest, i.rest = t.lexeme.text.toList ++ rest ∧ t.lexeme.Stands rest := by
  rw [Input.token] at h
  cases hscan : scan i.rest with
  | error f => rw [hscan] at h; cases h
  | ok l =>
    rw [hscan] at h
    cases h
    exact scan_eq_ok_iff.1 hscan

/-- Over a lexeme, which is on one line. -/
theorem IsPlace.advance {l : Lexeme} (h : i.IsPlace) (hrest : i.rest = l.text.toList ++ cs)
    (hl : l.Stands cs) :
    (i.advance l.text.utf8ByteSize).IsPlace ∧ (i.advance l.text.utf8ByteSize).rest = cs ∧
      (i.advance l.text.utf8ByteSize).position =
        ⟨i.position.line, i.position.column + l.text.length⟩ := by
  obtain ⟨before, line, rest, h⟩ := h
  rw [rest_of_rest? h.rest?] at hrest
  subst hrest
  have hnext := h.advance hl.line
  rw [Text.width_toList] at hnext
  refine ⟨⟨_, _, _, hnext⟩, rest_of_rest? hnext.rest?, ?_⟩
  rw [hnext.position, h.position, List.length_append, String.length_toList, Nat.add_right_comm]
  rfl

end Input

/-! ## Streams read from characters -/

namespace Stream

theorem length_pastLayout (comment : Bool) (p : Position) (cs : List Char) :
    (pastLayout comment p cs).1.length ≤ cs.length := by
  obtain ⟨g, hcs, -⟩ := exists_past_pastLayout comment p cs
  have hlength := congrArg List.length hcs
  rw [List.length_append] at hlength
  omega

/-- The tokens of a text, from its characters and the position of the first of them. -/
def readChars (file : String) (p : Position) (cs : List Char) : Stream :=
  let next := pastLayout false p cs
  match _ : scan next.1 with
  | .error f => fault (.ofScan ⟨file, next.2⟩ f)
  | .ok l =>
    if _ : l = .eof then eof next.2
    else
      token ⟨l, next.2⟩
        (readChars file ⟨next.2.line, next.2.column + l.text.length⟩ (next.1.drop l.text.length))
termination_by cs.length
decreasing_by
  obtain ⟨hne, hpos⟩ := text_pos_of_scan ‹scan _ = .ok _› ‹_›
  have hlength := length_pastLayout false p cs
  have hnext : 0 < (pastLayout false p cs).1.length := List.length_pos_iff.2 hne
  rw [List.length_drop]
  omega

theorem readChars_eq (file : String) {p q : Position} {cs rest : List Char}
    (h : pastLayout false p cs = (rest, q)) :
    readChars file p cs =
      match scan rest with
      | .error f => fault (.ofScan ⟨file, q⟩ f)
      | .ok l =>
        if l = .eof then eof q
        else token ⟨l, q⟩ (readChars file ⟨q.line, q.column + l.text.length⟩ (rest.drop l.text.length)) := by
  rw [readChars]
  split
  · next hscan =>
    rw [h] at hscan ⊢
    rw [hscan]
  · next l hscan =>
    rw [h] at hscan ⊢
    rw [hscan]
    rfl

/-- Which stream is read depends on nothing but the characters that are left and their position. -/
theorem readFrom_eq_readChars (file : String) {i : Input} (h : i.IsPlace) :
    readFrom file i = readChars file i.position i.rest := by
  obtain ⟨-, hplace, -, hpast⟩ := h.skip
  rw [readChars_eq file hpast]
  fun_induction readFrom file i with
  | case1 i next f hscan => rw [hscan]
  | case2 i next hscan =>
    rw [hscan]
    rfl
  | case3 i next l hscan hl ih =>
    obtain ⟨rest, htext, hstands⟩ := scan_eq_ok_iff.1 hscan
    obtain ⟨hnext, hrest, hp⟩ := hplace.advance htext hstands
    obtain ⟨-, hplace', -, hpast'⟩ := hnext.skip
    have hdrop : next.rest.drop l.text.length = rest := by
      rw [htext, ← String.length_toList, List.drop_left]
    rw [ih hnext hplace' hpast', ← readChars_eq file hpast', hscan, hrest, hp, ← hdrop]
    simp only [if_neg hl]
    rfl

theorem ofText_eq_readChars (file text : String) :
    ofText file text = readChars file ⟨1, 1⟩ text.toList := by
  rw [ofText, readFrom_eq_readChars file (Input.isPlace_start text), Input.position_start,
    Input.rest_start]

end Stream

/-! ## The place of a cursor -/

namespace Cursor

variable {c : Cursor} {t : Token} {file : String} {s : Stream}

/-- The cursor is at a place of the text. -/
def InText (c : Cursor) (text : List Char) : Prop :=
  c.input.IsPlace ∧ c.input.text = text

theorem inText_ofText (file text : String) : (ofText file text).InText text.toList :=
  ⟨Input.isPlace_start text, rfl⟩

variable {text : List Char}

theorem InText.skip (h : c.InText text) (ahead : Option Token) :
    ({ c with input := c.input.skip, ahead := ahead } : Cursor).InText text :=
  ⟨h.1.skip.2.1, h.1.skip.2.2.1.trans h.2⟩

theorem InText.pass (h : c.InText text) (ht : c.input.token = .ok t) : (c.pass t).InText text := by
  obtain ⟨rest, hrest, hstands⟩ := Input.spelled_of_token ht
  exact ⟨(h.1.advance hrest hstands).1, h.2⟩

theorem InText.ask_of_ahead (k : Call) (h : c.InText text) (hahead : c.ahead = some t)
    (ht : c.input.token = .ok t) : (ask k c).2.InText text := by
  rw [Call.ask_of_ahead k hahead]
  dsimp only
  split
  · exact h.pass ht
  · exact h

/-- One call leaves the cursor at a place of the text. -/
theorem Shows.inText_ask (hc : c.Shows file s) (h : c.InText text) (k : Call) :
    (FlatSchema.ask k c).2.InText text := by
  cases hahead : c.ahead with
  | some t => exact h.ask_of_ahead k hahead (hc.ahead t hahead).2
  | none =>
    -- The call starts with a look at the next token, which moves the cursor over layout.
    obtain ⟨f, hf⟩ := Call.looks_run k
    have hpeek := run_peek_of_none hahead
    cases htoken : c.input.skip.token with
    | error e =>
      rw [htoken] at hpeek
      simp only [FlatSchema.ask, hf, EStateM.run_bind, hpeek]
      exact h.skip _
    | ok t =>
      rw [htoken] at hpeek
      have hask : FlatSchema.ask k c =
          FlatSchema.ask k { c with input := c.input.skip, ahead := some t } := by
        have hlook := Call.run_peek_of_ahead
          (show ({ c with input := c.input.skip, ahead := some t } : Cursor).ahead = some t from rfl)
        simp only [FlatSchema.ask, hf, EStateM.run_bind, hpeek, hlook]
      rw [hask]
      exact (h.skip (some t)).ask_of_ahead k rfl htoken

/-- All calls. -/
theorem Shows.inText_after (hc : c.Shows file s) (h : c.InText text) (calls : List Call) :
    (c.after calls).InText text := by
  induction calls generalizing c s with
  | nil => exact h
  | cons k ks ih => exact ih (hc.ask k).2 (hc.inText_ask h k)

end Cursor

end FlatSchema
