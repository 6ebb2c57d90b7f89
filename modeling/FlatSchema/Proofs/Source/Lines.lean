import FlatSchema.Proofs.Source.Layout

/-!
# The line and the column of what is found

What is found behind some text is at the line after the line breaks of that text, and at the column after
the characters that follow the last of them.  Line breaks are taken from the left: a line feed and a
carriage return next to each other, in either order, are one.

    text.toList = before ++ rest  →  S.get n = found file (place before) rest      (place_get)

The way there is counted character by character (`Position.past`).  A lexeme has no line break in it, so
that layout, a lexeme and what follows are counted one after the other (`past_append`, `past_line`).
-/

namespace FlatSchema

/-! ## Counting lines and columns -/

def newlines : List Char :=
  ['\n', '\r', '\u2028', '\u2029']

/-- Two characters that break one line. -/
def newlinePairs : List (Char × Char) :=
  [('\r', '\n'), ('\n', '\r')]

/-- How many line breaks there are, from left to right. -/
def breaks : List Char → Nat
  | [] => 0
  | [c] => if c ∈ newlines then 1 else 0
  | c :: d :: cs =>
    if (c, d) ∈ newlinePairs then breaks cs + 1
    else if c ∈ newlines then breaks (d :: cs) + 1
    else breaks (d :: cs)

/-- What stands behind the last line break. -/
def lastLine : List Char → List Char
  | [] => []
  | [c] => if c ∈ newlines then [] else [c]
  | c :: d :: cs =>
    if (c, d) ∈ newlinePairs then lastLine cs
    else if c ∈ newlines ∨ 0 < breaks (d :: cs) then lastLine (d :: cs)
    else c :: d :: cs

/-- The place right behind a text. -/
def place (before : List Char) : Position :=
  ⟨breaks before + 1, (lastLine before).length + 1⟩

example : place "a\n\r\nbc".toList = ⟨3, 3⟩ := by decide

theorem mem_newlines {c : Char} : c ∈ newlines ↔ isNewline c = true := by
  simp [newlines, isNewline, or_assoc]

theorem mem_newlinePairs {c d : Char} : (c, d) ∈ newlinePairs ↔ Input.isBreakPair c d = true := by
  simp [newlinePairs, Input.isBreakPair, or_comm]

theorem lastLine_of_breaks {cs : List Char} (h : breaks cs = 0) : lastLine cs = cs := by
  fun_cases lastLine cs with
  | case1 => rfl
  | case2 c hc => simp [breaks, hc] at h
  | case3 c hc => rfl
  | case4 c d cs hpair => simp [breaks, hpair] at h
  | case5 c d cs hpair hc =>
    rw [breaks, if_neg hpair] at h
    rcases hc with hc | hpos
    · simp [hc] at h
    · split at h <;> omega
  | case6 => rfl

/-- From the start of a line on, the count is that of the whole text. -/
theorem past_eq (p : Position) (cs : List Char) :
    p.past cs = ⟨p.line + breaks cs,
      (lastLine cs).length + if breaks cs = 0 then p.column else 1⟩ := by
  fun_induction Position.past p cs with
  | case1 p => simp [breaks, lastLine]
  | case2 p c hc => simp [breaks, lastLine, mem_newlines.2 hc]
  | case3 p c hc =>
    rw [← mem_newlines] at hc
    simp [breaks, lastLine, hc, Nat.add_comm]
  | case4 p c d cs hpair ih =>
    have hpair' := mem_newlinePairs.2 hpair
    rw [ih, breaks, lastLine, if_pos hpair', if_pos hpair']
    simp [Nat.add_assoc, Nat.add_comm 1]
  | case5 p c d cs hpair hc ih =>
    rw [← mem_newlinePairs] at hpair
    rw [← mem_newlines] at hc
    rw [ih, breaks, lastLine, if_neg hpair, if_pos hc, if_neg hpair,
      if_pos (show c ∈ newlines ∨ 0 < breaks (d :: cs) from .inl hc)]
    simp [Nat.add_assoc, Nat.add_comm 1]
  | case6 p c d cs hpair hc ih =>
    rw [← mem_newlinePairs] at hpair
    rw [← mem_newlines] at hc
    rw [ih, breaks, lastLine, if_neg hpair, if_neg hc, if_neg hpair]
    by_cases hb : breaks (d :: cs) = 0
    · rw [if_pos hb, if_pos hb, if_neg (by simp [hc, hb]), lastLine_of_breaks hb]
      simp only [List.length_cons]
      congr 1
      omega
    · rw [if_neg hb, if_neg hb, if_pos (.inr (Nat.pos_of_ne_zero hb))]

theorem past_start (cs : List Char) : Position.past ⟨1, 1⟩ cs = place cs := by
  rw [past_eq, place, Nat.add_comm 1]
  split <;> rfl

/-! ## The way of a cursor -/

/-- Layout is passed from place to place. -/
theorem Input.IsPlace.exists_past_skip {i : Input} (h : i.IsPlace) :
    ∃ g, i.rest = g ++ i.skip.rest ∧ Layout i.skip.rest.isEmpty g ∧
      i.skip.position = i.position.past g := by
  obtain ⟨g, hg, hp⟩ := exists_past_pastLayout false i.position i.rest
  rw [h.skip.2.2.2] at hg hp
  obtain ⟨g', hg', hlayout⟩ := exists_layout i.rest
  rw [← rest_skip] at hg' hlayout
  obtain rfl : g = g' := List.append_cancel_right (hg.symm.trans hg')
  exact ⟨g, hg, hlayout, hp⟩

/-- The way to `rest`: layout, and the lexemes `ls` with layout behind each of them. -/
inductive Passes : List Lexeme → List Char → List Char → Prop where
  | layout {gap rest : List Char} (hgap : Layout rest.isEmpty gap)
      (hrest : afterLayout false rest = rest) : Passes [] gap rest
  | lexeme {l : Lexeme} {ls : List Lexeme} {gap before rest : List Char} (hgap : Layout false gap)
      (hl : l ≠ .eof) (hscan : scan (l.text.toList ++ (before ++ rest)) = .ok l)
      (h : Passes ls before rest) : Passes (l :: ls) (gap ++ (l.text.toList ++ before)) rest

namespace Stream

/-- What the scanner makes of a place, as an element of a stream. -/
def found (file : String) (p : Position) (rest : List Char) : Except CompileError Token :=
  ((scan rest).map fun l => ⟨l, p⟩).mapError (.ofScan ⟨file, p⟩)

theorem get_of_tail {S : Stream} (h : S.tail = S) (n : Nat) : S.get n = S.head := by
  induction n with
  | zero => rfl
  | succ n ih =>
    rw [get, drop, h]
    exact ih

theorem head_eq_found (file : String) (i : Input) :
    (readFrom file i).head = found file i.skip.position i.skip.rest :=
  head_readFrom file i

/-- The first element stands behind the layout in front. -/
theorem exists_passes_head (file : String) {i : Input} (hi : i.IsPlace) :
    ∃ before rest, i.rest = before ++ rest ∧ Passes [] before rest ∧
      (readFrom file i).head = found file (i.position.past before) rest := by
  obtain ⟨g, hrest, hlayout, hp⟩ := hi.exists_past_skip
  exact ⟨g, i.skip.rest, hrest, .layout hlayout i.afterLayout_skip, hp ▸ head_eq_found file i⟩

/-- The elements of a stream stand at the places that counting leads to. -/
theorem exists_passes (file : String) {i : Input} (hi : i.IsPlace) (n : Nat) :
    ∃ before rest, i.rest = before ++ rest ∧
      Passes (((readFrom file i).tokens.take n).map Token.lexeme) before rest ∧
      (readFrom file i).get n = found file (i.position.past before) rest := by
  induction n generalizing i with
  | zero => exact exists_passes_head file hi
  | succ n ih =>
    have hhead := exists_passes_head file hi
    cases hS : readFrom file i with
    | eof p => rwa [hS, ← get_of_tail (S := eof p) rfl (n + 1)] at hhead
    | fault e => rwa [hS, ← get_of_tail (S := fault e) rfl (n + 1)] at hhead
    | token t S =>
      obtain ⟨htoken, hne, rfl⟩ := readFrom_eq_token_iff.1 hS
      obtain ⟨g, hrest, hlayout, hp⟩ := hi.exists_past_skip
      obtain ⟨more, htext, hstands⟩ := Input.spelled_of_token htoken
      obtain ⟨c, ts, hts, -⟩ := hstands.first hne
      obtain ⟨hnext, hmore, hadvance⟩ := hi.skip.2.1.advance htext hstands
      obtain ⟨before, rest, hbefore, hpasses, hget⟩ := ih hnext
      obtain rfl : more = before ++ rest := hmore.symm.trans hbefore
      rw [htext, show (t.lexeme.text.toList ++ (before ++ rest)).isEmpty = false by rw [hts]; rfl]
        at hlayout
      refine ⟨g ++ (t.lexeme.text.toList ++ before), rest, ?_, ?_, ?_⟩
      · rw [hrest, htext]
        simp
      · exact .lexeme hlayout hne (scan_of_stands hstands) hpasses
      · -- Layout, then the lexeme on its line, then what the rest of the way takes.
        have hfirst : ∀ c ∈ (t.lexeme.text.toList ++ before).head?, isNewline c = false := by
          intro d hd
          rw [hts, List.cons_append] at hd
          cases hd
          exact hstands.line c (by rw [hts]; exact List.mem_cons_self)
        rw [past_append _ hfirst, past_line _ hstands.line, ← hp, String.length_toList, ← hadvance]
        exact hget

end Stream

/-! ## Top theorem -/

/-- Each element of the stream of a text, token or fault, is found at the place behind the text in front
of it: the tokens before it and the layout around them.  After any calls on a cursor, looking at the next
token, reading it and asking for its place all give such an element. -/
theorem place_get (file text : String) :
    let S := Stream.ofText file text
    (∀ n, ∃ before rest, text.toList = before ++ rest ∧
      Passes ((S.tokens.take n).map Token.lexeme) before rest ∧
      S.get n = Stream.found file (place before) rest) ∧
    ∀ calls : List Call,
      let c := (Cursor.ofText file text).after calls
      let next := S.get (S.consumed calls)
      (ask .peek c).1 = next.map .token ∧ (ask .read c).1 = next.map .token ∧
        (ask .peekLocation c).1 = next.map fun t => .place ⟨file, t.position⟩ := by
  intro S
  refine ⟨fun n => ?_, fun calls => ?_⟩
  · obtain ⟨before, rest, htext, hpasses, hget⟩ := Stream.exists_passes file (Input.isPlace_start text) n
    rw [Input.rest_start] at htext
    rw [Input.position_start] at hget
    exact ⟨before, rest, htext, hpasses, past_start before ▸ hget⟩
  · intro c next
    have hshows := (Cursor.shows_ofText file text).after calls
    have hanswer (k : Call) : (ask k c).1 = next.bind (k.answer file) := (hshows.ask k).1
    rw [hanswer, hanswer, hanswer]
    cases next <;> exact ⟨rfl, rfl, rfl⟩

end FlatSchema
