import FlatSchema.Proofs.Grammar.Document
import FlatSchema.Proofs.Source.Places
import Mathlib.Data.String.Basic

/-!
# A text is its lexemes and the layout between them

Reading a text to its end cuts it into lexemes, with layout in front of each and behind the last; nothing
of it is lost (`Lexes.exists_spellOut`).  `Layout` says what layout is, without the scanner.

Every call on a cursor leaves its byte counters on edges of characters of the text, so that every slice it
takes has an answer (`Input.Sound`).
-/

namespace FlatSchema

/-! ## Layout -/

/-- Spaces, line breaks and comments.  A comment runs up to a line break; the `last` layout of a text may
end in a comment without one. -/
inductive Layout (last : Bool) : List Char → Prop where
  | nil : Layout last []
  | blank {c : Char} {cs : List Char} (hc : isSpace c = true ∨ isNewline c = true)
      (h : Layout last cs) : Layout last (c :: cs)
  | comment {body cs : List Char} {c : Char} (hbody : ∀ d ∈ body, isNewline d = false)
      (hc : isNewline c = true) (h : Layout last cs) : Layout last ('/' :: '/' :: (body ++ c :: cs))
  | unended {body : List Char} (hlast : last = true) (hbody : ∀ d ∈ body, isNewline d = false) :
      Layout last ('/' :: '/' :: body)

/-- The text behind the layout in front; `comment` says that a comment is open. -/
def afterLayout (comment : Bool) : List Char → List Char
  | [] => []
  | c :: cs =>
    if isNewline c then afterLayout false cs
    else if comment || isSpace c then afterLayout comment cs
    else if c = '/' ∧ cs.head? = some '/' then afterLayout true cs
    else c :: cs

section AfterLayout

variable {c : Char} {cs g body : List Char}

theorem afterLayout_newline (comment : Bool) (hc : isNewline c = true) :
    afterLayout comment (c :: cs) = afterLayout false cs := by
  rw [afterLayout, if_pos hc]

theorem afterLayout_blank (hc : isSpace c = true ∨ isNewline c = true) :
    afterLayout false (c :: cs) = afterLayout false cs := by
  by_cases hn : isNewline c = true
  · exact afterLayout_newline false hn
  · rw [afterLayout, if_neg hn, if_pos (by simpa [hn] using hc)]

/-- A comment is passed up to the end of its line. -/
theorem afterLayout_comment (hbody : ∀ d ∈ body, isNewline d = false) :
    afterLayout true (body ++ cs) = afterLayout true cs := by
  induction body with
  | nil => rfl
  | cons d body ih =>
    have hd := hbody d List.mem_cons_self
    rw [List.cons_append, afterLayout, if_neg (by simp [hd]), if_pos (by simp)]
    exact ih fun d' hd' => hbody d' (List.mem_cons_of_mem _ hd')

theorem afterLayout_slashes : afterLayout false ('/' :: '/' :: cs) = afterLayout true cs := by
  rw [afterLayout, if_neg (by decide), if_neg (by decide), if_pos ⟨rfl, rfl⟩]
  have hslash : ∀ d ∈ ['/'], isNewline d = false := List.forall_mem_singleton.2 rfl
  exact afterLayout_comment hslash

theorem afterLayout_of_not_mem (hc : c ∉ layoutStart) : afterLayout false (c :: cs) = c :: cs := by
  rw [mem_layoutStart, not_or, not_or] at hc
  rw [afterLayout, if_neg hc.2.1, if_neg (by simpa using hc.1), if_neg fun h => hc.2.2 h.1]

/-- Layout is passed, whatever follows it. -/
theorem Layout.afterLayout_append (h : Layout false g) (cs : List Char) :
    afterLayout false (g ++ cs) = afterLayout false cs := by
  induction h with
  | nil => rfl
  | blank hc _ ih => rw [List.cons_append, afterLayout_blank hc, ih]
  | comment hbody hc _ ih =>
    rw [List.cons_append, List.cons_append, List.append_assoc, afterLayout_slashes,
      afterLayout_comment hbody, List.cons_append, afterLayout_newline true hc, ih]
  | unended htrue => cases htrue

theorem Layout.afterLayout_eq_nil (h : Layout true g) : afterLayout false g = [] := by
  induction h with
  | nil => rfl
  | blank hc _ ih => rw [afterLayout_blank hc, ih]
  | comment hbody hc _ ih =>
    rw [afterLayout_slashes, afterLayout_comment hbody, afterLayout_newline true hc, ih]
  | @unended body _ hbody =>
    rw [afterLayout_slashes, ← List.append_nil body, afterLayout_comment hbody]
    rfl

/-- What is passed is layout, and the last one of the text if nothing is left. -/
theorem exists_layout (cs : List Char) :
    ∃ g, cs = g ++ afterLayout false cs ∧ Layout (afterLayout false cs).isEmpty g := by
  generalize hn : cs.length = n
  induction n using Nat.strong_induction_on generalizing cs with
  | _ n ih =>
    cases cs with
    | nil => exact ⟨[], rfl, .nil⟩
    | cons c cs =>
      rw [List.length_cons] at hn
      by_cases hblank : isSpace c = true ∨ isNewline c = true
      · obtain ⟨g, hcs, hg⟩ := ih cs.length (by omega) cs rfl
        rw [afterLayout_blank hblank]
        exact ⟨c :: g, congrArg _ hcs, .blank hblank hg⟩
      · by_cases hslash : c = '/' ∧ cs.head? = some '/'
        · obtain ⟨rfl, hhead⟩ := hslash
          obtain ⟨cs, rfl⟩ := List.head?_eq_some_iff.1 hhead
          obtain ⟨hcs, hbody, hstop⟩ :=
            (@takeWhile_dropWhile_iff (fun d => !isNewline d) cs _ _).1 ⟨rfl, rfl⟩
          generalize cs.takeWhile (fun d => !isNewline d) = body,
            cs.dropWhile (fun d => !isNewline d) = rest at hcs hbody hstop
          subst hcs
          have hbody' : ∀ d ∈ body, isNewline d = false := fun d hd => by simpa using hbody d hd
          rw [afterLayout_slashes, afterLayout_comment hbody']
          cases rest with
          | nil => exact ⟨'/' :: '/' :: body, by simp [afterLayout], .unended rfl hbody'⟩
          | cons c rest =>
            have hc : isNewline c = true := by simpa using stopsAt_cons.1 hstop
            obtain ⟨g, hrest, hg⟩ := ih rest.length (by simp at hn; omega) rest rfl
            rw [afterLayout_newline true hc]
            refine ⟨'/' :: '/' :: (body ++ c :: g), ?_, .comment hbody' hc hg⟩
            simp only [List.cons_append, List.append_assoc, ← hrest]
        · have hstay : afterLayout false (c :: cs) = c :: cs := by
            rw [not_or] at hblank
            rw [afterLayout, if_neg hblank.2, if_neg (by simpa using hblank.1), if_neg hslash]
          rw [hstay]
          exact ⟨[], rfl, .nil⟩

end AfterLayout

namespace Input

/-- What is left behind layout does not depend on the counters. -/
theorem exists_rest?_skipFrom? (comment : Bool) {i : Input} {cs : List Char} (h : i.rest? = some cs) :
    ∃ j, skipFrom? comment i = some j ∧ j.rest? = some (afterLayout comment cs) := by
  fun_induction skipFrom? comment i generalizing cs with
  | case1 comment i hi => cases h.symm.trans hi
  | case2 comment i hi =>
    cases h.symm.trans hi
    exact ⟨i, rfl, hi⟩
  | case3 comment i c cs hi hc ih =>
    cases h.symm.trans hi
    by_cases hcs : ∀ d ∈ cs.head?, isBreakPair c d = false
    · rw [afterLayout_newline comment hc]
      apply ih
      rw [newLine_of_single hi hcs]
      exact rest?_advance_char hi
    · obtain ⟨d, hd, hpair⟩ : ∃ d ∈ cs.head?, isBreakPair c d = true := by simpa using hcs
      obtain ⟨cs, rfl⟩ := List.head?_eq_some_iff.1 hd
      rw [afterLayout_newline comment hc, afterLayout_newline false (isNewline_of_isBreakPair hpair).2]
      apply ih
      rw [newLine_of_pair hi hpair]
      exact rest?_advance_width (show i.rest? = some ([c, d] ++ cs) from hi)
  | case4 comment i c cs hi hc hspace ih =>
    cases h.symm.trans hi
    rw [afterLayout, if_neg hc, if_pos hspace]
    exact ih (rest?_advance_char hi)
  | case5 comment i c cs hi hc hspace hslash ih =>
    cases h.symm.trans hi
    rw [afterLayout, if_neg hc, if_neg hspace, if_pos hslash]
    exact ih (rest?_advance_char hi)
  | case6 comment i c cs hi hc hspace hslash =>
    cases h.symm.trans hi
    rw [afterLayout, if_neg hc, if_neg hspace, if_neg hslash]
    exact ⟨i, rfl, hi⟩

theorem rest_skip (i : Input) : i.skip.rest = afterLayout false i.rest := by
  cases h : i.rest? with
  | none =>
    have hskip : i.skip = i := by rw [skip, skip?, skipFrom?_of_none false h, Option.getD_none]
    rw [hskip, rest, h]
    rfl
  | some cs =>
    obtain ⟨j, hj, hrest⟩ := exists_rest?_skipFrom? false h
    rw [skip, skip?, hj, Option.getD_some, rest_of_rest? hrest, rest_of_rest? h]

theorem afterLayout_skip (i : Input) : afterLayout false i.skip.rest = i.skip.rest := by
  rw [← rest_skip, skip_skip]

end Input

/-! ## Nothing is lost -/

/-- The text is read to its end and gives these lexemes. -/
def Lexes : List Lexeme → List Char → Prop
  | [], cs => afterLayout false cs = []
  | l :: ls, cs =>
    l ≠ .eof ∧ ∃ rest, afterLayout false cs = l.text.toList ++ rest ∧ l.Stands rest ∧ Lexes ls rest

theorem lexes_cons_iff {l : Lexeme} {ls : List Lexeme} {cs : List Char} :
    Lexes (l :: ls) cs ↔
      l ≠ .eof ∧ scan (afterLayout false cs) = .ok l ∧
        Lexes ls ((afterLayout false cs).drop l.text.length) := by
  rw [Lexes, scan_eq_ok_iff, ← String.length_toList]
  constructor
  · rintro ⟨hne, rest, htext, hstands, hls⟩
    exact ⟨hne, ⟨rest, htext, hstands⟩, by rwa [htext, List.drop_left]⟩
  · rintro ⟨hne, ⟨rest, htext, hstands⟩, hls⟩
    rw [htext, List.drop_left] at hls
    exact ⟨hne, rest, htext, hstands, hls⟩

theorem lexes_nil_iff {cs : List Char} : Lexes [] cs ↔ scan (afterLayout false cs) = .ok .eof := by
  rw [Lexes, scan_eq_ok_iff]
  refine ⟨fun h => ⟨[], h, rfl⟩, ?_⟩
  rintro ⟨rest, htext, rfl⟩
  exact htext

theorem lexemes?_eq_some_iff {file : String} {i : Input} {ls : List Lexeme} :
    (Stream.readFrom file i).lexemes? = some ls ↔ Lexes ls i.rest := by
  induction ls generalizing i with
  | nil =>
    rw [lexes_nil_iff, ← Input.rest_skip, Stream.readFrom]
    split
    · next h => exact iff_of_false nofun fun h' => nomatch h.symm.trans h'
    · next l h =>
      split
      · next hl => exact iff_of_true rfl (hl ▸ h)
      · next hl =>
        refine iff_of_false (by simp [Stream.lexemes?]) fun h' => ?_
        cases h.symm.trans h'
        exact hl rfl
  | cons l ls ih =>
    rw [lexes_cons_iff, ← Input.rest_skip, Stream.readFrom]
    split
    · next h => exact iff_of_false nofun fun h' => nomatch h.symm.trans h'.2.1
    · next l' h =>
      split
      · next hl =>
        refine iff_of_false nofun fun h' => ?_
        cases h.symm.trans h'.2.1
        exact h'.1 hl
      · next hl =>
        have hnext : (i.skip.advance l'.text.utf8ByteSize).rest = i.skip.rest.drop l'.text.length := by
          obtain ⟨rest, htext, -⟩ := scan_eq_ok_iff.1 h
          rw [Input.rest_advance htext, htext, ← String.length_toList, List.drop_left]
        rw [Stream.lexemes?, Option.map_eq_some_iff]
        constructor
        · rintro ⟨ls', hls, hcons⟩
          cases hcons
          exact ⟨hl, h, hnext ▸ ih.1 hls⟩
        · rintro ⟨hne, h', hls⟩
          cases h.symm.trans h'
          exact ⟨ls, ih.2 (hnext ▸ hls), rfl⟩

/-- Lexemes written out, with layout in front and behind each of them. -/
def spellOut (lead : List Char) : List (Lexeme × List Char) → List Char
  | [] => lead
  | (l, gap) :: rest => lead ++ l.text.toList ++ spellOut gap rest

/-- Only the last gap is layout at the end of a text. -/
def LaidOut (lead : List Char) : List (Lexeme × List Char) → Prop
  | [] => Layout true lead
  | (_, gap) :: rest => Layout false lead ∧ LaidOut gap rest

theorem Lexes.exists_spellOut {ls : List Lexeme} {cs : List Char} (h : Lexes ls cs) :
    ∃ lead pairs, LaidOut lead pairs ∧ pairs.map Prod.fst = ls ∧ cs = spellOut lead pairs := by
  obtain ⟨lead, hlead, hlayout⟩ := exists_layout cs
  induction ls generalizing cs lead with
  | nil =>
    rw [show afterLayout false cs = [] from h] at hlead hlayout
    exact ⟨lead, [], hlayout, rfl, by simpa [spellOut] using hlead⟩
  | cons l ls ih =>
    obtain ⟨hne, rest, hafter, hstands, hls⟩ := h
    obtain ⟨c, ts, htext, -⟩ := hstands.first hne
    obtain ⟨gap, hgap, hgaplayout⟩ := exists_layout rest
    obtain ⟨gap, pairs, hpairs, rfl, hrest⟩ := ih hls gap hgap hgaplayout
    rw [hafter] at hlead hlayout
    rw [show (l.text.toList ++ rest).isEmpty = false by rw [htext]; rfl] at hlayout
    refine ⟨lead, (l, gap) :: pairs, ⟨hlayout, hpairs⟩, rfl, ?_⟩
    rw [hlead, hrest, spellOut, List.append_assoc]

namespace Stream

def tokens : Stream → List Token
  | token t rest => t :: rest.tokens
  | eof _ => []
  | fault _ => []

variable {file : String} {i : Input}

/-- Every token takes a character. -/
theorem length_tokens_readFrom (file : String) (i : Input) :
    (readFrom file i).tokens.length ≤ i.rest.length := by
  fun_induction readFrom file i with
  | case1 => exact Nat.zero_le _
  | case2 => exact Nat.zero_le _
  | case3 i next l h hl ih =>
    have hskip : next.rest.length ≤ i.rest.length := i.length_rest_skip
    have hadvance := next.length_rest_advance (size_pos_of_scan h hl) (text_pos_of_scan h hl).1
    rw [tokens, List.length_cons]
    omega

theorem text_pos_of_mem_tokens {t : Token} (ht : t ∈ (readFrom file i).tokens) :
    0 < t.lexeme.text.length := by
  fun_induction readFrom file i with
  | case1 => cases ht
  | case2 => cases ht
  | case3 i next l h hl ih =>
    rcases List.mem_cons.1 ht with rfl | ht
    · exact (text_pos_of_scan h hl).2
    · exact ih ht

end Stream

/-! ## Slices of a text -/

namespace Input

/-- The byte counters are edges of characters of the text in this order, with a line break in front of the
first and none between them.  The slices have an answer, and so have those on the way over layout. -/
structure Sound (i : Input) (text : String) : Prop where
  start_le : i.lineStart ≤ i.offset
  offset_le : i.offset ≤ text.utf8ByteSize
  start_valid : (⟨i.lineStart⟩ : String.Pos.Raw).IsValid text
  offset_valid : (⟨i.offset⟩ : String.Pos.Raw).IsValid text
  front : ∀ c ∈ (String.Pos.Raw.extract text 0 ⟨i.lineStart⟩).toList.getLast?, isNewline c = true
  line : ∀ c ∈ (String.Pos.Raw.extract text ⟨i.lineStart⟩ ⟨i.offset⟩).toList, isNewline c = false
  before : i.before? = some (String.Pos.Raw.extract text ⟨i.lineStart⟩ ⟨i.offset⟩).toList
  rest : i.rest? = some (String.Pos.Raw.extract text ⟨i.offset⟩ text.rawEndPos).toList
  skip : i.skip? = some i.skip

theorem width_eq_utf8Len (cs : List Char) : Text.width cs = String.utf8Len cs := by
  rw [Text.width_ofList, String.utf8ByteSize_ofList]

theorem IsPlace.sound {i : Input} {text : String} (h : i.IsPlace) (htext : i.text = text.toList) :
    i.Sound text := by
  have hskip := h.skip.1
  obtain ⟨front, line, rest, h⟩ := h
  obtain rfl : text = String.ofList (front ++ (line ++ rest)) := by
    rw [← h.text, htext, String.ofList_toList]
  have hstart : i.lineStart = String.utf8Len front := by rw [h.lineStart, width_eq_utf8Len]
  have hoffset : i.offset = String.utf8Len front + String.utf8Len line := by
    rw [h.offset, hstart, width_eq_utf8Len]
  have hvalid (a b : List Char) :
      (⟨String.utf8Len a⟩ : String.Pos.Raw).IsValid (String.ofList (a ++ b)) := by
    refine String.Pos.Raw.isValid_iff_exists_append.2 ⟨.ofList a, .ofList b, String.ofList_append, ?_⟩
    rw [String.rawEndPos, String.utf8ByteSize_ofList]
  have hfront : String.Pos.Raw.extract (String.ofList (front ++ (line ++ rest))) 0 ⟨i.lineStart⟩ =
      String.ofList front := by
    rw [hstart]
    simpa using String.extract_of_valid [] front (line ++ rest)
  have hline : String.Pos.Raw.extract (String.ofList (front ++ (line ++ rest))) ⟨i.lineStart⟩ ⟨i.offset⟩ =
      String.ofList line := by
    rw [hstart, hoffset]
    simpa using String.extract_of_valid front line rest
  have hrest : String.Pos.Raw.extract (String.ofList (front ++ (line ++ rest))) ⟨i.offset⟩
      (String.ofList (front ++ (line ++ rest))).rawEndPos = String.ofList rest := by
    rw [hoffset, String.rawEndPos, String.utf8ByteSize_ofList]
    simpa [Nat.add_assoc] using String.extract_of_valid (front ++ line) rest []
  exact {
    start_le := by rw [h.offset]; exact Nat.le_add_right ..
    offset_le := by
      rw [hoffset, String.utf8ByteSize_ofList, String.utf8Len_append, String.utf8Len_append]
      omega
    start_valid := by rw [hstart]; exact hvalid ..
    offset_valid := by
      rw [hoffset, ← String.utf8Len_append, ← List.append_assoc]
      exact hvalid ..
    front := by rw [hfront, String.toList_ofList]; exact h.before
    line := by rw [hline, String.toList_ofList]; exact h.line
    before := by rw [hline, String.toList_ofList]; exact h.before?
    rest := by rw [hrest, String.toList_ofList]; exact h.rest?
    skip := hskip }

end Input

/-! ## Top theorem -/

/-- A new cursor reads as the stream of its text.  That has no more tokens than the text has characters,
none of them empty, and if it reaches the end of the text, the text is its lexemes and the layout between
them.  After any calls, the counters of the cursor cut the text between characters and every slice that it
takes up to the next token has an answer; a token that was looked at is spelled at its place. -/
theorem partition_ofText (file text : String) :
    let S := Stream.ofText file text
    (Cursor.ofText file text).Reads S ∧ S.tokens.length ≤ text.length ∧
      (∀ t ∈ S.tokens, t.lexeme.text ≠ "") ∧
      (∀ ls, S.lexemes? = some ls → ∃ lead pairs, LaidOut lead pairs ∧ pairs.map Prod.fst = ls ∧
        text = String.ofList (spellOut lead pairs)) ∧
      ∀ calls : List Call, let c := (Cursor.ofText file text).after calls
        c.input.Sound text ∧ c.input.skip.Sound text ∧
          ∀ t, c.ahead = some t → t.lexeme.text.toList <+: c.input.rest := by
  have hshows := Cursor.shows_ofText file text
  refine ⟨hshows.reads (Stream.proper_readFrom ..), ?_, ?_, ?_, ?_⟩
  · rw [← String.length_toList, ← Input.rest_start]
    exact Stream.length_tokens_readFrom file (.start text)
  · intro t ht hempty
    have hpos := Stream.text_pos_of_mem_tokens ht
    rw [hempty] at hpos
    cases hpos
  · intro ls hls
    obtain ⟨lead, pairs, hpairs, hfst, htext⟩ := (lexemes?_eq_some_iff.1 hls).exists_spellOut
    exact ⟨lead, pairs, hpairs, hfst, by rw [← htext, Input.rest_start, String.ofList_toList]⟩
  · intro calls c
    obtain ⟨hplace, htext⟩ := hshows.inText_after (Cursor.inText_ofText file text) calls
    have hskip := hplace.skip
    refine ⟨hplace.sound htext, hskip.2.1.sound (hskip.2.2.1.trans htext), fun t ht => ?_⟩
    obtain ⟨rest, hrest, -⟩ := Input.spelled_of_token ((hshows.after calls).ahead t ht).2
    exact ⟨rest, hrest.symm⟩

theorem partition_ofText_colon :
    let S := Stream.ofText "a.fbs" "x:1 //"
    let c := (Cursor.ofText "a.fbs" "x:1 //").after [.read, .peek]
    let t : Token := ⟨.punct ':', ⟨1, 2⟩⟩
    (t ∈ S.tokens ∧ t.lexeme.text ≠ "") ∧
      (S.lexemes? = some [.id "x", .punct ':', .integer "1" 1] ∧
        ∃ lead pairs, LaidOut lead pairs ∧ pairs.map Prod.fst = [.id "x", .punct ':', .integer "1" 1] ∧
          "x:1 //" = String.ofList (spellOut lead pairs)) ∧
      c.ahead = some t ∧ t.lexeme.text.toList <+: c.input.rest := by
  intro S c t
  obtain ⟨-, -, htokens, hlexemes, hcalls⟩ := partition_ofText "a.fbs" "x:1 //"
  have ht : t ∈ S.tokens := by decide +kernel
  have hls : S.lexemes? = some [.id "x", .punct ':', .integer "1" 1] := by decide +kernel
  have hahead : c.ahead = some t := by decide +kernel
  exact ⟨⟨ht, htokens t ht⟩, ⟨hls, hlexemes _ hls⟩, hahead, (hcalls [.read, .peek]).2.2 t hahead⟩

end FlatSchema
