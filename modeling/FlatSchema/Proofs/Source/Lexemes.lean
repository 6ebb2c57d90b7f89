import FlatSchema.Source.Stream
import FlatSchema.Proofs.Source.Numerals
import Mathlib.Data.Bool.AllAny

/-!
# Lexemes at the front of a text

A lexeme is found exactly where its text stands and what follows lets it end there:

    scan cs = .ok l ↔ ∃ rest, cs = l.text.toList ++ rest ∧ l.Stands rest

(`scan_eq_ok_iff`).  Layout lets every lexeme end, with one exception: `true` and `false` are names only
where a letter follows that no name has, and such a letter is no lexeme (`Lexeme.Stands.apart`,
`scan_behind_name`).
-/

namespace FlatSchema

/-! ## Names -/

/-- A letter or underscore, and after it letters, digits, underscores and dots. -/
def IsName (name : String) : Prop :=
  ∃ c cs, name.toList = c :: cs ∧ isIdStart c = true ∧ ∀ d ∈ cs, isIdRest d = true

theorem IsName.idRest {name : String} (h : IsName name) : ∀ c ∈ name.toList, isIdRest c = true := by
  obtain ⟨c, cs, hname, hc, hcs⟩ := h
  intro d hd
  rw [hname] at hd
  rcases List.mem_cons.1 hd with rfl | hd
  · rw [isIdRest, hc]
    rfl
  · exact hcs d hd

/-! ## What each rule finds -/

section Rules

variable {cs : List Char} {r : Except ScanFault Lexeme}

theorem booleanWord_eq_some_iff : booleanWord cs = some r ↔ ∃ b rest, r = .ok (.boolean b) ∧
    cs = (Value.boolText b).toList ++ rest ∧ StopsAt Text.isWord rest := by
  have hstop : ∀ rest : List Char, ¬ rest.head?.any Text.isWord = true ↔ StopsAt Text.isWord rest := by
    intro rest
    cases rest with
    | nil => simp [stopsAt_nil]
    | cons c rest => simp [stopsAt_cons]
  constructor
  · intro h
    unfold booleanWord at h
    split at h
    · next rest =>
      split at h
      · cases h
      · next hrest =>
        cases h
        exact ⟨true, rest, rfl, rfl, (hstop rest).1 hrest⟩
    · next rest =>
      split at h
      · cases h
      · next hrest =>
        cases h
        exact ⟨false, rest, rfl, rfl, (hstop rest).1 hrest⟩
    · cases h
  · rintro ⟨b, rest, rfl, rfl, hrest⟩
    cases b with
    | true => exact if_neg ((hstop rest).2 hrest)
    | false => exact if_neg ((hstop rest).2 hrest)

theorem identifier_eq_some_iff : identifier cs = some r ↔ ∃ name rest, r = .ok (.id name) ∧
    cs = name.toList ++ rest ∧ IsName name ∧ StopsAt isIdRest rest := by
  constructor
  · intro h
    unfold identifier at h
    split at h
    · next c cs =>
      split at h
      · next hc =>
        cases h
        obtain ⟨hcs, hname, hstop⟩ := (@takeWhile_dropWhile_iff isIdRest cs _ _).1 ⟨rfl, rfl⟩
        refine ⟨_, _, rfl, ?_, ⟨c, _, String.toList_ofList, hc, hname⟩, hstop⟩
        rw [String.toList_ofList, List.cons_append, ← hcs]
      · cases h
    · cases h
  · rintro ⟨name, rest, rfl, rfl, ⟨c, cs, hname, hc, hcs⟩, hstop⟩
    obtain ⟨htake, -⟩ := takeWhile_dropWhile_iff.2 ⟨rfl, hcs, hstop⟩
    rw [hname, List.cons_append, identifier, if_pos hc, htake, ← hname, String.ofList_toList]

theorem text_string (quote : Char) (contents : String) (rest : List Char) :
    (Lexeme.string quote contents).text.toList ++ rest =
      quote :: (contents.toList ++ quote :: rest) := by
  simp [Lexeme.text]

theorem quotedString_eq_some_iff : quotedString cs = some r ↔ ∃ quote contents rest,
    r = .ok (.string quote contents) ∧ cs = (Lexeme.string quote contents).text.toList ++ rest ∧
      (quote = '"' ∨ quote = '\'') ∧ ∀ c ∈ contents.toList, c ≠ quote ∧ isNewline c = false := by
  constructor
  · intro h
    unfold quotedString at h
    split at h
    · next quote cs =>
      obtain ⟨hcs, hinner, -⟩ :=
        (@takeWhile_dropWhile_iff (fun c => c != quote && !isNewline c) cs _ _).1 ⟨rfl, rfl⟩
      generalize cs.takeWhile (fun c => c != quote && !isNewline c) = inner,
        cs.dropWhile (fun c => c != quote && !isNewline c) = after at hcs hinner h
      subst hcs
      dsimp only at h
      split at h
      · next hquote =>
        cases h
        rw [List.drop_left] at hquote
        obtain ⟨rest, rfl⟩ := List.head?_eq_some_iff.1 hquote.2
        refine ⟨quote, _, rest, rfl, ?_, hquote.1, ?_⟩
        · rw [text_string, String.toList_ofList]
        · intro c hc
          rw [String.toList_ofList] at hc
          simpa using hinner c hc
      · cases h
    · cases h
  · rintro ⟨quote, contents, rest, rfl, rfl, hquote, hinner⟩
    have hchars : ∀ c ∈ contents.toList, (c != quote && !isNewline c) = true := by
      intro c hc
      simpa using hinner c hc
    obtain ⟨htake, -⟩ := takeWhile_dropWhile_iff.2 ⟨rfl, hchars,
      (stopsAt_cons.2 (by simp) : StopsAt _ (quote :: rest))⟩
    rw [text_string, quotedString]
    rw [htake, List.drop_left, if_pos ⟨hquote, rfl⟩, String.ofList_toList]

theorem decimalNumber_eq_some_iff : decimalNumber cs = some r ↔ ∃ (n : Numeral) (rest : List Char),
    r = decimalLexeme n ∧ cs = n.spelling ++ rest ∧ n.Valid ∧ n.Ends rest := by
  unfold decimalNumber
  rw [Option.map_eq_some_iff]
  constructor
  · rintro ⟨n, hn, rfl⟩
    obtain ⟨hvalid, rest, hcs, hends⟩ := Numeral.read?_eq_some_iff.1 hn
    exact ⟨n, rest, rfl, hcs, hvalid, hends⟩
  · rintro ⟨n, rest, rfl, hcs, hvalid, hends⟩
    exact ⟨n, Numeral.read?_eq_some_iff.2 ⟨hvalid, rest, hcs, hends⟩, rfl⟩

theorem text_of_decimalLexeme {n : Numeral} {l : Lexeme} (h : decimalLexeme n = .ok l) :
    l.text.toList = n.spelling := by
  unfold decimalLexeme at h
  dsimp only at h
  split at h
  · cases h
    exact String.toList_ofList
  · split at h
    · cases h
      exact String.toList_ofList
    · cases h

end Rules

/-! ## First characters -/

/-- What layout can start with. -/
def layoutStart : List Char :=
  [' ', '\t', '\x0b', '\x0c', '\xa0', '\n', '\r', '\u2028', '\u2029', '/']

theorem mem_layoutStart {c : Char} :
    c ∈ layoutStart ↔ isSpace c = true ∨ isNewline c = true ∨ c = '/' := by
  simp [layoutStart, isSpace, isNewline, or_assoc]

/-- Layout starts like no lexeme, and no lexeme goes on with it. -/
theorem layoutStart_apart : ∀ c ∈ layoutStart, isIdRest c = false ∧ isNumberStart c = false ∧
    c ∉ punctuation ∧ c ≠ '"' ∧ c ≠ '\'' ∧ c ∉ ['e', 'E', 'x', 'X'] ∧ Text.isWord c = false := by
  rw [← List.all_iff_forall_prop]
  decide +kernel

theorem punctuation_apart : ∀ c ∈ punctuation, c ≠ '/' ∧ isIdStart c = false ∧ c ≠ '"' ∧ c ≠ '\'' ∧
    isNumberStart c = false ∧ Text.isWord c = false := by
  rw [← List.all_iff_forall_prop]
  decide +kernel

theorem isIdRest_of_isIdStart {c : Char} (h : isIdStart c = true) : isIdRest c = true := by
  rw [isIdRest, h]
  rfl

theorem isIdStart_of_isDigit {c : Char} (h : c.isDigit = true) : isIdStart c = false := by
  have hc : c.val.toNat ≤ 57 := by
    simp only [Char.isDigit, Bool.and_eq_true, decide_eq_true_eq] at h
    exact h.2
  rw [Bool.eq_false_iff]
  intro hid
  simp only [isIdStart, Bool.or_eq_true, Bool.and_eq_true, decide_eq_true_eq, Char.le_def,
    UInt32.le_iff_toNat_le] at hid
  rcases hid with (⟨ha, -⟩ | ⟨hA, -⟩) | rfl
  · have : 97 ≤ c.val.toNat := ha
    omega
  · have : 65 ≤ c.val.toNat := hA
    omega
  · revert hc
    decide

theorem isIdStart_of_isNumberStart {c : Char} (h : isNumberStart c = true) : isIdStart c = false := by
  rcases isNumberStart_iff.1 h with h | rfl | rfl | rfl
  · exact isIdStart_of_isDigit h
  all_goals decide

theorem boolText_idRest (b : Bool) : ∀ c ∈ (Value.boolText b).toList, isIdRest c = true := by
  rw [← List.all_eq_true]
  cases b <;> decide

section First

variable {c : Char} {cs : List Char}

theorem blockComment_eq_none (h : c ≠ '/') : blockComment (c :: cs) = none := by
  unfold blockComment
  split
  · next heq => exact absurd (List.cons.inj heq).1 h
  · rfl

theorem booleanWord_eq_none (h : isIdStart c = false) : booleanWord (c :: cs) = none := by
  rw [Option.eq_none_iff_forall_ne_some]
  intro r hr
  obtain ⟨b, rest, -, hcs, -⟩ := booleanWord_eq_some_iff.1 hr
  cases b <;> cases hcs <;> revert h <;> decide

theorem identifier_eq_none (h : isIdStart c = false) : identifier (c :: cs) = none :=
  if_neg (by simp [h])

theorem quotedString_eq_none (h : c ≠ '"') (h' : c ≠ '\'') : quotedString (c :: cs) = none :=
  if_neg (by simp [h, h'])

theorem hexNumber_eq_none (h : hexBody? cs = none) : hexNumber cs = none := by
  simp [hexNumber, startsWithHexFloat, startsWithHexInteger, h]

theorem splitSign_of_not (h : isSign c = false) : splitSign (c :: cs) = ([], c :: cs) :=
  splitSign_eq_iff.2 ⟨rfl, .inl rfl, fun _ => stopsAt_cons.2 h⟩

theorem hexBody?_eq_none (h : isNumberStart c = false) : hexBody? (c :: cs) = none := by
  simp only [isNumberStart, Bool.or_eq_false_iff] at h
  unfold hexBody?
  rw [splitSign_of_not h.1.2]
  split
  · next heq =>
    obtain rfl : c = '0' := (List.cons.inj heq).1
    exact absurd h.1.1 (by decide)
  · rfl

theorem decimalNumber_eq_none (h : isNumberStart c = false) : decimalNumber (c :: cs) = none := by
  rw [Option.eq_none_iff_forall_ne_some]
  intro r hr
  obtain ⟨n, rest, -, hcs, hn, -⟩ := decimalNumber_eq_some_iff.1 hr
  obtain ⟨d, ds, hds, hd⟩ := hn.head rest
  rw [hds] at hcs
  rw [(List.cons.inj hcs).1, hd] at h
  cases h

end First

/-! ## All rules -/

theorem blockComment_ne_ok (cs : List Char) (l : Lexeme) : blockComment cs ≠ some (.ok l) := by
  unfold blockComment
  split <;> simp

theorem hexNumber_ne_ok (cs : List Char) (l : Lexeme) : hexNumber cs ≠ some (.ok l) := by
  unfold hexNumber
  split
  · simp
  · split <;> simp

/-- The first rule that applies decides. -/
theorem scan_cons_eq_ok_iff {c : Char} {cs x : List Char} {l : Lexeme} (hx : x = c :: cs) :
    scan x = .ok l ↔ blockComment x = none ∧ (booleanWord x = some (.ok l) ∨
      booleanWord x = none ∧ (identifier x = some (.ok l) ∨
        identifier x = none ∧ (quotedString x = some (.ok l) ∨
          quotedString x = none ∧ hexNumber x = none ∧ (decimalNumber x = some (.ok l) ∨
            decimalNumber x = none ∧ punctuationMark x = some (.ok l))))) := by
  have hblock := blockComment_ne_ok x l
  have hhex := hexNumber_ne_ok x l
  have hscan : scan x = (rules.findSome? (· x)).getD (.error (.parse (.unknownCharacter c))) := by
    rw [hx, scan]
  rw [hscan]
  simp only [rules, List.findSome?_cons, List.findSome?_nil]
  cases h : blockComment x with
  | some r =>
    rw [h] at hblock
    simpa using fun h => hblock (congrArg some h)
  | none =>
  cases h : booleanWord x with
  | some r => simp
  | none =>
  cases h : identifier x with
  | some r => simp
  | none =>
  cases h : quotedString x with
  | some r => simp
  | none =>
  cases h : hexNumber x with
  | some r =>
    rw [h] at hhex
    simpa using fun h => hhex (congrArg some h)
  | none =>
  cases h : decimalNumber x with
  | some r => simp
  | none =>
  cases h : punctuationMark x with
  | some r => simp
  | none => simp

/-- What a lexeme is, and what may follow it. -/
def Lexeme.Stands (l : Lexeme) (rest : List Char) : Prop :=
  match l with
  | .eof => rest = []
  | .boolean _ => StopsAt Text.isWord rest
  | .id name => IsName name ∧ StopsAt isIdRest rest ∧ booleanWord (name.toList ++ rest) = none
  | .string quote contents =>
    (quote = '"' ∨ quote = '\'') ∧ ∀ c ∈ contents.toList, c ≠ quote ∧ isNewline c = false
  | .integer _ _ | .float _ _ => ∃ n : Numeral, decimalLexeme n = .ok l ∧ n.Valid ∧ n.Ends rest ∧
    hexNumber (n.spelling ++ rest) = none
  | .punct c => c ∈ punctuation

theorem stands_number {l : Lexeme} {n : Numeral} {rest : List Char} (h : decimalLexeme n = .ok l) :
    l.Stands rest ↔ ∃ n : Numeral, decimalLexeme n = .ok l ∧ n.Valid ∧ n.Ends rest ∧
      hexNumber (n.spelling ++ rest) = none := by
  unfold decimalLexeme at h
  dsimp only at h
  split at h
  · cases h
    exact Iff.rfl
  · split at h
    · cases h
      exact Iff.rfl
    · cases h

theorem exists_of_scan {cs : List Char} {l : Lexeme} (h : scan cs = .ok l) :
    ∃ rest, cs = l.text.toList ++ rest ∧ l.Stands rest := by
  cases cs with
  | nil =>
    cases h
    exact ⟨[], rfl, rfl⟩
  | cons c cs =>
    obtain ⟨-, hbool | ⟨hbool, hid | ⟨-, hstring | ⟨-, hhex, hnumber | ⟨-, hpunct⟩⟩⟩⟩⟩ :=
      (scan_cons_eq_ok_iff rfl).1 h
    · obtain ⟨b, rest, hl, hcs, hstop⟩ := booleanWord_eq_some_iff.1 hbool
      cases hl
      exact ⟨rest, hcs, hstop⟩
    · obtain ⟨name, rest, hl, hcs, hname, hstop⟩ := identifier_eq_some_iff.1 hid
      cases hl
      rw [hcs] at hbool
      exact ⟨rest, hcs, hname, hstop, hbool⟩
    · obtain ⟨quote, contents, rest, hl, hcs, hquote⟩ := quotedString_eq_some_iff.1 hstring
      cases hl
      exact ⟨rest, hcs, hquote⟩
    · obtain ⟨n, rest, hl, hcs, hn, hends⟩ := decimalNumber_eq_some_iff.1 hnumber
      rw [hcs] at hhex
      refine ⟨rest, ?_, (stands_number hl.symm).2 ⟨n, hl.symm, hn, hends, hhex⟩⟩
      rw [hcs, text_of_decimalLexeme hl.symm]
    · unfold punctuationMark at hpunct
      dsimp only at hpunct
      split at hpunct
      · next hc =>
        cases hpunct
        exact ⟨cs, by simp [Lexeme.text], hc⟩
      · cases hpunct

/-- A number decides alone what is made of it, also where it is refused. -/
theorem scan_spelling {n : Numeral} {rest : List Char} (hn : n.Valid) (hends : n.Ends rest)
    (hhex : hexNumber (n.spelling ++ rest) = none) : scan (n.spelling ++ rest) = decimalLexeme n := by
  have hdecimal : decimalNumber (n.spelling ++ rest) = some (decimalLexeme n) :=
    decimalNumber_eq_some_iff.2 ⟨n, rest, rfl, rfl, hn, hends⟩
  obtain ⟨c, cs, htext, hc⟩ := hn.head rest
  have hid := isIdStart_of_isNumberStart hc
  have hfirst : c ≠ '/' ∧ c ≠ '"' ∧ c ≠ '\'' := by
    refine ⟨?_, ?_, ?_⟩ <;> rintro rfl <;> revert hc <;> decide
  rw [htext] at hhex hdecimal ⊢
  rw [scan]
  simp only [rules, List.findSome?_cons, blockComment_eq_none hfirst.1, booleanWord_eq_none hid,
    identifier_eq_none hid, quotedString_eq_none hfirst.2.1 hfirst.2.2, hhex, hdecimal, Option.getD_some]

theorem scan_numeral {l : Lexeme} {n : Numeral} {rest : List Char} (hl : decimalLexeme n = .ok l)
    (hn : n.Valid) (hends : n.Ends rest) (hhex : hexNumber (n.spelling ++ rest) = none) :
    scan (l.text.toList ++ rest) = .ok l := by
  rw [text_of_decimalLexeme hl, scan_spelling hn hends hhex, hl]

/-- Each lexeme starts with a character to which no earlier rule applies. -/
theorem scan_of_stands {l : Lexeme} {rest : List Char} (h : l.Stands rest) :
    scan (l.text.toList ++ rest) = .ok l := by
  cases l with
  | eof =>
    obtain rfl : rest = [] := h
    rfl
  | boolean b =>
    have hbool : booleanWord ((Value.boolText b).toList ++ rest) = some (.ok (.boolean b)) :=
      booleanWord_eq_some_iff.2 ⟨b, rest, rfl, rfl, h⟩
    cases b with
    | true => exact (scan_cons_eq_ok_iff rfl).2 ⟨blockComment_eq_none (by decide), .inl hbool⟩
    | false => exact (scan_cons_eq_ok_iff rfl).2 ⟨blockComment_eq_none (by decide), .inl hbool⟩
  | id name =>
    obtain ⟨hname, hstop, hbool⟩ := h
    have hid : identifier (name.toList ++ rest) = some (.ok (.id name)) :=
      identifier_eq_some_iff.2 ⟨name, rest, rfl, rfl, hname, hstop⟩
    obtain ⟨c, cs, htext, hc, -⟩ := hname
    refine (scan_cons_eq_ok_iff (by rw [Lexeme.text, htext]; rfl)).2 ⟨?_, .inr ⟨hbool, .inl hid⟩⟩
    rw [Lexeme.text, htext]
    refine blockComment_eq_none ?_
    rintro rfl
    revert hc
    decide
  | string quote contents =>
    have hstring := quotedString_eq_some_iff.2 ⟨quote, contents, rest, rfl, rfl, h⟩
    have hfirst : quote ≠ '/' ∧ isIdStart quote = false := by
      rcases h.1 with rfl | rfl <;> decide
    rw [text_string] at hstring ⊢
    exact (scan_cons_eq_ok_iff rfl).2 ⟨blockComment_eq_none hfirst.1, .inr
      ⟨booleanWord_eq_none hfirst.2, .inr ⟨identifier_eq_none hfirst.2, .inl hstring⟩⟩⟩
  | integer s n =>
    obtain ⟨n, hl, hn, hends, hhex⟩ := h
    exact scan_numeral hl hn hends hhex
  | float s x =>
    obtain ⟨n, hl, hn, hends, hhex⟩ := h
    exact scan_numeral hl hn hends hhex
  | punct c =>
    obtain ⟨hslash, hid, hquote, hquote', hstart, -⟩ := punctuation_apart c h
    have htext : (Lexeme.punct c).text.toList ++ rest = c :: rest := by simp [Lexeme.text]
    have hpunct : punctuationMark (c :: rest) = some (.ok (.punct c)) := if_pos h
    rw [htext]
    exact (scan_cons_eq_ok_iff rfl).2 ⟨blockComment_eq_none hslash, .inr
      ⟨booleanWord_eq_none hid, .inr ⟨identifier_eq_none hid, .inr ⟨quotedString_eq_none hquote hquote',
        hexNumber_eq_none (hexBody?_eq_none hstart), .inr ⟨decimalNumber_eq_none hstart, hpunct⟩⟩⟩⟩⟩

theorem scan_eq_ok_iff {cs : List Char} {l : Lexeme} :
    scan cs = .ok l ↔ ∃ rest, cs = l.text.toList ++ rest ∧ l.Stands rest := by
  constructor
  · exact exists_of_scan
  · rintro ⟨rest, rfl, h⟩
    exact scan_of_stands h

/-! ## What follows a lexeme -/

/-- Nothing follows, or layout does. -/
def Apart (rest : List Char) : Prop :=
  ∀ c ∈ rest.head?, c ∈ layoutStart

theorem Apart.numeral {n : Numeral} {rest : List Char} (hrest : Apart rest) (hn : n.Valid) :
    n.Ends rest ∧ hexNumber (n.spelling ++ rest) = none := by
  constructor
  · have hdigit : StopsAt Char.isDigit rest := by
      intro c hc
      have hstart := (layoutStart_apart c (hrest c hc)).2.1
      simp only [isNumberStart, Bool.or_eq_false_iff] at hstart
      exact hstart.1.1
    refine Numeral.ends_of_head hdigit fun c hc => ?_
    obtain ⟨-, hstart, -, -, -, hletter, -⟩ := layoutStart_apart c (hrest c hc)
    refine ⟨?_, fun he => hletter (by simp [he]), fun hE => hletter (by simp [hE])⟩
    rintro rfl
    cases hstart
  · refine hexNumber_eq_none (Numeral.hexBody?_spelling hn fun c hc => ?_)
    have hletter := (layoutStart_apart c (hrest c hc)).2.2.2.2.2.1
    exact ⟨fun hx => hletter (by simp [hx]), fun hX => hletter (by simp [hX])⟩

theorem Apart.stopsAt_idRest {rest : List Char} (hrest : Apart rest) : StopsAt isIdRest rest :=
  fun c hc => (layoutStart_apart c (hrest c hc)).1

/-- A name that is not `true` or `false` is no such word in front of layout. -/
theorem Apart.booleanWord_eq_none {name : String} {rest rest' : List Char} (hrest : Apart rest')
    (hname : ∀ b, name ≠ Value.boolText b) (h : booleanWord (name.toList ++ rest) = none) :
    booleanWord (name.toList ++ rest') = none := by
  rw [Option.eq_none_iff_forall_ne_some]
  intro r hr
  obtain ⟨b, more, -, hmore, hend⟩ := booleanWord_eq_some_iff.1 hr
  -- The word is the name, or runs on behind it, or ends inside it: then it was a word before.
  rcases List.append_eq_append_iff.1 hmore with ⟨as, htext, hrest'⟩ | ⟨as, htext, rfl⟩
  · cases as with
    | nil => exact hname b (String.toList_inj.1 (by simpa using htext.symm))
    | cons c as =>
      have hc : isIdRest c = true := by
        refine boolText_idRest b c ?_
        simp [htext]
      have hstop := hrest.stopsAt_idRest
      rw [hrest'] at hstop
      rw [stopsAt_cons.1 hstop] at hc
      cases hc
  · cases as with
    | nil => exact hname b (String.toList_inj.1 (by simpa using htext))
    | cons c as =>
      have hbefore : booleanWord (name.toList ++ rest) = some (.ok (.boolean b)) :=
        booleanWord_eq_some_iff.2 ⟨b, c :: as ++ rest, rfl, by rw [htext, List.append_assoc],
          stopsAt_cons.2 (stopsAt_cons.1 hend)⟩
      rw [hbefore] at h
      cases h

theorem isNewline_eq_false {c : Char} (hc : isIdRest c = true ∨ isNumberStart c = true ∨
    c ∈ ['e', 'E', 'x', 'X'] ∨ c ∈ punctuation) : isNewline c = false := by
  rw [Bool.eq_false_iff]
  intro hnewline
  obtain ⟨hid, hstart, hpunct, -, -, hletter, -⟩ :=
    layoutStart_apart c (mem_layoutStart.2 (.inr (.inl hnewline)))
  rcases hc with hc | hc | hc | hc
  · rw [hid] at hc
    cases hc
  · rw [hstart] at hc
    cases hc
  · exact hletter hc
  · exact hpunct hc

namespace Lexeme.Stands

variable {l : Lexeme} {rest rest' : List Char}

theorem first (h : l.Stands rest) (hl : l ≠ .eof) : ∃ c cs, l.text.toList = c :: cs ∧
    (isIdStart c = true ∨ (c = '"' ∨ c = '\'') ∨ isNumberStart c = true ∨ c ∈ punctuation) := by
  have hnumber : ∀ {n : Numeral}, decimalLexeme n = .ok l → n.Valid → ∃ c cs, l.text.toList = c :: cs ∧
      isNumberStart c = true := by
    intro n hn hvalid
    obtain ⟨c, cs, htext, hc⟩ := hvalid.head []
    rw [List.append_nil, ← text_of_decimalLexeme hn] at htext
    exact ⟨c, cs, htext, hc⟩
  cases l with
  | eof => exact absurd rfl hl
  | boolean b => cases b <;> exact ⟨_, _, rfl, .inl rfl⟩
  | id name =>
    obtain ⟨⟨c, cs, hname, hc, -⟩, -⟩ := h
    exact ⟨c, cs, hname, .inl hc⟩
  | string quote contents =>
    exact ⟨quote, _, by simpa using text_string quote contents [], .inr (.inl h.1)⟩
  | integer s n =>
    obtain ⟨n, hn, hvalid, -⟩ := h
    obtain ⟨c, cs, htext, hc⟩ := hnumber hn hvalid
    exact ⟨c, cs, htext, .inr (.inr (.inl hc))⟩
  | float s x =>
    obtain ⟨n, hn, hvalid, -⟩ := h
    obtain ⟨c, cs, htext, hc⟩ := hnumber hn hvalid
    exact ⟨c, cs, htext, .inr (.inr (.inl hc))⟩
  | punct c => exact ⟨c, [], by simp [Lexeme.text], .inr (.inr (.inr h))⟩

/-- A lexeme does not start like layout. -/
theorem not_layout (h : l.Stands rest) (hl : l ≠ .eof) :
    ∃ c cs, l.text.toList = c :: cs ∧ c ∉ layoutStart := by
  obtain ⟨c, cs, htext, hc⟩ := h.first hl
  refine ⟨c, cs, htext, fun hlayout => ?_⟩
  obtain ⟨hid, hstart, hpunct, hquote, hquote', -⟩ := layoutStart_apart c hlayout
  rcases hc with hc | (rfl | rfl) | hc | hc
  · rw [isIdRest_of_isIdStart hc] at hid
    cases hid
  · exact hquote rfl
  · exact hquote' rfl
  · rw [hc] at hstart
    cases hstart
  · exact hpunct hc

/-- Where layout follows, a lexeme stands as well, unless it is a name only because of what
followed. -/
theorem apart (h : l.Stands rest) (hl : l ≠ .eof) (hbool : ∀ b, l ≠ .id (Value.boolText b))
    (hrest : Apart rest') : l.Stands rest' := by
  cases l with
  | eof => exact absurd rfl hl
  | boolean b => exact fun c hc => (layoutStart_apart c (hrest c hc)).2.2.2.2.2.2
  | string quote contents => exact h
  | punct c => exact h
  | integer s n =>
    obtain ⟨n, hn, hvalid, -⟩ := h
    exact ⟨n, hn, hvalid, hrest.numeral hvalid⟩
  | float s x =>
    obtain ⟨n, hn, hvalid, -⟩ := h
    exact ⟨n, hn, hvalid, hrest.numeral hvalid⟩
  | id name =>
    obtain ⟨hname, -, hword⟩ := h
    have hne : ∀ b, name ≠ Value.boolText b := fun b hb => hbool b (congrArg _ hb)
    exact ⟨hname, hrest.stopsAt_idRest, hrest.booleanWord_eq_none hne hword⟩

/-- A lexeme ends on the line on which it starts. -/
theorem line (h : l.Stands rest) : ∀ c ∈ l.text.toList, isNewline c = false := by
  have hnumber : ∀ {n : Numeral}, decimalLexeme n = .ok l → n.Valid →
      ∀ c ∈ l.text.toList, isNewline c = false := by
    intro n hn hvalid c hc
    rw [text_of_decimalLexeme hn] at hc
    refine isNewline_eq_false ?_
    rcases hvalid.mem c hc with hc | hc | hc
    · exact .inr (.inl hc)
    · exact .inr (.inr (.inl (by simp [hc])))
    · exact .inr (.inr (.inl (by simp [hc])))
  intro c hc
  cases l with
  | eof => cases hc
  | boolean b => exact isNewline_eq_false (.inl (boolText_idRest b c hc))
  | id name => exact isNewline_eq_false (.inl (h.1.idRest c hc))
  | string quote contents =>
    have hquote : isNewline quote = false := by
      rcases h.1 with rfl | rfl <;> decide
    have htext : (Lexeme.string quote contents).text.toList = quote :: (contents.toList ++ [quote]) := by
      simpa using text_string quote contents []
    rw [htext] at hc
    rcases List.mem_cons.1 hc with rfl | hc
    · exact hquote
    · rcases List.mem_append.1 hc with hc | hc
      · exact (h.2 c hc).2
      · rw [List.mem_singleton.1 hc]
        exact hquote
  | integer s n =>
    obtain ⟨n, hn, hvalid, -⟩ := h
    exact hnumber hn hvalid c hc
  | float s x =>
    obtain ⟨n, hn, hvalid, -⟩ := h
    exact hnumber hn hvalid c hc
  | punct d =>
    have htext : (Lexeme.punct d).text.toList = [d] := by simp [Lexeme.text]
    rw [htext] at hc
    obtain rfl := List.mem_singleton.1 hc
    exact isNewline_eq_false (.inr (.inr (.inr h)))

end Lexeme.Stands

/-- `true` and `false` are names where a letter follows that no name has; no lexeme starts with it. -/
theorem scan_behind_name {b : Bool} {rest : List Char} (h : (Lexeme.id (Value.boolText b)).Stands rest) :
    ∃ c cs, rest = c :: cs ∧ c ∉ layoutStart ∧ ∀ l, scan rest ≠ .ok l := by
  obtain ⟨-, hstop, hword⟩ := h
  have hcontinues : ¬ StopsAt Text.isWord rest := by
    intro hend
    have hbool : booleanWord ((Value.boolText b).toList ++ rest) = some (.ok (.boolean b)) :=
      booleanWord_eq_some_iff.2 ⟨b, rest, rfl, rfl, hend⟩
    rw [hbool] at hword
    cases hword
  cases rest with
  | nil => exact absurd (stopsAt_nil _) hcontinues
  | cons c cs =>
    rw [stopsAt_cons, Bool.not_eq_false] at hcontinues
    rw [stopsAt_cons] at hstop
    refine ⟨c, cs, rfl, fun hc => ?_, fun l hl => ?_⟩
    · rw [(layoutStart_apart c hc).2.2.2.2.2.2] at hcontinues
      cases hcontinues
    · obtain ⟨rest, htext, hl⟩ := scan_eq_ok_iff.1 hl
      have hne : l ≠ .eof := by
        rintro rfl
        obtain rfl : rest = [] := hl
        cases htext
      obtain ⟨d, ds, hd, hfirst⟩ := hl.first hne
      rw [hd] at htext
      obtain rfl : c = d := (List.cons.inj htext).1
      rcases hfirst with hc | hc | hc | hc
      · rw [isIdRest_of_isIdStart hc] at hstop
        cases hstop
      · rcases hc with rfl | rfl <;> revert hcontinues <;> decide +kernel
      · rcases isNumberStart_iff.1 hc with hc | rfl | rfl | rfl
        · simp [isIdRest, hc] at hstop
        all_goals exact absurd hcontinues (by decide +kernel)
      · rw [(punctuation_apart c hc).2.2.2.2.2] at hcontinues
        cases hcontinues

end FlatSchema
