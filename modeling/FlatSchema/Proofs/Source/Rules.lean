import FlatSchema.Proofs.Source.Lexemes
import Mathlib.Computability.Language
import Mathlib.Data.Nat.Digits.Defs

/-!
# The lexical rules

What the next token has to be is said by rules over languages of characters, apart from the scanner:
`true` or `false` as a word of its own, the longest name, a string on one line, a hexadecimal number,
which is refused, the longest decimal number, a punctuation mark, the end.  The first rule that applies
decides, and a character is unknown where none does (`Dictated`).  The rules have their own classes of
characters.

    scan cs = r ↔ Dictated cs r        (scan_eq_iff)

The scanner takes digits, point and exponent one after the other and never goes back.  A number it
stops at is the longest, since any number that can go on can go on by a digit, a point or an exponent
(`longest_decimal_iff`).
-/

namespace FlatSchema

/-! ## Values -/

/-- The integer that a sign and decimal digits denote. -/
def literalValue (sign ds : List Char) : Int :=
  (if sign = ['-'] then -1 else 1) * (Nat.ofDigits 10 (ds.reverse.map fun d => d.toNat - '0'.toNat) : Nat)

theorem digitsValue_eq_ofDigits (ds : List Char) :
    digitsValue ds = Nat.ofDigits 10 (ds.reverse.map fun d => d.toNat - '0'.toNat) := by
  induction ds using List.reverseRecOn with
  | nil => rfl
  | append_singleton ds d ih =>
    have hnext : digitsValue (ds ++ [d]) = 10 * digitsValue ds + (d.toNat - '0'.toNat) := by
      rw [digitsValue, List.foldl_append]
      rfl
    rw [hnext, ih, List.reverse_append, List.reverse_singleton, List.singleton_append, List.map_cons,
      Nat.ofDigits_cons, Nat.add_comm]

theorem integer_plain (sign ds : List Char) :
    (⟨sign, ds, none, none⟩ : Numeral).integer = literalValue sign ds := by
  rw [Numeral.integer, Numeral.negative, literalValue, digitsValue_eq_ofDigits]
  by_cases hsign : sign = ['-'] <;> simp [hsign]

namespace Lexical

open Computability

/-! ## Characters -/

def digit : Set Char :=
  {c | '0' ≤ c ∧ c ≤ '9'}

def hexDigit : Set Char :=
  digit ∪ {c | 'a' ≤ c ∧ c ≤ 'f'} ∪ {c | 'A' ≤ c ∧ c ≤ 'F'}

def sign : Set Char :=
  {'+', '-'}

def nameStart : Set Char :=
  {c | 'a' ≤ c ∧ c ≤ 'z'} ∪ {c | 'A' ≤ c ∧ c ≤ 'Z'} ∪ {'_'}

def nameRest : Set Char :=
  nameStart ∪ digit ∪ {'.'}

def lineEnd : Set Char :=
  {'\n', '\r', '\u2028', '\u2029'}

def marks : Set Char :=
  {';', ':', '\x7b', '\x7d', '[', ']', '(', ')', '=', ','}

/-! ## Words -/

def one (p : Set Char) : Language Char :=
  {w | ∃ c ∈ p, w = [c]}

def many (p : Set Char) : Language Char :=
  (one p)∗

def oneOrMore (p : Set Char) : Language Char :=
  one p * many p

def maybe (L : Language Char) : Language Char :=
  1 + L

def point : Language Char :=
  one {'.'}

def name : Language Char :=
  one nameStart * many nameRest

/-- Digits with or without a point: `.D+ | D+.D* | D+`. -/
def digits (p : Set Char) : Language Char :=
  point * oneOrMore p + oneOrMore p * point * many p + oneOrMore p

/-- A mark, a sign or none, and decimal digits. -/
def exponent (mark : Set Char) : Language Char :=
  one mark * maybe (one sign) * oneOrMore digit

def decimal : Language Char :=
  maybe (one sign) * digits digit * maybe (exponent {'e', 'E'})

/-- The sign and the `0x` of a hexadecimal number. -/
def hexMark : Language Char :=
  maybe (one sign) * one {'0'} * one {'x', 'X'}

def hexFloat : Language Char :=
  hexMark * digits hexDigit * exponent {'p', 'P'}

def hexInteger : Language Char :=
  hexMark * oneOrMore hexDigit

/-- A word of the language stands at the front of the text. -/
def Starts (L : Language Char) (cs : List Char) : Prop :=
  ∃ w ∈ L, w <+: cs

/-- The longest word of the language that stands at the front of the text. -/
structure Longest (L : Language Char) (cs w : List Char) : Prop where
  mem : w ∈ L
  front : w <+: cs
  longest : ∀ w' ∈ L, w' <+: cs → w'.length ≤ w.length

/-! ## Rules -/

/-- What a rule says that the front of a text is. -/
abbrev Rule := List Char → Except ScanFault Lexeme → Prop

/-- No word character follows `true` or `false`. -/
def boolean : Rule := fun cs r =>
  ∃ b rest, cs = (Value.boolText b).toList ++ rest ∧ StopsAt Text.isWord rest ∧ r = .ok (.boolean b)

def identifier : Rule := fun cs r =>
  ∃ w, Longest name cs w ∧ r = .ok (.id (String.ofList w))

def string : Rule := fun cs r =>
  ∃ quote inner rest, cs = quote :: (inner ++ quote :: rest) ∧ (quote = '"' ∨ quote = '\'') ∧
    (∀ c ∈ inner, c ≠ quote ∧ c ∉ lineEnd) ∧ r = .ok (.string quote (String.ofList inner))

def hexadecimal : Rule := fun cs r =>
  Starts hexFloat cs ∧ r = .error (.unsupported .hexFloat) ∨
    ¬ Starts hexFloat cs ∧ Starts hexInteger cs ∧ r = .error (.unsupported .hexInteger)

def IsFloat (w : List Char) : Prop :=
  '.' ∈ w ∨ 'e' ∈ w ∨ 'E' ∈ w

/-- The integer that an optional sign and digits denote. -/
def integerValue : List Char → Int
  | '-' :: ds => literalValue ['-'] ds
  | '+' :: ds => literalValue ['+'] ds
  | ds => literalValue [] ds

/-- What a decimal number denotes: a float, an integer of 64 bits, or nothing. -/
inductive Denotes (w : List Char) : Except ScanFault Lexeme → Prop where
  | float {n : Numeral} (hw : IsFloat w) (hn : n.Valid) (h : n.spelling = w) :
      Denotes w (.ok (.float (String.ofList w) n.float))
  | integer {i : Int64} (hw : ¬ IsFloat w) (h : i.toInt = integerValue w) :
      Denotes w (.ok (.integer (String.ofList w) i))
  | invalid (hw : ¬ IsFloat w) (h : ∀ i : Int64, i.toInt ≠ integerValue w) :
      Denotes w (.error (.parse (.invalidInteger (String.ofList w))))

def number : Rule := fun cs r =>
  ∃ w, Longest decimal cs w ∧ Denotes w r

def mark : Rule := fun cs r =>
  ∃ c rest, cs = c :: rest ∧ c ∈ marks ∧ r = .ok (.punct c)

def ending : Rule := fun cs r =>
  cs = [] ∧ r = .ok .eof

def order : List Rule :=
  [boolean, identifier, string, hexadecimal, number, mark, ending]

/-- The first of the rules that applies says so. -/
def First : List Rule → Rule
  | [], _, _ => False
  | rule :: rules, cs, r => rule cs r ∨ (∀ r', ¬ rule cs r') ∧ First rules cs r

/-- What the rules say that the front of a text is; where none applies, its first character is unknown. -/
inductive Dictated (cs : List Char) : Except ScanFault Lexeme → Prop where
  | rule {r : Except ScanFault Lexeme} (h : First order cs r) : Dictated cs r
  | unknown {c : Char} {rest : List Char} (hcs : cs = c :: rest)
      (h : ∀ rule ∈ order, ∀ r, ¬ rule cs r) : Dictated cs (.error (.parse (.unknownCharacter c)))

/-! ## The scanner's characters -/

section Characters

variable {c : Char}

theorem mem_digit_iff : c ∈ digit ↔ c.isDigit = true := by
  rw [Char.isDigit, Bool.and_eq_true, decide_eq_true_eq, decide_eq_true_eq]
  rfl

theorem mem_hexDigit_iff : c ∈ hexDigit ↔ isHexDigit c = true := by
  simp [hexDigit, isHexDigit, mem_digit_iff]

theorem mem_sign_iff : c ∈ sign ↔ isSign c = true := by
  simp [sign, isSign]

theorem mem_nameStart_iff : c ∈ nameStart ↔ isIdStart c = true := by
  simp [nameStart, isIdStart, or_comm (a := c = '_')]

theorem mem_nameRest_iff : c ∈ nameRest ↔ isIdRest c = true := by
  simp [nameRest, isIdRest, mem_nameStart_iff, mem_digit_iff, or_comm (a := c = '.')]

theorem notMem_lineEnd_iff : c ∉ lineEnd ↔ isNewline c = false := by
  simp [lineEnd, isNewline, and_assoc]

theorem mem_marks_iff : c ∈ marks ↔ c ∈ punctuation := by
  simp [marks, punctuation]

end Characters

/-! ## Membership -/

section Members

variable {p : Set Char} {w cs : List Char}

theorem mem_one_iff : w ∈ one p ↔ ∃ c ∈ p, w = [c] :=
  Iff.rfl

theorem mem_many_iff : w ∈ many p ↔ ∀ c ∈ w, c ∈ p := by
  rw [many, Language.mem_kstar]
  constructor
  · rintro ⟨ws, rfl, hws⟩ c hc
    obtain ⟨w, hw, hc⟩ := List.mem_flatten.1 hc
    obtain ⟨d, hd, rfl⟩ := hws w hw
    rwa [List.mem_singleton.1 hc]
  · intro hw
    refine ⟨w.map ([·]), by simp [← List.flatMap_def], ?_⟩
    intro v hv
    obtain ⟨c, hc, rfl⟩ := List.mem_map.1 hv
    exact ⟨c, hw c hc, rfl⟩

theorem mem_oneOrMore_iff : w ∈ oneOrMore p ↔ w ≠ [] ∧ ∀ c ∈ w, c ∈ p := by
  rw [oneOrMore, Language.mem_mul]
  constructor
  · rintro ⟨_, ⟨c, hc, rfl⟩, cs, hcs, rfl⟩
    refine ⟨by simp, ?_⟩
    intro d hd
    rcases List.mem_cons.1 hd with rfl | hd
    · exact hc
    · exact mem_many_iff.1 hcs d hd
  · rintro ⟨hne, hw⟩
    obtain ⟨c, cs, rfl⟩ := List.exists_cons_of_ne_nil hne
    exact ⟨[c], ⟨c, hw c List.mem_cons_self, rfl⟩, cs,
      mem_many_iff.2 fun d hd => hw d (List.mem_cons_of_mem c hd), rfl⟩

theorem mem_maybe_iff {L : Language Char} : w ∈ maybe L ↔ w = [] ∨ w ∈ L :=
  Iff.rfl

theorem mem_point_iff : w ∈ point ↔ w = ['.'] := by
  simp [point, mem_one_iff]

theorem mem_name_iff : w ∈ name ↔ IsName (String.ofList w) := by
  rw [name, Language.mem_mul, IsName, String.toList_ofList]
  constructor
  · rintro ⟨_, ⟨c, hc, rfl⟩, cs, hcs, rfl⟩
    exact ⟨c, cs, rfl, mem_nameStart_iff.1 hc, fun d hd => mem_nameRest_iff.1 (mem_many_iff.1 hcs d hd)⟩
  · rintro ⟨c, cs, rfl, hc, hcs⟩
    exact ⟨[c], ⟨c, mem_nameStart_iff.2 hc, rfl⟩, cs,
      mem_many_iff.2 fun d hd => mem_nameRest_iff.2 (hcs d hd), rfl⟩

/-- Digits are a whole part and a fraction if there is a point, not both empty. -/
theorem mem_digits_iff {isDigit : Char → Bool} (hp : ∀ c, c ∈ p ↔ isDigit c = true) :
    w ∈ digits p ↔ ∃ whole fraction, w = whole ++ Numeral.fractionText fraction ∧
      (∀ c ∈ whole, isDigit c = true) ∧ (∀ ds, fraction = some ds → ∀ c ∈ ds, isDigit c = true) ∧
        (whole ≠ [] ∨ ∃ ds, fraction = some ds ∧ ds ≠ []) := by
  simp only [← hp]
  rw [digits, Language.mem_add, Language.mem_add]
  constructor
  · rintro ((h | h) | h)
    · obtain ⟨_, hpoint, ds, hds, rfl⟩ := Language.mem_mul.1 h
      obtain rfl := mem_point_iff.1 hpoint
      obtain ⟨hne, hds⟩ := mem_oneOrMore_iff.1 hds
      exact ⟨[], some ds, rfl, List.forall_mem_nil _, by rintro _ ⟨⟩; exact hds, .inr ⟨ds, rfl, hne⟩⟩
    · obtain ⟨_, hfront, ds, hds, rfl⟩ := Language.mem_mul.1 h
      obtain ⟨whole, hwhole, _, hpoint, rfl⟩ := Language.mem_mul.1 hfront
      obtain rfl := mem_point_iff.1 hpoint
      obtain ⟨hne, hwhole⟩ := mem_oneOrMore_iff.1 hwhole
      refine ⟨whole, some ds, by simp [Numeral.fractionText], hwhole, ?_, .inl hne⟩
      rintro _ ⟨⟩
      exact mem_many_iff.1 hds
    · obtain ⟨hne, hw⟩ := mem_oneOrMore_iff.1 h
      exact ⟨w, none, by simp [Numeral.fractionText], hw, by simp, .inl hne⟩
  · rintro ⟨whole, fraction, rfl, hwhole, hfraction, hdigits⟩
    cases fraction with
    | none =>
      have hne : whole ≠ [] := hdigits.resolve_right (by rintro ⟨_, h, _⟩; cases h)
      exact .inr (mem_oneOrMore_iff.2 ⟨by simpa [Numeral.fractionText] using hne,
        by simpa [Numeral.fractionText] using hwhole⟩)
    | some ds =>
      have hds := hfraction ds rfl
      by_cases hne : whole = []
      · subst hne
        obtain ⟨_, ⟨⟩, hne⟩ := hdigits.resolve_left fun h => h rfl
        exact .inl (.inl (Language.append_mem_mul (a := ['.']) (mem_point_iff.2 rfl)
          (mem_oneOrMore_iff.2 ⟨hne, hds⟩)))
      · refine .inl (.inr ?_)
        rw [show whole ++ Numeral.fractionText (some ds) = whole ++ ['.'] ++ ds by
          simp [Numeral.fractionText]]
        exact Language.append_mem_mul (Language.append_mem_mul (mem_oneOrMore_iff.2 ⟨hne, hwhole⟩)
          (mem_point_iff.2 rfl)) (mem_many_iff.2 hds)

theorem mem_maybe_sign_iff : w ∈ maybe (one sign) ↔ SignPart w := by
  simp only [mem_maybe_iff, mem_one_iff, mem_sign_iff, SignPart]

theorem mem_digitString_iff : w ∈ oneOrMore digit ↔ w ≠ [] ∧ Numeral.Digits w := by
  simp only [mem_oneOrMore_iff, mem_digit_iff, Numeral.Digits]

theorem mem_exponent_iff {mark : Set Char} : w ∈ exponent mark ↔ ∃ c sign ds, w = c :: (sign ++ ds) ∧
    c ∈ mark ∧ SignPart sign ∧ ds ≠ [] ∧ Numeral.Digits ds := by
  rw [exponent, Language.mem_mul]
  constructor
  · rintro ⟨_, h, ds, hds, rfl⟩
    obtain ⟨_, ⟨c, hc, rfl⟩, sign, hsign, rfl⟩ := Language.mem_mul.1 h
    exact ⟨c, sign, ds, by simp, hc, mem_maybe_sign_iff.1 hsign, mem_digitString_iff.1 hds⟩
  · rintro ⟨c, sign, ds, rfl, hc, hsign, hds⟩
    exact ⟨c :: sign, Language.append_mem_mul (a := [c]) ⟨c, hc, rfl⟩ (mem_maybe_sign_iff.2 hsign), ds,
      mem_digitString_iff.2 hds, by simp⟩

theorem mem_decimal_iff : w ∈ decimal ↔ ∃ n : Numeral, n.Valid ∧ n.spelling = w := by
  have hspelling (n : Numeral) : n.spelling = n.sign ++ (n.whole ++ Numeral.fractionText n.fraction) ++
      Numeral.exponentText n.exponent := by
    simpa using Numeral.spelling_append n []
  rw [decimal, Language.mem_mul]
  constructor
  · rintro ⟨_, h, e, he, rfl⟩
    obtain ⟨sign, hsign, ds, hds, rfl⟩ := Language.mem_mul.1 h
    rw [mem_maybe_sign_iff] at hsign
    obtain ⟨whole, fraction, rfl, hwhole, hfraction, hdigits⟩ :=
      (mem_digits_iff fun _ => mem_digit_iff).1 hds
    rcases mem_maybe_iff.1 he with rfl | he
    · exact ⟨⟨sign, whole, fraction, none⟩,
        ⟨hsign, hwhole, hfraction, hdigits, fun _ h => by cases h⟩, hspelling _⟩
    · obtain ⟨c, esign, eds, rfl, hc, hesign, hne, heds⟩ := mem_exponent_iff.1 he
      refine ⟨⟨sign, whole, fraction, some (c, esign, eds)⟩,
        ⟨hsign, hwhole, hfraction, hdigits, ?_⟩, hspelling _⟩
      rintro _ ⟨⟩
      exact ⟨by simpa using hc, hesign, heds, hne⟩
  · rintro ⟨n, hn, rfl⟩
    have hdigits : n.whole ++ Numeral.fractionText n.fraction ∈ digits digit :=
      (mem_digits_iff fun _ => mem_digit_iff).2
        ⟨n.whole, n.fraction, rfl, hn.whole, hn.fraction, hn.digits⟩
    refine ⟨_, Language.append_mem_mul (mem_maybe_sign_iff.2 hn.sign) hdigits, _, ?_, (hspelling n).symm⟩
    cases he : n.exponent with
    | none => exact .inl rfl
    | some e =>
      obtain ⟨c, sign, ds⟩ := e
      obtain ⟨hc, hsign, hds, hne⟩ := hn.exponent _ he
      exact .inr (mem_exponent_iff.2 ⟨c, sign, ds, rfl, by simpa using hc, hsign, hne, hds⟩)

end Members

/-! ## Longest words -/

section Longest

variable {L : Language Char} {cs w : List Char}

/-- A language with a word at the front of a text has a longest one there. -/
theorem exists_longest (hw : w ∈ L) (hfront : w <+: cs) : ∃ w', Longest L cs w' := by
  generalize hn : cs.length - w.length = n
  induction n using Nat.strong_induction_on generalizing w with
  | _ n ih =>
    by_cases hlongest : ∀ w' ∈ L, w' <+: cs → w'.length ≤ w.length
    · exact ⟨w, hw, hfront, hlongest⟩
    · push Not at hlongest
      obtain ⟨w', hw', hfront', hlt⟩ := hlongest
      have := hfront'.length_le
      exact ih _ (by omega) hw' hfront' rfl

/-- A longest word does not go on. -/
theorem Longest.not_mem_append {x rest : List Char} (h : Longest L (w ++ (x ++ rest)) w) (hx : x ≠ []) :
    w ++ x ∉ L := by
  intro hmem
  have hle := h.longest (w ++ x) hmem ⟨rest, by simp⟩
  have hpos := List.length_pos_iff.2 hx
  rw [List.length_append] at hle
  omega

theorem longest_name_iff : Longest name cs w ↔
    IsName (String.ofList w) ∧ ∃ rest, cs = w ++ rest ∧ StopsAt isIdRest rest := by
  constructor
  · intro h
    obtain ⟨rest, rfl⟩ := h.front
    refine ⟨mem_name_iff.1 h.mem, rest, rfl, ?_⟩
    cases rest with
    | nil => exact stopsAt_nil _
    | cons c rest =>
      refine stopsAt_cons.2 (Bool.eq_false_iff.2 fun hc => ?_)
      refine h.not_mem_append (x := [c]) (List.cons_ne_nil c []) (mem_name_iff.2 ?_)
      obtain ⟨d, ds, hw, hd, hds⟩ := mem_name_iff.1 h.mem
      rw [String.toList_ofList] at hw
      refine ⟨d, ds ++ [c], by rw [String.toList_ofList, hw, List.cons_append], hd, ?_⟩
      intro d' hd'
      rcases List.mem_append.1 hd' with hd' | hd'
      · exact hds d' hd'
      · rwa [List.mem_singleton.1 hd']
  · rintro ⟨hw, rest, rfl, hstop⟩
    refine ⟨mem_name_iff.2 hw, ⟨rest, rfl⟩, ?_⟩
    intro w' hw' hfront
    by_contra hlt
    rw [not_le] at hlt
    -- A longer word has the character behind `w` in it.
    obtain ⟨x, rfl⟩ := List.prefix_of_prefix_length_le ⟨rest, rfl⟩ hfront hlt.le
    obtain ⟨more, hmore⟩ := hfront
    rw [List.append_assoc, List.append_cancel_left_eq] at hmore
    subst hmore
    cases x with
    | nil => simp at hlt
    | cons c x =>
      have hc := (mem_name_iff.1 hw').idRest c (by simp)
      rw [stopsAt_cons.1 hstop] at hc
      cases hc

end Longest

/-! ## The longest number -/

section Decimal

variable {n : Numeral} {rest cs w : List Char}

/-- A digit more. -/
def addDigit (d : Char) (n : Numeral) : Numeral :=
  match n.exponent, n.fraction with
  | some (mark, sign, ds), _ => { n with exponent := some (mark, sign, ds ++ [d]) }
  | none, some ds => { n with fraction := some (ds ++ [d]) }
  | none, none => { n with whole := n.whole ++ [d] }

theorem digits_append {ds : List Char} {d : Char} (hds : Numeral.Digits ds) (hd : d.isDigit = true) :
    Numeral.Digits (ds ++ [d]) := by
  intro c hc
  rcases List.mem_append.1 hc with hc | hc
  · exact hds c hc
  · rwa [List.mem_singleton.1 hc]

theorem addDigit_valid {d : Char} (hn : n.Valid) (hd : d.isDigit = true) :
    (addDigit d n).Valid ∧ (addDigit d n).spelling = n.spelling ++ [d] := by
  obtain ⟨sign, whole, fraction, exponent⟩ := n
  obtain ⟨hsign, hwhole, hfraction, hdigits, hexponent⟩ := hn
  cases exponent with
  | some e =>
    obtain ⟨mark, esign, ds⟩ := e
    obtain ⟨hmark, hesign, hds, hne⟩ := hexponent _ rfl
    refine ⟨⟨hsign, hwhole, hfraction, hdigits, ?_⟩, by simp [addDigit, Numeral.spelling]⟩
    rintro _ ⟨⟩
    exact ⟨hmark, hesign, digits_append hds hd, by simp⟩
  | none =>
    cases fraction with
    | some ds =>
      refine ⟨⟨hsign, hwhole, ?_, .inr ⟨_, rfl, by simp⟩, hexponent⟩,
        by simp [addDigit, Numeral.spelling]⟩
      rintro _ ⟨⟩
      exact digits_append (hfraction ds rfl) hd
    | none =>
      exact ⟨⟨hsign, digits_append hwhole hd, hfraction, .inl (by simp [addDigit]), hexponent⟩,
        by simp [addDigit, Numeral.spelling]⟩

/-- A number that can go on can go on by a digit, by an exponent or by a point. -/
theorem ends_of_longest (hn : n.Valid) (h : Longest decimal (n.spelling ++ rest) n.spelling) :
    n.Ends rest := by
  refine ⟨?_, ?_, ?_⟩
  · cases rest with
    | nil => exact stopsAt_nil _
    | cons d rest =>
      refine stopsAt_cons.2 (Bool.eq_false_iff.2 fun hd => ?_)
      obtain ⟨hvalid, hspelling⟩ := addDigit_valid hn hd
      exact h.not_mem_append (x := [d]) (by simp) (mem_decimal_iff.2 ⟨_, hvalid, hspelling⟩)
  · intro hnone
    rw [Option.eq_none_iff_forall_ne_some]
    intro e he
    obtain ⟨hexponent, more, rfl, -⟩ := Numeral.readExponent_eq_some_iff.1 he
    obtain ⟨mark, cs, htext, -⟩ := hexponent.head
    refine h.not_mem_append (x := Numeral.exponentText (some e)) (by simp [htext]) ?_
    refine mem_decimal_iff.2 ⟨{ n with exponent := some e },
      ⟨hn.sign, hn.whole, hn.fraction, hn.digits, ?_⟩, ?_⟩
    · rintro _ ⟨⟩
      exact hexponent
    · obtain ⟨mark, sign, ds⟩ := e
      simp [Numeral.spelling, hnone, Numeral.exponentText]
  · intro hnone hwhole hpoint
    obtain ⟨more, rfl⟩ := List.head?_eq_some_iff.1 hpoint
    refine h.not_mem_append (x := ['.']) (by simp) ?_
    refine mem_decimal_iff.2 ⟨{ n with fraction := some [] },
      ⟨hn.sign, hn.whole, ?_, ?_, hn.exponent⟩, ?_⟩
    · rintro _ ⟨⟩
      exact List.forall_mem_nil _
    · refine .inl (hn.digits.resolve_right ?_)
      rintro ⟨ds, hds, -⟩
      simp [hwhole] at hds
    · simp [Numeral.spelling, hnone, hwhole]

theorem longest_decimal_iff :
    Longest decimal cs w ↔ ∃ n, Numeral.read? cs = some n ∧ n.spelling = w := by
  have hread {w : List Char} (h : Longest decimal cs w) :
      ∃ n, Numeral.read? cs = some n ∧ n.spelling = w := by
    obtain ⟨rest, rfl⟩ := h.front
    obtain ⟨n, hn, rfl⟩ := mem_decimal_iff.1 h.mem
    exact ⟨n, Numeral.read?_eq_some_iff.2 ⟨hn, rest, rfl, ends_of_longest hn h⟩, rfl⟩
  constructor
  · exact hread
  · rintro ⟨n, hn, rfl⟩
    -- There is a longest number, and it is the one that is read.
    obtain ⟨hvalid, rest, hcs, -⟩ := Numeral.read?_eq_some_iff.1 hn
    obtain ⟨w, hw⟩ := exists_longest (mem_decimal_iff.2 ⟨n, hvalid, rfl⟩) ⟨rest, hcs.symm⟩
    obtain ⟨n', hn', rfl⟩ := hread hw
    obtain rfl : n = n' := Option.some.inj (hn.symm.trans hn')
    exact hw

end Decimal

/-! ## Hexadecimal numbers -/

section Hexadecimal

variable {cs w body : List Char}

theorem mem_hexMark_iff : w ∈ hexMark ↔
    ∃ sign x, SignPart sign ∧ (x = 'x' ∨ x = 'X') ∧ w = sign ++ ['0', x] := by
  rw [hexMark, Language.mem_mul]
  constructor
  · rintro ⟨_, h, _, ⟨x, hx, rfl⟩, rfl⟩
    obtain ⟨sign, hsign, _, ⟨c, hc, rfl⟩, rfl⟩ := Language.mem_mul.1 h
    obtain rfl : c = '0' := hc
    exact ⟨sign, x, mem_maybe_sign_iff.1 hsign, hx, by simp⟩
  · rintro ⟨sign, x, hsign, hx, rfl⟩
    exact ⟨sign ++ ['0'], Language.append_mem_mul (mem_maybe_sign_iff.2 hsign) ⟨'0', rfl, rfl⟩, [x],
      ⟨x, hx, rfl⟩, by simp⟩

theorem hexBody?_eq_some_iff : hexBody? cs = some body ↔ ∃ w ∈ hexMark, cs = w ++ body := by
  constructor
  · intro h
    rcases hsplit : splitSign cs with ⟨sign, rest⟩
    obtain ⟨rfl, hsign, -⟩ := splitSign_eq_iff.1 hsplit
    unfold hexBody? at h
    rw [hsplit] at h
    dsimp only at h
    split at h
    · next x rest =>
      split at h
      · next hx =>
        cases h
        exact ⟨_, mem_hexMark_iff.2 ⟨sign, x, hsign, hx, rfl⟩, by simp⟩
      · cases h
    · cases h
  · rintro ⟨w, hw, rfl⟩
    obtain ⟨sign, x, hsign, hx, rfl⟩ := mem_hexMark_iff.1 hw
    have hsplit : splitSign (sign ++ ['0', x] ++ body) = (sign, '0' :: x :: body) :=
      splitSign_eq_iff.2 ⟨by simp, hsign, fun _ => stopsAt_cons.2 rfl⟩
    unfold hexBody?
    rw [hsplit]
    exact if_pos hx

theorem starts_hexMark_mul {L : Language Char} :
    Starts (hexMark * L) cs ↔ ∃ body, hexBody? cs = some body ∧ Starts L body := by
  constructor
  · rintro ⟨_, hw, rest, rfl⟩
    obtain ⟨m, hm, v, hv, rfl⟩ := Language.mem_mul.1 hw
    exact ⟨v ++ rest, hexBody?_eq_some_iff.2 ⟨m, hm, by simp⟩, v, hv, rest, rfl⟩
  · rintro ⟨body, hbody, v, hv, rest, rfl⟩
    obtain ⟨m, hm, rfl⟩ := hexBody?_eq_some_iff.1 hbody
    exact ⟨m ++ v, Language.append_mem_mul hm hv, rest, by simp⟩

theorem startsWithHexInteger_iff : startsWithHexInteger cs = true ↔ Starts hexInteger cs := by
  rw [hexInteger, starts_hexMark_mul, startsWithHexInteger, Option.any_eq_true]
  refine exists_congr fun body => and_congr_right fun _ => ?_
  rw [Option.any_eq_true]
  constructor
  · rintro ⟨c, hhead, hc⟩
    obtain ⟨rest, rfl⟩ := List.head?_eq_some_iff.1 hhead
    exact ⟨[c], mem_oneOrMore_iff.2 ⟨by simp, by simpa [mem_hexDigit_iff] using hc⟩, rest, rfl⟩
  · rintro ⟨w, hw, rest, rfl⟩
    obtain ⟨hne, hw⟩ := mem_oneOrMore_iff.1 hw
    obtain ⟨c, w, rfl⟩ := List.exists_cons_of_ne_nil hne
    exact ⟨c, rfl, mem_hexDigit_iff.1 (hw c List.mem_cons_self)⟩

theorem startsWithPower_iff : startsWithPower cs = true ↔ Starts (exponent {'p', 'P'}) cs := by
  constructor
  · intro h
    unfold startsWithPower at h
    split at h
    · next c cs =>
      rcases hsplit : splitSign cs with ⟨sign, rest⟩
      obtain ⟨rfl, hsign, -⟩ := splitSign_eq_iff.1 hsplit
      rw [hsplit, Bool.and_eq_true, Option.any_eq_true] at h
      obtain ⟨hc, d, hhead, hd⟩ := h
      obtain ⟨rest, rfl⟩ := List.head?_eq_some_iff.1 hhead
      exact ⟨c :: (sign ++ [d]),
        mem_exponent_iff.2 ⟨c, sign, [d], rfl, by simpa using hc, hsign, by simp,
          by simpa [Numeral.Digits] using hd⟩, rest, by simp⟩
    · cases h
  · rintro ⟨w, hw, rest, rfl⟩
    obtain ⟨c, sign, ds, rfl, hc, hsign, hne, hds⟩ := mem_exponent_iff.1 hw
    obtain ⟨d, ds, rfl⟩ := List.exists_cons_of_ne_nil hne
    have hd := hds d List.mem_cons_self
    have hsplit : splitSign (sign ++ (d :: ds ++ rest)) = (sign, d :: ds ++ rest) :=
      splitSign_eq_iff.2 ⟨rfl, hsign, fun _ => stopsAt_cons.2 (isSign_of_isDigit hd)⟩
    have hmark : (c = 'p' || c = 'P') = true := by simpa using hc
    rw [List.cons_append, List.append_assoc, startsWithPower, hsplit, hmark]
    exact hd

/-- Neither the point nor the mark of an exponent is a digit. -/
theorem startsWithHexFloat_iff : startsWithHexFloat cs = true ↔ Starts hexFloat cs := by
  rw [hexFloat, mul_assoc, starts_hexMark_mul, startsWithHexFloat]
  cases hbody : hexBody? cs with
  | none => simp
  | some body =>
  simp only [Option.some.injEq, exists_eq_left']
  have hdigits {w : List Char} := @mem_digits_iff hexDigit w isHexDigit fun _ => mem_hexDigit_iff
  constructor
  · intro h
    obtain ⟨hcs, hwhole, hstop⟩ := (@takeWhile_dropWhile_iff isHexDigit body _ _).1 ⟨rfl, rfl⟩
    generalize body.takeWhile isHexDigit = whole, body.dropWhile isHexDigit = more at hcs hwhole hstop h
    subst hcs
    split at h
    · next after =>
      obtain ⟨hafter, hds, -⟩ := (@takeWhile_dropWhile_iff isHexDigit after _ _).1 ⟨rfl, rfl⟩
      generalize after.takeWhile isHexDigit = ds, after.dropWhile isHexDigit = more at hafter hds h
      subst hafter
      rw [Bool.and_eq_true, startsWithPower_iff] at h
      obtain ⟨hne, e, he, rest, rfl⟩ := h
      refine ⟨(whole ++ Numeral.fractionText (some ds)) ++ e, Language.append_mem_mul (hdigits.2
        ⟨whole, some ds, rfl, hwhole, ?_, ?_⟩) he, rest, by simp [Numeral.fractionText]⟩
      · rintro _ ⟨⟩
        exact hds
      · by_cases hw : whole = []
        · refine .inr ⟨ds, rfl, ?_⟩
          rintro rfl
          simp [hw] at hne
        · exact .inl hw
    · rw [Bool.and_eq_true, startsWithPower_iff] at h
      obtain ⟨hne, e, he, rest, rfl⟩ := h
      exact ⟨(whole ++ Numeral.fractionText none) ++ e, Language.append_mem_mul (hdigits.2
        ⟨whole, none, rfl, hwhole, by simp, .inl (by simpa using hne)⟩) he, rest,
          by simp [Numeral.fractionText]⟩
  · rintro ⟨_, hw, rest, rfl⟩
    obtain ⟨_, hfront, e, he, rfl⟩ := Language.mem_mul.1 hw
    obtain ⟨whole, fraction, rfl, hwhole, hfraction, hne⟩ := hdigits.1 hfront
    have hpower : startsWithPower (e ++ rest) = true := startsWithPower_iff.2 ⟨e, he, rest, rfl⟩
    have hstop : StopsAt isHexDigit (e ++ rest) ∧ (e ++ rest).head? ≠ some '.' := by
      obtain ⟨c, sign, ds, rfl, hc, -⟩ := mem_exponent_iff.1 he
      rcases hc with rfl | rfl
      · exact ⟨stopsAt_cons.2 rfl, by simp⟩
      · exact ⟨stopsAt_cons.2 rfl, by simp⟩
    cases fraction with
    | some ds =>
      have hpoint : StopsAt isHexDigit ('.' :: (ds ++ (e ++ rest))) := stopsAt_cons.2 rfl
      obtain ⟨htake, hdrop⟩ := takeWhile_dropWhile_iff.2 ⟨rfl, hwhole, hpoint⟩
      obtain ⟨htake', hdrop'⟩ := takeWhile_dropWhile_iff.2 ⟨rfl, hfraction ds rfl, hstop.1⟩
      have hbody : whole ++ Numeral.fractionText (some ds) ++ e ++ rest =
          whole ++ '.' :: (ds ++ (e ++ rest)) := by simp [Numeral.fractionText]
      rw [hbody, htake, hdrop]
      show (!(whole.isEmpty && ((ds ++ (e ++ rest)).takeWhile isHexDigit).isEmpty) &&
        startsWithPower ((ds ++ (e ++ rest)).dropWhile isHexDigit)) = true
      rw [htake', hdrop', hpower]
      simpa [or_iff_not_imp_left] using hne
    | none =>
      obtain ⟨htake, hdrop⟩ := takeWhile_dropWhile_iff.2 ⟨rfl, hwhole, hstop.1⟩
      have hbody : whole ++ Numeral.fractionText none ++ e ++ rest = whole ++ (e ++ rest) := by
        simp [Numeral.fractionText]
      rw [hbody, htake, hdrop]
      split
      · next after hafter => simp [hafter] at hstop
      · rw [hpower]
        simpa using hne

end Hexadecimal

/-! ## What a number denotes -/

section Denotes

variable {n : Numeral} {r : Except ScanFault Lexeme}

theorem isFloat_iff (hn : n.Valid) : n.isFloat = true ↔ IsFloat n.spelling := by
  obtain ⟨sign, whole, fraction, exponent⟩ := n
  cases fraction with
  | some ds => exact iff_of_true rfl (.inl (by simp [Numeral.spelling]))
  | none =>
    cases exponent with
    | some e =>
      obtain ⟨mark, esign, ds⟩ := e
      obtain ⟨hmark, -⟩ := hn.exponent _ rfl
      refine iff_of_true rfl (.inr ?_)
      rcases hmark with rfl | rfl
      · exact .inl (by simp [Numeral.spelling])
      · exact .inr (by simp [Numeral.spelling])
    | none =>
      -- Signs and digits only.
      refine iff_of_false (by simp [Numeral.isFloat]) fun h => ?_
      have hmem : ∀ c ∈ sign ++ whole, isSign c = true ∨ c.isDigit = true := by
        intro c hc
        rcases List.mem_append.1 hc with hc | hc
        · rcases hn.sign with hsign | ⟨d, hd, hsign⟩
          · simp [show sign = [] from hsign] at hc
          · rw [show sign = [d] from hsign, List.mem_singleton] at hc
            exact .inl (hc ▸ hd)
        · exact .inr (hn.whole c hc)
      simp only [IsFloat, Numeral.spelling, List.append_nil] at h
      rcases h with h | h | h <;> exact absurd (hmem _ h) (by decide)

theorem integerValue_spelling (hn : n.Valid) (h : n.isFloat = false) :
    integerValue n.spelling = n.integer := by
  obtain ⟨sign, whole, fraction, exponent⟩ := n
  obtain ⟨hf, he⟩ : fraction = none ∧ exponent = none := by simpa [Numeral.isFloat] using h
  subst hf he
  have hspelling : (⟨sign, whole, none, none⟩ : Numeral).spelling = sign ++ whole := by
    simp [Numeral.spelling]
  rw [hspelling, integer_plain]
  rcases hn.sign with hsign | ⟨c, hc, hsign⟩
  · obtain rfl : sign = [] := hsign
    unfold integerValue
    split
    · next ds hds => exact absurd (hn.whole '-' (by simp [show whole = _ from hds])) (by decide)
    · next ds hds => exact absurd (hn.whole '+' (by simp [show whole = _ from hds])) (by decide)
    · rfl
  · obtain rfl : sign = [c] := hsign
    rcases (by simpa [isSign] using hc : c = '+' ∨ c = '-') with rfl | rfl <;> rfl

theorem int64?_eq_some_iff {v : Int} {i : Int64} : int64? v = some i ↔ i.toInt = v := by
  unfold int64?
  constructor
  · intro h
    split at h
    · next hv =>
      cases h
      exact Int64.toInt_ofInt_of_le hv.1 (Int.lt_of_le_of_lt hv.2 (by decide))
    · cases h
  · rintro rfl
    rw [if_pos ⟨i.minValue_le_toInt, i.toInt_le⟩, Int64.ofInt_toInt]

theorem denotes_iff (hn : n.Valid) : Denotes n.spelling r ↔ decimalLexeme n = r := by
  unfold decimalLexeme
  dsimp only
  constructor
  · rintro (⟨hw, hvalid, hspelling⟩ | ⟨hw, hi⟩ | ⟨hw, hi⟩)
    · next n' =>
      -- A valid number is read off its own spelling, so it is the only one of that spelling.
      have hread {n : Numeral} (hn : n.Valid) : Numeral.read? n.spelling = some n := by
        refine Numeral.read?_eq_some_iff.2 ⟨hn, [], (List.append_nil _).symm, ?_⟩
        exact Numeral.ends_of_head (stopsAt_nil _) fun _ h => by cases h
      obtain rfl : n' = n := Option.some.inj ((hread hvalid).symm.trans (hspelling ▸ hread hn))
      rw [if_pos ((isFloat_iff hn).2 hw)]
    · rw [← isFloat_iff hn, Bool.not_eq_true] at hw
      rw [integerValue_spelling hn hw] at hi
      rw [if_neg (by simp [hw]), int64?_eq_some_iff.2 hi]
    · rw [← isFloat_iff hn, Bool.not_eq_true] at hw
      rw [integerValue_spelling hn hw] at hi
      have hnone : int64? n.integer = none := by
        rw [Option.eq_none_iff_forall_ne_some]
        exact fun i h => hi i (int64?_eq_some_iff.1 h)
      rw [if_neg (by simp [hw]), hnone]
  · rintro rfl
    by_cases hw : n.isFloat = true
    · rw [if_pos hw]
      exact .float ((isFloat_iff hn).1 hw) hn rfl
    · rw [if_neg hw]
      rw [Bool.not_eq_true] at hw
      have hplain : ¬ IsFloat n.spelling := by simp [← isFloat_iff hn, hw]
      cases hi : int64? n.integer with
      | some i =>
        exact .integer hplain (by rw [integerValue_spelling hn hw, int64?_eq_some_iff.1 hi])
      | none =>
        refine .invalid hplain fun i h => ?_
        rw [integerValue_spelling hn hw, ← int64?_eq_some_iff, hi] at h
        cases h

end Denotes

/-! ## The scanner follows the rules -/

section Scan

variable {cs : List Char} {r : Except ScanFault Lexeme}

theorem boolean_iff : boolean cs r ↔ booleanWord cs = some r := by
  rw [booleanWord_eq_some_iff]
  refine exists_congr fun b => exists_congr fun rest => ?_
  constructor
  · rintro ⟨hcs, hstop, hr⟩
    exact ⟨hr, hcs, hstop⟩
  · rintro ⟨hr, hcs, hstop⟩
    exact ⟨hcs, hstop, hr⟩

theorem identifier_iff : identifier cs r ↔ FlatSchema.identifier cs = some r := by
  rw [identifier_eq_some_iff]
  constructor
  · rintro ⟨w, hw, rfl⟩
    obtain ⟨hname, rest, hcs, hstop⟩ := longest_name_iff.1 hw
    exact ⟨_, rest, rfl, by rwa [String.toList_ofList], hname, hstop⟩
  · rintro ⟨name, rest, rfl, hcs, hname, hstop⟩
    refine ⟨name.toList, longest_name_iff.2 ⟨?_, rest, hcs, hstop⟩, ?_⟩
    · rwa [String.ofList_toList]
    · rw [String.ofList_toList]

theorem string_iff : string cs r ↔ quotedString cs = some r := by
  rw [quotedString_eq_some_iff]
  constructor
  · rintro ⟨quote, inner, rest, rfl, hquote, hinner, rfl⟩
    refine ⟨quote, String.ofList inner, rest, rfl, ?_, hquote, ?_⟩
    · rw [text_string, String.toList_ofList]
    · simpa only [String.toList_ofList, notMem_lineEnd_iff] using hinner
  · rintro ⟨quote, contents, rest, rfl, rfl, hquote, hinner⟩
    refine ⟨quote, contents.toList, rest, text_string .., hquote, ?_, by rw [String.ofList_toList]⟩
    simpa only [notMem_lineEnd_iff] using hinner

theorem hexadecimal_iff : hexadecimal cs r ↔ hexNumber cs = some r := by
  rw [hexadecimal, ← startsWithHexFloat_iff, ← startsWithHexInteger_iff]
  constructor
  · rintro (⟨hfloat, rfl⟩ | ⟨hfloat, hinteger, rfl⟩)
    · rw [hexNumber, if_pos hfloat]
    · rw [hexNumber, if_neg hfloat, if_pos hinteger]
  · intro h
    unfold hexNumber at h
    split at h
    · next hfloat => exact .inl ⟨hfloat, (Option.some.inj h).symm⟩
    · next hfloat =>
      split at h
      · next hinteger => exact .inr ⟨hfloat, hinteger, (Option.some.inj h).symm⟩
      · cases h

theorem number_iff : number cs r ↔ decimalNumber cs = some r := by
  rw [decimalNumber, Option.map_eq_some_iff]
  constructor
  · rintro ⟨w, hw, hr⟩
    obtain ⟨n, hn, rfl⟩ := longest_decimal_iff.1 hw
    exact ⟨n, hn, (denotes_iff (Numeral.read?_eq_some_iff.1 hn).1).1 hr⟩
  · rintro ⟨n, hn, hr⟩
    exact ⟨n.spelling, longest_decimal_iff.2 ⟨n, hn, rfl⟩,
      (denotes_iff (Numeral.read?_eq_some_iff.1 hn).1).2 hr⟩

theorem mark_iff : mark cs r ↔ punctuationMark cs = some r := by
  cases cs with
  | nil => simp [mark, punctuationMark]
  | cons c cs => simp [mark, punctuationMark, mem_marks_iff, eq_comm]

/-- The rule for the end of a text. -/
def textEnd : FlatSchema.Rule
  | [] => some (.ok .eof)
  | _ => none

theorem ending_iff : ending cs r ↔ textEnd cs = some r := by
  cases cs with
  | nil => simp [ending, textEnd, eq_comm]
  | cons c cs => simp [ending, textEnd]

/-- Rules that are functions, in the same order. -/
theorem first_iff {rules : List Rule} {scanners : List FlatSchema.Rule}
    (h : List.Forall₂ (fun rule f => ∀ r, rule cs r ↔ f cs = some r) rules scanners) :
    First rules cs r ↔ scanners.findSome? (· cs) = some r := by
  induction h with
  | nil => simp [First]
  | @cons rule f rules scanners hrule _ ih =>
    rw [First, List.findSome?_cons, ih, hrule r]
    cases hf : f cs with
    | none => simp [hrule, hf]
    | some r' => simp [hrule, hf]

theorem none_iff {rules : List Rule} {scanners : List FlatSchema.Rule}
    (h : List.Forall₂ (fun rule f => ∀ r, rule cs r ↔ f cs = some r) rules scanners) :
    (∀ rule ∈ rules, ∀ r, ¬ rule cs r) ↔ scanners.findSome? (· cs) = none := by
  induction h with
  | nil => simp
  | @cons rule f rules scanners hrule _ ih =>
    rw [List.forall_mem_cons, List.findSome?_cons, ih]
    cases hf : f cs with
    | none => simp [hrule, hf]
    | some r' => simp [hrule, hf]

/-- The scanner's functions, without the comments that skipping refuses and with the end of a text. -/
def scanners : List FlatSchema.Rule :=
  rules.tail ++ [textEnd]

theorem order_scanners (cs : List Char) :
    List.Forall₂ (fun rule f => ∀ r, rule cs r ↔ f cs = some r) order scanners :=
  .cons (fun _ => boolean_iff) <| .cons (fun _ => identifier_iff) <| .cons (fun _ => string_iff) <|
    .cons (fun _ => hexadecimal_iff) <| .cons (fun _ => number_iff) <| .cons (fun _ => mark_iff) <|
      .cons (fun _ => ending_iff) .nil

theorem dictated_iff : Dictated cs r ↔ scanners.findSome? (· cs) = some r ∨
    ∃ c rest, cs = c :: rest ∧ scanners.findSome? (· cs) = none ∧
      r = .error (.parse (.unknownCharacter c)) := by
  have hfirst := first_iff (r := r) (order_scanners cs)
  have hnone := none_iff (order_scanners cs)
  constructor
  · rintro (h | ⟨hcs, h⟩)
    · exact .inl (hfirst.1 h)
    · exact .inr ⟨_, _, hcs, hnone.1 h, rfl⟩
  · rintro (h | ⟨c, rest, hcs, h, rfl⟩)
    · exact .rule (hfirst.2 h)
    · exact .unknown hcs (hnone.2 h)

theorem scan_eq_iff (h : ¬ ['/', '*'] <+: cs) : scan cs = r ↔ Dictated cs r := by
  rw [dictated_iff]
  cases cs with
  | nil =>
    have hend : scanners.findSome? (· []) = some (.ok .eof) := rfl
    simp [scan, hend]
  | cons c cs =>
    have hblock : blockComment (c :: cs) = none := by
      unfold blockComment
      split
      · next heq => exact absurd ⟨_, heq.symm⟩ h
      · rfl
    have hsame : rules.findSome? (· (c :: cs)) = scanners.findSome? (· (c :: cs)) := by
      have hend : [textEnd].findSome? (· (c :: cs)) = none := rfl
      rw [scanners, List.findSome?_append, hend, Option.or_none]
      conv_lhs => rw [show rules = blockComment :: rules.tail from rfl, List.findSome?_cons, hblock]
    rw [scan, hsame]
    cases hf : scanners.findSome? (· (c :: cs)) with
    | none => simp [eq_comm]
    | some r' => simp

end Scan

end Lexical

/-! ## Top theorem -/

/-- Where layout has been skipped, the next token is what the lexical rules say that the front of the text
is, and there is none where they say so.  Skipping itself refuses a comment that starts with `/*`. -/
theorem token_skip_dictated (i : Input) :
    let here := i.skip
    if ['/', '*'] <+: here.rest then here.token = .error (.unsupported .blockComment)
    else ∀ r : Except ScanFault Lexeme,
      here.token = r.map (fun l => ⟨l, here.position⟩) ↔ Lexical.Dictated here.rest r := by
  intro here
  split
  · next hblock =>
    obtain ⟨rest, hrest⟩ := hblock
    rw [Input.token, ← hrest]
    rfl
  · next hblock =>
    intro r
    rw [← Lexical.scan_eq_iff hblock, Input.token]
    -- The place is the same on both sides.
    cases scan here.rest <;> cases r <;> simp [Except.map]

end FlatSchema
