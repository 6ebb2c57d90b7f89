import FlatSchema.Proofs.Source.Places
import FlatSchema.Proofs.Source.Rules

/-!
# Integer literals are exact

A sign or none and decimal digits denote an integer, each digit times its power of ten
(`literalValue`).  Where what follows does not go on with the number (`Closed`), a cursor reads that
integer, however many digits and leading zeros it has, or refuses it if it is beyond 64 bits:

    (ask .read c).1 = .ok (.token ⟨.integer w n, _⟩)  with n.toInt = literalValue sign ds

The text that an integer is written as is read back as the integer (`ofText_script`).
-/

namespace FlatSchema

/-! ## Literals -/

/-- A sign or none, and digits. -/
structure IsLiteral (sign ds : List Char) : Prop where
  sign : SignPart sign
  digits : Numeral.Digits ds
  ne_nil : ds ≠ []

/-- What follows does not go on with the number: there is no digit, no point and no exponent, and the
zero is not the one of a hexadecimal number. -/
structure Closed (sign ds rest : List Char) : Prop where
  digit : StopsAt Char.isDigit rest
  point : rest.head? ≠ some '.'
  exponent : ¬ Lexical.Starts (Lexical.exponent {'e', 'E'}) rest
  hexFloat : ¬ Lexical.Starts Lexical.hexFloat (sign ++ ds ++ rest)
  hexInteger : ¬ Lexical.Starts Lexical.hexInteger (sign ++ ds ++ rest)

section Literal

variable {sign ds rest : List Char}

theorem spelling_plain (sign ds : List Char) :
    (⟨sign, ds, none, none⟩ : Numeral).spelling = sign ++ ds := by
  simp [Numeral.spelling]

theorem IsLiteral.valid (h : IsLiteral sign ds) : (⟨sign, ds, none, none⟩ : Numeral).Valid :=
  ⟨h.sign, h.digits, by simp, .inl h.ne_nil, by simp⟩

theorem readExponent_eq_none (h : ¬ Lexical.Starts (Lexical.exponent {'e', 'E'}) rest) :
    Numeral.readExponent rest = none := by
  rw [Option.eq_none_iff_forall_ne_some]
  rintro ⟨mark, sign, ds⟩ he
  obtain ⟨⟨hmark, hsign, hds, hne⟩, more, hrest, -⟩ := Numeral.readExponent_eq_some_iff.1 he
  refine h ⟨_, Lexical.mem_exponent_iff.2 ⟨mark, sign, ds, rfl, ?_, hsign, hne, hds⟩, more, hrest.symm⟩
  simpa using hmark

theorem Closed.ends (h : Closed sign ds rest) : (⟨sign, ds, none, none⟩ : Numeral).Ends rest :=
  ⟨h.digit, fun _ => readExponent_eq_none h.exponent, fun _ _ => h.point⟩

theorem Closed.hexNumber_eq_none (h : Closed sign ds rest) : hexNumber (sign ++ ds ++ rest) = none := by
  rw [Option.eq_none_iff_forall_ne_some]
  intro r hr
  rcases Lexical.hexadecimal_iff.2 hr with ⟨hfloat, -⟩ | ⟨-, hinteger, -⟩
  · exact h.hexFloat hfloat
  · exact h.hexInteger hinteger

/-- No character but a digit, a point and the letters `e` and `x` goes on with a number. -/
theorem closed_of_head (h : IsLiteral sign ds) (hrest : ∀ c ∈ rest.head?, c.isDigit = false ∧
    c ∉ ['.', 'e', 'E', 'x', 'X']) : Closed sign ds rest := by
  have hbody : hexBody? (sign ++ ds ++ rest) = none := by
    rw [← spelling_plain sign ds]
    refine Numeral.hexBody?_spelling h.valid fun c hc => ?_
    have hletter := (hrest c hc).2
    exact ⟨fun hx => hletter (by simp [hx]), fun hX => hletter (by simp [hX])⟩
  have hhex : ∀ L : Language Char, ¬ Lexical.Starts (Lexical.hexMark * L) (sign ++ ds ++ rest) := by
    intro L hL
    obtain ⟨body, hsome, -⟩ := Lexical.starts_hexMark_mul.1 hL
    rw [hbody] at hsome
    cases hsome
  refine ⟨fun c hc => (hrest c hc).1, fun hpoint => (hrest '.' hpoint).2 (by simp), ?_, ?_, hhex _⟩
  · rintro ⟨w, hw, more, rfl⟩
    obtain ⟨mark, sign, ds, rfl, hmark, -⟩ := Lexical.mem_exponent_iff.1 hw
    refine (hrest mark rfl).2 ?_
    rcases (by simpa using hmark : mark = 'e' ∨ mark = 'E') with rfl | rfl <;> decide
  · rw [Lexical.hexFloat, mul_assoc]
    exact hhex _

theorem scan_literal (h : IsLiteral sign ds) (hrest : Closed sign ds rest) :
    scan (sign ++ ds ++ rest) =
      match int64? (literalValue sign ds) with
      | some n => .ok (.integer (String.ofList (sign ++ ds)) n)
      | none => .error (.parse (.invalidInteger (String.ofList (sign ++ ds)))) := by
  have hscan := scan_spelling h.valid hrest.ends (by rw [spelling_plain]; exact hrest.hexNumber_eq_none)
  rw [spelling_plain] at hscan
  rw [hscan, decimalLexeme, spelling_plain, integer_plain]
  rfl

theorem int64?_eq_none_iff {v : Int} : int64? v = none ↔ ¬ (-2 ^ 63 ≤ v ∧ v ≤ 2 ^ 63 - 1) := by
  have hmin : Int64.minValue.toInt = -2 ^ 63 := by decide
  have hmax : Int64.maxValue.toInt = 2 ^ 63 - 1 := by decide
  rw [int64?, hmin, hmax]
  split
  · next h => exact iff_of_false (by simp) (not_not.2 h)
  · next h => exact iff_of_true rfl h

/-- What every call is answered from where a literal is next. -/
theorem ask_literal (c : Cursor) (hahead : c.ahead = none) (htext : c.input.skip.rest = sign ++ ds ++ rest)
    (h : IsLiteral sign ds) (hrest : Closed sign ds rest) (k : Call) :
    (ask k c).1 = match int64? (literalValue sign ds) with
      | some n => k.answer c.file ⟨.integer (String.ofList (sign ++ ds)) n, c.input.skip.position⟩
      | none => .error
        (.parse (.invalidInteger (String.ofList (sign ++ ds))) ⟨c.file, c.input.skip.position⟩) := by
  have hshows : c.Shows c.file (Stream.readFrom c.file c.input) :=
    ⟨rfl, rfl, fun t ht => by rw [hahead] at ht; cases ht⟩
  rw [(hshows.ask k).1, Stream.head_readFrom, Input.token, htext, scan_literal h hrest]
  cases int64? (literalValue sign ds) <;> rfl

end Literal

/-! ## Integers written out -/

/-- An integer is written as a minus or nothing and digits. -/
theorem exists_literal (z : Int) : ∃ sign ds, (toString z).toList = sign ++ ds ∧ IsLiteral sign ds ∧
    literalValue sign ds = z := by
  have hnat (n : Nat) : Numeral.Digits n.repr.toList ∧ n.repr.toList ≠ [] ∧
      Nat.ofDigits 10 (n.repr.toList.reverse.map fun d => d.toNat - '0'.toNat) = n := by
    rw [Nat.toList_repr]
    refine ⟨fun d hd => Nat.isDigit_of_mem_toDigits (by decide) (by decide) hd, Nat.toDigits_ne_nil, ?_⟩
    rw [← digitsValue_eq_ofDigits, digitsValue, ← Nat.ofDigitChars_eq_foldl, Nat.ofDigitChars_ten_toDigits]
  rw [Int.toString_eq_repr, Int.repr_eq_if]
  split
  · next hz =>
    obtain ⟨hdigits, hne, hvalue⟩ := hnat z.toNat
    refine ⟨[], z.toNat.repr.toList, rfl, ⟨.inl rfl, hdigits, hne⟩, ?_⟩
    rw [literalValue, hvalue]
    simpa using hz
  · next hz =>
    obtain ⟨hdigits, hne, hvalue⟩ := hnat (-z).toNat
    refine ⟨['-'], (-z).toNat.repr.toList, String.toList_append .., ⟨.inr ⟨'-', rfl, rfl⟩, hdigits, hne⟩, ?_⟩
    rw [literalValue, hvalue, if_pos rfl]
    omega

/-- What an integer is written as is read back. -/
theorem ofText_script (file : String) (n : Int64) : Stream.ofText file (Value.integer n).script =
    .token ⟨.integer (Value.integer n).script n, ⟨1, 1⟩⟩
      (.eof ⟨1, 1 + (Value.integer n).script.length⟩) := by
  obtain ⟨sign, ds, htext, hliteral, hvalue⟩ := exists_literal n.toInt
  have hclosed : Closed sign ds [] := closed_of_head hliteral (by simp)
  have hscan : scan (Value.integer n).script.toList = .ok (.integer (Value.integer n).script n) := by
    have hscan := scan_literal hliteral hclosed
    rwa [hvalue, Lexical.int64?_eq_some_iff.2 rfl, List.append_nil, ← htext, String.ofList_toList] at hscan
  obtain ⟨c, cs, hcs, hc⟩ := hliteral.valid.head []
  rw [spelling_plain, List.append_nil, ← htext] at hcs
  have hstay : pastLayout false ⟨1, 1⟩ (Value.integer n).script.toList =
      ((Value.integer n).script.toList, ⟨1, 1⟩) := by
    have hlayout : c ∉ layoutStart := by
      intro h
      rw [(layoutStart_apart c h).2.1] at hc
      cases hc
    rw [mem_layoutStart, not_or, not_or] at hlayout
    rw [show (Value.integer n).script.toList = c :: cs from hcs]
    exact pastLayout_stay _ hlayout.2.1 hlayout.1 fun h => hlayout.2.2 h.1
  have hdrop : (Value.integer n).script.toList.drop (Value.integer n).script.length = [] :=
    List.drop_eq_nil_of_le (by rw [String.length_toList])
  have hend (p : Position) : Stream.readChars file p [] = .eof p :=
    Stream.readChars_eq file (show pastLayout false p [] = ([], p) from rfl)
  rw [Stream.ofText_eq_readChars, Stream.readChars_eq file hstay, hscan]
  simp only [reduceCtorEq, if_false, Lexeme.text, hdrop, hend]

/-! ## Top theorem -/

/-- Where a sign or none and digits are next, and what follows does not go on with the number, reading gives
the integer that they denote if it lies in the range of 64 bits, and else refuses it where it stands.  And the
text of every integer of 64 bits is read as that integer. -/
theorem read_literal_exact :
    (∀ (c : Cursor) (sign ds rest : List Char), c.ahead = none → c.input.skip.rest = sign ++ ds ++ rest →
      IsLiteral sign ds → Closed sign ds rest →
        let v := literalValue sign ds
        let spelling := String.ofList (sign ++ ds)
        let place := c.input.skip.position
        if -2 ^ 63 ≤ v ∧ v ≤ 2 ^ 63 - 1 then
          ∃ n : Int64, n.toInt = v ∧ (ask .read c).1 = .ok (.token ⟨.integer spelling n, place⟩) ∧
            (ask .integer c).1 = .ok (.number n)
        else
          ∃ e : CompileError, (ask .read c).1 = .error e ∧ (ask .integer c).1 = .error e ∧
            e = .parse (.invalidInteger spelling) ⟨c.file, place⟩ ∧
            e.message = "Invalid integer '" ++ spelling ++ "'" ++ " at " ++ (Location.mk c.file place).text) ∧
      ∀ (file : String) (n : Int64), Stream.ofText file (Value.integer n).script =
        .token ⟨.integer (Value.integer n).script n, ⟨1, 1⟩⟩
          (.eof ⟨1, 1 + (Value.integer n).script.length⟩) := by
  refine ⟨?_, ofText_script⟩
  intro c sign ds rest hahead htext hliteral hclosed
  dsimp only
  have hread := ask_literal c hahead htext hliteral hclosed .read
  have hinteger := ask_literal c hahead htext hliteral hclosed .integer
  cases hv : int64? (literalValue sign ds) with
  | some n =>
    rw [hv] at hread hinteger
    have hrange := fun h => Option.some_ne_none n (hv.symm.trans (int64?_eq_none_iff.2 h))
    rw [if_pos (not_not.1 hrange)]
    exact ⟨n, Lexical.int64?_eq_some_iff.1 hv, hread, hinteger⟩
  | none =>
    rw [hv] at hread hinteger
    rw [if_neg (int64?_eq_none_iff.1 hv)]
    exact ⟨_, hread, hinteger, rfl, rfl⟩

/-- The least integer of 64 bits with a leading zero, and one more than the greatest. -/
theorem read_literal_exact_bounds :
    (ask .read (.ofText "a.fbs" " -09223372036854775808;")).1 =
        .ok (.token ⟨.integer "-09223372036854775808" Int64.minValue, ⟨1, 2⟩⟩) ∧
      ∃ e, (ask .read (.ofText "a.fbs" "+9223372036854775808")).1 = .error e ∧
        e.message = "Invalid integer '+9223372036854775808' at a.fbs:1:1" := by
  obtain ⟨hread, -⟩ := read_literal_exact
  constructor
  · have hliteral : IsLiteral ['-'] "09223372036854775808".toList :=
      ⟨.inr ⟨'-', rfl, rfl⟩, List.all_eq_true.1 (by decide +kernel), by decide +kernel⟩
    have hleast := hread (.ofText "a.fbs" " -09223372036854775808;") ['-'] "09223372036854775808".toList [';']
      rfl (by decide +kernel) hliteral (closed_of_head hliteral (by simp))
    dsimp only at hleast
    rw [if_pos (by decide +kernel)] at hleast
    obtain ⟨n, hn, hread, -⟩ := hleast
    obtain rfl : n = Int64.minValue := Int64.toInt_inj.1 (hn.trans (by decide +kernel))
    have hplace : (Cursor.ofText "a.fbs" " -09223372036854775808;").input.skip.position = ⟨1, 2⟩ := by
      decide +kernel
    rwa [hplace] at hread
  · have hliteral : IsLiteral ['+'] "9223372036854775808".toList :=
      ⟨.inr ⟨'+', rfl, rfl⟩, List.all_eq_true.1 (by decide +kernel), by decide +kernel⟩
    have hbeyond := hread (.ofText "a.fbs" "+9223372036854775808") ['+'] "9223372036854775808".toList []
      rfl (by decide +kernel) hliteral (closed_of_head hliteral (by simp))
    dsimp only at hbeyond
    rw [if_neg (by decide +kernel)] at hbeyond
    obtain ⟨e, hread, -, -, hmessage⟩ := hbeyond
    exact ⟨e, hread, hmessage.trans (by decide +kernel)⟩

end FlatSchema
