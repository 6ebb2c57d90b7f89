import FlatSchema.Proofs.Script.Getters
import FlatSchema.Proofs.Script.Paths

/-!
# The literal of the file identifier

A literal of a script stands in single quotes, and its value is a list of code units.  A backslash
starts an escape: a control character, a code unit or code point by its number, or the next character
itself.  `literal?` reads a text that is one literal.

The script tests for the file identifier with a literal that holds the identifier as it is written in
the schema.  This literal has the identifier as its value exactly if there is neither a quote nor a
backslash in it (`literal?_quote_iff`): a quote ends the literal early, and the value of what a backslash
starts is shorter than what is written (`escape?_lt`).
-/

namespace FlatSchema

/-! ## Code units -/

/-- The code units of a code point: one, or two above `0xFFFF`. -/
def unitsOf (n : Nat) : List Nat :=
  if n < 0x10000 then [n] else [0xD800 + (n - 0x10000) / 0x400, 0xDC00 + (n - 0x10000) % 0x400]

def units (cs : List Char) : List Nat :=
  cs.flatMap fun c => unitsOf c.toNat

theorem length_unitsOf (n : Nat) : 1 ≤ (unitsOf n).length ∧ (unitsOf n).length ≤ 2 := by
  unfold unitsOf
  split
  · exact ⟨Nat.le_refl 1, Nat.le_succ 1⟩
  · exact ⟨Nat.le_succ 1, Nat.le_refl 2⟩

theorem units_cons (c : Char) (cs : List Char) : units (c :: cs) = unitsOf c.toNat ++ units cs :=
  List.flatMap_cons

theorem units_append (cs ds : List Char) : units (cs ++ ds) = units cs ++ units ds :=
  List.flatMap_append

theorem length_le_units (cs : List Char) : cs.length ≤ (units cs).length := by
  induction cs with
  | nil => exact Nat.le_refl 0
  | cons c cs ih =>
    have hc := (length_unitsOf c.toNat).1
    rw [units_cons, List.length_append, List.length_cons]
    omega

/-! ## Escapes -/

def hexDigit? (c : Char) : Option Nat :=
  if c.isDigit then some (c.toNat - '0'.toNat)
  else if 'a' ≤ c ∧ c ≤ 'f' then some (c.toNat - 'a'.toNat + 10)
  else if 'A' ≤ c ∧ c ≤ 'F' then some (c.toNat - 'A'.toNat + 10)
  else none

def hexValue? (ds : List Char) : Option Nat :=
  ds.foldlM (fun n d => (hexDigit? d).map (16 * n + ·)) 0

def controls : List (Char × Nat) :=
  [('b', 8), ('t', 9), ('n', 10), ('v', 11), ('f', 12), ('r', 13)]

/-- What follows `\u`: four digits, or any number of digits in braces. -/
def codePoint? : List Char → Option (List Nat × Nat)
  | '\x7b' :: cs =>
    let ds := cs.takeWhile isHexDigit
    if ds ≠ [] ∧ cs[ds.length]? = some '\x7d' then
      (hexValue? ds).bind fun n => if n ≤ 0x10FFFF then some (unitsOf n, ds.length + 3) else none
    else none
  | cs => if 4 ≤ cs.length then (hexValue? (cs.take 4)).map fun n => ([n], 5) else none

/-- What a backslash stands for with the characters behind it, and how many of them belong to it.  It
may continue a line, and a digit other than a single `0` is refused. -/
def escape? : List Char → Option (List Nat × Nat)
  | [] => none
  | c :: cs =>
    if c = 'x' then if 2 ≤ cs.length then (hexValue? (cs.take 2)).map fun n => ([n], 3) else none
    else if c = 'u' then codePoint? cs
    else if c.isDigit then if c = '0' ∧ ¬ cs.head?.any Char.isDigit then some ([0], 1) else none
    else if c = '\r' ∧ cs.head? = some '\n' then some ([], 2)
    else if isNewline c then some ([], 1)
    else some (((controls.lookup c).map ([·])).getD (unitsOf c.toNat), 1)

/-! ## Literals -/

/-- Reads a literal from behind its opening quote: its value, and what is behind its closing quote. -/
def quoted? : List Char → Option (List Nat × List Char)
  | [] => none
  | c :: cs =>
    if c = '\'' then some ([], cs)
    else if c = '\\' then
      match escape? cs with
      | some (us, n) => (quoted? (cs.drop n)).map fun r => (us ++ r.1, r.2)
      | none => none
    else if c = '\n' ∨ c = '\r' then none
    else (quoted? cs).map fun r => (unitsOf c.toNat ++ r.1, r.2)
termination_by cs => cs.length

/-- The value of a text that is one literal. -/
def literal? (text : String) : Option (List Nat) :=
  match text.toList with
  | '\'' :: cs =>
    match quoted? cs with
    | some (value, []) => some value
    | _ => none
  | _ => none

theorem codePoint?_le {cs : List Char} {us : List Nat} {n : Nat} (h : codePoint? cs = some (us, n)) :
    us.length ≤ n ∧ n ≤ cs.length + 1 := by
  unfold codePoint? at h
  split at h
  · next cs =>
    dsimp only at h
    split at h
    · next hbrace =>
      obtain ⟨m, -, hm⟩ := Option.bind_eq_some_iff.1 h
      split at hm
      · cases hm
        have hunits := (length_unitsOf m).2
        have hlength := (List.getElem?_eq_some_iff.1 hbrace.2).1
        rw [List.length_cons]
        omega
      · cases hm
    · cases h
  · next cs _ =>
    split at h
    · next hfour =>
      obtain ⟨m, -, hm⟩ := Option.map_eq_some_iff.1 h
      cases hm
      rw [List.length_singleton]
      omega
    · cases h

/-- An escape has no more code units than the characters behind the backslash. -/
theorem escape?_le {cs : List Char} {us : List Nat} {n : Nat} (h : escape? cs = some (us, n)) :
    us.length ≤ (units (cs.take n)).length := by
  -- one unit is at most one character, and only a character by itself may have two
  have hle : us.length ≤ n → n ≤ cs.length → us.length ≤ (units (cs.take n)).length := by
    intro hus hn
    refine Nat.le_trans hus (Nat.le_trans (Nat.le_of_eq ?_) (length_le_units _))
    rw [List.length_take, Nat.min_eq_left hn]
  cases cs with
  | nil => cases h
  | cons c cs =>
    rw [List.length_cons] at hle
    rw [escape?] at h
    split at h
    · split at h
      · obtain ⟨m, -, hm⟩ := Option.map_eq_some_iff.1 h
        cases hm
        exact hle (by simp) (by omega)
      · cases h
    split at h
    · obtain ⟨hus, hn⟩ := codePoint?_le h
      exact hle hus hn
    split at h
    · split at h
      · cases h
        exact hle (Nat.le_refl 1) (by omega)
      · cases h
    split at h
    · next hfeed =>
      cases h
      exact Nat.zero_le _
    split at h
    · cases h
      exact Nat.zero_le _
    · cases hc : controls.lookup c with
      | some m =>
        rw [hc] at h
        cases h
        exact hle (Nat.le_refl 1) (by omega)
      | none =>
        rw [hc] at h
        cases h
        rw [List.take_succ_cons, List.take_zero, units_cons, List.length_append]
        exact Nat.le_add_right _ _

theorem escape?_lt {cs : List Char} {us vs : List Nat} {n : Nat} (h : escape? cs = some (us, n))
    (hvs : vs.length < (units (cs.drop n)).length) : (us ++ vs).length < (units cs).length := by
  have hus := escape?_le h
  have hsplit : (units cs).length = (units (cs.take n)).length + (units (cs.drop n)).length := by
    rw [← List.length_append, ← units_append, List.take_append_drop]
  rw [List.length_append]
  omega

/-- The value of a literal is shorter than the literal. -/
theorem quoted?_lt {cs : List Char} {value : List Nat} {rest : List Char}
    (h : quoted? cs = some (value, rest)) : value.length < (units cs).length := by
  fun_induction quoted? cs generalizing value rest with
  | case1 => cases h
  | case2 cs =>
    cases h
    exact Nat.lt_of_lt_of_le (Nat.succ_pos cs.length) (length_le_units ('\'' :: cs))
  | case3 cs us n hescape _ ih =>
    obtain ⟨⟨value', rest'⟩, hr, hv⟩ := Option.map_eq_some_iff.1 h
    cases hv
    have hle : (units cs).length ≤ (units ('\\' :: cs)).length := by
      rw [units_cons, List.length_append]
      exact Nat.le_add_left _ _
    exact Nat.lt_of_lt_of_le (escape?_lt hescape (ih hr)) hle
  | case4 => cases h
  | case5 => cases h
  | case6 c cs hquote hslash hfeed ih =>
    obtain ⟨⟨value', rest'⟩, hr, hv⟩ := Option.map_eq_some_iff.1 h
    cases hv
    have hvalue := ih hr
    rw [units_cons, List.length_append, List.length_append]
    exact Nat.add_lt_add_left hvalue _

/-- The characters between the quotes stand for themselves exactly if none is a quote or a backslash. -/
theorem quoted?_eq_units_iff {cs : List Char} (hfeed : ∀ c ∈ cs, isNewline c = false) :
    quoted? (cs ++ ['\'']) = some (units cs, []) ↔ '\'' ∉ cs ∧ '\\' ∉ cs := by
  induction cs with
  | nil =>
    refine iff_of_true ?_ ⟨List.not_mem_nil, List.not_mem_nil⟩
    rw [List.nil_append, quoted?, if_pos rfl]
    rfl
  | cons c cs ih =>
    have hc := hfeed c List.mem_cons_self
    have hline : ¬ (c = '\n' ∨ c = '\r') := by
      rintro (rfl | rfl)
      · exact absurd hc (by decide)
      · exact absurd hc (by decide)
    rw [List.cons_append, quoted?]
    by_cases hquote : c = '\''
    · -- the literal ends here
      refine iff_of_false ?_ fun h => h.1 (hquote ▸ List.mem_cons_self)
      rw [if_pos hquote]
      intro h
      have hrest := (Prod.mk.inj (Option.some.inj h)).2
      exact absurd hrest (by simp)
    by_cases hslash : c = '\\'
    · -- the backslash itself has no unit in the value
      refine iff_of_false ?_ fun h => h.2 (hslash ▸ List.mem_cons_self)
      rw [if_neg hquote, if_pos hslash]
      intro h
      split at h
      · next us n hescape =>
        obtain ⟨⟨value, rest⟩, hr, hv⟩ := Option.map_eq_some_iff.1 h
        have hlt := escape?_lt hescape (quoted?_lt hr)
        have hvalue : us ++ value = unitsOf c.toNat ++ units cs :=
          ((Prod.mk.inj hv).1).trans (units_cons c cs)
        have hc := (length_unitsOf c.toNat).1
        have hquote : (units ['\'']).length = 1 := by decide
        rw [hvalue, units_append, List.length_append, List.length_append, hquote] at hlt
        omega
      · cases h
    · have hrest := ih fun d hd => hfeed d (List.mem_cons_of_mem c hd)
      have hmem : ('\'' ∉ c :: cs ∧ '\\' ∉ c :: cs) ↔ '\'' ∉ cs ∧ '\\' ∉ cs := by
        simp [Ne.symm hquote, Ne.symm hslash]
      rw [if_neg hquote, if_neg hslash, if_neg hline, hmem, ← hrest, units_cons]
      constructor
      · intro h
        obtain ⟨⟨value, rest⟩, hr, hv⟩ := Option.map_eq_some_iff.1 h
        obtain ⟨hvalue, rfl⟩ := Prod.mk.inj hv
        have hunits : value = units cs := List.append_cancel_left hvalue
        rw [hr, hunits]
      · intro h
        rw [h, Option.map_some]

theorem literal?_quote_iff {text : String} (hfeed : ∀ c ∈ text.toList, isNewline c = false) :
    literal? ("'" ++ text ++ "'") = some (units text.toList) ↔
      '\'' ∉ text.toList ∧ '\\' ∉ text.toList := by
  have hquote : "'".toList = ['\''] := by decide
  have hlist : ("'" ++ text ++ "'").toList = '\'' :: (text.toList ++ ['\'']) := by
    rw [String.toList_append, String.toList_append, hquote, List.append_assoc, List.singleton_append]
  rw [← quoted?_eq_units_iff hfeed]
  simp only [literal?, hlist]
  cases hq : quoted? (text.toList ++ ['\'']) with
  | none => simp
  | some r =>
    obtain ⟨value, rest⟩ := r
    cases rest with
    | nil => simp
    | cons c cs => simp

/-! ## The test for the file identifier -/

namespace Schema

/-- The argument with which the class of the root tests for the file identifier, from the text of the
script. -/
def identifierArgument? (s : Schema) (id : TypeId) : Option String :=
  (s.members? id).bind fun ms =>
    match ms.filter (·.1 = "static identifier(reader) \x7b") with
    | [(_, [line])] => within? "return reader.identifier(" ");" line
    | _ => none

variable {s : Schema} {id : TypeId} {t : TypeDecl} {text ident : String}

theorem filter_identifier (hroot : s.rootType = some id) (hk : t.kind.isTable = true)
    (hident : s.fileIdentifier = some ident) :
    ((s.parts id t).map fun m => (m.1 ++ " \x7b", m.2.map (·.text))).filter
        (·.1 = "static identifier(reader) \x7b") =
      [("static identifier(reader) \x7b", ["return reader.identifier('" ++ ident ++ "');"])] := by
  have hgetters : (t.fields.map fun f =>
      ("get " ++ f.name ++ "()" ++ " \x7b", (s.getterBody t.kind f).map (·.text))).filter
        (·.1 = "static identifier(reader) \x7b") = [] := by
    rw [List.filter_eq_nil_iff]
    intro m hm
    obtain ⟨f, -, rfl⟩ := List.mem_map.1 hm
    rw [decide_eq_true_eq, String.append_assoc, String.append_assoc]
    exact append_ne_of_front (by decide) _
  unfold parts rootParts
  rw [if_pos hk, if_pos hroot, hident, List.map_append, List.filter_append, List.map_map]
  simp [Function.comp_def, hgetters, Line.top]

theorem identifierArgument?_eq_some (h : compileText text = .ok s) (hroot : s.rootType = some id)
    (htable : s.IsTable id) (hident : s.fileIdentifier = some ident) :
    s.identifierArgument? id = some ("'" ++ ident ++ "'") := by
  have hfront : "return reader.identifier('" = "return reader.identifier(" ++ "'" := by simp
  have hback : "');" = "'" ++ ");" := by simp
  obtain ⟨hspelled, hnumbered, hkept, -⟩ := compileText_spelled h
  obtain ⟨t, ht, hk⟩ := htable
  rw [identifierArgument?, members?_eq_some hspelled hnumbered hkept ht (.inl hk), Option.bind_some,
    filter_identifier hroot hk hident, within?_eq_some_iff, hfront, hback]
  simp only [String.append_assoc]

/-- The argument of the test is the file identifier in quotes, as it is written in the schema.  It is a
literal with that value exactly if there is neither a quote nor a backslash in it. -/
theorem literal?_identifierArgument_iff (h : compileText text = .ok s) (hroot : s.rootType = some id)
    (htable : s.IsTable id) (hident : s.fileIdentifier = some ident) :
    ∃ argument, s.identifierArgument? id = some argument ∧
      (literal? argument = some (units ident.toList) ↔
        '\'' ∉ ident.toList ∧ '\\' ∉ ident.toList) := by
  obtain ⟨hspelled, -⟩ := compileText_spelled h
  exact ⟨_, identifierArgument?_eq_some h hroot htable hident,
    literal?_quote_iff (hspelled.fileIdentifier ident hident).2⟩

theorem exists_labelled (h : (compileText text).toOption.bind (fun s => s.types[0]?.map fun t =>
      (t.kind.isTable, s.rootType, s.fileIdentifier)) = some (true, some 0, some ident)) :
    ∃ s, compileText text = .ok s ∧ s.rootType = some 0 ∧ s.IsTable 0 ∧
      s.fileIdentifier = some ident := by
  obtain ⟨s, hs, hparts⟩ := exists_of_compileText h
  obtain ⟨t, ht, hparts⟩ := Option.map_eq_some_iff.1 hparts
  simp only [Prod.mk.injEq] at hparts
  obtain ⟨hk, hroot, hident⟩ := hparts
  exact ⟨s, hs, hroot, ⟨t, ht, hk⟩, hident⟩

def labelled : String :=
  "table T \x7b \x7d root_type T; file_identifier \"WAVE\";"

theorem literal?_labelled : ∃ s argument, compileText labelled = .ok s ∧ s.rootType = some 0 ∧
    s.IsTable 0 ∧ s.fileIdentifier = some "WAVE" ∧ s.identifierArgument? 0 = some argument ∧
      literal? argument = some [0x57, 0x41, 0x56, 0x45] := by
  obtain ⟨s, hs, hroot, htable, hident⟩ : ∃ s, compileText labelled = .ok s ∧
      s.rootType = some 0 ∧ s.IsTable 0 ∧ s.fileIdentifier = some "WAVE" :=
    exists_labelled (by decide +kernel)
  obtain ⟨argument, hargument, hliteral⟩ := literal?_identifierArgument_iff hs hroot htable hident
  exact ⟨s, argument, hs, hroot, htable, hident, hargument, hliteral.2 (by decide)⟩

/-- The file identifier of this text has a quote in it. -/
def quotedLabel : String :=
  "table T \x7b \x7d root_type T; file_identifier \"it's\";"

/-- The quote ends the literal. -/
theorem literal?_quotedLabel : ∃ s argument, compileText quotedLabel = .ok s ∧
    s.rootType = some 0 ∧ s.IsTable 0 ∧ s.fileIdentifier = some "it's" ∧
      s.identifierArgument? 0 = some argument ∧ literal? argument = none := by
  obtain ⟨s, hs, hroot, htable, hident⟩ : ∃ s, compileText quotedLabel = .ok s ∧
      s.rootType = some 0 ∧ s.IsTable 0 ∧ s.fileIdentifier = some "it's" :=
    exists_labelled (by decide +kernel)
  refine ⟨s, _, hs, hroot, htable, hident, identifierArgument?_eq_some hs hroot htable hident, ?_⟩
  decide +kernel

end Schema

end FlatSchema
