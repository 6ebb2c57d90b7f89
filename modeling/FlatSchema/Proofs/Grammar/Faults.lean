import FlatSchema.Proofs.Grammar.Places
import FlatSchema.Proofs.Source.Lines

/-!
# A fault is at the first token that cannot be there

Where the grammar finds fault with a file, the tokens in front of that place can still become a sentence,
and with the token at that place they cannot:

    IsFront before  and  ¬ IsFront (before ++ [l])        (parse_fault)

From every state the end of a file can be reached (`completes`), so what has been read without a fault is
the front of a sentence; a lexeme refused by the state is read by no sentence.  Tokens stand one behind the
other (`pairwise_places`), so the tokens in front of a place are those read before it.
-/

namespace FlatSchema

/-! ## The order of places -/

namespace Position

/-- On an earlier line, or earlier on the same line. -/
def Before (p q : Position) : Prop :=
  p.line < q.line ∨ p.line = q.line ∧ p.column < q.column

instance (p q : Position) : Decidable (p.Before q) :=
  inferInstanceAs (Decidable (_ ∨ _))

/-- Not later than. -/
def Upto (p q : Position) : Prop :=
  p.line < q.line ∨ p.line = q.line ∧ p.column ≤ q.column

variable {p q r : Position}

theorem Before.asymm (h : p.Before q) : ¬ q.Before p := by
  unfold Before at *
  omega

theorem Upto.trans (h : p.Upto q) (h' : q.Upto r) : p.Upto r := by
  unfold Upto at *
  omega

theorem Before.trans_upto (h : p.Before q) (h' : q.Upto r) : p.Before r := by
  unfold Upto Before at *
  omega

theorem Before.upto (h : p.Before q) : p.Upto q := by
  unfold Upto Before at *
  omega

theorem upto_past (p : Position) (cs : List Char) : p.Upto (p.past cs) := by
  rw [past_eq, Upto]
  dsimp only
  split <;> omega

end Position

namespace Input

theorem IsPlace.upto_skip {i : Input} (h : i.IsPlace) : i.position.Upto i.skip.position := by
  obtain ⟨g, -, -, hp⟩ := h.exists_past_skip
  rw [hp]
  exact i.position.upto_past g

/-- A lexeme leads on along its line. -/
theorem IsPlace.before_advance {i : Input} (h : i.IsPlace) {l : Lexeme} (hscan : scan i.rest = .ok l)
    (hl : l ≠ .eof) : (i.advance l.text.utf8ByteSize).IsPlace ∧
      i.position.Before (i.advance l.text.utf8ByteSize).position := by
  obtain ⟨rest, htext, hstands⟩ := scan_eq_ok_iff.1 hscan
  obtain ⟨hnext, -, hp⟩ := h.advance htext hstands
  rw [hp]
  exact ⟨hnext, .inr ⟨rfl, Nat.lt_add_of_pos_right (text_pos_of_scan hscan hl).2⟩⟩

end Input

namespace Stream

/-- The places of the tokens, and that of the end or the fault behind them. -/
def places : Stream → List Position
  | token t rest => t.position :: rest.places
  | eof p => [p]
  | fault e => (e.location?.map Location.position).toList

/-- A stream with tokens in front. -/
def prepend (ts : List Token) (S : Stream) : Stream :=
  ts.foldr token S

theorem tokens_prepend (ts : List Token) (S : Stream) : (prepend ts S).tokens = ts ++ S.tokens := by
  induction ts with
  | nil => rfl
  | cons t ts ih => exact congrArg (t :: ·) ih

theorem places_prepend (ts : List Token) (S : Stream) :
    (prepend ts S).places = ts.map Token.position ++ S.places := by
  induction ts with
  | nil => rfl
  | cons t ts ih => exact congrArg (t.position :: ·) ih

theorem get_prepend (ts : List Token) (S : Stream) : (prepend ts S).get ts.length = S.head := by
  induction ts with
  | nil => rfl
  | cons t ts ih => exact ih

theorem pairwise_places (file : String) {i : Input} (hi : i.IsPlace) :
    (readFrom file i).places.Pairwise Position.Before ∧
      ∀ p ∈ (readFrom file i).places, i.position.Upto p := by
  fun_induction readFrom file i with
  | case1 i next f h =>
    have hplaces : (fault (.ofScan ⟨file, next.position⟩ f)).places = [next.position] := by
      cases f <;> rfl
    rw [hplaces]
    exact ⟨List.pairwise_singleton .., List.forall_mem_singleton.2 hi.upto_skip⟩
  | case2 i next h => exact ⟨List.pairwise_singleton .., List.forall_mem_singleton.2 hi.upto_skip⟩
  | case3 i next l h hl ih =>
    obtain ⟨hnext, hadvance⟩ := hi.skip.2.1.before_advance h hl
    obtain ⟨hpairwise, hupto⟩ := ih hnext
    have hbehind : ∀ p ∈ (readFrom file (next.advance l.text.utf8ByteSize)).places,
        next.position.Before p :=
      fun p hp => hadvance.trans_upto (hupto p hp)
    refine ⟨List.pairwise_cons.2 ⟨hbehind, hpairwise⟩, ?_⟩
    intro p hp
    rcases List.mem_cons.1 hp with rfl | hp
    · exact hi.upto_skip
    · exact hi.upto_skip.trans (hbehind p hp).upto

theorem file_of_get {file : String} {i : Input} {n : Nat} {f : ParseFault} {place : Location}
    (hi : i.IsPlace) (h : (readFrom file i).get n = .error (.parse f place)) : place.file = file := by
  obtain ⟨_, rest, -, -, hfound⟩ := exists_passes file hi n
  rw [hfound, found] at h
  cases hscan : scan rest with
  | ok l =>
    rw [hscan] at h
    cases h
  | error e =>
    rw [hscan] at h
    cases e <;> cases h
    rfl

/-- The tokens in front of a place of the stream are those that stand in front of it there. -/
theorem filter_before {ts : List Token} {S : Stream} {p : Position} {ps : List Position}
    (h : (prepend ts S).places.Pairwise Position.Before) (hp : S.places = p :: ps) :
    (prepend ts S).tokens.filter (·.position.Before p) = ts := by
  have hmem : ∀ t ∈ S.tokens, t.position ∈ S.places := by
    clear h hp
    induction S with
    | token t rest ih =>
      intro t' ht'
      rcases List.mem_cons.1 ht' with rfl | ht'
      · exact List.mem_cons_self
      · exact List.mem_cons_of_mem _ (ih t' ht')
    | eof p => exact List.forall_mem_nil _
    | fault e => exact List.forall_mem_nil _
  rw [places_prepend, List.pairwise_append] at h
  obtain ⟨-, hS, hbefore⟩ := h
  have hfront : ts.filter (·.position.Before p) = ts := by
    rw [List.filter_eq_self]
    intro t ht
    exact decide_eq_true (hbefore _ (List.mem_map_of_mem ht) p (by simp [hp]))
  have hbehind : S.tokens.filter (·.position.Before p) = [] := by
    rw [List.filter_eq_nil_iff]
    intro t ht
    rw [decide_eq_true_eq]
    have htp := hmem t ht
    rw [hp] at hS htp
    rcases List.mem_cons.1 htp with heq | htp
    · rw [heq]
      exact fun h => h.asymm h
    · exact ((List.pairwise_cons.1 hS).1 _ htp).asymm
  rw [tokens_prepend, List.filter_append, hfront, hbehind, List.append_nil]

end Stream

/-! ## Reading to the end -/

/-- The front of a sentence. -/
def IsFront (ls : List Lexeme) : Prop :=
  ∃ (d : Document) (more : List Lexeme), ls ++ more ∈ d.sentences

namespace Grammar

/-- Some text can follow, up to the end of the file. -/
def Completes (q : State) : Prop :=
  ∃ ls as, reads q ls as

variable {q q' : State} {t : Token} {f : ParseFault}

theorem Completes.step {l : Lexeme} (h : (Grammar.step q ⟨l, nowhere⟩).next = .ok q')
    (hq' : Completes q') : Completes q := by
  obtain ⟨ls, as, hr⟩ := hq'
  exact ⟨l :: ls, _, q', h, as, rfl, hr⟩

theorem completes_declaration (head : Bool) : Completes (.declaration head) :=
  ⟨[], _, ⟨_, rfl⟩, rfl⟩

theorem completes_inBody (body : Body) : Completes (.inBody body) :=
  .step (l := .punct '\x7d') rfl (completes_declaration false)

theorem completes_bodyOpen (body : Body) : Completes (.bodyOpen body) :=
  .step (l := .punct '\x7b') rfl (completes_inBody body)

theorem completes_fieldEnd : Completes .fieldEnd :=
  .step (l := .punct ';') rfl (completes_inBody .fields)

theorem completes_metadataKey (b : Bearer) (m : Metadata) : Completes (.metadataKey b m) := by
  cases b with
  | type body => exact .step (l := .punct ')') rfl (completes_bodyOpen body)
  | field d => exact .step (l := .punct ')') rfl completes_fieldEnd

theorem completes_bodyOrMetadata (body : Body) : Completes (.bodyOrMetadata body) :=
  .step (l := .punct '\x7b') rfl (completes_inBody body)

theorem completes_enumBase (n : String) (p : Position) : Completes (.enumBase n p) :=
  .step (l := .id "a") rfl (completes_bodyOrMetadata .values)

theorem completes_fieldMetadata (d : Draft) : Completes (.fieldMetadata d) :=
  .step (l := .punct ';') rfl (completes_inBody .fields)

theorem completes_fieldRest (d : Draft) : Completes (.fieldRest d) :=
  .step (l := .punct ';') rfl (completes_inBody .fields)

theorem completes_fieldType (n : String) (p : Position) : Completes (.fieldType n p) :=
  .step (l := .id "a") rfl (completes_fieldRest _)

theorem completes_settingEnd : Completes .settingEnd :=
  .step (l := .punct ';') rfl (completes_declaration false)

/-- Wherever reading stands in a file, the file can still become a sentence. -/
theorem completes (hq : q ≠ .finished) : Completes q := by
  have hid {q q' : State} (h : (Grammar.step q ⟨.id "a", nowhere⟩).next = .ok q') (hq' : Completes q') :
      Completes q := .step h hq'
  cases q with
  | declaration head => exact completes_declaration head
  | includePath =>
    exact .step (l := .string '"' "") rfl (.step (l := .punct ';') rfl (completes_declaration true))
  | includeEnd s => exact .step (l := .punct ';') rfl (completes_declaration true)
  | namespaceName => exact hid rfl (.step (l := .punct ';') rfl (completes_declaration false))
  | namespaceEnd n => exact .step (l := .punct ';') rfl (completes_declaration false)
  | typeName kind body => exact hid rfl (completes_bodyOrMetadata body)
  | enumName => exact hid rfl (.step (l := .punct ':') rfl (completes_enumBase _ _))
  | enumColon n p => exact .step (l := .punct ':') rfl (completes_enumBase n p)
  | enumBase n p => exact completes_enumBase n p
  | enumElement n p => exact hid rfl (.step (l := .punct ']') rfl (completes_bodyOrMetadata .values))
  | enumBracket n p base => exact .step (l := .punct ']') rfl (completes_bodyOrMetadata .values)
  | bodyOrMetadata body => exact completes_bodyOrMetadata body
  | bodyOpen body => exact completes_bodyOpen body
  | inBody body => exact completes_inBody body
  | fieldColon n p => exact .step (l := .punct ':') rfl (completes_fieldType n p)
  | fieldType n p => exact completes_fieldType n p
  | fieldElement n p => exact hid rfl (.step (l := .punct ']') rfl (completes_fieldRest _))
  | fieldBracket n p element => exact .step (l := .punct ']') rfl (completes_fieldRest _)
  | fieldRest d => exact completes_fieldRest d
  | fieldLiteral d => exact hid rfl (completes_fieldMetadata _)
  | fieldMetadata d => exact completes_fieldMetadata d
  | fieldEnd => exact completes_fieldEnd
  | valueRest n p => exact .step (l := .punct ',') rfl (completes_inBody .values)
  | valueNumber n p =>
    exact .step (l := .integer "0" 0) rfl (.step (l := .punct ',') rfl (completes_inBody .values))
  | valueComma => exact .step (l := .punct ',') rfl (completes_inBody .values)
  | metadataKey b m => exact completes_metadataKey b m
  | metadataRest b m key => exact .step (l := .punct ',') rfl (completes_metadataKey b _)
  | metadataValue b m key =>
    exact .step (l := .boolean true) rfl (.step (l := .punct ',') rfl (completes_metadataKey b _))
  | metadataComma b m => exact .step (l := .punct ',') rfl (completes_metadataKey b m)
  | rootTypeName => exact hid rfl completes_settingEnd
  | fileExtension => exact .step (l := .string '"' "") rfl completes_settingEnd
  | fileIdentifier => exact .step (l := .string '"' "") rfl completes_settingEnd
  | settingEnd => exact completes_settingEnd
  | attributeName => exact hid rfl (.step (l := .punct ';') rfl (completes_declaration false))
  | attributeEnd n => exact .step (l := .punct ';') rfl (completes_declaration false)
  | finished => exact absurd rfl hq

/-! ## Where a fault is found -/

/-- The keyword of a declaration leads into it. -/
theorem ne_finished_of_keyword? {head : Bool} {word : String} (h : keyword? head word = some q) :
    q ≠ .finished := by
  rintro rfl
  unfold keyword? at h
  split at h <;> try cases h
  split at h <;> cases h

theorem ne_finished_of_declaration {head : Bool} {l : Lexeme} (hl : l ≠ .eof) :
    (declaration head l).next ≠ .ok .finished := by
  unfold declaration
  split
  · exact absurd rfl hl
  · split
    · next hq =>
      intro h
      cases h
      exact ne_finished_of_keyword? hq rfl
    · intro h
      cases h
  · intro h
    cases h

/-- Only the end of the text ends a file. -/
theorem ne_finished_of_step (ht : t.lexeme ≠ .eof) : (step q t).next ≠ .ok .finished := by
  cases q with
  | declaration head => exact ne_finished_of_declaration ht
  | settingEnd =>
    show (settingEnd t.lexeme).next ≠ _
    unfold settingEnd
    split
    · intro h
      cases h
    · exact ne_finished_of_declaration ht
  | _ =>
    simp only [step, punct, identifier, quoted, closeMetadata, metadataKey, metadataComma, metadataRest,
      metadataValue, bodyOpen, bodyOrMetadata, inBody, fieldType, fieldElement, fieldLiteral, fieldEnd,
      fieldMetadata, fieldRest, valueComma, valueRest, valueNumber, enumBase, enumElement, attributeName,
      expected]
    repeat' split
    all_goals
      intro h
      cases h

/-- Tokens that lead from one state to another. -/
def Leads : State → List Token → State → Prop
  | q, [], q' => q = q'
  | q, t :: ts, q' => ∃ q₁, (step q t).next = .ok q₁ ∧ Leads q₁ ts q'

/-- The fault of an outline is found behind tokens that are read without one. -/
theorem exists_of_fault {file : String} {S : Stream} {e : CompileError}
    (h : (outline file q S).fault = some e) : ∃ ts R q', S = .prepend ts R ∧ Leads q ts q' ∧
      ((∃ t R' f, R = .token t R' ∧ (step q' t).next = .error f ∧ e = .parse f ⟨file, t.position⟩) ∨
        (∃ p f, R = .eof p ∧ (step q' ⟨.eof, p⟩).next = .error f ∧ e = .parse f ⟨file, p⟩) ∨
          R = .fault e) := by
  induction S generalizing q with
  | token t rest ih =>
    unfold outline at h
    dsimp only at h
    cases hn : (step q t).next with
    | error f =>
      rw [hn] at h
      cases h
      exact ⟨[], _, q, rfl, rfl, .inl ⟨t, rest, f, rfl, hn, rfl⟩⟩
    | ok q₁ =>
      rw [hn] at h
      obtain ⟨ts, R, q', rfl, hleads, hR⟩ := ih h
      exact ⟨t :: ts, R, q', rfl, ⟨q₁, hn, hleads⟩, hR⟩
  | eof p =>
    unfold outline at h
    dsimp only at h
    cases hn : (step q ⟨.eof, p⟩).next with
    | error f =>
      rw [hn] at h
      cases h
      exact ⟨[], _, q, rfl, rfl, .inr (.inl ⟨p, f, rfl, hn, rfl⟩)⟩
    | ok q₁ =>
      rw [hn] at h
      cases h
  | fault e' =>
    cases h
    exact ⟨[], _, q, rfl, rfl, .inr (.inr rfl)⟩

/-- What can be read behind tokens is what the state they lead to can read. -/
theorem Leads.reads_iff {ts : List Token} (h : Leads q ts q') (ls : List Lexeme) :
    (∃ as, reads q.bare (ts.map Token.lexeme ++ ls) as) ↔ ∃ as, reads q'.bare ls as := by
  induction ts generalizing q with
  | nil =>
    obtain rfl : q = q' := h
    rfl
  | cons t ts ih =>
    obtain ⟨q₁, hq₁, hleads⟩ := h
    have hok : step q.bare ⟨t.lexeme, nowhere⟩ = ⟨(step q t).actions.map Action.bare, .ok q₁.bare⟩ := by
      rw [← step_bare, Step.bare, hq₁]
      rfl
    rw [← ih hleads]
    constructor
    · rintro ⟨as, hr⟩
      obtain ⟨bs, -, hr⟩ := (reads_cons_of_ok hok).1 hr
      exact ⟨bs, hr⟩
    · rintro ⟨bs, hr⟩
      exact ⟨_, (reads_cons_of_ok hok).2 ⟨bs, rfl, hr⟩⟩

theorem Leads.ne_finished {ts : List Token} (h : Leads q ts q') (hq : q ≠ .finished)
    (hts : ∀ t ∈ ts, t.lexeme ≠ .eof) : q' ≠ .finished := by
  induction ts generalizing q with
  | nil => exact h ▸ hq
  | cons t ts ih =>
    obtain ⟨q₁, hq₁, hleads⟩ := h
    have hne : q₁ ≠ .finished := by
      rintro rfl
      exact ne_finished_of_step (hts t List.mem_cons_self) hq₁
    exact ih hleads hne fun t' ht' => hts t' (List.mem_cons_of_mem t ht')

theorem bare_next_of_error (h : (step q t).next = .error f) :
    (step q.bare ⟨t.lexeme, nowhere⟩).next = .error f := by
  rw [← step_bare, Step.bare, h]
  rfl

/-- What is read from the start of a file without a fault is the front of a sentence. -/
theorem Leads.isFront {ts : List Token} (h : Leads (.declaration true) ts q)
    (hts : ∀ t ∈ ts, t.lexeme ≠ .eof) : IsFront (ts.map Token.lexeme) := by
  have hne := h.ne_finished (by simp) hts
  have hbare : q.bare ≠ .finished := by
    cases q <;> simp_all [State.bare]
  obtain ⟨ls, as, hr⟩ := completes hbare
  obtain ⟨bs, hr⟩ := (h.reads_iff ls).2 ⟨as, hr⟩
  obtain ⟨d, hd, -⟩ := reads_document.1 hr
  exact ⟨d, ls, hd⟩

/-- With a token that is refused it is not. -/
theorem Leads.not_isFront {ts : List Token} (h : Leads (.declaration true) ts q)
    (ht : (step q t).next = .error f) : ¬ IsFront (ts.map Token.lexeme ++ [t.lexeme]) := by
  rintro ⟨d, more, hd⟩
  rw [List.append_assoc] at hd
  obtain ⟨as, hr⟩ := (h.reads_iff _).1 ⟨_, reads_document.2 ⟨d, hd, rfl⟩⟩
  exact reads_cons_of_error (bare_next_of_error ht) hr

theorem Leads.not_sentence {ts : List Token} {p : Position} (h : Leads (.declaration true) ts q)
    (ht : (step q ⟨.eof, p⟩).next = .error f) : ¬ ∃ d : Document, ts.map Token.lexeme ∈ d.sentences := by
  rintro ⟨d, hd⟩
  rw [← List.append_nil (ts.map _)] at hd
  obtain ⟨as, hr⟩ := (h.reads_iff _).1 ⟨_, reads_document.2 ⟨d, hd, rfl⟩⟩
  exact reads_nil_of_error (bare_next_of_error ht) hr

end Grammar

theorem Stream.Proper.lexeme_ne {ts : List Token} {S : Stream} (h : (Stream.prepend ts S).Proper) :
    ∀ t ∈ ts, t.lexeme ≠ .eof := by
  induction ts with
  | nil => exact List.forall_mem_nil _
  | cons t ts ih => exact List.forall_mem_cons.2 ⟨h.1, ih h.2⟩

namespace Schema

variable {s : Schema} {file text : String} {f : ParseFault} {place : Location}

/-- A fault of the text is reported if no declaration is refused before. -/
theorem outline_of_parse (h : (s.parse file text).2 = .error (.parse f place)) :
    (Grammar.outline file (.declaration true) (.ofText file text)).fault = some (.parse f place) := by
  unfold parse parseStream at h
  dsimp only at h
  generalize (Session.start s).performAll _ = r at h
  obtain ⟨x, refusal⟩ := r
  cases refusal with
  | some r => cases h
  | none =>
    cases hfault : (Grammar.outline file (.declaration true) (.ofText file text)).fault with
    | none =>
      rw [hfault] at h
      cases h
    | some e =>
      rw [hfault] at h
      cases h
      rfl

/-! ## Top theorem -/

/-- A fault of the text is at one of its tokens, at its end or where there is no token.  The tokens in
front of that place are the front of a sentence.  With the token at that place they are not, and at the end
of the text they are no sentence. -/
theorem parse_fault (h : (s.parse file text).2 = .error (.parse f place)) :
    let S := Stream.ofText file text
    let before := (S.tokens.filter (·.position.Before place.position)).map Token.lexeme
    place.file = file ∧ IsFront before ∧
      ((∃ t ∈ S.tokens, t.position = place.position ∧ ¬ IsFront (before ++ [t.lexeme])) ∨
        (S.get S.tokens.length = .ok ⟨.eof, place.position⟩ ∧ ¬ ∃ d : Document, before ∈ d.sentences) ∨
          S.get S.tokens.length = .error (.parse f place)) := by
  intro S before
  obtain ⟨ts, R, q, hS, hleads, hfault⟩ := Grammar.exists_of_fault (outline_of_parse h)
  have hproper : S.Proper := Stream.proper_readFrom file (.start text)
  have hplaces : S.places.Pairwise Position.Before :=
    (Stream.pairwise_places file (Input.isPlace_start text)).1
  have hget : S.get ts.length = R.head := (congrArg (·.get ts.length) hS).trans (Stream.get_prepend ts R)
  have htokens : S.tokens = ts ++ R.tokens := (congrArg _ hS).trans (Stream.tokens_prepend ts R)
  have hbefore {ps : List Position} (hR : R.places = place.position :: ps) :
      before = ts.map Token.lexeme := by
    rw [show S = .prepend ts R from hS] at hplaces
    have hfilter := Stream.filter_before hplaces hR
    rw [← hS] at hfilter
    exact congrArg _ hfilter
  have hfront := hleads.isFront (Stream.Proper.lexeme_ne (S := R) (hS ▸ hproper))
  rcases hfault with ⟨t, R', f, rfl, hstep, he⟩ | ⟨p, f, rfl, hstep, he⟩ | rfl
  · cases he
    rw [hbefore rfl]
    refine ⟨rfl, hfront, .inl ⟨t, ?_, rfl, hleads.not_isFront hstep⟩⟩
    rw [htokens]
    exact List.mem_append_right ts List.mem_cons_self
  · cases he
    rw [hbefore rfl, htokens.trans (List.append_nil ts)]
    exact ⟨rfl, hfront, .inr (.inl ⟨hget, hleads.not_sentence hstep⟩)⟩
  · rw [hbefore rfl, htokens.trans (List.append_nil ts)]
    exact ⟨Stream.file_of_get (Input.isPlace_start text) hget, hfront, .inr (.inr hget)⟩

/-- Vectors of vectors are not part of the grammar. -/
def nestedVector : String :=
  "table T \x7b\n  a: [[int]];\n\x7d"

theorem parse_fault_nestedVector :
    let place : Location := ⟨"a.fbs", ⟨2, 7⟩⟩
    let S := Stream.ofText "a.fbs" nestedVector
    let before := (S.tokens.filter (·.position.Before place.position)).map Token.lexeme
    ((empty "a").parse "a.fbs" nestedVector).2 = .error (.parse (.expected "type" "[") place) ∧
      place.file = "a.fbs" ∧ IsFront before ∧
      ((∃ t ∈ S.tokens, t.position = place.position ∧ ¬ IsFront (before ++ [t.lexeme])) ∨
        (S.get S.tokens.length = .ok ⟨.eof, place.position⟩ ∧ ¬ ∃ d : Document, before ∈ d.sentences) ∨
          S.get S.tokens.length = .error (.parse (.expected "type" "[") place)) := by
  intro place S before
  have h : ((empty "a").parse "a.fbs" nestedVector).2 = .error (.parse (.expected "type" "[") place) := by
    decide +kernel
  exact ⟨h, parse_fault h⟩

end Schema

end FlatSchema
