import FlatSchema.Grammar.Parse
import FlatSchema.Proofs.Source.Layout
import FlatSchema.Proofs.Grammar.Descent

/-!
# Parsers that follow the grammar

`Follows` compares a run of a parser with the states of the grammar, token by token.  It ends; what is
left of the file has the outcome that it had before (`Stage.resume`), where a failure is the outcome; and
nothing is read but tokens of the text, or by a read that fails (`Parser.Reads`, `Parser.Within`).

There is one rule for each call on the cursor and for each way to compose parsers.  A loop follows the
grammar, and ends, if every round of it that goes on leaves fewer tokens (`follows_run`).
-/

namespace FlatSchema

/-! ## What is left of a file -/

namespace Grammar

/-- A state of the grammar, with the actions that are settled but not yet carried out. -/
structure Stage where
  pending : List Action
  state : State

namespace Stage

/-- The step that leads to a stage. -/
def step (c : Stage) : Step :=
  ⟨c.pending, .ok c.state⟩

/-- What a token means at a stage. -/
def meaning (c : Stage) (t : Token) : Step :=
  ⟨c.pending ++ (Grammar.step c.state t).actions, (Grammar.step c.state t).next⟩

/-- What becomes of a session when the rest of a file is read. -/
def resume (c : Stage) (file : String) (x : Session) (S : Stream) :
    Schema × Except CompileError FileHead :=
  let o := outline file c.state S
  let (session, refusal) := x.performAll (c.pending ++ o.actions)
  match refusal, o.fault with
  | some (e, p), _ => (session.schema, .error (.declaration e ⟨file, p⟩))
  | none, some e => (session.schema, .error e)
  | none, none => (session.schema, .ok session.head)

variable {file : String} {x y : Session} {S rest : Stream} {q q' : State} {t : Token} {as : List Action}

theorem resume_perform {a : Action} (h : x.perform a = .ok y) :
    resume ⟨a :: as, q⟩ file x S = resume ⟨as, q⟩ file y S := by
  simp only [resume, List.cons_append, Session.performAll, h]

theorem resume_refused {a : Action} {e : SchemaError} {place : Position}
    (h : x.perform a = .error (e, place)) :
    resume ⟨a :: as, q⟩ file x S = (x.schema, .error (.declaration e ⟨file, place⟩)) := by
  simp only [resume, List.cons_append, Session.performAll, h]

theorem resume_token {c : Stage} (h : Grammar.step q t = c.step) :
    resume ⟨[], q⟩ file x (.token t rest) = c.resume file x rest := by
  simp only [resume, outline, h, step, List.nil_append]

theorem resume_fail {f : ParseFault} (hS : S.head = .ok t) (h : Grammar.step q t = .fail f) :
    resume ⟨[], q⟩ file x S = (x.schema, .error (.parse f ⟨file, t.position⟩)) := by
  cases S with
  | token u rest =>
    cases hS
    simp only [resume, outline, h, Step.fail, List.nil_append, Session.performAll]
  | eof p =>
    cases hS
    simp only [resume, outline, h, Step.fail, List.nil_append, Session.performAll]
  | fault e => cases hS

theorem resume_fault {e : CompileError} (hS : S.head = .error e) :
    resume ⟨[], q⟩ file x S = (x.schema, .error e) := by
  rw [Stream.eq_fault hS]
  rfl

theorem resume_eof {p : Position} (h : Grammar.step q ⟨.eof, p⟩ = .goto q') :
    resume ⟨[], q⟩ file x (.eof p) = (x.schema, .ok x.head) := by
  simp only [resume, outline, h, Step.goto, List.nil_append, Session.performAll]

/-- Whatever the next token means at a stage, the rest of the file means there. -/
theorem resume_congr {c : Stage} (hS : S.head = .ok t) (h : Grammar.step q t = c.meaning t) :
    resume ⟨[], q⟩ file x S = c.resume file x S := by
  cases S with
  | token u rest =>
    cases hS
    simp only [resume, outline, h, meaning, List.nil_append]
    cases (Grammar.step c.state t).next with
    | ok q'' => simp only [List.append_assoc]
    | error f => rfl
  | eof p =>
    cases hS
    simp only [resume, outline, h, meaning, List.nil_append]
    cases (Grammar.step c.state ⟨.eof, p⟩).next <;> rfl
  | fault e => cases hS

end Stage

end Grammar

/-! ## Counting tokens -/

namespace Stream

theorem tokens_drop (S : Stream) (n : Nat) : (S.drop n).tokens = S.tokens.drop n := by
  induction n generalizing S with
  | zero => rfl
  | succ n ih =>
    rw [drop, ih]
    cases S <;> simp [tail, tokens]

theorem consumed_concat (S : Stream) (ks : List Call) (k : Call) :
    S.consumed (ks ++ [k]) = S.consumed ks +
      match S.get (S.consumed ks) with
      | .ok t => if k.consumes t then 1 else 0
      | .error _ => 0 := by
  induction ks generalizing S with
  | nil =>
    simp only [List.nil_append, consumed, get, drop]
    cases S.head with
    | error e => rfl
    | ok t =>
      dsimp only
      split <;> rfl
  | cons k' ks ih =>
    simp only [List.cons_append, consumed]
    cases hS : S.head with
    | error e => exact ih S
    | ok t =>
      dsimp only
      split
      · rw [ih S.tail, show S.get (S.tail.consumed ks + 1) = S.tail.get (S.tail.consumed ks) from rfl]
        omega
      · exact ih S

theorem eq_token {S : Stream} {t : Token} (hS : S.head = .ok t) (ht : t.lexeme ≠ .eof) :
    S = .token t S.tail := by
  cases S with
  | token u rest => cases hS; rfl
  | eof p => cases hS; exact absurd rfl ht
  | fault e => cases hS

end Stream

theorem Cursor.after_concat (c : Cursor) (ks : List Call) (k : Call) :
    c.after (ks ++ [k]) = (ask k (c.after ks)).2 := by
  induction ks generalizing c with
  | nil => rfl
  | cons k' ks ih => exact ih _

/-! ## Parsers of a text -/

namespace Parser

/-- Every call of the parser was made on the text, and it has read at most one token too many. -/
structure Within (file text : String) (p : Parser) : Prop where
  cursor : p.cursor = (Cursor.ofText file text).after p.calls
  count : (Stream.ofText file text).consumed p.calls ≤ (Stream.ofText file text).tokens.length + 1

/-- The parser has `S` in front of it, and has read none but tokens of the text. -/
structure Reads (file text : String) (p : Parser) (S : Stream) : Prop where
  cursor : p.cursor = (Cursor.ofText file text).after p.calls
  left : (Stream.ofText file text).drop ((Stream.ofText file text).consumed p.calls) = S
  count : (Stream.ofText file text).consumed p.calls + S.tokens.length =
    (Stream.ofText file text).tokens.length

namespace Reads

variable {file text : String} {p : Parser} {S rest : Stream} {t : Token} {k : Call}

theorem shows (h : p.Reads file text S) : p.cursor.Shows file S := by
  rw [h.cursor, ← h.left]
  exact (Cursor.shows_ofText file text).after p.calls

theorem answer (h : p.Reads file text S) (k : Call) :
    (ask k p.cursor).1 = S.head.bind (k.answer file) :=
  (h.shows.ask k).1

theorem proper (h : p.Reads file text S) : S.Proper := by
  rw [← h.left]
  exact (Stream.proper_readFrom file _).drop _

theorem within (h : p.Reads file text S) : p.Within file text := by
  have := h.count
  exact ⟨h.cursor, by omega⟩

theorem cursor_called (h : p.Reads file text S) (k : Call) :
    (p.called k).cursor = (Cursor.ofText file text).after (p.called k).calls := by
  show (ask k p.cursor).2 = _
  rw [h.cursor, ← Cursor.after_concat]
  rfl

theorem consumed_called (h : p.Reads file text S) (k : Call) :
    (Stream.ofText file text).consumed (p.called k).calls =
      (Stream.ofText file text).consumed p.calls +
        match S.head with
        | .ok t => if k.consumes t then 1 else 0
        | .error _ => 0 := by
  rw [← h.left]
  exact Stream.consumed_concat _ _ _

theorem within_called (h : p.Reads file text S) (k : Call) : (p.called k).Within file text := by
  refine ⟨h.cursor_called k, ?_⟩
  have hcount := h.count
  rw [h.consumed_called]
  cases S.head with
  | error e =>
    dsimp only
    omega
  | ok t =>
    dsimp only
    split <;> omega

theorem called (h : p.Reads file text S) (hS : S.head = .ok t) (hk : k.consumes t = false) :
    (p.called k).Reads file text S := by
  have hc : (Stream.ofText file text).consumed (p.called k).calls =
      (Stream.ofText file text).consumed p.calls := by
    simp [h.consumed_called, hS, hk]
  exact ⟨h.cursor_called k, by rw [hc, h.left], by rw [hc, h.count]⟩

theorem passed (h : p.Reads file text (.token t rest)) (hk : k.consumes t = true) :
    (p.called k).Reads file text rest := by
  have hc : (Stream.ofText file text).consumed (p.called k).calls =
      (Stream.ofText file text).consumed p.calls + 1 := by
    simp [h.consumed_called, Stream.head, hk]
  refine ⟨h.cursor_called k, by rw [hc, Stream.drop_succ, h.left]; rfl, ?_⟩
  have hcount := h.count
  rw [Stream.tokens, List.length_cons] at hcount
  rw [hc]
  omega

end Reads

end Parser

/-! ## Following the grammar -/

namespace Parsing

open Grammar

variable {α β σ : Type} {file text : String} {x : Parsing α} {p : Parser} {S : Stream} {c : Stage}
  {q : State} {Q : α → Stream → Stage → Prop}

/-- From `p`, with `S` in front of it, the run of `x` ends.  If it succeeds, the rest of the file has
the outcome that it had from stage `c`, from a stage with `Q`; if it fails, that is the outcome. -/
inductive Follows (file text : String) (x : Parsing α) (p : Parser) (S : Stream) (c : Stage)
    (Q : α → Stream → Stage → Prop) : Prop where
  | ok {a : α} {p' : Parser} {S' : Stream} {c' : Stage} (hrun : x.on p = some (.ok a, p'))
      (hp : p'.Reads file text S') (hlen : S'.tokens.length ≤ S.tokens.length)
      (hresume : c.resume file p.session S = c'.resume file p'.session S') (hQ : Q a S' c')
  | error {e : CompileError} {p' : Parser} (hrun : x.on p = some (.error e, p'))
      (hp : p'.Within file text)
      (hresume : c.resume file p.session S = (p'.session.schema, .error e))

/-! ### Sequences -/

theorem on_bind_of_ok {f : α → Parsing β} {a : α} {p' : Parser} (h : x.on p = some (.ok a, p')) :
    (x >>= f).on p = (f a).on p' := by
  show Option.bind (x.on p) _ = _
  rw [h]
  rfl

theorem on_bind_of_error {f : α → Parsing β} {e : CompileError} {p' : Parser}
    (h : x.on p = some (.error e, p')) : (x >>= f).on p = some (.error e, p') := by
  show Option.bind (x.on p) _ = _
  rw [h]
  rfl

theorem Follows.pure {a : α} (hp : p.Reads file text S) (hQ : Q a S c) :
    Follows file text (Pure.pure a) p S c Q :=
  .ok rfl hp (Nat.le_refl _) rfl hQ

theorem Follows.bind {f : α → Parsing β} {R : α → Stream → Stage → Prop} {Q : β → Stream → Stage → Prop}
    (hx : Follows file text x p S c R)
    (hf : ∀ a p' S' c', p'.Reads file text S' → R a S' c' → Follows file text (f a) p' S' c' Q) :
    Follows file text (x >>= f) p S c Q := by
  cases hx with
  | error hrun hp hresume => exact .error (on_bind_of_error hrun) hp hresume
  | ok hrun hp hlen hresume hR =>
    cases hf _ _ _ _ hp hR with
    | error hrun' hp' hresume' =>
      exact .error ((on_bind_of_ok hrun).trans hrun') hp' (hresume.trans hresume')
    | ok hrun' hp' hlen' hresume' hQ =>
      exact .ok ((on_bind_of_ok hrun).trans hrun') hp' (hlen'.trans hlen) (hresume.trans hresume') hQ

theorem Follows.imp {R : α → Stream → Stage → Prop} (hx : Follows file text x p S c R)
    (hi : ∀ a S' c', S'.tokens.length ≤ S.tokens.length → R a S' c' → Q a S' c') :
    Follows file text x p S c Q := by
  cases hx with
  | error hrun hp hresume => exact .error hrun hp hresume
  | ok hrun hp hlen hresume hR => exact .ok hrun hp hlen hresume (hi _ _ _ hlen hR)

/-- What reads a token first has read one in the end. -/
theorem Follows.bind_lt {f : α → Parsing β} {R : α → Stream → Stage → Prop}
    {Q : β → Stream → Stage → Prop}
    (hx : Follows file text x p S c fun a S' c' => R a S' c' ∧ S'.tokens.length < S.tokens.length)
    (hf : ∀ a p' S' c', p'.Reads file text S' → R a S' c' → Follows file text (f a) p' S' c' Q) :
    Follows file text (x >>= f) p S c fun b S' c' =>
      Q b S' c' ∧ S'.tokens.length < S.tokens.length := by
  refine hx.bind fun a p' S' c' hp' hR => (hf a p' S' c' hp' hR.1).imp fun b S'' c'' hlen hQ => ?_
  exact ⟨hQ, Nat.lt_of_le_of_lt hlen hR.2⟩

/-- The same, from another stage with the same outcome. -/
theorem Follows.restate {c' : Stage}
    (hc : c.resume file p.session S = c'.resume file p.session S)
    (hx : Follows file text x p S c' Q) : Follows file text x p S c Q := by
  cases hx with
  | error hrun hp hresume => exact .error hrun hp (hc.trans hresume)
  | ok hrun hp hlen hresume hQ => exact .ok hrun hp hlen (hc.trans hresume) hQ

theorem Follows.map {f : α → β} {Q : β → Stream → Stage → Prop}
    (hx : Follows file text x p S c fun a => Q (f a)) : Follows file text (f <$> x) p S c Q := by
  rw [map_eq_pure_bind]
  exact hx.bind fun _ _ _ _ hp hQ => .pure hp hQ

/-! ### Single calls -/

theorem on_call (f : Answer → α) (k : Call) (hp : p.Reads file text S) :
    (call f k).on p = some ((S.head.bind (k.answer file)).map f, p.called k) := by
  rw [← hp.answer]
  rfl

/-- A call that passes over no token. -/
theorem follows_look {f : Answer → α} {k : Call} (hp : p.Reads file text S)
    (hk : ∀ t, k.consumes t = false)
    (hok : ∀ t, S.head = .ok t → ∃ a, k.answer file t = .ok a ∧ Q (f a) S ⟨[], q⟩) :
    Follows file text (call f k) p S ⟨[], q⟩ Q := by
  have hrun := on_call f k hp
  cases hS : S.head with
  | error e =>
    rw [hS] at hrun
    exact .error hrun (hp.within_called k) (Stage.resume_fault hS)
  | ok t =>
    obtain ⟨a, ha, hQ⟩ := hok t hS
    rw [hS, Except.bind, ha] at hrun
    exact .ok hrun (hp.called hS (hk t)) (Nat.le_refl _) rfl hQ

theorem follows_atEnd (hp : p.Reads file text S) :
    Follows file text atEnd p S ⟨[], q⟩ fun b S' c' =>
      S' = S ∧ c' = ⟨[], q⟩ ∧ ∃ t, S.head = .ok t ∧ b = decide (t.lexeme = .eof) := by
  refine follows_look hp (fun _ => rfl) fun t hS => ⟨_, rfl, rfl, rfl, t, hS, ?_⟩
  have hfits : Call.Fits .eof none t ↔ t.lexeme = .eof := by
    cases ht : t.lexeme <;> simp [Call.Fits, ht, Lexeme.kind]
  exact decide_eq_decide.2 hfits

theorem follows_place (hp : p.Reads file text S) :
    Follows file text place p S ⟨[], q⟩ fun start S' c' =>
      S' = S ∧ c' = ⟨[], q⟩ ∧ ∃ t, S.head = .ok t ∧ t.position = start :=
  follows_look hp (fun _ => rfl) fun t hS => ⟨_, rfl, rfl, rfl, t, hS, rfl⟩

/-- A call that passes over the next token if that is `l`, and says so. -/
structure Eats (k : Call) (l : Lexeme) : Prop where
  consumes : ∀ t, k.consumes t = decide (t.lexeme = l)
  answer : ∀ file t, k.answer file t = .ok (.flag (decide (t.lexeme = l)))
  ne_eof : l ≠ .eof

theorem eats_punct (ch : Char) : Eats (.eatPunct ch) (.punct ch) := by
  have hfits : ∀ t : Token, Call.Fits (.punct ch) none t ↔ t.lexeme = .punct ch := by
    intro t
    cases ht : t.lexeme <;> simp [Call.Fits, ht, Lexeme.kind]
  refine ⟨fun t => decide_eq_decide.2 (hfits t), fun _ t => ?_, by simp⟩
  rw [Call.answer, decide_eq_decide.2 (hfits t)]

theorem eats_keyword (word : String) : Eats (.eatKeyword word) (.id word) := by
  have hfits : ∀ t : Token, Call.Fits .id (some word) t ↔ t.lexeme = .id word := by
    intro t
    cases ht : t.lexeme <;> simp [Call.Fits, ht, Lexeme.kind, Lexeme.text]
  refine ⟨fun t => decide_eq_decide.2 (hfits t), fun _ t => ?_, by simp⟩
  rw [Call.answer, decide_eq_decide.2 (hfits t)]

theorem tokens_tail_lt {t : Token} (hS : S.head = .ok t) (ht : t.lexeme ≠ .eof) :
    S.tail.tokens.length < S.tokens.length := by
  rw [Stream.eq_token hS ht]
  exact Nat.lt_succ_self _

/-- Either the next token is passed over, or it means what it means at another stage. -/
theorem follows_eat {k : Call} {l : Lexeme} {Q : Bool → Stream → Stage → Prop} (hk : Eats k l)
    (hp : p.Reads file text S)
    (hyes : ∀ t, S.head = .ok t → t.lexeme = l → ∃ c, step q t = c.step ∧ Q true S.tail c)
    (hno : ∀ t, S.head = .ok t → t.lexeme ≠ l → ∃ c, step q t = c.meaning t ∧ Q false S c) :
    Follows file text (call Answer.toBool k) p S ⟨[], q⟩ Q := by
  have hrun := on_call Answer.toBool k hp
  cases hS : S.head with
  | error e =>
    rw [hS] at hrun
    exact .error hrun (hp.within_called k) (Stage.resume_fault hS)
  | ok t =>
    rw [hS, Except.bind, hk.answer] at hrun
    by_cases ht : t.lexeme = l
    · obtain ⟨c, hc, hQ⟩ := hyes t hS ht
      have hne : t.lexeme ≠ .eof := by rw [ht]; exact hk.ne_eof
      have hpass : (p.called k).Reads file text S.tail := by
        rw [Stream.eq_token hS hne] at hp
        exact hp.passed (by rw [hk.consumes, decide_eq_true ht])
      rw [decide_eq_true ht] at hrun
      refine .ok hrun hpass (Nat.le_of_lt (tokens_tail_lt hS hne)) ?_ hQ
      rw [Stream.eq_token hS hne]
      exact Stage.resume_token hc
    · obtain ⟨c, hc, hQ⟩ := hno t hS ht
      rw [decide_eq_false ht] at hrun
      exact .ok hrun (hp.called hS (by rw [hk.consumes, decide_eq_false ht])) (Nat.le_refl _)
        (Stage.resume_congr hS hc) hQ

theorem follows_expectPunct {ch : Char} (hp : p.Reads file text S) (c : Stage)
    (hstep : ∀ t, step q t = punct ch t.lexeme c.step) :
    Follows file text (expectPunct ch) p S ⟨[], q⟩ fun _ _ c' => c' = c := by
  have hrun := on_call (fun _ => ()) (.expectPunct ch) hp
  cases hS : S.head with
  | error e =>
    rw [hS] at hrun
    exact .error hrun (hp.within_called _) (Stage.resume_fault hS)
  | ok t =>
    rw [hS] at hrun
    have hfits : Call.Fits (.punct ch) none t ↔ t.lexeme = .punct ch := by
      cases ht : t.lexeme <;> simp [Call.Fits, ht, Lexeme.kind]
    have hc := hstep t
    by_cases ht : t.lexeme = .punct ch
    · have hne : t.lexeme ≠ .eof := by rw [ht]; simp
      rw [punct, if_pos ht] at hc
      have hpass : (p.called (.expectPunct ch)).Reads file text S.tail := by
        rw [Stream.eq_token hS hne] at hp
        exact hp.passed (decide_eq_true (hfits.2 ht))
      simp only [Except.bind, Call.answer, Call.expectation, if_pos (hfits.2 ht)] at hrun
      refine .ok hrun hpass (Nat.le_of_lt (tokens_tail_lt hS hne)) ?_ rfl
      rw [Stream.eq_token hS hne]
      exact Stage.resume_token hc
    · rw [punct, if_neg ht] at hc
      have hkind : t.lexeme.kind ≠ .punct ch := fun h => ht (hfits.1 ⟨h, by simp⟩)
      simp only [Except.bind, Call.answer, Call.expectation, if_neg (mt hfits.1 ht), Call.wanted,
        if_neg hkind] at hrun
      exact .error hrun (hp.within_called _) (Stage.resume_fail hS hc)

/-! ### Tokens that have to come -/

/-- The next token is passed over, and answers what `f` makes of it. -/
def Takes (what : String) (f : Lexeme → Option α) (x : Parsing α) : Prop :=
  ∃ k : Call, (∀ t, k.consumes t = true) ∧ ∀ {file text p S}, p.Reads file text S →
    x.on p = some (S.head.bind fun t =>
      match f t.lexeme with
      | some a => .ok a
      | none => .error (.parse (.expected what t.lexeme.describe) ⟨file, t.position⟩), p.called k)

theorem follows_take {what : String} {f : Lexeme → Option α} (hx : Takes what f x)
    (hp : p.Reads file text S) (heof : f .eof = none) (next : α → Stage)
    (hstep : ∀ t, S.head = .ok t →
      step q t = (f t.lexeme).elim (expected what t.lexeme) fun a => (next a).step) :
    Follows file text x p S ⟨[], q⟩ fun a S' c' =>
      c' = next a ∧ S'.tokens.length < S.tokens.length := by
  obtain ⟨k, hk, hrun⟩ := hx
  replace hrun := hrun hp
  cases hS : S.head with
  | error e =>
    rw [hS] at hrun
    exact .error hrun (hp.within_called k) (Stage.resume_fault hS)
  | ok t =>
    rw [hS] at hrun
    have hc := hstep t hS
    cases hf : f t.lexeme with
    | none =>
      simp only [Except.bind, hf, Option.elim] at hrun hc
      exact .error hrun (hp.within_called k) (Stage.resume_fail hS hc)
    | some a =>
      have hne : t.lexeme ≠ .eof := by
        intro ht
        rw [ht, heof] at hf
        cases hf
      simp only [Except.bind, hf, Option.elim] at hrun hc
      have hlt := tokens_tail_lt hS hne
      have hpass : (p.called k).Reads file text S.tail := by
        rw [Stream.eq_token hS hne] at hp
        exact hp.passed (hk t)
      refine .ok hrun hpass (Nat.le_of_lt hlt) ?_ ⟨rfl, hlt⟩
      rw [Stream.eq_token hS hne]
      exact Stage.resume_token hc

theorem takes_call {what : String} {f : Lexeme → Option α} {g : Answer → α} {k : Call}
    (hk : ∀ t, k.consumes t = true)
    (hanswer : ∀ file t, (k.answer file t).map g =
      match f t.lexeme with
      | some a => .ok a
      | none => .error (.parse (.expected what t.lexeme.describe) ⟨file, t.position⟩)) :
    Takes what f (call g k) := by
  refine ⟨k, hk, fun {file text p S} hp => (on_call g k hp).trans ?_⟩
  cases S.head with
  | error e => rfl
  | ok t =>
    simp only [Except.bind, ← hanswer]

theorem takes_identifier : Takes "identifier" id? identifier := by
  refine takes_call (fun _ => rfl) fun file t => ?_
  simp only [Call.answer, Call.demand]
  cases t.lexeme <;> rfl

theorem takes_string : Takes "string" string? string := by
  refine takes_call (fun _ => rfl) fun file t => ?_
  simp only [Call.answer, Call.demand]
  cases t.lexeme <;> rfl

theorem takes_integer : Takes "integer" integer? integer := by
  refine takes_call (fun _ => rfl) fun file t => ?_
  simp only [Call.answer, Call.demand]
  cases t.lexeme <;> rfl

theorem file_called (hp : p.Reads file text S) (k : Call) : (p.called k).cursor.file = file :=
  (hp.shows.ask k).2.name

theorem takes_take (what : String) (f : Lexeme → Option α) : Takes what f (take what f) := by
  refine ⟨.read, fun _ => rfl, fun {file text p S} hp => ?_⟩
  have hrun := on_call Answer.toToken .read hp
  cases hS : S.head with
  | error e =>
    rw [hS] at hrun
    exact on_bind_of_error hrun
  | ok t =>
    rw [hS] at hrun
    refine (on_bind_of_ok hrun).trans ?_
    simp only [Answer.toToken, Except.bind]
    cases f t.lexeme with
    | some a => rfl
    | none =>
      show some (Except.error (CompileError.parse _ ⟨(p.called .read).cursor.file, t.position⟩), _) = _
      rw [file_called hp]

/-! ### Actions -/

theorem follows_perform {a : Action} {as : List Action} (hp : p.Reads file text S) :
    Follows file text (perform a) p S ⟨a :: as, q⟩ fun _ S' c' => S' = S ∧ c' = ⟨as, q⟩ := by
  cases ha : p.session.perform a with
  | ok session =>
    have hrun : (perform a).on p = some (.ok (), { p with session := session }) := by
      simp only [on, perform, ExceptT.run, StateT.run, ha]
    exact .ok hrun ⟨hp.cursor, hp.left, hp.count⟩ (Nat.le_refl _) (Stage.resume_perform ha) ⟨rfl, rfl⟩
  | error refusal =>
    obtain ⟨e, start⟩ := refusal
    have hrun : (perform a).on p = some (.error (.declaration e ⟨file, start⟩), p) := by
      rw [← hp.shows.name]
      simp only [on, perform, ExceptT.run, StateT.run, ha]
    exact .error hrun hp.within (Stage.resume_refused ha)

/-! ### Loops -/

/-- A round that goes on has read a token. -/
def Goes (S : Stream) (I J : σ → Stream → Stage → Prop) (a : σ) :
    Option σ → Stream → Stage → Prop
  | some b, S', c => I b S' c ∧ S'.tokens.length < S.tokens.length
  | none, S', c => J a S' c

theorem follows_round {l : Loop σ} {a : σ} {M : Stream → Stage → Prop} {I J : σ → Stream → Stage → Prop}
    (hmore : Follows file text l.more p S c fun b S' c' => if b then M S' c' else J a S' c')
    (hbody : ∀ {p' S' c'}, p'.Reads file text S' → M S' c' →
      Follows file text (l.body a) p' S' c' fun b S'' c'' =>
        I b S'' c'' ∧ S''.tokens.length < S'.tokens.length) :
    Follows file text (l.round a) p S c (Goes S I J a) := by
  refine (hmore.imp fun b S' c' hlen h => And.intro hlen h).bind fun b p' S' c' hp' h => ?_
  obtain ⟨hlen, h⟩ := h
  cases b with
  | false => exact .pure hp' h
  | true =>
    refine .map ((hbody hp' h).imp fun b S'' c'' _ hI => ?_)
    exact ⟨hI.1, Nat.lt_of_lt_of_le hI.2 hlen⟩

/-- A loop whose rounds go on only with fewer tokens left comes to an end. -/
theorem follows_run {l : Loop σ} {I J : σ → Stream → Stage → Prop}
    (hround : ∀ {a p S c}, p.Reads file text S → I a S c →
      Follows file text (l.round a) p S c (Goes S I J a)) {a : σ} (hp : p.Reads file text S)
    (hI : I a S c) : Follows file text (l.run a) p S c fun b S' c' => J b S' c' := by
  induction hn : S.tokens.length using Nat.strong_induction_on generalizing a p S c with
  | _ n ih =>
    rw [Loop.run]
    refine (hround hp hI).bind fun r p' S' c' hp' hr => ?_
    cases r with
    | none => exact .pure hp' hr
    | some b => exact ih _ (hn ▸ hr.2) hp' hr.1 rfl

end Parsing

end FlatSchema
