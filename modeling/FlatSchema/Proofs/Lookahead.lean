import FlatSchema.Source.Cursor
import FlatSchema.Source.Stream

/-!
# A cursor shows the tokens of its text one by one

Whatever calls were made on a cursor, and whether they failed or not, the next call sees one element
of the stream that reading alone would give: the one behind the tokens consumed so far.

    (ask k (c.after calls)).1 = (S.get (S.consumed calls)).bind (k.answer file)

for a new cursor `c` and its stream `S` (`ask_after`).  `Call.answer` says what a call answers when
the next token is known, and `Call.consumes` whether it passes over that token.  The invariant is
`Shows`: the text in front of a cursor has the stream that is left, and a token looked at is its
first.
-/

namespace FlatSchema

/-! ## Streams, element by element -/

namespace Stream

/-- The next token, or the fault in its place. -/
def head : Stream → Except CompileError Token
  | token t _ => .ok t
  | eof p => .ok ⟨.eof, p⟩
  | fault e => .error e

/-- What is left behind the next token; the end of a text and a fault stay. -/
def tail : Stream → Stream
  | token _ rest => rest
  | eof p => eof p
  | fault e => fault e

def drop (s : Stream) : Nat → Stream
  | 0 => s
  | n + 1 => s.tail.drop n

/-- What is found behind `n` tokens. -/
def get (s : Stream) (n : Nat) : Except CompileError Token :=
  (s.drop n).head

end Stream

/-! ## Calls -/

inductive Call where
  | peek
  | read
  | lookingAt (kind : TokenKind) (text : Option String)
  | eat (kind : TokenKind) (text : Option String)
  | eatPunct (c : Char)
  | eatKeyword (word : String)
  | expect (kind : TokenKind) (text : Option String)
  | expectPunct (c : Char)
  | string
  | identifier
  | integer
  | peekLocation
  deriving DecidableEq, Repr

inductive Answer where
  | token (t : Token)
  | flag (b : Bool)
  | done
  | text (s : String)
  | number (n : Int64)
  | place (l : Location)
  deriving DecidableEq, Repr

namespace Call

def run : Call → Reading Answer
  | peek => return .token (← Reading.peek)
  | read => return .token (← Reading.read)
  | lookingAt kind text => return .flag (← Reading.lookingAt kind text)
  | eat kind text => return .flag (← Reading.eat kind text)
  | eatPunct c => return .flag (← Reading.eat (.punct c) none)
  | eatKeyword word => return .flag (← Reading.eat .id (some word))
  | expect kind text => do Reading.expect kind text; return .done
  | expectPunct c => do Reading.expect (.punct c) none; return .done
  | string => return .text (← Reading.string)
  | identifier => return .text (← Reading.identifier)
  | integer => return .number (← Reading.integer)
  | peekLocation => return .place (← Reading.peekLocation)

/-- The token is of the kind and, if a text is given, is spelled so. -/
def Fits (kind : TokenKind) (text : Option String) (t : Token) : Prop :=
  t.lexeme.kind = kind ∧ ∀ w ∈ text, t.lexeme.text = w

instance (kind : TokenKind) (text : Option String) (t : Token) : Decidable (Fits kind text t) :=
  inferInstanceAs (Decidable (_ ∧ _))

/-- What a token that does not fit is reported to stand in place of. -/
def wanted (kind : TokenKind) (text : Option String) (t : Token) : String :=
  if t.lexeme.kind = kind then text.getD "" else kind.name

/-- Whether a call passes over the token `t` in front of it. -/
def consumes : Call → Token → Bool
  | read, _ | string, _ | identifier, _ | integer, _ => true
  | peek, _ | lookingAt _ _, _ | peekLocation, _ => false
  | eat kind text, t | expect kind text, t => Fits kind text t
  | eatPunct c, t | expectPunct c, t => Fits (.punct c) none t
  | eatKeyword word, t => Fits .id (some word) t

def expectation (file : String) (kind : TokenKind) (text : Option String) (t : Token) :
    Except CompileError Answer :=
  if Fits kind text t then .ok .done
  else .error (.parse (.insteadOf t.lexeme.describe (wanted kind text t)) ⟨file, t.position⟩)

def demand (file what : String) (f : Lexeme → Option Answer) (t : Token) :
    Except CompileError Answer :=
  match f t.lexeme with
  | some a => .ok a
  | none => .error (.parse (.expected what t.lexeme.describe) ⟨file, t.position⟩)

/-- What a call answers when the token `t` is in front of it. -/
def answer (file : String) : Call → Token → Except CompileError Answer
  | peek, t | read, t => .ok (.token t)
  | lookingAt kind text, t | eat kind text, t => .ok (.flag (Fits kind text t))
  | eatPunct c, t => .ok (.flag (Fits (.punct c) none t))
  | eatKeyword word, t => .ok (.flag (Fits .id (some word) t))
  | expect kind text, t => expectation file kind text t
  | expectPunct c, t => expectation file (.punct c) none t
  | string, t =>
    demand file "string" (fun | .string _ contents => some (.text contents) | _ => none) t
  | identifier, t => demand file "identifier" (fun | .id name => some (.text name) | _ => none) t
  | integer, t => demand file "integer" (fun | .integer _ n => some (.number n) | _ => none) t
  | peekLocation, t => .ok (.place ⟨file, t.position⟩)

end Call

/-- One call on a cursor: the answer, and the cursor after it. -/
def ask (k : Call) (c : Cursor) : Except CompileError Answer × Cursor :=
  match k.run.run c with
  | .ok a c' => (.ok a, c')
  | .error e c' => (.error e, c')

/-- The cursor after some calls, also where calls failed. -/
def Cursor.after (c : Cursor) : List Call → Cursor
  | [] => c
  | k :: ks => (ask k c).2.after ks

/-- How many tokens some calls consume of a stream. -/
def Stream.consumed (s : Stream) : List Call → Nat
  | [] => 0
  | k :: ks =>
    match s.head with
    | .ok t => if k.consumes t then s.tail.consumed ks + 1 else s.consumed ks
    | .error _ => s.consumed ks

/-- The stream that a cursor gives when it is read until the end of the text or the first fault. -/
inductive Cursor.Reads : Cursor → Stream → Prop where
  | token {c c' : Cursor} {t : Token} {s : Stream} (h : ask .read c = (.ok (.token t), c'))
      (ht : t.lexeme ≠ .eof) (hs : Reads c' s) : Reads c (.token t s)
  | eof {c c' : Cursor} {p : Position} (h : ask .read c = (.ok (.token ⟨.eof, p⟩), c')) :
      Reads c (.eof p)
  | fault {c c' : Cursor} {e : CompileError} (h : ask .read c = (.error e, c')) :
      Reads c (.fault e)

/-! ## Layout is skipped once -/

namespace Input

/-- Where layout was passed, there is none. -/
theorem skip?_of_skipFrom? {comment : Bool} {i j : Input} (h : skipFrom? comment i = some j) :
    j.skip? = some j := by
  fun_induction skipFrom? comment i with
  | case1 => cases h
  | case2 comment i hi =>
    cases h
    exact skipFrom?_of_nil false hi
  | case3 _ _ _ _ _ _ ih | case4 _ _ _ _ _ _ _ ih | case5 _ _ _ _ _ _ _ _ ih => exact ih h
  | case6 comment i c cs hi hc hspace hslash =>
    cases h
    rw [Bool.or_eq_true, not_or] at hspace
    rw [skip?, skipFrom?_of_cons false hi, if_neg hc, if_neg (by simpa using hspace.2), if_neg hslash]

theorem skip_skip (i : Input) : i.skip.skip = i.skip := by
  cases h : i.skip? with
  | none =>
    have hskip : i.skip = i := by rw [skip, h, Option.getD_none]
    rw [hskip, hskip]
  | some j =>
    have hskip : i.skip = j := by rw [skip, h, Option.getD_some]
    rw [hskip, skip, skip?_of_skipFrom? h, Option.getD_some]

end Input

namespace Stream

/-- The layout in front does not matter. -/
theorem readFrom_skip (file : String) (i : Input) : readFrom file i.skip = readFrom file i := by
  rw [readFrom, readFrom, Input.skip_skip]

theorem head_readFrom (file : String) (i : Input) :
    (readFrom file i).head = i.skip.token.mapError (.ofScan ⟨file, i.skip.position⟩) := by
  rw [readFrom, Input.token]
  split
  · next h => rw [h]; rfl
  · next l h =>
    rw [h]
    split
    · next hl => subst hl; rfl
    · rfl

theorem tail_readFrom {file : String} {i : Input} {t : Token} (h : i.skip.token = .ok t) :
    (readFrom file i).tail = readFrom file (i.skip.advance t.lexeme.text.utf8ByteSize) := by
  rw [Input.token] at h
  rw [readFrom]
  split
  · next hf => rw [hf] at h; cases h
  · next l hl =>
    rw [hl] at h
    cases h
    split
    · next he =>
      -- Nothing is passed over at the end of the text.
      subst he
      have hstay : i.skip.advance 0 = i.skip := rfl
      show eof i.skip.position = readFrom file (i.skip.advance 0)
      rw [hstay, readFrom, Input.skip_skip]
      split
      · next hf => rw [hf] at hl; cases hl
      · next l' hl' =>
        rw [hl'] at hl
        cases hl
        rfl
    · rfl

/-- The end of a text is no token among others. -/
def Proper : Stream → Prop
  | token t rest => t.lexeme ≠ .eof ∧ rest.Proper
  | eof _ => True
  | fault _ => True

theorem proper_readFrom (file : String) (i : Input) : (readFrom file i).Proper := by
  fun_induction readFrom file i with
  | case1 => trivial
  | case2 => trivial
  | case3 i next l h hl ih => exact ⟨hl, ih⟩

/-- The stream goes on with a token exactly if there is one behind the layout. -/
theorem readFrom_eq_token_iff {file : String} {i : Input} {t : Token} {S : Stream} :
    readFrom file i = token t S ↔ i.skip.token = .ok t ∧ t.lexeme ≠ .eof ∧
      S = readFrom file (i.skip.advance t.lexeme.text.utf8ByteSize) := by
  have hhead := head_readFrom file i
  constructor
  · intro h
    have hproper := proper_readFrom file i
    rw [h] at hhead hproper
    cases htoken : i.skip.token with
    | error f =>
      rw [htoken] at hhead
      cases hhead
    | ok t' =>
      rw [htoken] at hhead
      cases hhead
      refine ⟨rfl, hproper.1, ?_⟩
      rw [← tail_readFrom htoken, h]
      rfl
  · rintro ⟨htoken, ht, rfl⟩
    rw [htoken] at hhead
    rw [← tail_readFrom htoken]
    cases hS : readFrom file i with
    | token t' rest =>
      rw [hS] at hhead
      cases hhead
      rfl
    | eof p =>
      rw [hS] at hhead
      cases hhead
      exact absurd rfl ht
    | fault e =>
      rw [hS] at hhead
      cases hhead

theorem drop_succ (s : Stream) (n : Nat) : s.drop (n + 1) = (s.drop n).tail := by
  induction n generalizing s with
  | zero => rfl
  | succ n ih => exact ih s.tail

variable {s : Stream} {n m : Nat} {e : CompileError} {p : Position}

theorem Proper.drop (h : s.Proper) (n : Nat) : (s.drop n).Proper := by
  induction n generalizing s with
  | zero => exact h
  | succ n ih =>
    cases s with
    | token t rest => exact ih h.2
    | eof p => exact ih h
    | fault e => exact ih h

theorem Proper.eq_eof (h : s.Proper) (hs : s.head = .ok ⟨.eof, p⟩) : s = eof p := by
  cases s with
  | token t rest =>
    cases hs
    exact absurd rfl h.1
  | eof q => cases hs; rfl
  | fault e => cases hs

theorem eq_fault (hs : s.head = .error e) : s = fault e := by
  cases s with
  | token t rest => cases hs
  | eof q => cases hs
  | fault e' => cases hs; rfl

/-- Behind the end there is the end. -/
theorem Proper.get_of_eof (h : s.Proper) (hn : s.get n = .ok ⟨.eof, p⟩) (hm : n ≤ m) :
    s.get m = .ok ⟨.eof, p⟩ := by
  have hstay : s.drop m = eof p := by
    induction hm with
    | refl => exact (h.drop n).eq_eof hn
    | step _ ih => rw [drop_succ, ih]; rfl
  rw [get, hstay]
  rfl

/-- A fault is never passed. -/
theorem get_of_error (hn : s.get n = .error e) (hm : n ≤ m) : s.get m = .error e := by
  have hstay : s.drop m = fault e := by
    induction hm with
    | refl => exact eq_fault hn
    | step _ ih => rw [drop_succ, ih]; rfl
  rw [get, hstay]
  rfl

end Stream

/-! ## The cursor before a call -/

namespace Cursor

/-- The text in front of the cursor gives the stream, and a token looked at is its first one. -/
structure Shows (c : Cursor) (file : String) (s : Stream) : Prop where
  name : c.file = file
  stream : Stream.readFrom file c.input = s
  ahead : ∀ t, c.ahead = some t → c.input.skip = c.input ∧ c.input.token = .ok t

/-- The cursor behind a token that was looked at. -/
def pass (c : Cursor) (t : Token) : Cursor :=
  { c with input := c.input.advance t.lexeme.text.utf8ByteSize, ahead := none }

variable {c : Cursor} {file : String} {s : Stream} {t : Token}

theorem shows_ofText (file text : String) : (ofText file text).Shows file (.ofText file text) :=
  ⟨rfl, rfl, fun _ h => by cases h⟩

theorem Shows.pass (h : c.Shows file s) (ht : c.ahead = some t) :
    (c.pass t).Shows file s.tail := by
  obtain ⟨hskip, htoken⟩ := h.ahead t ht
  refine ⟨h.name, ?_, fun _ h => by cases h⟩
  rw [← h.stream, Stream.tail_readFrom (hskip.symm ▸ htoken), hskip]
  rfl

end Cursor

/-! ## One call -/

namespace Call

open Reading

variable {c : Cursor} {t : Token}

theorem run_peek_of_ahead (h : c.ahead = some t) : Reading.peek.run c = .ok t c := by
  simp only [Reading.peek, EStateM.run_bind, EStateM.run_get, h, EStateM.run_pure]

theorem run_consume (c : Cursor) (t : Token) : (consume t).run c = .ok () (c.pass t) :=
  rfl

theorem run_read_of_ahead (h : c.ahead = some t) : Reading.read.run c = .ok t (c.pass t) := by
  simp only [Reading.read, EStateM.run_bind, run_peek_of_ahead h, run_consume, EStateM.run_pure]

theorem run_fail {α : Type} (c : Cursor) (t : Token) (f : ParseFault) :
    (Reading.fail t f : Reading α).run c = .error (.parse f ⟨c.file, t.position⟩) c :=
  rfl

theorem fits_eq_decide (kind : TokenKind) (text : Option String) (t : Token) :
    Reading.fits kind text t = decide (Fits kind text t) := by
  cases text with
  | none => simp [Reading.fits, Fits]
  | some w => simp [Reading.fits, Fits, eq_comm]

theorem run_eat_of_ahead (kind : TokenKind) (text : Option String) (h : c.ahead = some t) :
    (Reading.eat kind text).run c =
      .ok (decide (Fits kind text t)) (if Fits kind text t then c.pass t else c) := by
  simp only [Reading.eat, EStateM.run_bind, run_peek_of_ahead h, fits_eq_decide, decide_eq_true_eq]
  by_cases hf : Fits kind text t
  · simp only [hf, if_true, EStateM.run_bind, run_consume, EStateM.run_pure, decide_true]
  · simp only [hf, if_false, EStateM.run_pure, decide_false]

theorem run_expect_of_ahead (kind : TokenKind) (text : Option String) (h : c.ahead = some t) :
    (Reading.expect kind text).run c =
      if Fits kind text t then .ok () (c.pass t)
      else .error (.parse (.insteadOf t.lexeme.describe (wanted kind text t)) ⟨c.file, t.position⟩)
        c := by
  simp only [Reading.expect, EStateM.run_bind, run_peek_of_ahead h]
  by_cases hk : t.lexeme.kind = kind
  · cases text with
    | none => simp [hk, Fits, run_consume]
    | some w => by_cases hw : t.lexeme.text = w <;> simp [hk, hw, Fits, wanted, run_fail, run_consume]
  · simp [hk, Fits, wanted, run_fail]

theorem run_take_of_ahead {α : Type} (what : String) (f : Lexeme → Option α)
    (h : c.ahead = some t) :
    (Reading.take what f).run c =
      match f t.lexeme with
      | some a => .ok a (c.pass t)
      | none => .error (.parse (.expected what t.lexeme.describe) ⟨c.file, t.position⟩) (c.pass t) := by
  simp only [Reading.take, EStateM.run_bind, run_read_of_ahead h]
  cases f t.lexeme <;> rfl

theorem ask_of_ahead (k : Call) (h : c.ahead = some t) :
    ask k c = (k.answer c.file t, if k.consumes t then c.pass t else c) := by
  cases k with
  | peek =>
    simp only [ask, run, EStateM.run_bind, run_peek_of_ahead h]
    rfl
  | read =>
    simp only [ask, run, EStateM.run_bind, run_read_of_ahead h]
    rfl
  | lookingAt kind text =>
    simp only [ask, run, Reading.lookingAt, EStateM.run_bind, run_peek_of_ahead h, fits_eq_decide]
    rfl
  | eat kind text =>
    simp only [ask, run, EStateM.run_bind, run_eat_of_ahead _ _ h, consumes, decide_eq_true_eq]
    rfl
  | eatPunct ch =>
    simp only [ask, run, EStateM.run_bind, run_eat_of_ahead _ _ h, consumes, decide_eq_true_eq]
    rfl
  | eatKeyword word =>
    simp only [ask, run, EStateM.run_bind, run_eat_of_ahead _ _ h, consumes, decide_eq_true_eq]
    rfl
  | expect kind text =>
    simp only [ask, run, EStateM.run_bind, run_expect_of_ahead _ _ h, answer, expectation, consumes,
      decide_eq_true_eq]
    by_cases hf : Fits kind text t <;> simp [hf]
  | expectPunct ch =>
    simp only [ask, run, EStateM.run_bind, run_expect_of_ahead _ _ h, answer, expectation, consumes,
      decide_eq_true_eq]
    by_cases hf : Fits (.punct ch) none t <;> simp [hf]
  | string =>
    simp only [ask, run, Reading.string, EStateM.run_bind, run_take_of_ahead _ _ h, answer, demand]
    cases t.lexeme <;> rfl
  | identifier =>
    simp only [ask, run, Reading.identifier, EStateM.run_bind, run_take_of_ahead _ _ h, answer, demand]
    cases t.lexeme <;> rfl
  | integer =>
    simp only [ask, run, Reading.integer, EStateM.run_bind, run_take_of_ahead _ _ h, answer, demand]
    cases t.lexeme <;> rfl
  | peekLocation =>
    simp only [ask, run, Reading.peekLocation, EStateM.run_bind, run_peek_of_ahead h]
    rfl

/-- The computation looks at the next token before all else. -/
def Looks {α : Type} (m : Reading α) : Prop :=
  ∃ f : Token → Reading α, m = Reading.peek >>= f

theorem Looks.bind {α β : Type} {m : Reading α} (h : Looks m) (g : α → Reading β) :
    Looks (m >>= g) := by
  obtain ⟨f, rfl⟩ := h
  exact ⟨fun t => f t >>= g, bind_assoc ..⟩

theorem looks_read : Looks Reading.read :=
  ⟨_, rfl⟩

theorem looks_run (k : Call) : Looks k.run := by
  cases k with
  | peek => exact ⟨_, rfl⟩
  | read => exact looks_read.bind _
  | lookingAt kind text => exact Looks.bind ⟨_, rfl⟩ _
  | eat kind text => exact Looks.bind ⟨_, rfl⟩ _
  | eatPunct c => exact Looks.bind ⟨_, rfl⟩ _
  | eatKeyword word => exact Looks.bind ⟨_, rfl⟩ _
  | expect kind text => exact Looks.bind ⟨_, rfl⟩ _
  | expectPunct c => exact Looks.bind ⟨_, rfl⟩ _
  | string => exact (looks_read.bind _).bind _
  | identifier => exact (looks_read.bind _).bind _
  | integer => exact (looks_read.bind _).bind _
  | peekLocation => exact Looks.bind ⟨_, rfl⟩ _

end Call

namespace Cursor

open Call

variable {c : Cursor} {file : String} {s : Stream}

theorem run_peek_of_none (h : c.ahead = none) :
    Reading.peek.run c =
      match c.input.skip.token with
      | .ok t => .ok t { c with input := c.input.skip, ahead := some t }
      | .error f =>
        .error (.ofScan ⟨c.file, c.input.skip.position⟩ f) { c with input := c.input.skip } := by
  simp only [Reading.peek, EStateM.run_bind, EStateM.run_get, h]
  cases c.input.skip.token <;> rfl

/-- Looking ahead shows the first element, and leaves what is shown. -/
theorem Shows.peek (h : c.Shows file s) :
    ∃ c', c'.Shows file s ∧
      match s.head with
      | .ok t => Reading.peek.run c = .ok t c' ∧ c'.ahead = some t
      | .error e => Reading.peek.run c = .error e c' := by
  obtain rfl := h.name
  have hhead : s.head = c.input.skip.token.mapError (.ofScan ⟨c.file, c.input.skip.position⟩) := by
    rw [← h.stream, Stream.head_readFrom]
  have hstream : Stream.readFrom c.file c.input.skip = s := by
    rw [Stream.readFrom_skip, h.stream]
  cases ha : c.ahead with
  | some t =>
    obtain ⟨hskip, htoken⟩ := h.ahead t ha
    rw [hskip, htoken] at hhead
    rw [hhead]
    exact ⟨c, h, run_peek_of_ahead ha, ha⟩
  | none =>
    rw [run_peek_of_none ha, hhead]
    cases ht : c.input.skip.token with
    | ok t =>
      refine ⟨{ c with input := c.input.skip, ahead := some t }, ⟨rfl, hstream, ?_⟩, rfl, rfl⟩
      intro t' ht'
      cases ht'
      exact ⟨Input.skip_skip _, ht⟩
    | error f =>
      refine ⟨{ c with input := c.input.skip }, ⟨rfl, hstream, ?_⟩, rfl⟩
      intro t' ht'
      rw [show c.ahead = some t' from ht'] at ha
      cases ha

/-- One call. -/
theorem Shows.ask (h : c.Shows file s) (k : Call) :
    (FlatSchema.ask k c).1 = s.head.bind (k.answer file) ∧
      (FlatSchema.ask k c).2.Shows file
        (match s.head with
        | .ok t => if k.consumes t then s.tail else s
        | .error _ => s) := by
  obtain ⟨f, hf⟩ := looks_run k
  obtain ⟨c', hc', hpeek⟩ := h.peek
  cases hhead : s.head with
  | error e =>
    rw [hhead] at hpeek
    have hask : FlatSchema.ask k c = (.error e, c') := by
      simp only [FlatSchema.ask, hf, EStateM.run_bind, hpeek]
    rw [hask]
    exact ⟨rfl, hc'⟩
  | ok t =>
    rw [hhead] at hpeek
    have hask : FlatSchema.ask k c = FlatSchema.ask k c' := by
      simp only [FlatSchema.ask, hf, EStateM.run_bind, hpeek.1, run_peek_of_ahead hpeek.2]
    rw [hask, ask_of_ahead k hpeek.2, hc'.name]
    refine ⟨rfl, ?_⟩
    dsimp only
    split
    · exact hc'.pass hpeek.2
    · exact hc'

/-- All calls. -/
theorem Shows.after (h : c.Shows file s) (calls : List Call) :
    (c.after calls).Shows file (s.drop (s.consumed calls)) := by
  induction calls generalizing c s with
  | nil => exact h
  | cons k ks ih =>
    have hnext := (h.ask k).2
    unfold Cursor.after Stream.consumed
    cases hhead : s.head with
    | error e =>
      rw [hhead] at hnext
      exact ih hnext
    | ok t =>
      rw [hhead] at hnext
      dsimp only at hnext ⊢
      by_cases hk : k.consumes t = true
      · rw [if_pos hk] at hnext ⊢
        exact ih hnext
      · rw [if_neg hk] at hnext ⊢
        exact ih hnext

/-- Reading a cursor gives the stream that it shows. -/
theorem Shows.reads (h : c.Shows file s) (hs : s.Proper) : c.Reads s := by
  induction s generalizing c with
  | token t rest ih =>
    obtain ⟨hanswer, hnext⟩ := h.ask .read
    exact .token (Prod.ext hanswer rfl) hs.1 (ih hnext hs.2)
  | eof p => exact .eof (Prod.ext (h.ask .read).1 rfl)
  | fault e => exact .fault (Prod.ext (h.ask .read).1 rfl)

end Cursor

/-! ## Top theorem -/

/-- A new cursor reads as the stream `S` of its text, in which the end of the text and a fault are
never passed.  After any calls, each call is answered from the element of `S` behind the tokens that
were consumed. -/
theorem ask_after (file text : String) :
    let S := Stream.ofText file text
    (Cursor.ofText file text).Reads S ∧
      (∀ n m p, n ≤ m → S.get n = .ok ⟨.eof, p⟩ → S.get m = .ok ⟨.eof, p⟩) ∧
      (∀ n m e, n ≤ m → S.get n = .error e → S.get m = .error e) ∧
      ∀ (calls : List Call) (k : Call),
        (ask k ((Cursor.ofText file text).after calls)).1 =
          (S.get (S.consumed calls)).bind (k.answer file) := by
  have hproper := Stream.proper_readFrom file (.start text)
  have hshows := Cursor.shows_ofText file text
  refine ⟨hshows.reads hproper, ?_, ?_, fun calls k => ((hshows.after calls).ask k).1⟩
  · exact fun n m p hm hn => hproper.get_of_eof hn hm
  · exact fun n m e hm hn => Stream.get_of_error hn hm

end FlatSchema
