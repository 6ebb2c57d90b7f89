import FlatSchema.Grammar.Step
import FlatSchema.Proofs.Grammar.Document
import Mathlib.Order.ConditionallyCompleteLattice.Basic
import Mathlib.Order.CompletePartialOrder

/-!
# Reading with an automaton

A reading relates what may follow, up to the end of the text, to the actions that it settles.
Readings are put together from sentences and actions (`behind`, `settling`) and choices (`⊔`, `⨆`),
and a loop of them reads a list of sentences (`loop`).  `reads q` is the reading of a state, and each
kind of state has an equation: one lexeme has to come (`reads_lexeme`), or a mark may come
(`reads_or`).

Tokens stand nowhere in this module; their places are put back where files are parsed.
-/

namespace FlatSchema

/-- Where a token stands if places do not matter. -/
def nowhere : Position := ⟨0, 0⟩

namespace Grammar

/-! ## Readings -/

/-- What may be read, with what it settles. -/
abbrev Reading := List Lexeme → List Action → Prop

namespace Reading

/-- Nothing is left. -/
def done : Reading :=
  fun ls as => ls = [] ∧ as = []

/-- First a sentence of `L`. -/
def behind (L : Language Lexeme) (R : Reading) : Reading :=
  fun ls as => ∃ u ∈ L, ∃ v, u ++ v = ls ∧ R v as

/-- First these actions. -/
def settling (xs : List Action) (R : Reading) : Reading :=
  fun ls as => ∃ bs, xs ++ bs = as ∧ R ls bs

variable {R R' : Reading} {L M : Language Lexeme} {α : Type} {F : α → Reading} {ls : List Lexeme}
  {as xs ys : List Action}

@[simp] theorem nil_notMem_lexeme {p : Lexeme → Prop} : [] ∉ Sentence.lexeme p := by
  rintro ⟨l, -, hl⟩
  cases hl

theorem lexeme_or (p p' : Lexeme → Prop) :
    Sentence.lexeme (fun l => p l ∨ p' l) = Sentence.lexeme p + Sentence.lexeme p' := by
  ext ls
  rw [Language.mem_add]
  constructor
  · rintro ⟨l, hl | hl, rfl⟩
    · exact .inl ⟨l, hl, rfl⟩
    · exact .inr ⟨l, hl, rfl⟩
  · rintro (⟨l, hl, rfl⟩ | ⟨l, hl, rfl⟩)
    · exact ⟨l, .inl hl, rfl⟩
    · exact ⟨l, .inr hl, rfl⟩

@[simp] theorem behind_lexeme_nil {p : Lexeme → Prop} : ¬ behind (Sentence.lexeme p) R [] as := by
  rintro ⟨u, ⟨l, -, rfl⟩, v, hv, -⟩
  cases hv

@[simp] theorem behind_lexeme_cons {p : Lexeme → Prop} {l : Lexeme} :
    behind (Sentence.lexeme p) R (l :: ls) as ↔ p l ∧ R ls as := by
  constructor
  · rintro ⟨u, ⟨l', hp, rfl⟩, v, hv, hR⟩
    obtain ⟨rfl, rfl⟩ := List.cons.inj hv
    exact ⟨hp, hR⟩
  · rintro ⟨hp, hR⟩
    exact ⟨[l], ⟨l, hp, rfl⟩, ls, rfl, hR⟩

theorem behind_one : behind 1 R = R := by
  ext ls as
  constructor
  · rintro ⟨u, hu, v, rfl, hR⟩
    rw [(Language.mem_one u).1 hu]
    exact hR
  · intro hR
    exact ⟨[], Language.nil_mem_one, ls, rfl, hR⟩

theorem behind_mul : behind (L * M) R = behind L (behind M R) := by
  ext ls as
  constructor
  · rintro ⟨u, hu, v, rfl, hR⟩
    obtain ⟨a, ha, b, hb, rfl⟩ := Language.mem_mul.1 hu
    exact ⟨a, ha, b ++ v, (List.append_assoc a b v).symm, b, hb, v, rfl, hR⟩
  · rintro ⟨a, ha, w, rfl, b, hb, v, rfl, hR⟩
    exact ⟨a ++ b, Language.append_mem_mul ha hb, v, List.append_assoc a b v, hR⟩

theorem behind_add : behind (L + M) R = behind L R ⊔ behind M R := by
  ext ls as
  constructor
  · rintro ⟨u, hu, v, rfl, hR⟩
    rcases (Language.mem_add L M u).1 hu with hu | hu
    · exact .inl ⟨u, hu, v, rfl, hR⟩
    · exact .inr ⟨u, hu, v, rfl, hR⟩
  · rintro (⟨u, hu, v, rfl, hR⟩ | ⟨u, hu, v, rfl, hR⟩)
    · exact ⟨u, (Language.mem_add L M u).2 (.inl hu), v, rfl, hR⟩
    · exact ⟨u, (Language.mem_add L M u).2 (.inr hu), v, rfl, hR⟩

theorem behind_maybe : behind (Sentence.maybe L) R = R ⊔ behind L R := by
  rw [Sentence.maybe, behind_add, behind_one]

theorem iSup_iff : (⨆ a, F a) ls as ↔ ∃ a, F a ls as := by
  simp only [iSup_apply, iSup_Prop_eq]

theorem behind_iSup : behind L (⨆ a, F a) = ⨆ a, behind L (F a) := by
  ext ls as
  simp only [behind, iSup_iff]
  constructor
  · rintro ⟨u, hu, v, hv, a, hR⟩
    exact ⟨a, u, hu, v, hv, hR⟩
  · rintro ⟨a, u, hu, v, hv, hR⟩
    exact ⟨u, hu, v, hv, a, hR⟩

theorem settling_nil : settling [] R = R := by
  ext ls as
  simp [settling]

theorem settling_append : settling (xs ++ ys) R = settling xs (settling ys R) := by
  ext ls as
  constructor
  · rintro ⟨bs, rfl, hR⟩
    exact ⟨ys ++ bs, (List.append_assoc xs ys bs).symm, bs, rfl, hR⟩
  · rintro ⟨cs, rfl, bs, rfl, hR⟩
    exact ⟨bs, List.append_assoc xs ys bs, hR⟩

theorem settling_behind : settling xs (behind L R) = behind L (settling xs R) := by
  ext ls as
  constructor
  · rintro ⟨bs, hbs, u, hu, v, hv, hR⟩
    exact ⟨u, hu, v, hv, bs, hbs, hR⟩
  · rintro ⟨u, hu, v, hv, bs, hbs, hR⟩
    exact ⟨bs, hbs, u, hu, v, hv, hR⟩

theorem settling_iSup : settling xs (⨆ a, F a) = ⨆ a, settling xs (F a) := by
  ext ls as
  simp only [settling, iSup_iff]
  constructor
  · rintro ⟨bs, hbs, a, hR⟩
    exact ⟨a, bs, hbs, hR⟩
  · rintro ⟨a, bs, hbs, hR⟩
    exact ⟨bs, hbs, a, hR⟩

/-- A loop reads a list of sentences.  It may carry a state `s`, and each sentence takes a lexeme at
least, so it comes to an end. -/
theorem loop {σ : Type} (next : σ → α → σ) {R E : σ → Reading} {L : α → Language Lexeme}
    {f : α → List Action} (hL : ∀ a, [] ∉ L a)
    (h : ∀ s, R s = E s ⊔ ⨆ a, behind (L a) (settling (f a) (R (next s a)))) (s : σ) :
    R s = ⨆ xs : List α, behind (xs.map L).prod (settling (xs.flatMap f) (E (xs.foldl next s))) := by
  ext ls as
  rw [iSup_iff]
  constructor
  · -- The rest behind a sentence is shorter.
    induction hn : ls.length using Nat.strong_induction_on generalizing s ls as with
    | _ n ih =>
      intro hR
      rw [h s] at hR
      rcases hR with hE | hR
      · exact ⟨[], [], Language.nil_mem_one, ls, rfl, as, rfl, hE⟩
      · obtain ⟨a, u, hu, v, rfl, bs, rfl, hnext⟩ := iSup_iff.1 hR
        have hpos : 0 < u.length := List.length_pos_iff.2 (by rintro rfl; exact hL a hu)
        obtain ⟨xs, u', hu', v', rfl, cs, rfl, hE⟩ :=
          ih v.length (by rw [← hn, List.length_append]; omega) (next s a) v bs rfl hnext
        refine ⟨a :: xs, u ++ u', ?_, v', List.append_assoc u u' v', cs, ?_, hE⟩
        · exact Language.append_mem_mul hu hu'
        · rw [List.flatMap_cons, List.append_assoc]
  · rintro ⟨xs, hR⟩
    induction xs generalizing s ls as with
    | nil =>
      rw [List.map_nil, List.prod_nil, behind_one, List.flatMap_nil, settling_nil] at hR
      rw [h s]
      exact .inl hR
    | cons a xs ih =>
      rw [List.map_cons, List.prod_cons, behind_mul, List.flatMap_cons, settling_append] at hR
      rw [h s]
      refine .inr (iSup_iff.2 ⟨a, ?_⟩)
      rw [← settling_behind] at hR
      obtain ⟨u, hu, v, rfl, bs, rfl, hR⟩ := hR
      exact ⟨u, hu, v, rfl, bs, rfl, ih (next s a) v bs hR⟩

theorem loop_const {R E : Reading} {L : α → Language Lexeme} {f : α → List Action}
    (hL : ∀ a, [] ∉ L a) (h : R = E ⊔ ⨆ a, behind (L a) (settling (f a) R)) :
    R = ⨆ xs : List α, behind (xs.map L).prod (settling (xs.flatMap f) E) :=
  loop (fun _ _ => ()) hL (fun _ => h) ()

end Reading

/-! ## States -/

open Grammar.Reading Sentence

/-- What may be read from a state on, to the end of the text. -/
def reads : State → List Lexeme → List Action → Prop
  | q, [], as => (∃ q', (step q ⟨.eof, nowhere⟩).next = .ok q') ∧ (step q ⟨.eof, nowhere⟩).actions = as
  | q, l :: ls, as => ∃ q', (step q ⟨l, nowhere⟩).next = .ok q' ∧
      ∃ bs, (step q ⟨l, nowhere⟩).actions ++ bs = as ∧ reads q' ls bs

section

variable {q q' : State} {α : Type}

theorem reads_nil_of_error {f : ParseFault} {as : List Action}
    (h : (step q ⟨.eof, nowhere⟩).next = .error f) : ¬ reads q [] as := by
  rintro ⟨⟨q', hq'⟩, -⟩
  rw [h] at hq'
  cases hq'

theorem reads_cons_of_error {f : ParseFault} {l : Lexeme} {ls : List Lexeme} {as : List Action}
    (h : (step q ⟨l, nowhere⟩).next = .error f) : ¬ reads q (l :: ls) as := by
  rintro ⟨q', hq', -⟩
  rw [h] at hq'
  cases hq'

theorem reads_cons_of_ok {l : Lexeme} {ls : List Lexeme} {as xs : List Action}
    (h : step q ⟨l, nowhere⟩ = ⟨xs, .ok q'⟩) :
    reads q (l :: ls) as ↔ settling xs (reads q') ls as := by
  rw [reads, h]
  simp [settling]

/-- A state in which one lexeme has to come. -/
theorem reads_lexeme (p : α → Lexeme → Prop) (xs : α → List Action) (next : α → State)
    (hok : ∀ a l, p a l → l ≠ .eof ∧ step q ⟨l, nowhere⟩ = ⟨xs a, .ok (next a)⟩)
    (herr : ∀ l, (∀ a, ¬ p a l) → ∃ f, (step q ⟨l, nowhere⟩).next = .error f) :
    reads q = ⨆ a, behind (lexeme (p a)) (settling (xs a) (reads (next a))) := by
  ext ls as
  rw [iSup_iff]
  cases ls with
  | nil =>
    obtain ⟨f, hf⟩ := herr .eof fun a ha => (hok a .eof ha).1 rfl
    simp [reads_nil_of_error hf]
  | cons l ls =>
    simp only [behind_lexeme_cons]
    constructor
    · intro hr
      by_cases hl : ∃ a, p a l
      · obtain ⟨a, ha⟩ := hl
        exact ⟨a, ha, (reads_cons_of_ok (hok a l ha).2).1 hr⟩
      · obtain ⟨f, hf⟩ := herr l fun a ha => hl ⟨a, ha⟩
        exact absurd hr (reads_cons_of_error hf)
    · rintro ⟨a, ha, hr⟩
      exact (reads_cons_of_ok (hok a l ha).2).2 hr

theorem reads_mark (c : Char) (q' : State) (xs : List Action)
    (h : ∀ l, step q ⟨l, nowhere⟩ = punct c l ⟨xs, .ok q'⟩) :
    reads q = behind (mark c) (settling xs (reads q')) := by
  have hr : reads q = ⨆ _ : Unit, behind (mark c) (settling xs (reads q')) := by
    refine reads_lexeme (fun _ l => l = .punct c) _ _ ?_ fun l hl => ?_
    · rintro - l rfl
      rw [h, punct, if_pos rfl]
      exact ⟨by simp, rfl⟩
    · rw [h, punct, if_neg (hl ())]
      exact ⟨_, rfl⟩
  rw [hr, iSup_const]

theorem reads_word (next : String → State) (xs : String → List Action)
    (hid : ∀ n, step q ⟨.id n, nowhere⟩ = ⟨xs n, .ok (next n)⟩)
    (herr : ∀ l, (∀ n, l ≠ .id n) → ∃ f, (step q ⟨l, nowhere⟩).next = .error f) :
    reads q = ⨆ n, behind (word n) (settling (xs n) (reads (next n))) := by
  refine reads_lexeme (fun n l => l = .id n) _ _ ?_ fun l hl => herr l hl
  rintro n l rfl
  exact ⟨by simp, hid n⟩

theorem reads_identifier (next : String → State) (xs : String → List Action)
    (h : ∀ l, step q ⟨l, nowhere⟩ = identifier l fun n => ⟨xs n, .ok (next n)⟩) :
    reads q = ⨆ n, behind (word n) (settling (xs n) (reads (next n))) := by
  refine reads_word next xs (fun n => h _) fun l hl => ?_
  rw [h, identifier.eq_def]
  split
  · exact absurd rfl (hl _)
  · exact ⟨_, rfl⟩

theorem reads_quoted (next : String → State) (xs : String → List Action)
    (h : ∀ l, step q ⟨l, nowhere⟩ = Grammar.quoted l fun n => ⟨xs n, .ok (next n)⟩) :
    reads q = ⨆ n, behind (Sentence.quoted n) (settling (xs n) (reads (next n))) := by
  refine reads_lexeme (fun n l => ∃ quote, l = .string quote n) xs next ?_ fun l hl => ?_
  · rintro n l ⟨quote, rfl⟩
    exact ⟨by simp, h _⟩
  · rw [h, Grammar.quoted.eq_def]
    split
    · exact absurd ⟨_, rfl⟩ (hl _)
    · exact ⟨_, rfl⟩

/-- A state in which either a mark or an identifier has to come. -/
theorem reads_mark_or_word (c : Char) (q' : State) (xs : List Action) (next : String → State)
    (ys : String → List Action) (hc : step q ⟨.punct c, nowhere⟩ = ⟨xs, .ok q'⟩)
    (hid : ∀ n, step q ⟨.id n, nowhere⟩ = ⟨ys n, .ok (next n)⟩)
    (herr : ∀ l, l ≠ .punct c → (∀ n, l ≠ .id n) → ∃ f, (step q ⟨l, nowhere⟩).next = .error f) :
    reads q = behind (mark c) (settling xs (reads q')) ⊔
      ⨆ n, behind (word n) (settling (ys n) (reads (next n))) := by
  have hr := reads_lexeme (q := q) (fun (o : Option String) l => l = o.elim (.punct c) .id)
    (fun o => o.elim xs ys) (fun o => o.elim q' next) ?_ fun l hl => ?_
  · rw [hr, iSup_option]
    rfl
  · rintro (_ | n) l rfl
    · exact ⟨by simp, hc⟩
    · exact ⟨by simp, hid n⟩
  · exact herr l (hl none) fun n => hl (some n)

/-- Two states that agree on the next lexeme, up to actions that one of them has yet to settle. -/
theorem reads_iff_settling {xs : List Action} {ls : List Lexeme} {as : List Action}
    (h : step q ⟨ls.headD .eof, nowhere⟩ = { step q' ⟨ls.headD .eof, nowhere⟩ with
      actions := xs ++ (step q' ⟨ls.headD .eof, nowhere⟩).actions }) :
    reads q ls as ↔ settling xs (reads q') ls as := by
  cases ls with
  | nil =>
    rw [List.headD_nil] at h
    rw [reads, h]
    constructor
    · rintro ⟨hq, rfl⟩
      exact ⟨_, rfl, hq, rfl⟩
    · rintro ⟨_, rfl, hq, rfl⟩
      exact ⟨hq, rfl⟩
  | cons l ls =>
    rw [List.headD_cons] at h
    rw [reads, h]
    constructor
    · rintro ⟨q₁, hq₁, bs, rfl, hr⟩
      exact ⟨_, (List.append_assoc _ _ _).symm, q₁, hq₁, bs, rfl, hr⟩
    · rintro ⟨_, rfl, q₁, hq₁, bs, rfl, hr⟩
      exact ⟨q₁, hq₁, bs, List.append_assoc _ _ _, hr⟩

/-- A state in which a mark may come; without it the reading goes on in another state, in which
the mark cannot come. -/
theorem reads_or (c : Char) (q₀ q' : State) (xs : List Action)
    (h : ∀ l, step q ⟨l, nowhere⟩ = if l = .punct c then ⟨[], .ok q₀⟩ else
      { step q' ⟨l, nowhere⟩ with actions := xs ++ (step q' ⟨l, nowhere⟩).actions })
    (hc : ∃ f, (step q' ⟨.punct c, nowhere⟩).next = .error f) :
    reads q = behind (mark c) (reads q₀) ⊔ settling xs (reads q') := by
  obtain ⟨f, hf⟩ := hc
  ext ls as
  show _ ↔ _ ∨ _
  by_cases hl : ls.headD .eof = .punct c
  · obtain ⟨ls, rfl⟩ : ∃ ls', ls = .punct c :: ls' := by
      cases ls with
      | nil => cases hl
      | cons l ls => exact ⟨ls, by rw [← hl]; rfl⟩
    have hno : ¬ settling xs (reads q') (.punct c :: ls) as := by
      rintro ⟨bs, -, hr⟩
      exact reads_cons_of_error hf hr
    have hq := h (.punct c)
    rw [if_pos rfl] at hq
    rw [reads_cons_of_ok hq, settling_nil]
    simp [hno, mark]
  · have hno : ¬ behind (mark c) (reads q₀) ls as := by
      cases ls with
      | nil => exact behind_lexeme_nil
      | cons l ls => exact fun hr => hl (behind_lexeme_cons.1 hr).1
    have hq := h (ls.headD .eof)
    rw [if_neg hl] at hq
    rw [reads_iff_settling hq]
    simp [hno]

/-- A state in which a mark may be left out without a difference. -/
theorem reads_maybe (c : Char) (q' : State)
    (h : ∀ l, step q ⟨l, nowhere⟩ = if l = .punct c then .goto q' else step q' ⟨l, nowhere⟩)
    (hc : ∃ f, (step q' ⟨.punct c, nowhere⟩).next = .error f) :
    reads q = behind (maybe (mark c)) (reads q') := by
  rw [reads_or c q' q' [] h hc, settling_nil, behind_maybe, sup_comm]

end

end Grammar

end FlatSchema
