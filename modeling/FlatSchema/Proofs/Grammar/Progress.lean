import FlatSchema.Proofs.Grammar.Following
import FlatSchema.Proofs.Grammar.Sentences

/-!
# The parser always makes progress

Parsing by descent ends on every text, and is the parsing of the grammar: for the stream `S` of a text,

    s.descend file text = some (r, p),    (p.session.schema, r) = s.parse file text,
    S.consumed p.calls ≤ S.tokens.length + 1

(`Schema.descend_ends`).  No loop of it goes round without consuming a token of the text
(`Loop.Advances`).  Both come from one lemma for each of its parsers, which says from which state of
the grammar to which it goes: the states `declaration`, `inBody` and `metadataKey` are those in which a
loop starts its rounds.
-/

namespace FlatSchema

namespace Parsing

open Grammar

variable {α : Type} {file text : String} {p : Parser} {S : Stream} {q : State}

/-! ## Names and types -/

theorem id?_eq_none {l : Lexeme} (h : ∀ name, l ≠ .id name) : id? l = none := by
  cases l with
  | id name => exact absurd rfl (h name)
  | _ => rfl

theorem typeStart?_eq_none {l : Lexeme} (hid : ∀ name, l ≠ .id name) (hc : l ≠ .punct '[') :
    typeStart? l = none := by
  unfold typeStart?
  split
  · exact absurd rfl (hid _)
  · exact absurd rfl hc
  · rfl

theorem identifier_eq_elim (l : Lexeme) (f : String → Step) :
    Grammar.identifier l f = (id? l).elim (expected "identifier" l) f := by
  cases l <;> rfl

theorem quoted_eq_elim (l : Lexeme) (f : String → Step) :
    quoted l f = (string? l).elim (expected "string" l) f := by
  cases l <;> rfl

/-- A type of a field and a base of an enum are read alike, in states of their own. -/
theorem follows_typeName {q₁ : State} (q₂ : String → State) (next : TypeName → Stage)
    (hp : p.Reads file text S)
    (h : ∀ t, step q t = (typeStart? t.lexeme).elim (expected "type" t.lexeme) fun name? =>
      name?.elim (.goto q₁) fun name => (next ⟨name, false⟩).step)
    (h₁ : ∀ t, step q₁ t = (id? t.lexeme).elim (expected "type" t.lexeme) fun name => .goto (q₂ name))
    (h₂ : ∀ name t, step (q₂ name) t = punct ']' t.lexeme (next ⟨name, true⟩).step) :
    Follows file text typeName p S ⟨[], q⟩ fun type _ c => c = next type := by
  refine (follows_take (takes_take _ _) hp rfl
    (fun name? => name?.elim ⟨[], q₁⟩ fun name => next ⟨name, false⟩) fun t _ => ?_).bind ?_
  · rw [h]
    rcases typeStart? t.lexeme with _ | _ | name <;> rfl
  · rintro (_ | name) p₁ S₁ _ hp₁ ⟨rfl, -⟩
    · refine (follows_take (takes_take _ _) hp₁ rfl (fun name => ⟨[], q₂ name⟩)
        fun t _ => h₁ t).bind ?_
      rintro name p₂ S₂ _ hp₂ ⟨rfl, -⟩
      refine (follows_expectPunct hp₂ (next ⟨name, true⟩) (h₂ name)).bind ?_
      rintro _ p₃ S₃ _ hp₃ rfl
      exact .pure hp₃ rfl
    · exact .pure hp₁ rfl

/-- A name with its place, and then what depends on both. -/
theorem follows_named {β : Type} {f : Position → String → Parsing β}
    {Q : β → Stream → Stage → Prop} (next : Position → String → Stage) (hp : p.Reads file text S)
    (hstep : ∀ t, S.head = .ok t → step q t =
      (id? t.lexeme).elim (expected "identifier" t.lexeme) fun name => (next t.position name).step)
    (hf : ∀ start name {p' S'}, p'.Reads file text S' →
      Follows file text (f start name) p' S' (next start name) Q) :
    Follows file text (do let start ← place; let name ← identifier; f start name) p S ⟨[], q⟩
      fun b S' c => Q b S' c ∧ S'.tokens.length < S.tokens.length := by
  refine (follows_place hp).bind ?_
  rintro start p₁ _ _ hp₁ ⟨rfl, rfl, t, ht, rfl⟩
  refine (follows_take takes_identifier hp₁ rfl (next t.position) fun t' ht' => ?_).bind_lt ?_
  · obtain rfl := Except.ok.inj (ht.symm.trans ht')
    exact hstep t ht
  · rintro name p₂ S₂ _ hp₂ rfl
    exact hf t.position name hp₂

/-! ## Metadata -/

theorem step_metadataKey {b : Bearer} {m : Metadata} {t : Token} (ht : t.lexeme ≠ .punct ')') :
    step (.metadataKey b m) t = (id? t.lexeme).elim (expected "identifier" t.lexeme) fun key =>
      .goto (.metadataRest b m key) := by
  show metadataKey b m t.lexeme = _
  unfold metadataKey
  split
  · contradiction
  · next h => rw [h]; rfl
  · next hid => rw [id?_eq_none hid, Option.elim_none]

/-- A loop that goes on until a closing bracket. -/
theorem follows_until {ch : Char} (c : Stage) (hp : p.Reads file text S)
    (hstep : ∀ t, t.lexeme = .punct ch → step q t = c.step) :
    Follows file text (do return !(← eatPunct ch)) p S ⟨[], q⟩ fun more S' c' =>
      if more then c' = ⟨[], q⟩ ∧ ∀ t, S'.head = .ok t → t.lexeme ≠ .punct ch else c' = c := by
  refine (follows_eat (eats_punct ch) hp
    (Q := fun ate S' c' => if !ate then c' = ⟨[], q⟩ ∧ ∀ t, S'.head = .ok t → t.lexeme ≠ .punct ch
      else c' = c) (fun t _ ht => ⟨c, hstep t ht, rfl⟩) fun t hS ht => ⟨_, rfl, rfl, ?_⟩).bind
    fun ate p' S' c' hp' h => .pure hp' h
  intro t' hS'
  obtain rfl := Except.ok.inj (hS.symm.trans hS')
  exact ht

/-- A part behind a mark, which may be left out. -/
theorem follows_part {ch : Char} {x : Parsing α} (q' : State) (next : Option α → Stage)
    (hp : p.Reads file text S)
    (hstep : ∀ t, step q t = if t.lexeme = .punct ch then .goto q' else (next none).meaning t)
    (hx : ∀ {p S}, p.Reads file text S →
      Follows file text x p S ⟨[], q'⟩ fun a _ c => c = next (some a)) :
    Follows file text (part ch x) p S ⟨[], q⟩ fun a _ c => c = next a := by
  refine (follows_eat (eats_punct ch) hp
    (Q := fun ate _ c => c = if ate then ⟨[], q'⟩ else next none)
    (fun t _ ht => ⟨_, (hstep t).trans (if_pos ht), rfl⟩)
    fun t _ ht => ⟨_, (hstep t).trans (if_neg ht), rfl⟩).bind ?_
  rintro ate p₁ S₁ _ hp₁ rfl
  cases ate with
  | false => exact .pure hp₁ rfl
  | true => exact .map (hx hp₁)

/-- A separator that may be left out. -/
theorem follows_separator {ch : Char} (c : Stage) (hp : p.Reads file text S)
    (hstep : ∀ t, step q t = if t.lexeme = .punct ch then c.step else c.meaning t) :
    Follows file text (eatPunct ch) p S ⟨[], q⟩ fun _ _ c' => c' = c :=
  follows_eat (eats_punct ch) hp (fun t _ ht => ⟨c, (hstep t).trans (if_pos ht), rfl⟩)
    fun t _ ht => ⟨c, (hstep t).trans (if_neg ht), rfl⟩

section

variable (b : Bearer)

theorem follows_metadataEntry {m : Metadata} (hp : p.Reads file text S)
    (hS : ∀ t, S.head = .ok t → t.lexeme ≠ .punct ')') :
    Follows file text (metadataEntry m) p S ⟨[], .metadataKey b m⟩ fun m' S' c =>
      c = ⟨[], .metadataKey b m'⟩ ∧ S'.tokens.length < S.tokens.length := by
  refine (follows_take takes_identifier hp rfl (fun key => ⟨[], .metadataRest b m key⟩)
    fun t ht => step_metadataKey (hS t ht)).bind_lt ?_
  rintro key p₁ S₁ _ hp₁ rfl
  refine (follows_part (.metadataValue b m key)
    (fun value => ⟨[], .metadataComma b (m.insert key value)⟩) hp₁ (fun _ => rfl)
    fun hp => ?_).bind ?_
  · refine (follows_take (takes_take _ _) hp rfl _ fun t _ => ?_).imp fun _ _ _ _ h => h.1
    simp only [step, metadataValue]
    cases t.lexeme.value? <;> rfl
  · rintro value p₂ S₂ _ hp₂ rfl
    refine (follows_separator ⟨[], .metadataKey b (m.insert key value)⟩ hp₂ fun _ => rfl).bind ?_
    rintro _ p₃ S₃ _ hp₃ rfl
    exact .pure hp₃ rfl

theorem step_metadataEnd (m : Metadata) {t : Token} (ht : t.lexeme = .punct ')') :
    step (.metadataKey b m) t = .emit (b.closing m) b.rest := by
  simp only [step, metadataKey, ht, closeMetadata]
  cases b <;> rfl

theorem follows_round_metadataEntries {m : Metadata} (hp : p.Reads file text S) :
    Follows file text (metadataEntries.round m) p S ⟨[], .metadataKey b m⟩
      (Goes S (fun m _ c => c = ⟨[], .metadataKey b m⟩) (fun m _ c => c = ⟨[b.closing m], b.rest⟩) m) := by
  refine follows_round
    (M := fun S' c => c = ⟨[], .metadataKey b m⟩ ∧ ∀ t, S'.head = .ok t → t.lexeme ≠ .punct ')')
    (follows_until _ hp fun t ht => step_metadataEnd b m ht) ?_
  rintro p' S' _ hp' ⟨rfl, hS'⟩
  exact follows_metadataEntry b hp' hS'

theorem follows_metadata (next : Option Metadata → Stage) (hp : p.Reads file text S)
    (hstep : ∀ t, step q t =
      if t.lexeme = .punct '(' then .goto (.metadataKey b .empty) else (next none).meaning t)
    (hnext : ∀ m, next (some m) = ⟨[b.closing m], b.rest⟩) :
    Follows file text metadata p S ⟨[], q⟩ fun m _ c => c = next m := by
  refine follows_part _ next hp hstep fun hp => ?_
  simp only [hnext]
  refine follows_run (I := fun m _ c => c = ⟨[], .metadataKey b m⟩) ?_ hp rfl
  rintro m p S _ hp rfl
  exact follows_round_metadataEntries b hp

end

/-! ## Bodies -/

/-- The members of a body begin with an identifier. -/
theorem step_inBody {body : Body} {t : Token} (ht : t.lexeme ≠ .punct '\x7d') :
    step (.inBody body) t = (id? t.lexeme).elim (expected "identifier" t.lexeme) fun name =>
      match body with
      | .fields => .goto (.fieldColon name t.position)
      | .values => .goto (.valueRest name t.position) := by
  show inBody body t.lexeme t.position = _
  unfold inBody
  split
  · contradiction
  · next h => rw [h]; rfl
  · next hid => rw [id?_eq_none hid, Option.elim_none]

theorem step_fieldType (name : String) (start : Position) (t : Token) :
    step (.fieldType name start) t =
      (typeStart? t.lexeme).elim (expected "type" t.lexeme) fun type? =>
        type?.elim (.goto (.fieldElement name start)) fun type =>
          .goto (.fieldRest ⟨name, start, ⟨type, false⟩, none⟩) := by
  show fieldType name start t.lexeme = _
  unfold fieldType
  split
  · next h => rw [h]; rfl
  · next h => rw [h]; rfl
  · next hid hc => rw [typeStart?_eq_none hid hc, Option.elim_none]

theorem follows_field (hp : p.Reads file text S)
    (hS : ∀ t, S.head = .ok t → t.lexeme ≠ .punct '\x7d') :
    Follows file text field p S ⟨[], .inBody .fields⟩ fun _ S' c =>
      c = ⟨[], .inBody .fields⟩ ∧ S'.tokens.length < S.tokens.length := by
  refine follows_named (fun start name => ⟨[], .fieldColon name start⟩) hp
    (fun t ht => step_inBody (hS t ht)) fun start name {p₁ S₁} hp₁ => ?_
  refine (follows_expectPunct hp₁ ⟨[], .fieldType name start⟩ fun _ => rfl).bind ?_
  rintro _ p₂ S₂ _ hp₂ rfl
  refine (follows_typeName (.fieldBracket name start)
    (fun type => ⟨[], .fieldRest ⟨name, start, type, none⟩⟩) hp₂ (step_fieldType name start)
    (fun t => ?_) fun _ _ => rfl).bind ?_
  · obtain ⟨l, _⟩ := t
    cases l <;> rfl
  rintro type p₃ S₃ _ hp₃ rfl
  refine (follows_part (.fieldLiteral ⟨name, start, type, none⟩)
    (fun literal => ⟨[], .fieldMetadata ⟨name, start, type, literal⟩⟩) hp₃ (fun _ => rfl)
    fun hp => ?_).bind ?_
  · refine (follows_take (takes_take _ _) hp rfl _ fun t _ => ?_).imp fun _ _ _ _ h => h.1
    obtain ⟨l, _⟩ := t
    cases l <;> rfl
  rintro literal p₄ S₄ _ hp₄ rfl
  refine (follows_metadata (.field ⟨name, start, type, literal⟩)
    (fun m => ⟨[.addField (.declare name type literal m) start], .fieldEnd⟩) hp₄ (fun _ => rfl)
    fun _ => rfl).bind ?_
  rintro m p₅ S₅ _ hp₅ rfl
  -- The field is added before its semicolon is looked for.
  refine (follows_perform hp₅).bind ?_
  rintro _ p₆ _ _ hp₆ ⟨rfl, rfl⟩
  exact follows_expectPunct hp₆ ⟨[], .inBody .fields⟩ fun _ => rfl

theorem follows_value (hp : p.Reads file text S)
    (hS : ∀ t, S.head = .ok t → t.lexeme ≠ .punct '\x7d') :
    Follows file text value p S ⟨[], .inBody .values⟩ fun _ S' c =>
      c = ⟨[], .inBody .values⟩ ∧ S'.tokens.length < S.tokens.length := by
  refine follows_named (fun start name => ⟨[], .valueRest name start⟩) hp
    (fun t ht => step_inBody (hS t ht)) fun start name {p₁ S₁} hp₁ => ?_
  refine (follows_part (.valueNumber name start)
    (fun number => ⟨[.addValue ⟨name, number⟩ start], .valueComma⟩) hp₁ (fun _ => rfl)
    fun hp => ?_).bind ?_
  · refine (follows_take takes_integer hp rfl _ fun t _ => ?_).imp fun _ _ _ _ h => h.1
    obtain ⟨l, _⟩ := t
    cases l <;> rfl
  rintro number p₂ S₂ _ hp₂ rfl
  refine (follows_perform hp₂).bind ?_
  rintro _ p₃ _ _ hp₃ ⟨rfl, rfl⟩
  refine (follows_separator ⟨[], .inBody .values⟩ hp₃ fun _ => rfl).bind ?_
  rintro _ p₄ S₄ _ hp₄ rfl
  exact .pure hp₄ rfl

theorem step_bodyEnd (body : Body) {t : Token} (ht : t.lexeme = .punct '\x7d') :
    step (.inBody body) t = .goto (.declaration false) := by
  simp only [step, inBody, ht]

theorem follows_round_members (body : Body) (a : Unit) (hp : p.Reads file text S) :
    Follows file text ((members body).round a) p S ⟨[], .inBody body⟩
      (Goes S (fun _ _ c => c = ⟨[], .inBody body⟩) (fun _ _ c => c = ⟨[], .declaration false⟩) a) := by
  refine follows_round
    (M := fun S' c => c = ⟨[], .inBody body⟩ ∧ ∀ t, S'.head = .ok t → t.lexeme ≠ .punct '\x7d')
    (follows_until _ hp fun t ht => step_bodyEnd body ht) ?_
  rintro p' S' _ hp' ⟨rfl, hS'⟩
  cases body with
  | fields => exact follows_field hp' hS'
  | values => exact follows_value hp' hS'

theorem follows_attach {body : Body} (m : Option Metadata) (hp : p.Reads file text S) :
    Follows file text (attach m) p S ⟨(m.map .attachMetadata).toList, .bodyOpen body⟩ fun _ _ c =>
      c = ⟨[], .bodyOpen body⟩ := by
  cases m with
  | none => exact .pure hp rfl
  | some m =>
    show Follows file text (perform (.attachMetadata m)) p S ⟨[.attachMetadata m], .bodyOpen body⟩ _
    exact (follows_perform hp).imp fun _ _ _ _ h => h.2

theorem follows_bodyOf (body : Body) (hp : p.Reads file text S) :
    Follows file text (bodyOf body) p S ⟨[], .bodyOrMetadata body⟩ fun _ _ c =>
      c = ⟨[], .declaration false⟩ := by
  refine (follows_metadata (.type body)
    (fun m => ⟨(m.map .attachMetadata).toList, .bodyOpen body⟩) hp (fun _ => rfl)
    fun _ => rfl).bind ?_
  rintro m p₁ S₁ _ hp₁ rfl
  refine (follows_attach m hp₁).bind ?_
  rintro _ p₂ S₂ _ hp₂ rfl
  refine (follows_expectPunct hp₂ ⟨[], .inBody body⟩ fun _ => rfl).bind ?_
  rintro _ p₃ S₃ _ hp₃ rfl
  refine follows_run (I := fun _ _ c => c = ⟨[], .inBody body⟩)
    (J := fun _ _ c => c = ⟨[], .declaration false⟩) ?_ hp₃ rfl
  rintro a p S _ hp rfl
  exact follows_round_members body a hp

/-! ## Declarations -/

/-- The parser reads a declaration from state `q` on. -/
def Declares (x : Parsing Unit) (q : State) : Prop :=
  ∀ {file text p S}, p.Reads file text S →
    Follows file text x p S ⟨[], q⟩ fun _ _ c => c = ⟨[], .declaration false⟩

theorem declares_type (kind : Kind) (body : Body) : Declares (type kind body) (.typeName kind body) := by
  intro file text p S hp
  refine Follows.imp (follows_named
    (fun start name => ⟨[.declareType name kind start], .bodyOrMetadata body⟩) hp
    (fun t _ => identifier_eq_elim t.lexeme _) fun start name {p₁ S₁} hp₁ => ?_) fun _ _ _ _ h => h.1
  refine (follows_perform hp₁).bind ?_
  rintro _ p₂ _ _ hp₂ ⟨rfl, rfl⟩
  exact follows_bodyOf body hp₂

theorem step_enumBase (name : String) (start : Position) (t : Token) :
    step (.enumBase name start) t =
      (typeStart? t.lexeme).elim (expected "type" t.lexeme) fun base? =>
        base?.elim (.goto (.enumElement name start)) fun base =>
          .emit (.declareEnum name ⟨base, false⟩ start) (.bodyOrMetadata .values) := by
  show enumBase name start t.lexeme = _
  unfold enumBase
  split
  · next h => rw [h]; rfl
  · next h => rw [h]; rfl
  · next hid hc => rw [typeStart?_eq_none hid hc, Option.elim_none]

theorem declares_enum : Declares enum .enumName := by
  intro file text p S hp
  refine Follows.imp (follows_named (fun start name => ⟨[], .enumColon name start⟩) hp
    (fun t _ => identifier_eq_elim t.lexeme _) fun start name {p₁ S₁} hp₁ => ?_) fun _ _ _ _ h => h.1
  refine (follows_expectPunct hp₁ ⟨[], .enumBase name start⟩ fun _ => rfl).bind ?_
  rintro _ p₂ S₂ _ hp₂ rfl
  refine (follows_typeName (.enumBracket name start)
    (fun base => ⟨[.declareEnum name base start], .bodyOrMetadata .values⟩) hp₂
    (step_enumBase name start) (fun t => ?_) fun _ _ => rfl).bind ?_
  · obtain ⟨l, _⟩ := t
    cases l <;> rfl
  rintro base p₃ S₃ _ hp₃ rfl
  refine (follows_perform hp₃).bind ?_
  rintro _ p₄ _ _ hp₄ ⟨rfl, rfl⟩
  exact follows_bodyOf .values hp₄

/-- A setting, with or without a semicolon. -/
theorem follows_setting {what : String} {f : Lexeme → Option α} {x : Parsing α} {act : α → Action}
    (hx : Takes what f x) (heof : f .eof = none) (hp : p.Reads file text S)
    (hstep : ∀ t, S.head = .ok t → step q t =
      (f t.lexeme).elim (expected what t.lexeme) fun a => .emit (act a) .settingEnd) :
    Follows file text (setting x act) p S ⟨[], q⟩ fun _ _ c => c = ⟨[], .declaration false⟩ := by
  refine (follows_take hx hp heof (fun a => ⟨[act a], .settingEnd⟩) hstep).bind ?_
  rintro a p₁ S₁ _ hp₁ ⟨rfl, -⟩
  refine (follows_perform hp₁).bind ?_
  rintro _ p₂ _ _ hp₂ ⟨rfl, rfl⟩
  refine (follows_separator ⟨[], .declaration false⟩ hp₂ fun _ => rfl).bind ?_
  rintro _ p₃ S₃ _ hp₃ rfl
  exact .pure hp₃ rfl

theorem declares_fileIdentifier : Declares fileIdentifier .fileIdentifier := by
  intro file text p S hp
  refine (follows_place hp).bind ?_
  rintro start p₁ _ _ hp₁ ⟨rfl, rfl, t, ht, rfl⟩
  refine follows_setting takes_string rfl hp₁ fun t' ht' => ?_
  obtain rfl := Except.ok.inj (ht.symm.trans ht')
  exact quoted_eq_elim t.lexeme _

/-- A declaration that a semicolon closes. -/
theorem follows_closed {what : String} {f : Lexeme → Option α} {x : Parsing α} {act : α → Action}
    {q' : State} (e : α → State) (hx : Takes what f x) (heof : f .eof = none)
    (hp : p.Reads file text S)
    (hstep : ∀ t, step q t = (f t.lexeme).elim (expected what t.lexeme) fun a => .goto (e a))
    (hend : ∀ a t, step (e a) t = punct ';' t.lexeme (.emit (act a) q')) :
    Follows file text (closed x act) p S ⟨[], q⟩ fun _ S' c =>
      c = ⟨[], q'⟩ ∧ S'.tokens.length < S.tokens.length := by
  refine (follows_take hx hp heof (fun a => ⟨[], e a⟩) fun t _ => hstep t).bind_lt ?_
  rintro a p₁ S₁ _ hp₁ rfl
  refine (follows_expectPunct hp₁ ⟨[act a], q'⟩ (hend a)).bind ?_
  rintro _ p₂ S₂ _ hp₂ rfl
  exact (follows_perform hp₂).imp fun _ _ _ _ h => h.2

/-- Every keyword leads to the state from which its declaration is read. -/
theorem declares_declarationOf {word : String} {x : Parsing Unit} (h : (word, x) ∈ declarationOf) :
    ∃ q, keyword? false word = some q ∧ Declares x q := by
  simp only [declarationOf, List.mem_cons, Prod.mk.injEq, List.not_mem_nil, or_false] at h
  rcases h with ⟨rfl, rfl⟩ | ⟨rfl, rfl⟩ | ⟨rfl, rfl⟩ | ⟨rfl, rfl⟩ | ⟨rfl, rfl⟩ | ⟨rfl, rfl⟩ |
    ⟨rfl, rfl⟩ | ⟨rfl, rfl⟩ | ⟨rfl, rfl⟩
  · exact ⟨.namespaceName, rfl, fun hp => .imp (follows_closed .namespaceEnd takes_identifier rfl hp
      (fun t => identifier_eq_elim t.lexeme _) fun _ _ => rfl) fun _ _ _ _ h => h.1⟩
  · exact ⟨_, rfl, declares_type .newTable .fields⟩
  · exact ⟨_, rfl, declares_type .newStruct .fields⟩
  · exact ⟨_, rfl, declares_enum⟩
  · exact ⟨_, rfl, declares_type .newUnion .values⟩
  · exact ⟨.rootTypeName, rfl, fun hp => follows_setting takes_identifier rfl hp fun t _ =>
      identifier_eq_elim t.lexeme _⟩
  · exact ⟨.fileExtension, rfl, fun hp => follows_setting takes_string rfl hp fun t _ =>
      quoted_eq_elim t.lexeme _⟩
  · exact ⟨_, rfl, declares_fileIdentifier⟩
  · refine ⟨.attributeName, rfl, fun hp => (follows_closed .attributeEnd (takes_take _ _) rfl hp
      (fun t => ?_) fun _ _ => rfl).imp fun _ _ _ _ h => h.1⟩
    obtain ⟨l, _⟩ := t
    cases l <;> rfl

theorem keyword?_eq_none {word : String} (h : word ∉ declarationOf.map Prod.fst) :
    keyword? false word = none := by
  simp only [declarationOf, List.map_cons, List.map_nil, List.mem_cons, List.not_mem_nil, or_false,
    not_or] at h
  unfold keyword?
  split <;> simp_all

theorem step_declaration_id {head : Bool} {word : String} {t : Token} (ht : t.lexeme = .id word) :
    step (.declaration head) t = (keyword? head word).elim (.fail (.unexpected word)) .goto := by
  simp only [step, declaration, ht]
  cases keyword? head word <;> rfl

theorem step_unexpected {t : Token} (hne : t.lexeme ≠ .eof)
    (hid : ∀ word, t.lexeme = .id word → keyword? false word = none) :
    step (.declaration false) t = .fail (.unexpected t.lexeme.text) := by
  cases hl : t.lexeme with
  | eof => exact absurd hl hne
  | id word =>
    rw [step_declaration_id hl, hid word hl]
    rfl
  | _ => simp only [step, declaration, hl]

/-- Without a keyword to try, the next token is refused. -/
theorem follows_choose_nil {Q : Unit → Stream → Stage → Prop} (hp : p.Reads file text S)
    (hstep : ∀ t, S.head = .ok t →
      step (.declaration false) t = .fail (.unexpected t.lexeme.text)) :
    Follows file text (choose []) p S ⟨[], .declaration false⟩ Q := by
  have hrun := on_call Answer.toToken .read hp
  cases hS : S.head with
  | error e =>
    rw [hS] at hrun
    exact .error (on_bind_of_error hrun) (hp.within_called _) (Stage.resume_fault hS)
  | ok t =>
    rw [hS] at hrun
    refine .error ?_ (hp.within_called .read) (Stage.resume_fail hS (hstep t hS))
    refine (on_bind_of_ok hrun).trans ?_
    show some (Except.error (CompileError.parse _ ⟨(p.called .read).cursor.file, t.position⟩), _) = _
    rw [file_called hp]
    rfl

/-- What comes is none of the keywords tried before. -/
theorem follows_choose {table : List (String × Parsing Unit)} (hp : p.Reads file text S)
    (hne : ∀ t, S.head = .ok t → t.lexeme ≠ .eof)
    (htable : ∀ {word x}, (word, x) ∈ table → ∃ q, keyword? false word = some q ∧ Declares x q)
    (hrest : ∀ t word, S.head = .ok t → t.lexeme = .id word → word ∉ table.map Prod.fst →
      keyword? false word = none) :
    Follows file text (choose table) p S ⟨[], .declaration false⟩ fun _ S' c =>
      c = ⟨[], .declaration false⟩ ∧ S'.tokens.length < S.tokens.length := by
  induction table generalizing p with
  | nil =>
    refine follows_choose_nil hp fun t hS => step_unexpected (hne t hS) fun word hword => ?_
    exact hrest t word hS hword List.not_mem_nil
  | cons entry table ih =>
    obtain ⟨word, x⟩ := entry
    obtain ⟨q, hq, hx⟩ := htable List.mem_cons_self
    refine (follows_eat (eats_keyword word) hp (Q := fun ate S' c => if ate then
        c = ⟨[], q⟩ ∧ S'.tokens.length < S.tokens.length else
        S' = S ∧ c = ⟨[], .declaration false⟩ ∧ ∀ t, S.head = .ok t → t.lexeme ≠ .id word)
      (fun t hS ht => ⟨⟨[], q⟩, ?_, rfl, ?_⟩) fun t hS ht => ⟨_, rfl, rfl, rfl, ?_⟩).bind ?_
    · rw [step_declaration_id ht, hq]
      rfl
    · exact tokens_tail_lt hS (hne t hS)
    · intro t' hS'
      obtain rfl := Except.ok.inj (hS.symm.trans hS')
      exact ht
    · intro ate p₁ S₁ c₁ hp₁ h
      cases ate with
      | true =>
        obtain ⟨rfl, hlt⟩ := h
        exact (hx hp₁).imp fun _ _ _ hlen hc => ⟨hc, Nat.lt_of_le_of_lt hlen hlt⟩
      | false =>
        obtain ⟨rfl, rfl, hword⟩ := h
        refine ih hp₁ (fun h => htable (List.mem_cons_of_mem _ h)) fun t w hS hw hmem => ?_
        refine hrest t w hS hw ?_
        rw [List.map_cons, List.mem_cons, not_or]
        refine ⟨?_, hmem⟩
        rintro rfl
        exact hword t hS hw

/-! ## Files -/

/-- Only the keyword of includes is read otherwise among them. -/
theorem step_declaration_true {t : Token} (ht : t.lexeme ≠ .id "include") :
    step (.declaration true) t = Stage.meaning ⟨[], .declaration false⟩ t := by
  show step (.declaration true) t = step (.declaration false) t
  cases hl : t.lexeme with
  | id word =>
    have hword : keyword? true word = keyword? false word := by
      unfold keyword?
      split
      · exact absurd hl ht
      all_goals rfl
    rw [step_declaration_id hl, step_declaration_id hl, hword]
  | _ => simp only [step, declaration, hl]

theorem follows_round_includes (a : Unit) (hp : p.Reads file text S) :
    Follows file text (includes.round a) p S ⟨[], .declaration true⟩
      (Goes S (fun _ _ c => c = ⟨[], .declaration true⟩) (fun _ _ c => c = ⟨[], .declaration false⟩) a) := by
  refine follows_round (M := fun _ c => c = ⟨[], .includePath⟩) ?_ ?_
  · refine (follows_atEnd hp).bind ?_
    rintro ended p₁ _ _ hp₁ ⟨rfl, rfl, t, hS, hended⟩
    by_cases ht : t.lexeme = .eof
    -- The end of the text is read alike among includes and behind them.
    · rw [hended, decide_eq_true ht]
      have hstep := step_declaration_true (t := t) (by rw [ht]; simp)
      exact .restate (Stage.resume_congr hS hstep) (.pure hp₁ rfl)
    · rw [hended, decide_eq_false ht]
      refine follows_eat (eats_keyword "include") hp₁ (fun t _ ht => ⟨_, ?_, rfl⟩)
        fun t _ ht => ⟨_, step_declaration_true ht, rfl⟩
      rw [step_declaration_id ht]
      rfl
  · rintro p' S' _ hp' rfl
    exact follows_closed .includeEnd takes_string rfl hp' (fun t => quoted_eq_elim t.lexeme _)
      fun _ _ => rfl

theorem follows_round_declarations (a : Unit) (hp : p.Reads file text S) :
    Follows file text (declarations.round a) p S ⟨[], .declaration false⟩
      (Goes S (fun _ _ c => c = ⟨[], .declaration false⟩)
        (fun _ S' c => c = ⟨[], .declaration false⟩ ∧ ∃ place, S' = .eof place) a) := by
  refine follows_round (M := fun S' c => c = ⟨[], .declaration false⟩ ∧
    ∀ t, S'.head = .ok t → t.lexeme ≠ .eof) ?_ ?_
  · refine (follows_atEnd hp).bind ?_
    rintro ended p₁ _ _ hp₁ ⟨rfl, rfl, t, hS, hended⟩
    obtain ⟨l, place⟩ := t
    by_cases ht : l = .eof
    · subst ht
      rw [hended]
      exact .pure hp₁ ⟨rfl, place, hp.proper.eq_eof hS⟩
    · rw [hended, decide_eq_false ht]
      refine .pure hp₁ ⟨rfl, fun t' hS' => ?_⟩
      obtain rfl := Except.ok.inj (hS.symm.trans hS')
      exact ht
  · rintro p' S' _ hp' ⟨rfl, hne⟩
    exact follows_choose hp' hne declares_declarationOf fun _ _ _ _ => keyword?_eq_none

/-- A whole file is read until the end of the text. -/
theorem follows_document (hp : p.Reads file text S) :
    Follows file text document p S ⟨[], .declaration true⟩ fun _ S' c =>
      c = ⟨[], .declaration false⟩ ∧ ∃ place, S' = .eof place := by
  refine Follows.bind (follows_run (I := fun _ _ c => c = ⟨[], .declaration true⟩)
    (J := fun _ _ c => c = ⟨[], .declaration false⟩) ?_ hp rfl) ?_
  · rintro a p S _ hp rfl
    exact follows_round_includes a hp
  · rintro _ p₁ S₁ _ hp₁ rfl
    refine follows_run (I := fun _ _ c => c = ⟨[], .declaration false⟩)
      (J := fun _ S' c => c = ⟨[], .declaration false⟩ ∧ ∃ place, S' = .eof place) ?_ hp₁ rfl
    rintro a p S _ hp rfl
    exact follows_round_declarations a hp

/-! ## Top theorem -/

end Parsing

namespace Parser

variable {file text : String} {p : Parser}

theorem reads_of_consumed_le (hc : p.cursor = (Cursor.ofText file text).after p.calls)
    (hle : (Stream.ofText file text).consumed p.calls ≤ (Stream.ofText file text).tokens.length) :
    p.Reads file text
      ((Stream.ofText file text).drop ((Stream.ofText file text).consumed p.calls)) := by
  refine ⟨hc, rfl, ?_⟩
  rw [Stream.tokens_drop, List.length_drop]
  omega

end Parser

namespace Loop

variable {σ : Type} {l : Loop σ} {file text : String} {p : Parser} {S : Stream}

/-- Whatever the loop has gathered, its next round ends; if the loop goes on, that round has consumed a
token, and no end of the text. -/
def Advances (l : Loop σ) (S : Stream) (p : Parser) : Prop :=
  ∀ a, ∃ r p', (l.round a).on p = some (r, p') ∧ ∀ b, r = .ok (some b) →
    S.consumed p.calls < S.consumed p'.calls ∧ S.consumed p'.calls ≤ S.tokens.length

theorem advances_of_follows {c : σ → Grammar.Stage} {I J : σ → Stream → Grammar.Stage → Prop}
    (hp : p.Reads file text S)
    (h : ∀ a, Parsing.Follows file text (l.round a) p S (c a) (Parsing.Goes S I J a)) :
    l.Advances (.ofText file text) p := by
  intro a
  cases h a with
  | error hrun _ _ => exact ⟨_, _, hrun, fun b hb => by cases hb⟩
  | ok hrun hp' _ _ hgoes =>
    refine ⟨_, _, hrun, fun b hb => ?_⟩
    cases hb
    have hlt := hgoes.2
    have hcount := hp.count
    have hcount' := hp'.count
    omega

end Loop

/-- On every text the parser comes to an end, with what the grammar makes of the text, and has then
consumed at most one token more than the text has.  On the way, every round of each of its loops that
goes on consumes a token of the text. -/
theorem Schema.descend_ends (s : Schema) (file text : String) :
    let S := Stream.ofText file text
    (∃ r p, s.descend file text = some (r, p) ∧ (p.session.schema, r) = s.parse file text ∧
      p.cursor = (Cursor.ofText file text).after p.calls ∧
      S.consumed p.calls ≤ S.tokens.length + 1) ∧
    ∀ p : Parser, p.cursor = (Cursor.ofText file text).after p.calls →
      S.consumed p.calls ≤ S.tokens.length →
      Parsing.includes.Advances S p ∧ Parsing.declarations.Advances S p ∧
        (∀ body, (Parsing.members body).Advances S p) ∧ Parsing.metadataEntries.Advances S p := by
  intro S
  refine ⟨?_, fun p hc hle => ?_⟩
  · have hstart : (⟨.ofText file text, [], .start s⟩ : Parser).Reads file text S :=
      ⟨rfl, rfl, Nat.zero_add _⟩
    cases Parsing.follows_document hstart with
    | error hrun hp hresume =>
      exact ⟨_, _, Parsing.on_bind_of_error hrun, hresume.symm, hp.cursor, hp.count⟩
    | @ok _ p' _ _ hrun hp _ hresume hend =>
      obtain ⟨rfl, place, rfl⟩ := hend
      refine ⟨.ok p'.session.head, p', Parsing.on_bind_of_ok hrun, ?_, hp.cursor, hp.within.count⟩
      exact (hresume.trans (Grammar.Stage.resume_eof rfl)).symm
  · have hp := Parser.reads_of_consumed_le hc hle
    exact ⟨Loop.advances_of_follows hp fun a => Parsing.follows_round_includes a hp,
      Loop.advances_of_follows hp fun a => Parsing.follows_round_declarations a hp,
      fun body => Loop.advances_of_follows hp fun a => Parsing.follows_round_members body a hp,
      Loop.advances_of_follows hp fun _ => Parsing.follows_round_metadataEntries (.type .fields) hp⟩

/-- A parser between the fields of a table that is never closed. -/
theorem Schema.descend_ends_unclosed :
    let text := "table T \x7b a : int = 3 (key"
    let S := Stream.ofText "t.fbs" text
    let calls := [.eatKeyword "table", .identifier, .eatPunct '(', .expectPunct '\x7b']
    let p : Parser := ⟨(Cursor.ofText "t.fbs" text).after calls, calls, .start (.empty "t")⟩
    S.consumed p.calls = 3 ∧ S.tokens.length = 10 ∧ (Parsing.members .fields).Advances S p ∧
      ∃ r p', (empty "t").descend "t.fbs" text = some (r, p') ∧ S.consumed p'.calls ≤ 11 := by
  intro text S calls p
  have hconsumed : S.consumed p.calls = 3 := by decide +kernel
  have hlength : S.tokens.length = 10 := by decide +kernel
  obtain ⟨⟨r, p', hrun, -, -, hcount⟩, hloops⟩ := descend_ends (.empty "t") "t.fbs" text
  obtain ⟨-, -, hmembers, -⟩ := hloops p rfl (by rw [hconsumed, hlength]; decide)
  refine ⟨hconsumed, hlength, hmembers .fields, r, p', hrun, ?_⟩
  rw [show (Stream.ofText "t.fbs" text).tokens.length = 10 from hlength] at hcount
  exact hcount

end FlatSchema
