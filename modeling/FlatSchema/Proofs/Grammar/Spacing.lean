import FlatSchema.Proofs.Grammar.Places
import FlatSchema.Proofs.Source.Layout

/-!
# The layout between lexemes does not matter

A text that is read to its end may be laid out anew: lexemes with any layout between them, but some, are
the same lexemes (`Lexes.spellOut`).  A lexeme was cut off by what followed it, and layout cuts it off as
well; `true` and `false` as names are the exception, but such a text is not read to its end
(`scan_behind_name`).

Files with the same lexemes do the same to a schema, and are at fault for the same reason
(`Schema.parseStream_bare`).
-/

namespace FlatSchema

/-! ## Lexemes laid out anew -/

theorem Layout.apart {last : Bool} {g : List Char} (h : Layout last g) : Apart g := by
  intro c hc
  rw [mem_layoutStart]
  cases h with
  | nil => cases hc
  | blank hblank =>
    cases hc
    exact hblank.elim .inl fun h => .inr (.inl h)
  | comment =>
    cases hc
    exact .inr (.inr rfl)
  | unended =>
    cases hc
    exact .inr (.inr rfl)

/-- What follows a lexeme starts with layout, or is nothing. -/
theorem LaidOut.apart {gap : List Char} {pairs : List (Lexeme × List Char)} (h : LaidOut gap pairs)
    (hgap : pairs ≠ [] → gap ≠ []) : Apart (spellOut gap pairs) := by
  cases pairs with
  | nil => exact Layout.apart h
  | cons p pairs =>
    obtain ⟨c, gap, rfl⟩ := List.exists_cons_of_ne_nil (hgap (List.cons_ne_nil _ _))
    intro d hd
    exact h.1.apart d hd

theorem Lexes.not_boolText {b : Bool} {ls : List Lexeme} {rest : List Char} (h : Lexes ls rest) :
    ¬ (Lexeme.id (Value.boolText b)).Stands rest := by
  intro hstands
  obtain ⟨c, cs, rfl, hc, hscan⟩ := scan_behind_name hstands
  cases ls with
  | nil =>
    rw [lexes_nil_iff, afterLayout_of_not_mem hc] at h
    exact hscan _ h
  | cons l ls =>
    rw [lexes_cons_iff, afterLayout_of_not_mem hc] at h
    exact hscan _ h.2.1

theorem Lexes.spellOut {lead cs : List Char} {pairs : List (Lexeme × List Char)}
    (h : Lexes (pairs.map Prod.fst) cs) (hlaid : LaidOut lead pairs)
    (hgaps : ∀ g ∈ (pairs.map Prod.snd).dropLast, g ≠ []) :
    Lexes (pairs.map Prod.fst) (spellOut lead pairs) := by
  induction pairs generalizing lead cs with
  | nil => exact Layout.afterLayout_eq_nil hlaid
  | cons p pairs ih =>
    obtain ⟨l, gap⟩ := p
    obtain ⟨hne, rest, -, hstands, hls⟩ := h
    have hgap : pairs ≠ [] → gap ≠ [] := by
      intro hpairs
      refine hgaps gap ?_
      rw [List.map_cons, List.dropLast_cons_of_ne_nil (by simpa using hpairs)]
      exact List.mem_cons_self
    have hgaps' : ∀ g ∈ (pairs.map Prod.snd).dropLast, g ≠ [] := by
      intro g hg
      refine hgaps g ?_
      rw [List.map_cons, List.dropLast_cons_of_ne_nil fun hnil => by simp [hnil] at hg]
      exact List.mem_cons_of_mem _ hg
    have hbool : ∀ b, l ≠ .id (Value.boolText b) := by
      rintro b rfl
      exact hls.not_boolText hstands
    have hstands' := hstands.apart hne hbool (hlaid.2.apart hgap)
    refine ⟨hne, FlatSchema.spellOut gap pairs, ?_, hstands', ih hls hlaid.2 hgaps'⟩
    obtain ⟨c, ts, htext, hc⟩ := hstands.not_layout hne
    rw [FlatSchema.spellOut, List.append_assoc, hlaid.1.afterLayout_append, htext, List.cons_append,
      afterLayout_of_not_mem hc]

/-! ## Errors and streams without places -/

namespace CompileError

/-- The error at another place. -/
def relocate (f : Location → Location) : CompileError → CompileError
  | parse fault l => parse fault (f l)
  | declaration cause l => declaration cause (f l)
  | unsupported feature l => unsupported feature (f l)
  | e => e

/-- What went wrong, wherever it did. -/
def unplaced (e : CompileError) : CompileError :=
  e.relocate fun _ => ⟨"", nowhere⟩

end CompileError

namespace Stream

def bare : Stream → Stream
  | token t rest => token ⟨t.lexeme, nowhere⟩ rest.bare
  | eof _ => eof nowhere
  | fault e => fault e.unplaced

/-- Streams that reach the end of their texts with the same lexemes differ in places only. -/
theorem bare_eq_of_lexemes? {S S' : Stream} {ls : List Lexeme} (h : S.lexemes? = some ls)
    (h' : S'.lexemes? = some ls) : S.bare = S'.bare := by
  induction S generalizing S' ls with
  | token t rest ih =>
    obtain ⟨ls, hls, rfl⟩ := Option.map_eq_some_iff.1 h
    cases S' with
    | token t' rest' =>
      obtain ⟨ls', hls', heq⟩ := Option.map_eq_some_iff.1 h'
      obtain ⟨hl, rfl⟩ := List.cons.inj heq
      rw [bare, bare, hl, ih hls hls']
    | eof p => cases h'
    | fault e => cases h'
  | eof p =>
    cases h
    cases S' with
    | token t' rest' =>
      obtain ⟨ls', -, heq⟩ := Option.map_eq_some_iff.1 h'
      cases heq
    | eof p' => rfl
    | fault e => cases h'
  | fault e => cases h

end Stream

/-! ## Parsing -/

/-- The outline of a stream without places is its outline, without places. -/
theorem Grammar.outline_stream_bare (file : String) (S : Stream) (q : State) :
    outline "" q.bare S.bare = ⟨(outline file q S).actions.map Action.bare,
      (outline file q S).fault.map CompileError.unplaced⟩ := by
  induction S generalizing q with
  | token t rest ih =>
    have hstep := step_bare q t
    unfold outline Stream.bare
    dsimp only
    rw [← hstep, Step.bare]
    cases (step q t).next with
    | error f => rfl
    | ok q' => simp [Except.map, ih]
  | eof p =>
    have hstep := step_bare q ⟨.eof, p⟩
    unfold outline Stream.bare
    dsimp only at hstep ⊢
    rw [← hstep, Step.bare]
    cases (step q ⟨.eof, p⟩).next with
    | error f => rfl
    | ok q' => rfl
  | fault e => rfl

/-- Places are reported, and do nothing else. -/
theorem Schema.parseStream_bare (s : Schema) (file : String) (S : Stream) :
    s.parseStream "" S.bare =
      ((s.parseStream file S).1, (s.parseStream file S).2.mapError CompileError.unplaced) := by
  have houtline := Grammar.outline_stream_bare file S (.declaration true)
  rw [show Grammar.State.bare (.declaration true) = .declaration true from rfl] at houtline
  unfold parseStream
  rw [houtline]
  dsimp only
  rw [Session.performAll_bare]
  generalize (Session.start s).performAll _ = r
  obtain ⟨x, refusal⟩ := r
  cases refusal with
  | some r => rfl
  | none => cases (Grammar.outline file (.declaration true) S).fault <;> rfl

/-! ## Top theorem -/

section

variable {file text : String} {lead : List Char} {pairs : List (Lexeme × List Char)}

/-- The lexemes of a text that is read to its end, written out with any layout in front, behind and, but
not empty, between them, are read as the same lexemes.  Such a text does the same to every schema, and
says the same or is at fault for the same reason. -/
theorem parse_laidOut (hls : (Stream.ofText file text).lexemes? = some (pairs.map Prod.fst))
    (hlaid : LaidOut lead pairs) (hgaps : ∀ g ∈ (pairs.map Prod.snd).dropLast, g ≠ [])
    (file' : String) :
    let text' := String.ofList (spellOut lead pairs)
    (Stream.ofText file' text').lexemes? = some (pairs.map Prod.fst) ∧
      ∀ s : Schema, (s.parse file' text').1 = (s.parse file text).1 ∧
        (s.parse file' text').2.mapError CompileError.unplaced =
          (s.parse file text).2.mapError CompileError.unplaced := by
  intro text'
  have hls' : (Stream.ofText file' text').lexemes? = some (pairs.map Prod.fst) := by
    refine lexemes?_eq_some_iff.2 ?_
    rw [Input.rest_start, String.toList_ofList]
    exact (lexemes?_eq_some_iff.1 hls).spellOut hlaid hgaps
  refine ⟨hls', fun s => ?_⟩
  have hbare := Stream.bare_eq_of_lexemes? hls' hls
  have hparse := (s.parseStream_bare file' (.ofText file' text')).symm.trans
    (hbare ▸ s.parseStream_bare file (.ofText file text))
  exact Prod.mk.inj hparse

end

/-- The lexemes of `table A{}`, with layout behind them. -/
def spacedTable : List (Lexeme × List Char) :=
  [(.id "table", ['\t']), (.id "A", ['\n', '\r']), (.punct '\x7b', "//\x7b\n".toList),
    (.punct '\x7d', "// end".toList)]

theorem parse_laidOut_table :
    (Stream.ofText "a.fbs" "table A\x7b\x7d").lexemes? = some (spacedTable.map Prod.fst) ∧
      LaidOut [' '] spacedTable ∧ (∀ g ∈ (spacedTable.map Prod.snd).dropLast, g ≠ []) ∧
      let text' := String.ofList (spellOut [' '] spacedTable)
      (Stream.ofText "b.fbs" text').lexemes? = some (spacedTable.map Prod.fst) ∧
        ∀ s : Schema, (s.parse "b.fbs" text').1 = (s.parse "a.fbs" "table A\x7b\x7d").1 ∧
          (s.parse "b.fbs" text').2.mapError CompileError.unplaced =
            (s.parse "a.fbs" "table A\x7b\x7d").2.mapError CompileError.unplaced := by
  have hls : (Stream.ofText "a.fbs" "table A\x7b\x7d").lexemes? = some (spacedTable.map Prod.fst) := by
    decide +kernel
  have hlaid : LaidOut [' '] spacedTable := by
    refine ⟨?_, ?_, ?_, ?_, ?_⟩
    · exact .blank (.inl rfl) .nil
    · exact .blank (.inl rfl) .nil
    · exact .blank (.inr rfl) (.blank (.inr rfl) .nil)
    · exact @Layout.comment false ['\x7b'] [] '\n' (List.forall_mem_singleton.2 rfl) rfl .nil
    · exact @Layout.unended true " end".toList rfl (List.all_iff_forall_prop.1 (by decide))
  have hgaps : ∀ g ∈ (spacedTable.map Prod.snd).dropLast, g ≠ [] := by decide
  exact ⟨hls, hlaid, hgaps, parse_laidOut hls hlaid hgaps "b.fbs"⟩

end FlatSchema
