import FlatSchema.Error
import FlatSchema.Source.Input

/-!
# The tokens of a text

A text is read as a finite stream of tokens that ends at the end of the text or at the first place
where there is no token.  Every token takes at least one character (`text_pos_of_scan`), so the
stream is finite.
-/

namespace FlatSchema

inductive Stream where
  | token (t : Token) (rest : Stream)
  | eof (position : Position)
  | fault (error : CompileError)
  deriving DecidableEq, Repr

/-! ## Lexemes are not empty -/

theorem Numeral.spelling_ne_nil {cs : List Char} {n : Numeral} (h : Numeral.read? cs = some n) :
    n.spelling ≠ [] := by
  unfold Numeral.read? at h
  simp only at h
  split at h <;> split at h <;> cases h <;> simp_all [Numeral.spelling]

theorem text_pos_of_decimalLexeme {n : Numeral} {l : Lexeme} (hn : n.spelling ≠ [])
    (h : decimalLexeme n = .ok l) : 0 < l.text.length := by
  have hs : 0 < (String.ofList n.spelling).length := by
    simpa [List.length_pos_iff] using hn
  unfold decimalLexeme at h
  simp only at h
  split at h
  · cases h; exact hs
  · split at h <;> cases h; exact hs

theorem text_pos_of_rule {r : Rule} {cs : List Char} {l : Lexeme} (hr : r ∈ rules)
    (h : r cs = some (.ok l)) : 0 < l.text.length := by
  simp only [rules, List.mem_cons, List.not_mem_nil, or_false] at hr
  rcases hr with rfl | rfl | rfl | rfl | rfl | rfl | rfl
  · unfold blockComment at h
    split at h <;> cases h
  · unfold booleanWord at h
    split at h
    · split at h <;> cases h; decide
    · split at h <;> cases h; decide
    · cases h
  · unfold identifier at h
    split at h
    · split at h <;> cases h; rw [Lexeme.text, String.length_ofList]; exact Nat.succ_pos _
    · cases h
  · unfold quotedString at h
    split at h
    · simp only at h; split at h <;> cases h; simp [Lexeme.text]
    · cases h
  · unfold hexNumber at h
    split at h
    · cases h
    · split at h <;> cases h
  · unfold decimalNumber at h
    obtain ⟨n, hn, hl⟩ := Option.map_eq_some_iff.1 h
    exact text_pos_of_decimalLexeme (Numeral.spelling_ne_nil hn) hl
  · unfold punctuationMark at h
    split at h
    · split at h <;> cases h; simp [Lexeme.text]
    · cases h

theorem text_pos_of_scan {cs : List Char} {l : Lexeme} (h : scan cs = .ok l) (hl : l ≠ .eof) :
    cs ≠ [] ∧ 0 < l.text.length := by
  cases cs with
  | nil => cases h; exact absurd rfl hl
  | cons c cs =>
    refine ⟨by simp, ?_⟩
    simp only [scan] at h
    cases hf : rules.findSome? (· (c :: cs)) with
    | none => rw [hf] at h; cases h
    | some r =>
      rw [hf] at h
      obtain ⟨rule, hr, ho⟩ := List.exists_of_findSome?_eq_some hf
      simp only [Option.getD_some] at h
      subst h
      exact text_pos_of_rule hr ho

theorem size_pos_of_scan {cs : List Char} {l : Lexeme} (h : scan cs = .ok l) (hl : l ≠ .eof) :
    0 < l.text.utf8ByteSize := by
  have hpos := (text_pos_of_scan h hl).2
  rw [← String.length_toList] at hpos
  rw [← Text.width_toList]
  exact Text.width_pos (List.length_pos_iff.1 hpos)

/-! ## Streams -/

namespace Stream

/-- The tokens from a place on. -/
def readFrom (file : String) (i : Input) : Stream :=
  let next := i.skip
  match _ : scan next.rest with
  | .error f => fault (.ofScan ⟨file, next.position⟩ f)
  | .ok l =>
    if _ : l = .eof then eof next.position
    else token ⟨l, next.position⟩ (readFrom file (next.advance l.text.utf8ByteSize))
termination_by i.rest.length
decreasing_by
  have hscan := ‹scan _ = .ok _›
  have hadvance := Input.length_rest_advance i.skip (size_pos_of_scan hscan ‹_›)
    (text_pos_of_scan hscan ‹_›).1
  exact Nat.lt_of_lt_of_le hadvance i.length_rest_skip

def ofText (file text : String) : Stream :=
  readFrom file (.start text)

end Stream

end FlatSchema
