import FlatSchema.Path
import FlatSchema.Proofs.OsTexts
import Mathlib.Data.List.Induction

/-!
# Paths by their segments

A path is its segments with slashes between them (`segments_join`), and whether it is absolute shows in
them (`isAbsolute_iff`).  Of its components, those behind the root and a leading `.` are its `inner`
ones: joining adds them up (`inner_join`), and the parent of a path that ends in a name is without the
last (`exists_parent`).
-/

namespace FlatSchema

namespace Path

/-! ## Segments -/

variable {p q d w : Path} {s : OsText} {ss : List OsText}

theorem ext_text (h : p.text = q.text) : p = q := by
  cases p
  cases q
  exact congrArg _ h

theorem segments_ne_nil (p : Path) : p.segments ≠ [] :=
  p.text.segments_ne_nil

theorem slash_not_mem (h : s ∈ p.segments) : OsText.slash ∉ s.bytes :=
  OsText.slash_not_mem_of_mem h

theorem segments_join (hss : ss ≠ []) (h : ∀ s ∈ ss, OsText.slash ∉ s.bytes) :
    (⟨.joined ss⟩ : Path).segments = ss :=
  OsText.segments_joined hss h

/-- An absolute path has nothing in front of its first slash. -/
theorem isAbsolute_iff : p.isAbsolute = true ↔ ∃ s ss, p.segments = .ofText "" :: s :: ss := by
  obtain ⟨⟨bytes⟩⟩ := p
  unfold isAbsolute segments OsText.segments
  dsimp only
  cases bytes with
  | nil => simp [Text.cut]
  | cons b bs =>
    obtain ⟨r, rs, hcut⟩ := List.exists_cons_of_ne_nil (Text.cut_ne_nil OsText.slash bs)
    by_cases hb : b = OsText.slash
    · simp [Text.cut, hb, hcut, OsText.ofText]
    · simp [Text.cut, hb, hcut, OsText.ofText]

theorem segments_slash (d w : Path) :
    (⟨d.text ++ "/" ++ w.text⟩ : Path).segments = d.segments ++ w.segments :=
  OsText.segments_append d.text w.text

/-! ## Inner components -/

/-- The components without the root and a leading `.`. -/
def inner (p : Path) : List Component :=
  p.segments.filterMap innerComponent?

theorem components_of_absolute (h : p.isAbsolute = true) : p.components = .root :: p.inner := by
  obtain ⟨s, ss, hss⟩ := isAbsolute_iff.1 h
  rw [components, inner, hss]
  simp [h, innerComponent?]

/-- A leading `.` is the only other component. -/
theorem components_of_relative (h : p.isAbsolute = false) :
    p.components = p.inner ∨ p.components = .current :: p.inner := by
  obtain ⟨s, ss, hss⟩ := List.exists_cons_of_ne_nil p.segments_ne_nil
  rw [components, inner, hss]
  by_cases hs : s = "."
  · simp [h, hs, firstComponent?, innerComponent?]
  · refine .inl ?_
    simp only [h, firstComponent?, if_neg hs, Bool.false_eq_true, if_false, List.filterMap_cons]
    cases innerComponent? s <;> rfl

/-! ## Joining -/

theorem join_of_absolute (hw : w.isAbsolute = true) : d.join w = w := by
  rw [join, if_pos (.inl hw)]

/-- A slash at the end is behind an empty segment. -/
theorem exists_of_getLast?_slash (h : d.text.bytes.getLast? = some OsText.slash) :
    ∃ front : Path, d.text = front.text ++ "/" ∧ d.segments = front.segments ++ [.ofText ""] := by
  obtain ⟨bs, hbs⟩ := List.getLast?_eq_some_iff.1 h
  obtain ⟨⟨bytes⟩⟩ := d
  obtain rfl : bytes = bs ++ [OsText.slash] := hbs
  have hempty : (⟨⟨bs ++ [OsText.slash]⟩⟩ : Path) = ⟨⟨bs⟩ ++ "/" ++ ""⟩ :=
    congrArg (fun bytes => (⟨⟨bytes⟩⟩ : Path)) (List.append_nil _).symm
  refine ⟨⟨⟨bs⟩⟩, rfl, ?_⟩
  rw [hempty]
  exact segments_slash ⟨⟨bs⟩⟩ ⟨""⟩

theorem join_of_getLast? (hd : d.segments.getLast? ≠ some (.ofText "")) (hw : w.isAbsolute = false) :
    d.join w = ⟨d.text ++ "/" ++ w.text⟩ := by
  have htext : d.text ≠ "" := by
    intro htext
    obtain rfl : d = ⟨""⟩ := ext_text htext
    exact hd (by decide +kernel)
  have hslash : d.text.bytes.getLast? ≠ some OsText.slash := by
    intro hslash
    obtain ⟨front, -, hsegments⟩ := exists_of_getLast?_slash hslash
    exact hd (by rw [hsegments, List.getLast?_concat])
  rw [join, if_neg (by simp [hw, htext]), if_neg hslash]

theorem inner_join (d : Path) (hw : w.isAbsolute = false) : (d.join w).inner = d.inner ++ w.inner := by
  rw [join]
  by_cases hd : d.text = ""
  · obtain rfl : d = ⟨""⟩ := ext_text hd
    have hempty : inner ⟨""⟩ = [] := by decide +kernel
    rw [if_pos (.inr rfl), hempty, List.nil_append]
  rw [if_neg (by simp [hw, hd])]
  split
  · next hlast =>
    -- The slash that `d` ends in is the one between the two paths.
    obtain ⟨front, htext, hsegments⟩ := exists_of_getLast?_slash hlast
    have hempty : [OsText.ofText ""].filterMap innerComponent? = [] := by decide +kernel
    rw [inner, inner, htext, segments_slash, hsegments, List.filterMap_append, List.filterMap_append,
      hempty, List.append_nil]
    rfl
  · rw [inner, segments_slash, List.filterMap_append]
    rfl

theorem isAbsolute_join (d : Path) (hw : w.isAbsolute = false) :
    (d.join w).isAbsolute = d.isAbsolute := by
  rw [join]
  by_cases hd : d.text = ""
  · obtain rfl : d = ⟨""⟩ := ext_text hd
    rw [if_pos (.inr rfl), hw]
    rfl
  rw [if_neg (by simp [hw, hd])]
  obtain ⟨⟨bytes⟩⟩ := d
  obtain ⟨b, bs, rfl⟩ := List.exists_cons_of_ne_nil fun h : bytes = [] => hd (congrArg OsText.mk h)
  split <;> rfl

/-! ## Parents -/

/-- The last component is an ordinary name. -/
def EndsInName (p : Path) : Prop :=
  ∃ s, p.components.getLast? = some (.name s)

instance (p : Path) : Decidable p.EndsInName :=
  match h : p.components.getLast? with
  | some (.name s) => .isTrue ⟨s, h⟩
  | some .root | some .current | some .parent | none => .isFalse (by simp [EndsInName, h])

theorem endsInName_iff : p.EndsInName ↔ ∃ s, p.inner.getLast? = some (.name s) := by
  have hcons : ∀ c : Component, (∀ s, c ≠ .name s) → ∀ s,
      ((c :: p.inner).getLast? = some (.name s) ↔ p.inner.getLast? = some (.name s)) := by
    intro c hc s
    rw [List.getLast?_cons]
    cases p.inner.getLast? with
    | none => simp [hc s]
    | some c' => simp
  unfold EndsInName
  cases h : p.isAbsolute with
  | true =>
    rw [components_of_absolute h]
    exact exists_congr (hcons .root (by simp))
  | false =>
    rcases components_of_relative h with hp | hp
    · rw [hp]
    · rw [hp]
      exact exists_congr (hcons .current (by simp))

theorem EndsInName.join (d : Path) (h : w.EndsInName) : (d.join w).EndsInName := by
  cases hw : w.isAbsolute with
  | true => rwa [join_of_absolute hw]
  | false =>
    rw [endsInName_iff] at h ⊢
    obtain ⟨s, hs⟩ := h
    exact ⟨s, by rw [inner_join d hw, List.getLast?_append, hs]; rfl⟩

/-- Segments are taken away up to the last component behind the first segment. -/
theorem exists_trimSegments (first : OsText) (rest : List OsText) :
    ∃ kept, trimSegments (first :: rest) = first :: kept ∧ kept <+: rest ∧
      kept.filterMap innerComponent? = rest.filterMap innerComponent? ∧
      ∀ s ∈ kept.getLast?, innerComponent? s ≠ none := by
  induction rest using List.reverseRecOn with
  | nil => exact ⟨[], rfl, List.prefix_refl _, rfl, by simp⟩
  | append_singleton rest s ih =>
    rw [trimSegments, List.reverse_append, List.reverse_singleton, List.singleton_append,
      List.dropWhile_cons]
    cases hs : innerComponent? s with
    | none =>
      obtain ⟨kept, htrim, hprefix, hkept, hlast⟩ := ih
      refine ⟨kept, htrim, hprefix.trans (List.prefix_append _ _), ?_, hlast⟩
      simp [hkept, hs]
    | some c => exact ⟨rest ++ [s], by simp, List.prefix_refl _, rfl, by simp [hs]⟩

theorem trimSegments_eq_self {first : OsText} {rest : List OsText}
    (h : ∀ s ∈ rest.getLast?, innerComponent? s ≠ none) : trimSegments (first :: rest) = first :: rest := by
  induction rest using List.reverseRecOn with
  | nil => rfl
  | append_singleton rest s _ =>
    have hs : (innerComponent? s).isNone = false := by simpa [Option.isSome_iff_ne_none] using h
    simp [trimSegments, hs]

theorem filterMap_trimSegments (ss : List OsText) :
    (trimSegments ss).filterMap innerComponent? = ss.filterMap innerComponent? := by
  cases ss with
  | nil => rfl
  | cons first rest =>
    obtain ⟨kept, htrim, -, hkept, -⟩ := exists_trimSegments first rest
    rw [htrim, List.filterMap_cons, List.filterMap_cons, hkept]

/-- Segments with slashes between them; an empty one alone is the root. -/
def ofSegments (first : OsText) (rest : List OsText) : Path :=
  if first = "" ∧ rest = [] then ⟨"/"⟩ else ⟨.joined (first :: rest)⟩

section OfSegments

variable {first : OsText} {rest : List OsText} (hslash : ∀ s ∈ first :: rest, OsText.slash ∉ s.bytes)

include hslash

theorem isAbsolute_ofSegments : (ofSegments first rest).isAbsolute = true ↔ first = "" := by
  by_cases hroot : first = "" ∧ rest = []
  · rw [ofSegments, if_pos hroot]
    exact iff_of_true (by decide) hroot.1
  · rw [ofSegments, if_neg hroot, isAbsolute_iff, segments_join (List.cons_ne_nil _ _) hslash]
    cases rest with
    | nil => simpa using hroot
    | cons s ss => simp

theorem inner_ofSegments : (ofSegments first rest).inner = (first :: rest).filterMap innerComponent? := by
  by_cases hroot : first = "" ∧ rest = []
  · obtain ⟨rfl, rfl⟩ := hroot
    decide +kernel
  · rw [ofSegments, if_neg hroot, inner, segments_join (List.cons_ne_nil _ _) hslash]

end OfSegments

theorem parent?_of_single {only : OsText} (h : trimSegments p.segments = [only]) (hne : only ≠ "") :
    p.isAbsolute = false ∧ p.parent? = some ⟨""⟩ := by
  obtain ⟨first, rest, hss⟩ := List.exists_cons_of_ne_nil p.segments_ne_nil
  obtain ⟨kept, htrim, -, -, -⟩ := exists_trimSegments first rest
  have hfirst : first = only := by
    rw [hss, htrim] at h
    exact (List.cons.inj h).1
  have hrelative : p.isAbsolute = false := by
    rw [Bool.eq_false_iff, ne_eq, isAbsolute_iff, hss, hfirst]
    rintro ⟨s, ss, hcons⟩
    exact hne (List.cons.inj hcons).1
  refine ⟨hrelative, ?_⟩
  rw [parent?, h]
  simp [hrelative, hne]

theorem parent?_of_trimSegments {first last : OsText} {init upper : List OsText}
    (h : trimSegments p.segments = first :: (init ++ [last]))
    (hupper : trimSegments (first :: init) = first :: upper) :
    (p.isAbsolute = true ↔ first = "") ∧ p.parent? = some (ofSegments first upper) := by
  obtain ⟨first', rest, hss⟩ := List.exists_cons_of_ne_nil p.segments_ne_nil
  obtain ⟨kept, htrim, hprefix, -, -⟩ := exists_trimSegments first' rest
  rw [hss, htrim] at h
  obtain ⟨rfl, rfl⟩ := List.cons.inj h
  have habsolute : p.isAbsolute = true ↔ first' = "" := by
    rw [isAbsolute_iff, hss]
    cases rest with
    | nil => simp at hprefix
    | cons s rest => simp
  have hdrop : (first' :: (init ++ [last])).dropLast = first' :: init := by
    rw [← List.cons_append, List.dropLast_concat]
  have hparent : p.parent? = if p.isAbsolute ∧ (first' :: upper).length = 1 then some ⟨"/"⟩
      else some ⟨.joined (first' :: upper)⟩ := by
    rw [parent?, hss, htrim, ← hupper, ← hdrop]
    cases init with
    | nil => rfl
    | cons s init => rfl
  refine ⟨habsolute, ?_⟩
  rw [hparent, ofSegments, apply_ite some]
  simp [habsolute]

theorem exists_parent (h : p.EndsInName) : ∃ dir s, p.parent? = some dir ∧
    dir.isAbsolute = p.isAbsolute ∧ p.inner = dir.inner ++ [.name s] := by
  obtain ⟨s, hs⟩ := endsInName_iff.1 h
  obtain ⟨first, rest, hss⟩ := List.exists_cons_of_ne_nil p.segments_ne_nil
  obtain ⟨kept, htrim, hprefix, -, hlast⟩ := exists_trimSegments first rest
  rw [← hss] at htrim
  have hinner : _ = p.inner := filterMap_trimSegments p.segments
  rcases List.eq_nil_or_concat' kept with rfl | ⟨init, last, rfl⟩
  · -- The name is all there is.
    have hfirst : p.inner = [.name s] := by
      rw [← hinner, htrim] at hs ⊢
      cases hc : innerComponent? first with
      | none => simp [hc] at hs
      | some c => simpa [hc] using hs
    have hne : first ≠ "" := by
      rintro rfl
      rw [← hinner, htrim] at hfirst
      cases hfirst
    obtain ⟨hrelative, hparent⟩ := parent?_of_single htrim hne
    have hempty : inner ⟨""⟩ = [] := by decide +kernel
    exact ⟨⟨""⟩, s, hparent, hrelative.symm, by rw [hfirst, hempty, List.nil_append]⟩
  · obtain ⟨upper, htrim', hprefix', -, -⟩ := exists_trimSegments first init
    have hslash : ∀ s ∈ first :: upper, OsText.slash ∉ s.bytes := by
      have hsub := hprefix'.trans ((List.prefix_append init [last]).trans hprefix)
      intro s hs
      exact slash_not_mem (hss ▸ List.cons_subset_cons first hsub.subset hs)
    obtain ⟨habsolute, hparent⟩ := parent?_of_trimSegments htrim htrim'
    obtain ⟨c, hc⟩ := Option.ne_none_iff_exists'.1 (hlast last (by simp))
    have hconcat : p.inner = (ofSegments first upper).inner ++ [c] := by
      rw [← hinner, htrim, inner_ofSegments hslash, ← htrim', filterMap_trimSegments, ← List.cons_append,
        List.filterMap_append]
      simp [hc]
    obtain rfl : c = .name s := by
      rw [hconcat, List.getLast?_concat] at hs
      exact Option.some.inj hs
    refine ⟨ofSegments first upper, s, hparent, ?_, hconcat⟩
    rw [Bool.eq_iff_iff, isAbsolute_ofSegments hslash, habsolute]

end Path

end FlatSchema
