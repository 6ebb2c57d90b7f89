import FlatSchema.Text.Split
import Mathlib.Data.List.Basic

/-!
# Pieces of a text

Cutting a text at a separator and gluing pieces with it undo each other, where no piece has the
separator in it (`cut_glue`).  Both go through at a separator (`cut_append_sep`, `join_append`),
so that a text is cut at its last separator in one way only (`splitLast_append`).
-/

namespace FlatSchema.Text

section Lists

variable {α : Type} [DecidableEq α] {sep : α}

theorem cut_append_sep (as bs : List α) :
    cut sep (as ++ sep :: bs) = cut sep as ++ cut sep bs := by
  induction as with
  | nil => simp [cut]
  | cons a as ih =>
    by_cases ha : a = sep
    · simp [cut, ha, ih]
    · rw [List.cons_append, cut, if_neg ha, cut, if_neg ha, ih]
      cases h : cut sep as with
      | nil => exact absurd h (cut_ne_nil sep as)
      | cons p ps => rfl

theorem cut_of_not_mem {cs : List α} (h : sep ∉ cs) : cut sep cs = [cs] := by
  induction cs with
  | nil => rfl
  | cons c cs ih =>
    have hc : c ≠ sep := fun hc => h (hc ▸ List.mem_cons_self)
    rw [cut, if_neg hc, ih fun hcs => h (List.mem_cons_of_mem c hcs)]

theorem cut_append {xs : List α} (h : sep ∉ xs) (ys : List α) :
    cut sep (xs ++ sep :: ys) = xs :: cut sep ys := by
  rw [cut_append_sep, cut_of_not_mem h, List.singleton_append]

theorem not_mem_of_mem_cut {cs p : List α} (hp : p ∈ cut sep cs) : sep ∉ p := by
  induction cs generalizing p with
  | nil =>
    rw [cut, List.mem_singleton] at hp
    simp [hp]
  | cons c cs ih =>
    by_cases hc : c = sep
    · rw [cut, if_pos hc] at hp
      rcases List.mem_cons.1 hp with rfl | hp
      · simp
      · exact ih hp
    · rw [cut, if_neg hc] at hp
      cases h : cut sep cs with
      | nil => exact absurd h (cut_ne_nil sep cs)
      | cons q qs =>
        rw [h] at hp ih
        rcases List.mem_cons.1 hp with rfl | hp
        · have hq := ih List.mem_cons_self
          simp [hq, Ne.symm hc]
        · exact ih (List.mem_cons_of_mem q hp)

omit [DecidableEq α] in
theorem glue_append {ps qs : List (List α)} (hps : ps ≠ []) (hqs : qs ≠ []) :
    glue sep (ps ++ qs) = glue sep ps ++ sep :: glue sep qs := by
  induction ps with
  | nil => exact absurd rfl hps
  | cons p ps ih =>
    cases ps with
    | nil =>
      obtain ⟨q, qs, rfl⟩ := List.exists_cons_of_ne_nil hqs
      rfl
    | cons p' ps =>
      have hrest := ih (List.cons_ne_nil p' ps)
      rw [List.cons_append] at hrest ⊢
      rw [List.cons_append, glue, hrest, glue, List.append_assoc, List.cons_append]

theorem cut_glue {ps : List (List α)} (hps : ps ≠ []) (h : ∀ p ∈ ps, sep ∉ p) :
    cut sep (glue sep ps) = ps := by
  induction ps with
  | nil => exact absurd rfl hps
  | cons p ps ih =>
    have hp := cut_of_not_mem (h p List.mem_cons_self)
    cases ps with
    | nil => exact hp
    | cons q ps =>
      rw [glue, cut_append_sep, hp,
        ih (List.cons_ne_nil q ps) fun p' hp' => h p' (List.mem_cons_of_mem p hp')]
      rfl

end Lists

variable {sep : Char}

theorem join_append {ps qs : List String} (hps : ps ≠ []) (hqs : qs ≠ []) :
    join sep (ps ++ qs) = join sep ps ++ sep.toString ++ join sep qs := by
  apply String.toList_injective
  rw [join, List.map_append, glue_append (by simpa using hps) (by simpa using hqs)]
  simp [join]

/-! ## Texts -/

theorem pieces_ne_nil (sep : Char) (s : String) : pieces sep s ≠ [] := by
  simp [pieces, cut_ne_nil]

theorem pieces_append (sep : Char) (a b : String) :
    pieces sep (a ++ sep.toString ++ b) = pieces sep a ++ pieces sep b := by
  unfold pieces
  rw [String.toList_append, String.toList_append, Char.toString_eq_singleton,
    String.toList_singleton, List.append_assoc, List.singleton_append, cut_append_sep,
    List.map_append]

theorem pieces_of_not_mem {s : String} (h : sep ∉ s.toList) : pieces sep s = [s] := by
  rw [pieces, cut_of_not_mem h, List.map_singleton, String.ofList_toList]

theorem splitLast_of_not_mem {s : String} (h : sep ∉ s.toList) : splitLast sep s = ("", s) := by
  simp [splitLast, pieces_of_not_mem h, join, glue]

theorem splitLast_append (a : String) {b : String} (hb : sep ∉ b.toList) :
    splitLast sep (a ++ sep.toString ++ b) = (a, b) := by
  rw [splitLast, pieces_append, pieces_of_not_mem hb]
  simp [join_pieces]

theorem not_mem_splitLast (sep : Char) (s : String) : sep ∉ (splitLast sep s).2.toList := by
  have hmem : (splitLast sep s).2 ∈ pieces sep s := by
    rw [splitLast, List.getLastD_eq_getLast?, List.getLast?_eq_some_getLast (pieces_ne_nil sep s)]
    exact List.getLast_mem _
  obtain ⟨p, hp, hlast⟩ := List.mem_map.1 hmem
  rw [← hlast, String.toList_ofList]
  exact not_mem_of_mem_cut hp

theorem exists_last_sep {s : String} (h : sep ∈ s.toList) :
    ∃ a b : String, s = a ++ sep.toString ++ b ∧ sep ∉ b.toList := by
  obtain ⟨bs, as, hs, hnot⟩ := List.eq_append_cons_of_mem (List.mem_reverse.2 h)
  refine ⟨.ofList as.reverse, .ofList bs.reverse, ?_, by simpa using hnot⟩
  apply String.toList_injective
  rw [← List.reverse_reverse s.toList, hs]
  simp

/-- More pieces make a longer text. -/
theorem length_join_take_lt {ps : List String} {m n : Nat} (hm : m < n) (hn : n < ps.length) :
    (join sep (ps.take (m + 1))).length < (join sep (ps.take (n + 1))).length := by
  have hfirst : ps.take (m + 1) ≠ [] := by
    intro h
    have hlen := congrArg List.length h
    rw [List.length_take, List.length_nil] at hlen
    omega
  have hrest : (ps.take (n + 1)).drop (m + 1) ≠ [] := by
    intro h
    have hlen := congrArg List.length h
    rw [List.length_drop, List.length_take, List.length_nil] at hlen
    omega
  have hsplit : ps.take (n + 1) = ps.take (m + 1) ++ (ps.take (n + 1)).drop (m + 1) := by
    have h := List.take_append_drop (m + 1) (ps.take (n + 1))
    rw [List.take_take, Nat.min_eq_left (by omega)] at h
    exact h.symm
  rw [hsplit, join_append hfirst hrest, String.length_append, String.length_append]
  have hsep : sep.toString.length = 1 := by simp
  omega

end FlatSchema.Text
