/-!
# Texts cut at a separator

`pieces c s` cuts `s` at every `c` and keeps the empty pieces, so `n` separators give `n + 1`
pieces and `join c (pieces c s) = s`.  `splitLast c s` cuts at the last `c` only.  Below them, `cut` and
`glue` do the same with lists, of characters or of bytes.
-/

namespace FlatSchema.Text

/-! ## Algorithm -/

/-- The pieces of `cs` between the occurrences of `sep`, empty ones included. -/
def cut {α : Type} [DecidableEq α] (sep : α) : List α → List (List α)
  | [] => [[]]
  | c :: cs =>
    if c = sep then [] :: cut sep cs
    else
      match cut sep cs with
      | [] => [[c]]
      | p :: ps => (c :: p) :: ps

/-- Puts `sep` between the pieces. -/
def glue {α : Type} (sep : α) : List (List α) → List α
  | [] => []
  | [p] => p
  | p :: q :: ps => p ++ sep :: glue sep (q :: ps)

def pieces (sep : Char) (s : String) : List String :=
  (cut sep s.toList).map String.ofList

def join (sep : Char) (ps : List String) : String :=
  String.ofList (glue sep (ps.map String.toList))

/-- The text before and after the last `sep`; the first part is empty if there is none. -/
def splitLast (sep : Char) (s : String) : String × String :=
  let ps := pieces sep s
  (join sep ps.dropLast, ps.getLastD "")

/-! ## Lemmas -/

section Lists

variable {α : Type} [DecidableEq α]

theorem cut_ne_nil (sep : α) (cs : List α) : cut sep cs ≠ [] := by
  cases cs with
  | nil => simp [cut]
  | cons c cs =>
    unfold cut
    split
    · simp
    · split <;> simp

theorem glue_cut (sep : α) (cs : List α) : glue sep (cut sep cs) = cs := by
  induction cs with
  | nil => rfl
  | cons c cs ih =>
    unfold cut
    split
    · rename_i h
      subst h
      cases hc : cut c cs with
      | nil => exact absurd hc (cut_ne_nil _ _)
      | cons p ps => rw [hc] at ih; simp [glue, ih]
    · cases hc : cut sep cs with
      | nil => exact absurd hc (cut_ne_nil _ _)
      | cons p ps =>
        rw [hc] at ih
        cases ps with
        | nil => simpa [glue] using ih
        | cons q qs => simpa [glue] using ih

end Lists

theorem join_pieces (sep : Char) (s : String) : join sep (pieces sep s) = s := by
  simp [join, pieces, Function.comp_def, glue_cut]

end FlatSchema.Text
