/-!
# Sets of code points by their edges

A set of code points is written as the increasing list of points at which membership changes,
starting outside the set: `[a, b, c]` is `[a, b) ∪ [c, ∞)`.
-/

namespace FlatSchema.Text

/-- `n` is a member iff an odd number of edges lie at or below it. -/
def inside (edges : List Nat) (n : Nat) : Bool :=
  edges.countP (· ≤ n) % 2 == 1

theorem inside_pair (a b n : Nat) (h : a ≤ b) : inside [a, b] n = true ↔ a ≤ n ∧ n < b := by
  simp only [inside, List.countP_cons, List.countP_nil, beq_iff_eq, decide_eq_true_eq]
  split <;> split <;> omega

end FlatSchema.Text
