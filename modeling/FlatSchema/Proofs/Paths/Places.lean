import FlatSchema.Proofs.Paths.Normal
import Mathlib.Data.List.DropRight

/-!
# The place that a path denotes

Followed from a directory, a path leads to a place (`place`).  It climbs out of as many directories as
`climb` says, and then goes down by some names.  Its normal form goes down by the same names, but a `..`
takes back the `..` in front of it, so that of the climb only its parity is left:

    p.place dir           = dir.rdrop p.climb ++ names
    p.normalize.place dir = dir.rdrop (p.climb % 2) ++ names        (exists_names)

Both are the same from every directory exactly for the paths that climb at most once, and the absolute
ones, which climb nowhere (`place_normalize_iff`).  Paths with one normal form, which for texts are the
paths with one key, denote the same place from every directory exactly if they climb equally far.
-/

namespace FlatSchema.Path

/-! ## Following a path -/

/-- One step down, up or to the root.  Directories are names from the root on. -/
def Component.follow (dir : List OsText) : Component → List OsText
  | root => []
  | current => dir
  | parent => dir.dropLast
  | name s => dir ++ [s]

/-- Where the path leads from a directory. -/
def place (p : Path) (dir : List OsText) : List OsText :=
  p.components.foldl Component.follow dir

/-- How many times a path goes up from where it started, `depth` directories below that. -/
def climbs (depth : Nat) : List Component → Nat
  | [] => 0
  | .root :: _ => 0
  | .current :: cs => climbs depth cs
  | .name _ :: cs => climbs (depth + 1) cs
  | .parent :: cs =>
    match depth with
    | 0 => climbs 0 cs + 1
    | depth + 1 => climbs depth cs

def climb (p : Path) : Nat :=
  climbs 0 p.components

variable {p q : Path} {cs base : List Component} {dir : List OsText}

theorem place_of_absolute (h : p.isAbsolute = true) (dir : List OsText) :
    p.place dir = p.inner.foldl Component.follow [] ∧ p.climb = 0 := by
  rw [place, climb, components_of_absolute h]
  exact ⟨rfl, rfl⟩

theorem place_of_relative (h : p.isAbsolute = false) (dir : List OsText) :
    p.place dir = p.inner.foldl Component.follow dir ∧ p.climb = climbs 0 p.inner := by
  rw [place, climb]
  rcases components_of_relative h with hp | hp
  · rw [hp]
    exact ⟨rfl, rfl⟩
  · rw [hp]
    exact ⟨rfl, rfl⟩

theorem foldl_follow_names (names dir : List OsText) :
    (names.map Component.name).foldl Component.follow dir = dir ++ names := by
  induction names generalizing dir with
  | nil => simp
  | cons s names ih =>
    rw [List.map_cons, List.foldl_cons, ih, Component.follow, List.append_assoc, List.singleton_append]

theorem dropLast_rdrop (dir : List OsText) (n : Nat) : (dir.rdrop n).dropLast = dir.rdrop (n + 1) := by
  rw [← List.rdrop_add, List.dropLast_eq_take]
  rfl

theorem foldl_follow_parents (n : Nat) (dir : List OsText) :
    (List.replicate n Component.parent).foldl Component.follow dir = dir.rdrop n := by
  induction n with
  | zero => simp
  | succ n ih =>
    rw [List.replicate_succ', List.foldl_append, ih]
    exact dropLast_rdrop dir n

/-! ## Stacks and places -/

/-- Names, the last one first, on a `..` or none, on the root or nothing. -/
def pile (base : List Component) (up : Nat) (names : List OsText) : List Component :=
  (names.map Component.name).reverse ++ (List.replicate (up % 2) .parent ++ base)

theorem pile_zero (base : List Component) : pile base 0 [] = base :=
  rfl

theorem push_name_pile (base : List Component) (up : Nat) (names : List OsText) (s : OsText) :
    push (pile base up names) (.name s) = pile base up (names ++ [s]) := by
  simp [push, pile]

theorem push_parent_pile_concat (base : List Component) (up : Nat) (names : List OsText) (s : OsText) :
    push (pile base up (names ++ [s])) .parent = pile base up names := by
  simp [push, pile]

/-- Where there is no name to take back, a `..` takes back a `..`, or else is put down. -/
theorem push_parent_pile (hbase : base = [] ∨ base = [.root]) (up : Nat) :
    push (pile base up []) .parent = pile base (up + 1) [] := by
  rcases Nat.mod_two_eq_zero_or_one up with hup | hup
  · have hnext : (up + 1) % 2 = 1 := by omega
    rcases hbase with rfl | rfl <;> simp [push, pile, hup, hnext]
  · have hnext : (up + 1) % 2 = 0 := by omega
    rcases hbase with rfl | rfl <;> simp [push, pile, hup, hnext]

/-- The stack of a path has the names it goes down by, and of its climb the parity. -/
theorem exists_foldl (hbase : base = [] ∨ base = [.root]) (hcs : ∀ c ∈ cs, c.IsInner) (up : Nat)
    (names : List OsText) : ∃ names', cs.foldl push (pile base up names) =
        pile base (up + climbs names.length cs) names' ∧
      ∀ dir : List OsText, cs.foldl Component.follow (dir.rdrop up ++ names) =
        dir.rdrop (up + climbs names.length cs) ++ names' := by
  induction cs generalizing up names with
  | nil =>
    rw [climbs]
    exact ⟨names, rfl, fun _ => rfl⟩
  | cons c cs ih =>
    have ih := ih fun c' hc' => hcs c' (List.mem_cons_of_mem c hc')
    cases c with
    | root => exact absurd (hcs _ List.mem_cons_self) not_isInner_root
    | current => exact absurd (hcs _ List.mem_cons_self) not_isInner_current
    | name s =>
      obtain ⟨names', hstack, hplace⟩ := ih up (names ++ [s])
      rw [List.length_append, List.length_singleton, ← climbs] at hstack hplace
      refine ⟨names', ?_, fun dir => ?_⟩
      · rw [List.foldl_cons, push_name_pile]
        exact hstack
      · rw [List.foldl_cons, Component.follow, List.append_assoc]
        exact hplace dir
    | parent =>
      rcases List.eq_nil_or_concat' names with rfl | ⟨names, s, rfl⟩
      · obtain ⟨names', hstack, hplace⟩ := ih (up + 1) []
        have hup : up + climbs 0 (.parent :: cs) = up + 1 + climbs 0 cs := by
          rw [climbs]
          omega
        refine ⟨names', ?_, fun dir => ?_⟩
        · rw [List.foldl_cons, push_parent_pile hbase, List.length_nil, hup]
          exact hstack
        · rw [List.foldl_cons, List.append_nil, Component.follow, dropLast_rdrop, List.length_nil, hup,
            ← List.append_nil (dir.rdrop (up + 1))]
          exact hplace dir
      · obtain ⟨names', hstack, hplace⟩ := ih up names
        rw [List.length_append, List.length_singleton, climbs]
        refine ⟨names', ?_, fun dir => ?_⟩
        · rw [List.foldl_cons, push_parent_pile_concat]
          exact hstack
        · rw [List.foldl_cons, ← List.append_assoc, Component.follow, List.dropLast_concat]
          exact hplace dir

/-- Written out, a normal form leads where its components do. -/
theorem place_normalize (p : Path) (dir : List OsText) :
    p.normalize.place dir = p.stack.reverse.foldl Component.follow dir := by
  have hnormal := reverse_eq_inner p.normal_stack
  rw [← show p.normalize = ofComponents p.stack.reverse from rfl] at hnormal
  rw [hnormal]
  split
  · next h => rw [List.foldl_cons, Component.follow, (place_of_absolute h dir).1]
  · next h => rw [(place_of_relative (Bool.eq_false_iff.2 h) dir).1]

theorem foldl_follow_pile (base : List Component) (up : Nat) (names dir : List OsText) :
    (pile base up names).reverse.foldl Component.follow dir =
      (base.reverse.foldl Component.follow dir).rdrop (up % 2) ++ names := by
  rw [pile, List.reverse_append, List.reverse_append, List.reverse_reverse, List.reverse_replicate,
    List.foldl_append, List.foldl_append, foldl_follow_parents, foldl_follow_names]

/-- The directory from which the path is followed. -/
def start (p : Path) (dir : List OsText) : List OsText :=
  if p.isAbsolute then [] else dir

theorem exists_names (p : Path) : ∃ names, ∀ dir,
    p.place dir = (p.start dir).rdrop p.climb ++ names ∧
      p.normalize.place dir = (p.start dir).rdrop (p.climb % 2) ++ names := by
  have hinner : ∀ c ∈ p.inner, c.IsInner := fun c hc => isInner_of_mem hc
  cases h : p.isAbsolute with
  | true =>
    obtain ⟨names, hstack, hplace⟩ := exists_foldl (.inr rfl) hinner 0 []
    refine ⟨names, fun dir => ?_⟩
    have hp := p.stack_eq
    rw [if_pos h, ← pile_zero [.root], hstack] at hp
    obtain ⟨hfollow, -⟩ := place_of_absolute h dir
    have hnames : p.inner.foldl Component.follow [] = names := by simpa using hplace []
    rw [place_normalize, hp, foldl_follow_pile, hfollow, hnames, start, if_pos h]
    simp [Component.follow]
  | false =>
    obtain ⟨names, hstack, hplace⟩ := exists_foldl (.inl rfl) hinner 0 []
    refine ⟨names, fun dir => ?_⟩
    obtain ⟨hfollow, hclimb⟩ := place_of_relative h dir
    rw [List.length_nil, Nat.zero_add, ← hclimb] at hstack hplace
    have hp := p.stack_eq
    rw [if_neg (Bool.eq_false_iff.1 h), ← pile_zero [], hstack] at hp
    have hnames := hplace dir
    rw [List.rdrop_zero, List.append_nil] at hnames
    rw [place_normalize, hp, foldl_follow_pile, hfollow, hnames, start, h]
    exact ⟨rfl, rfl⟩

/-! ## Top theorem -/

theorem rdrop_eq_rdrop_iff {dir : List OsText} {m n : Nat} :
    dir.rdrop m = dir.rdrop n ↔ dir.length - m = dir.length - n := by
  constructor
  · intro h
    simpa [List.rdrop] using congrArg List.length h
  · intro h
    rw [List.rdrop, List.rdrop, h]

/-- A path and its normal form part where the path climbs more than once, out of a directory that is
deep enough for that to show. -/
theorem place_normalize_eq_iff (p : Path) (dir : List OsText) :
    p.normalize.place dir = p.place dir ↔ p.climb ≤ 1 ∨ dir.length ≤ p.climb % 2 := by
  obtain ⟨names, hnames⟩ := p.exists_names
  rw [(hnames dir).1, (hnames dir).2, List.append_cancel_right_eq, rdrop_eq_rdrop_iff]
  cases h : p.isAbsolute with
  | true =>
    have hclimb := (place_of_absolute h dir).2
    omega
  | false =>
    rw [start, h]
    simp only [Bool.false_eq_true, if_false]
    omega

/-- Paths with one normal form are followed from the same directory, by the same names. -/
theorem exists_names_of_normalize (hnormal : p.normalize = q.normalize) : p.isAbsolute = q.isAbsolute ∧
    ∃ names, ∀ dir, p.place dir = (p.start dir).rdrop p.climb ++ names ∧
      q.place dir = (p.start dir).rdrop q.climb ++ names := by
  obtain ⟨names, hp⟩ := p.exists_names
  obtain ⟨names', hq⟩ := q.exists_names
  have hboth : ∀ dir, (p.start dir).rdrop (p.climb % 2) ++ names =
      (q.start dir).rdrop (q.climb % 2) ++ names' := by
    intro dir
    rw [← (hp dir).2, ← (hq dir).2, hnormal]
  obtain rfl : names = names' := by
    have hroot := hboth []
    simpa [start] using hroot
  have habsolute : p.isAbsolute = q.isAbsolute := by
    have hdeep := congrArg List.length (List.append_cancel_right (hboth [.ofText "", .ofText ""]))
    rw [List.rdrop, List.rdrop, List.length_take, List.length_take, start, start] at hdeep
    cases hp' : p.isAbsolute <;> cases hq' : q.isAbsolute <;> simp [hp', hq'] at hdeep ⊢ <;> omega
  have hstart : p.start = q.start := by
    funext dir
    rw [start, start, habsolute]
  refine ⟨habsolute, names, fun dir => ⟨(hp dir).1, ?_⟩⟩
  rw [hstart]
  exact (hq dir).1

theorem place_eq_iff_of_normalize (h : p.normalize = q.normalize) :
    (∀ dir, p.place dir = q.place dir) ↔ p.climb = q.climb := by
  obtain ⟨habsolute, names, hnames⟩ := exists_names_of_normalize h
  constructor
  · intro hplace
    cases hp : p.isAbsolute with
    | true =>
      have hq : q.isAbsolute = true := by rwa [← habsolute]
      rw [(place_of_absolute hp []).2, (place_of_absolute hq []).2]
    | false =>
      -- From a directory deep enough for both, each climb shows in the length.
      have hdeep := hplace (List.replicate (p.climb + q.climb) (.ofText ""))
      rw [(hnames _).1, (hnames _).2, List.append_cancel_right_eq, rdrop_eq_rdrop_iff, start, hp] at hdeep
      simp only [Bool.false_eq_true, if_false, List.length_replicate] at hdeep
      omega
  · intro hclimb dir
    rw [(hnames dir).1, (hnames dir).2, hclimb]

/-- The normal form of a path denotes the same place from every directory exactly if the path climbs at most
once; and paths with one normal form denote the same place from every directory exactly if they climb
equally far.  For texts, these are the paths with one key. -/
theorem place_normalize_iff (p q : Path) :
    (∀ dir, p.normalize.place dir = p.place dir ↔ p.climb ≤ 1 ∨ dir.length ≤ p.climb % 2) ∧
      (p.normalize = q.normalize → ((∀ dir, p.place dir = q.place dir) ↔ p.climb = q.climb)) ∧
      (p.IsText → q.IsText → (Store.key p = Store.key q ↔ p.normalize = q.normalize)) :=
  ⟨p.place_normalize_eq_iff, place_eq_iff_of_normalize, key_eq_iff⟩

/-- Both climb once. -/
theorem place_normalize_iff_upward :
    Store.key ⟨"a/../../b.fbs"⟩ = Store.key ⟨"../b.fbs"⟩ ∧
      (∀ dir, (normalize ⟨"a/../../b.fbs"⟩).place dir = place ⟨"a/../../b.fbs"⟩ dir) ∧
        ∀ dir, place ⟨"a/../../b.fbs"⟩ dir = place ⟨"../b.fbs"⟩ dir := by
  have hkey : Store.key ⟨"a/../../b.fbs"⟩ = Store.key ⟨"../b.fbs"⟩ := by decide +kernel
  obtain ⟨hplace, hsame, htexts⟩ := place_normalize_iff ⟨"a/../../b.fbs"⟩ ⟨"../b.fbs"⟩
  have hnormal := (htexts (isText_ofText _) (isText_ofText _)).1 hkey
  exact ⟨hkey, fun dir => (hplace dir).2 (.inl (by decide +kernel)), (hsame hnormal).2 (by decide +kernel)⟩

/-- One climbs twice, the other not at all, and the normal form of both is the second. -/
theorem place_normalize_twice_upward :
    (normalize ⟨"../../a.fbs"⟩).place ["x", "y"] ≠ place ⟨"../../a.fbs"⟩ ["x", "y"] ∧
      Store.key ⟨"../../a.fbs"⟩ = Store.key ⟨"a.fbs"⟩ ∧
        place ⟨"../../a.fbs"⟩ ["x", "y"] = ["a.fbs"] ∧ place ⟨"a.fbs"⟩ ["x", "y"] = ["x", "y", "a.fbs"] := by
  decide +kernel

end FlatSchema.Path
