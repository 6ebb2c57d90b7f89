import FlatSchema.Proofs.Includes.Keys

/-!
# One spelling for each path

The components of a normal form are the root or nothing, a `..` or nothing, and names (`Canonical`), and a
path has the components of its normal form exactly if its own are such.  So the normal form is a fixed
point, and paths joined to a directory need only the normal form of it (`normalize_join_normalize`).

A store keeps texts by normal forms: a text is found under the spellings that have the normal form it was
put under, and under no other (`find?_insert`).  An include leads to the same file from all spellings of
the directories that it is looked for in (`locate?_congr`).
-/

namespace FlatSchema

namespace Path

/-! ## Components of a normal form -/

/-- The root or nothing, a `..` or nothing, and names. -/
inductive Canonical (cs : List Component) : Prop
  | intro (base up : List Component) (names : List OsText) (eq_append : cs = base ++ up ++ names.map .name)
      (hbase : base = [] ∨ base = [.root]) (hup : up = [] ∨ up = [.parent])

variable {p q : Path} {cs done : List Component}

theorem Normal.canonical (h : Normal done) : Canonical done.reverse := by
  induction h with
  | nil => exact ⟨[], [], [], rfl, .inl rfl, .inl rfl⟩
  | root => exact ⟨[.root], [], [], rfl, .inr rfl, .inl rfl⟩
  | parent hbase =>
    rcases hbase with rfl | rfl
    · exact ⟨[], [.parent], [], rfl, .inl rfl, .inr rfl⟩
    · exact ⟨[.root], [.parent], [], rfl, .inr rfl, .inr rfl⟩
  | @name s done _ _ ih =>
    obtain ⟨base, up, names, hdone, hbase, hup⟩ := ih
    exact ⟨base, up, names ++ [s], by simp [hdone], hbase, hup⟩

/-- Nothing is taken back of components that are canonical. -/
theorem Canonical.foldl_push (h : Canonical cs) : cs.foldl push [] = cs.reverse := by
  obtain ⟨base, up, names, rfl, hbase, hup⟩ := h
  have hfront : (base ++ up).foldl push [] = (base ++ up).reverse := by
    rcases hbase with rfl | rfl <;> rcases hup with rfl | rfl <;> rfl
  have hnames : ∀ c ∈ names.map Component.name, ∃ s, c = .name s := by
    intro c hc
    obtain ⟨s, -, rfl⟩ := List.mem_map.1 hc
    exact ⟨s, rfl⟩
  rw [List.foldl_append, hfront, foldl_push_names hnames, ← List.reverse_append]

/-- A component behind the root is written as no `.`, also at the start. -/
theorem firstComponent?_text {c : Component} (h : c.IsInner) : firstComponent? c.text = some c := by
  have hdot : c.text ≠ "." := by
    intro hdot
    have hnone := h.1
    rw [hdot] at hnone
    cases hnone
  rw [firstComponent?, if_neg hdot, h.1]

theorem components_ofComponents (h : Normal done) :
    (ofComponents done.reverse).components = done.reverse := by
  have hread := reverse_eq_inner h
  cases habsolute : (ofComponents done.reverse).isAbsolute with
  | true =>
    rw [habsolute, if_pos rfl] at hread
    rw [components_of_absolute habsolute, ← hread]
  | false =>
    rw [habsolute, if_neg Bool.false_ne_true] at hread
    by_cases hne : done = []
    · subst hne
      rfl
    have hroot : done ≠ [.root] := by
      rintro rfl
      have hslash : (ofComponents [.root]).isAbsolute = true := rfl
      exact Bool.false_ne_true (habsolute.symm.trans hslash)
    have hsegments := segments_ofComponents h hne hroot
    have hinner : ∀ c ∈ done.reverse, c.IsInner := hread ▸ fun c hc => isInner_of_mem hc
    generalize ofComponents done.reverse = p at habsolute hsegments
    cases hcs : done.reverse with
    | nil => exact absurd (List.reverse_eq_nil_iff.1 hcs) hne
    | cons c cs =>
      rw [hcs] at hsegments hinner
      have htail := filterMap_text fun c' hc' => hinner c' (List.mem_cons_of_mem c hc')
      rw [components, hsegments, habsolute]
      simp [firstComponent?_text (hinner c List.mem_cons_self), htail]

theorem components_normalize (p : Path) : p.normalize.components = p.stack.reverse :=
  components_ofComponents p.normal_stack

theorem components_normalize_eq_iff : p.normalize.components = p.components ↔ Canonical p.components := by
  constructor
  · intro h
    rw [← h, components_normalize]
    exact p.normal_stack.canonical
  · intro h
    rw [components_normalize, stack, h.foldl_push, List.reverse_reverse]

/-! ## Spellings of one path -/

theorem normalize_normalize (p : Path) : p.normalize.normalize = p.normalize :=
  normalize_ofComponents p.normal_stack

/-- A path leads on from the normal form of a directory as from the directory. -/
theorem normalize_join_normalize (d w : Path) : (d.normalize.join w).normalize = (d.join w).normalize :=
  normalize_join_congr d.normalize_normalize w

end Path

/-! ## Texts in a store -/

namespace Store

theorem contains_congr (s : Store) {p q : Path} (h : p.normalize = q.normalize) :
    s.contains p = s.contains q := by
  rw [contains, contains, find?, find?, h]

/-- The first of some paths that is a file depends on their normal forms only, up to its spelling. -/
theorem find?_contains_congr (s : Store) {ps qs : List Path}
    (h : ps.map Path.normalize = qs.map Path.normalize) :
    (ps.find? s.contains).map key = (qs.find? s.contains).map key := by
  induction ps generalizing qs with
  | nil =>
    obtain rfl : qs = [] := by simpa using h.symm
    rfl
  | cons p ps ih =>
    obtain ⟨q, qs, rfl⟩ : ∃ q qs', qs = q :: qs' := by
      cases qs with
      | nil => cases h
      | cons q qs => exact ⟨q, qs, rfl⟩
    obtain ⟨hpq, htail⟩ := List.cons.inj h
    rw [List.find?_cons, List.find?_cons, s.contains_congr hpq]
    cases s.contains q with
    | true => exact congrArg some (Path.key_congr hpq)
    | false => exact ih htail

end Store

namespace Build

variable {dirs dirs' : List Path} {origin origin' : Path}

/-- The normal forms of the candidates are found from those of the directories. -/
theorem map_normalize_candidates (dirs : List Path) (origin : Path) (written : String) :
    (candidates dirs origin written).map Path.normalize =
      ((origin.parent?.map Path.normalize).elim (Path.mk written) (·.join ⟨written⟩)).normalize ::
        (dirs.map Path.normalize).map fun d => (d.join ⟨written⟩).normalize := by
  rw [candidates, List.map_cons, List.map_map, List.map_map]
  refine congrArg₂ List.cons ?beside (List.map_congr_left fun d _ => ?searched)
  case beside =>
    cases origin.parent? with
    | none => rfl
    | some dir => exact (Path.normalize_join_normalize dir _).symm
  case searched => rw [Function.comp_apply, Function.comp_apply, Path.normalize_join_normalize]

theorem locate?_congr (store : Store) (hdirs : dirs.map Path.normalize = dirs'.map Path.normalize)
    (horigin : origin.parent?.map Path.normalize = origin'.parent?.map Path.normalize) (written : String) :
    (locate? store.library dirs origin written).map Store.key =
      (locate? store.library dirs' origin' written).map Store.key := by
  rw [locate?_library, locate?_library]
  refine store.find?_contains_congr ?_
  rw [map_normalize_candidates, map_normalize_candidates, hdirs, horigin]

end Build

/-! ## Top theorem -/

/-- The normal form of a path is canonical, and the path has the same components exactly if its own are; it is
its own normal form, and paths joined to it have the normal form that they have joined to the path.  Hence
keys are equal if normal forms are, and only then where the paths are texts; a store that takes up a text
finds it under exactly the spellings with its normal form, and an include is found under one key from any
spellings of the directories. -/
theorem Path.canonical_normalize (p : Path) :
    (Canonical p.normalize.components ∧ (p.normalize.components = p.components ↔ Canonical p.components)) ∧
      p.normalize.normalize = p.normalize ∧
      (∀ w : Path, (p.join w).normalize = (p.normalize.join w).normalize) ∧
      (∀ q : Path, (p.normalize = q.normalize → Store.key p = Store.key q) ∧
        (p.IsText → q.IsText → (Store.key p = Store.key q ↔ p.normalize = q.normalize)) ∧
        ∀ (store : Store) (text : String),
          (store.insert p text).contains q = (decide (p.normalize = q.normalize) || store.contains q) ∧
          (store.insert p text).read q = if p.normalize = q.normalize then .ok text else store.read q) ∧
      ∀ (store : Store) (dirs dirs' : List Path) (origin origin' : Path) (written : String),
        dirs.map normalize = dirs'.map normalize →
        origin.parent?.map normalize = origin'.parent?.map normalize →
          (Build.locate? store.library dirs origin written).map Store.key =
            (Build.locate? store.library dirs' origin' written).map Store.key := by
  have hcanonical : Canonical p.normalize.components := by
    rw [components_normalize]
    exact p.normal_stack.canonical
  refine ⟨⟨hcanonical, components_normalize_eq_iff⟩, p.normalize_normalize,
    fun w => (normalize_join_normalize p w).symm, fun q => ⟨key_congr, key_eq_iff, ?_⟩, ?_⟩
  · intro store text
    unfold Store.contains Store.read
    rw [Store.find?_insert]
    by_cases h : p.normalize = q.normalize <;> simp [h]
  · intro store dirs dirs' origin origin' written hdirs horigin
    exact Build.locate?_congr store hdirs horigin written

/-- The directory of the file and the one of the options are each spelled in two ways. -/
theorem Path.canonical_normalize_spellings :
    [Path.mk "lib/."].map normalize = [Path.mk "lib"].map normalize ∧
      (parent? ⟨"src/./m.fbs"⟩).map normalize = (parent? ⟨"src/sub/../m.fbs"⟩).map normalize ∧
      (Build.locate? (Store.empty.insert ⟨"./c.fbs"⟩ "").library [⟨"lib/."⟩] ⟨"src/./m.fbs"⟩
          "../c.fbs").map Store.key = some "c.fbs" ∧
      (Build.locate? (Store.empty.insert ⟨"./c.fbs"⟩ "").library [⟨"lib"⟩] ⟨"src/sub/../m.fbs"⟩
          "../c.fbs").map Store.key = some "c.fbs" := by
  have hdirs : [Path.mk "lib/."].map normalize = [Path.mk "lib"].map normalize := by decide +kernel
  have horigin : (parent? ⟨"src/./m.fbs"⟩).map normalize = (parent? ⟨"src/sub/../m.fbs"⟩).map normalize := by
    decide +kernel
  have hfound : (Build.locate? (Store.empty.insert ⟨"./c.fbs"⟩ "").library [⟨"lib/."⟩] ⟨"src/./m.fbs"⟩
      "../c.fbs").map Store.key = some "c.fbs" := by
    decide +kernel
  obtain ⟨-, -, -, -, hlocate⟩ := canonical_normalize ⟨"src"⟩
  exact ⟨hdirs, horigin, hfound, (hlocate _ _ _ _ _ _ hdirs horigin).symm.trans hfound⟩

end FlatSchema
