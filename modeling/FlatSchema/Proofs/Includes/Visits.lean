import FlatSchema.Build
import FlatSchema.Proofs.Includes.Texts
import Mathlib.Data.Finset.Card

/-!
# Opening files

A file that is opened is on record from then on, so the files of a store that are not on record get
fewer with every file that is opened inside another (`Store.unread_lt`).  Hence the depth that a store
allows is never reached (`visit_keeps`), a larger one makes no difference (`visit_depth`), and opening
a file is a recursion without a bound (`addFile_eq`).

That a file is on record before it is read has a price: whatever became of it, opening it again is
skipped with success (`addFile_again`).
-/

namespace FlatSchema

namespace Store

/-- How many files of the store are not on record. -/
def unread (store : Store) (files : List String) : Nat :=
  ((store.files.map (·.1.display)).toFinset \ files.toFinset).card

/-- Where an include leads. -/
def locate? (store : Store) (dirs : List Path) (origin : Path) (written : String) : Option Path :=
  (Build.candidates dirs origin written).find? store.contains

variable {store : Store} {files files' : List String} {p : Path}

theorem unread_le (store : Store) (files : List String) :
    store.unread files ≤ store.files.length := by
  have hsub : store.unread files ≤ (store.files.map (·.1.display)).toFinset.card :=
    Finset.card_le_card Finset.sdiff_subset
  have hlen := List.toFinset_card_le (store.files.map (·.1.display))
  rw [List.length_map] at hlen
  omega

theorem unread_mono (h : files <+: files') : store.unread files' ≤ store.unread files := by
  refine Finset.card_le_card (Finset.sdiff_subset_sdiff (Finset.Subset.refl _) ?_)
  intro k hk
  rw [List.mem_toFinset] at hk ⊢
  exact h.subset hk

theorem mem_keys_of_contains (h : store.contains p = true) :
    key p ∈ store.files.map (·.1.display) := by
  unfold contains find? at h
  rw [Option.isSome_map] at h
  obtain ⟨f, hf⟩ := Option.isSome_iff_exists.1 h
  have hpath := List.find?_some hf
  refine List.mem_map.2 ⟨f, List.mem_of_find?_eq_some hf, ?_⟩
  rw [of_decide_eq_true hpath]
  rfl

/-- A file of the store that goes on record is one less. -/
theorem unread_lt (h : store.contains p = true) (hp : key p ∉ files) :
    store.unread (files ++ [key p]) < store.unread files := by
  refine Finset.card_lt_card (Finset.ssubset_iff_of_subset ?_ |>.2 ⟨key p, ?_, ?_⟩)
  · refine Finset.sdiff_subset_sdiff (Finset.Subset.refl _) ?_
    intro k hk
    rw [List.mem_toFinset] at hk ⊢
    exact List.mem_append_left _ hk
  · rw [Finset.mem_sdiff, List.mem_toFinset, List.mem_toFinset]
    exact ⟨mem_keys_of_contains h, hp⟩
  · rw [Finset.mem_sdiff, List.mem_toFinset, List.mem_toFinset]
    exact fun hmem => hmem.2 (List.mem_append_right _ (List.mem_singleton_self _))

end Store

/-! ## Faults of a text have a place -/

namespace Stream

/-- The fault that the tokens end with. -/
def fault? : Stream → Option CompileError
  | token _ rest => rest.fault?
  | eof _ => none
  | fault e => some e

theorem location_ofScan (l : Location) (f : ScanFault) :
    (CompileError.ofScan l f).location? = some l := by
  cases f <;> rfl

theorem location_of_fault? (file : String) (i : Input) {e : CompileError}
    (h : (readFrom file i).fault? = some e) : e.location? ≠ none := by
  fun_induction readFrom file i with
  | case1 i next f hf =>
    cases h
    rw [location_ofScan]
    simp
  | case2 => cases h
  | case3 i next l hl hne ih => exact ih h

end Stream

theorem Grammar.location_of_outline {file : String} {tokens : Stream} {e : CompileError}
    (htokens : ∀ e', tokens.fault? = some e' → e'.location? ≠ none) :
    ∀ q, (outline file q tokens).fault = some e → e.location? ≠ none := by
  induction tokens with
  | token t rest ih =>
    intro q h
    unfold outline at h
    dsimp only at h
    split at h
    · next q' _ => exact ih htokens q' h
    · cases h
      simp [CompileError.location?]
  | eof p =>
    intro q h
    unfold outline at h
    dsimp only at h
    split at h
    · cases h
    · cases h
      simp [CompileError.location?]
  | fault e' =>
    intro q h
    cases h
    exact htokens e rfl

theorem Schema.location_of_parse {s : Schema} {file text : String} {e : CompileError}
    (h : (s.parse file text).2 = .error e) : e.location? ≠ none := by
  have hstream := fun e' => Stream.location_of_fault? file (.start text) (e := e')
  have houtline : (Grammar.outline file (.declaration true) _).fault = some e → e.location? ≠ none :=
    Grammar.location_of_outline hstream (.declaration true)
  unfold parse parseStream at h
  dsimp only at h
  split at h
  · cases h
    simp [CompileError.location?]
  · next hfault =>
    cases h
    exact houtline hfault
  · cases h

/-! ## A library in memory -/

namespace Build

variable {store : Store} {dirs : List Path} {origin : Path}

theorem firstFile_library (ps : List Path) :
    firstFile store.library ps = (ps.find? store.contains : Option Path) := by
  induction ps with
  | nil => rfl
  | cons p ps ih =>
    show (if store.contains p then some p else firstFile store.library ps) = _
    rw [List.find?_cons, ih]
    cases store.contains p <;> rfl

/-- The build at which the file behind an include is opened. -/
def following (b : Build) (written : String) (p : Path) : Build :=
  b.note .debug ("Following include '" ++ written ++ "' -> " ++ p.display)

variable {visit visit' : Path → Build → Result}

theorem follow_cons (visit : Path → Build → Result) (written : String) (ws : List String) (b : Build) :
    follow store.library dirs visit origin (written :: ws) b =
      match store.locate? dirs origin written with
      | none => (.error (.includeNotFound written), b)
      | some p =>
        match visit p (b.following written p) with
        | (.ok _, b) => follow store.library dirs visit origin ws b
        | (.error e, b) => (.error e, b) := by
  rw [follow, firstFile_library]
  unfold Store.locate?
  cases (candidates dirs origin written).find? store.contains <;> rfl

/-- The build behind a text that was read. -/
def parsed (b : Build) (path : Path) (schema : Schema) (head : FileHead) : Build :=
  { b with schema := schema }.note .debug ("Parsed " ++ path.display ++ " ("
    ++ toString head.includes.length ++ " includes, " ++ toString head.attributes.length
    ++ " attributes)")

theorem addText_of_ok {path : Path} {text : String} {b : Build} {schema : Schema} {head : FileHead}
    (h : b.schema.parse path.display text = (schema, .ok head)) :
    addText store.library dirs visit path text b =
      follow store.library dirs visit path head.includes (b.parsed path schema head) := by
  unfold addText
  rw [h]
  rfl

theorem addText_of_error {path : Path} {text : String} {b : Build} {schema : Schema}
    {e : CompileError} (h : b.schema.parse path.display text = (schema, .error e)) :
    addText store.library dirs visit path text b = (.error e, { b with schema := schema }) := by
  unfold addText
  rw [h]
  rfl

/-- The build at which the text of a file is read. -/
def opening (b : Build) (path : Path) : Build :=
  { b with schema := b.schema.markFile (Store.key path) }

theorem visit_succ (depth : Nat) (path : Path) (b : Build) :
    Build.visit store.library dirs (depth + 1) path b =
      if b.schema.hasFile (Store.key path) then
        (.ok (), b.note .debug ("Skipping " ++ path.display ++ " (already parsed)"))
      else
        match store.find? path with
        | some text => addText store.library dirs (Build.visit store.library dirs depth) path text
          (b.opening path)
        | none => (.error (.file (.notFound path.display)), b.opening path) := by
  have hread : store.library.read path = store.read path := rfl
  rw [Build.visit, hread]
  unfold Store.read
  cases store.find? path <;> rfl

/-! ## Depth -/

theorem contains_of_find? {path : Path} {text : String} (h : store.find? path = some text) :
    store.contains path = true := by
  rw [Store.contains, h]
  rfl

/-- The keys of the files on record. -/
def record (b : Build) : List String :=
  b.schema.seenFiles.names

theorem hasFile_iff {b : Build} {key : String} : b.schema.hasFile key = true ↔ key ∈ b.record :=
  NameMap.contains_iff _ _

theorem record_markFile {b : Build} {key : String} (h : ¬ b.schema.hasFile key) :
    Build.record { b with schema := b.schema.markFile key } = b.record ++ [key] := by
  unfold record Schema.markFile
  rw [if_neg h]
  exact NameMap.names_insert (Bool.not_eq_true _ ▸ h) ()

/-- Reading a text leaves the record. -/
theorem record_of_parse {b : Build} {path : Path} {text : String} {schema : Schema}
    {r : Except CompileError FileHead} (h : b.schema.parse path.display text = (schema, r)) :
    Build.record { b with schema := schema } = b.record := by
  have hseen := (b.schema.record_parse path.display text).2
  rw [h] at hseen
  exact congrArg NameMap.names hseen

theorem unread_opening {b : Build} {path : Path} {text : String} (htext : store.find? path = some text)
    (h : ¬ b.schema.hasFile (Store.key path)) :
    store.unread (b.opening path).record < store.unread b.record := by
  rw [opening, record_markFile h]
  exact Store.unread_lt (contains_of_find? htext) (mt hasFile_iff.2 h)

/-- What was on record stays there, and the step does not end because too many files are open. -/
structure Keeps (files : List String) (r : Result) : Prop where
  grows : files <+: r.2.record
  settles : ∀ path, r.1 ≠ .error (.includeDepth path)

theorem Keeps.trans {files files' : List String} {r : Result} (h : files <+: files')
    (hr : Keeps files' r) : Keeps files r :=
  ⟨h.trans hr.grows, hr.settles⟩

/-- The includes of a file, where at most `n` files are left to open. -/
theorem follow_keeps {n : Nat}
    (hvisit : ∀ p b, store.unread b.record ≤ n → Keeps b.record (visit p b)) :
    ∀ ws b, store.unread b.record ≤ n →
      Keeps b.record (follow store.library dirs visit origin ws b) := by
  intro ws
  induction ws with
  | nil => exact fun b _ => ⟨List.prefix_refl _, fun path h => by cases h⟩
  | cons written ws ih =>
    intro b hb
    rw [follow_cons]
    cases store.locate? dirs origin written with
    | none => exact ⟨List.prefix_refl _, fun path h => by cases h⟩
    | some p =>
      have hp := hvisit p (b.following written p) hb
      dsimp only
      split
      · next b' h =>
        rw [h] at hp
        exact .trans hp.grows (ih b' (Nat.le_trans (Store.unread_mono hp.grows) hb))
      · next e b' h =>
        rw [h] at hp
        exact hp

theorem addText_keeps {n : Nat}
    (hvisit : ∀ p b, store.unread b.record ≤ n → Keeps b.record (visit p b)) (path : Path)
    (text : String) (b : Build) (hb : store.unread b.record ≤ n) :
    Keeps b.record (addText store.library dirs visit path text b) := by
  rcases hparse : b.schema.parse path.display text with ⟨schema, e | head⟩
  · rw [addText_of_error hparse, ← record_of_parse hparse]
    refine ⟨List.prefix_refl _, fun path h => ?_⟩
    cases h
    exact Schema.location_of_parse (congrArg Prod.snd hparse) rfl
  · rw [addText_of_ok hparse]
    rw [← record_of_parse hparse] at hb ⊢
    exact follow_keeps hvisit head.includes (b.parsed path schema head) hb

/-- A store never reaches its depth: each file that is open inside another was not on record. -/
theorem visit_keeps : ∀ (depth : Nat) (p : Path) (b : Build), store.unread b.record < depth →
    Keeps b.record (Build.visit store.library dirs depth p b) := by
  intro depth
  induction depth with
  | zero => exact fun _ _ h => absurd h (Nat.not_lt_zero _)
  | succ depth ih =>
    intro p b hdepth
    rw [visit_succ]
    split
    · exact ⟨List.prefix_refl _, fun path h => by cases h⟩
    · next hnew =>
      have hopen : b.record <+: (b.opening p).record := by
        rw [opening, record_markFile hnew]
        exact List.prefix_append _ _
      split
      · next text htext =>
        have hless := unread_opening htext hnew
        exact .trans hopen (addText_keeps (fun q b' hb' => ih q b' (by omega)) p text _ (Nat.le_refl _))
      · exact ⟨hopen, fun path h => by cases h⟩

/-- Two ways to open a file that agree while at most `n` files are left agree on all includes. -/
theorem follow_congr {n : Nat}
    (hkeeps : ∀ p b, store.unread b.record ≤ n → Keeps b.record (visit p b))
    (hvisit : ∀ p b, store.unread b.record ≤ n → visit p b = visit' p b) :
    ∀ ws b, store.unread b.record ≤ n →
      follow store.library dirs visit origin ws b = follow store.library dirs visit' origin ws b := by
  intro ws
  induction ws with
  | nil => exact fun b _ => rfl
  | cons written ws ih =>
    intro b hb
    rw [follow_cons, follow_cons]
    cases store.locate? dirs origin written with
    | none => rfl
    | some p =>
      have hp := hkeeps p (b.following written p) hb
      dsimp only
      rw [← hvisit p (b.following written p) hb]
      split
      · next b' h =>
        rw [h] at hp
        exact ih b' (Nat.le_trans (Store.unread_mono hp.grows) hb)
      · rfl

theorem addText_congr {n : Nat}
    (hkeeps : ∀ p b, store.unread b.record ≤ n → Keeps b.record (visit p b))
    (hvisit : ∀ p b, store.unread b.record ≤ n → visit p b = visit' p b) (path : Path)
    (text : String) (b : Build) (hb : store.unread b.record ≤ n) :
    addText store.library dirs visit path text b = addText store.library dirs visit' path text b := by
  rcases hparse : b.schema.parse path.display text with ⟨schema, e | head⟩
  · rw [addText_of_error hparse, addText_of_error hparse]
  · rw [addText_of_ok hparse, addText_of_ok hparse]
    rw [← record_of_parse hparse] at hb
    exact follow_congr hkeeps hvisit head.includes (b.parsed path schema head) hb

/-- A depth that covers the files not on record is as good as any other. -/
theorem visit_depth : ∀ (depth depth' : Nat) (p : Path) (b : Build),
    store.unread b.record < depth → store.unread b.record < depth' →
      Build.visit store.library dirs depth p b = Build.visit store.library dirs depth' p b := by
  intro depth
  induction depth with
  | zero => exact fun _ _ _ h => absurd h (Nat.not_lt_zero _)
  | succ depth ih =>
    intro depth' p b hdepth hdepth'
    obtain ⟨depth', rfl⟩ : ∃ d, depth' = d + 1 := ⟨depth' - 1, by omega⟩
    rw [visit_succ, visit_succ]
    split
    · rfl
    · next hnew =>
      split
      · next text htext =>
        have hless := unread_opening htext hnew
        exact addText_congr (fun q b' hb' => visit_keeps depth q b' (by omega))
          (fun q b' hb' => ih depth' q b' (by omega) (by omega)) p text _ (Nat.le_refl _)
      · rfl

/-! ## A file and its includes, without a bound -/

variable {options : Options}

theorem unread_lt_depth (store : Store) (b : Build) :
    store.unread b.record < store.library.depth :=
  Nat.lt_succ_of_le (store.unread_le _)

theorem addFile_keeps (p : Path) (b : Build) :
    Keeps b.record (addFile store.library options p b) :=
  visit_keeps _ p b (unread_lt_depth store b)

/-- A file is opened, and the files that it includes in the same way. -/
theorem addFile_eq (path : Path) (b : Build) : addFile store.library options path b =
    if b.schema.hasFile (Store.key path) then
      (.ok (), b.note .debug ("Skipping " ++ path.display ++ " (already parsed)"))
    else
      match store.find? path with
      | some text => addText store.library options.includeDirs (addFile store.library options) path text
        (b.opening path)
      | none => (.error (.file (.notFound path.display)), b.opening path) := by
  have hdepth := unread_lt_depth store b
  unfold addFile
  rw [visit_depth _ (store.library.depth + 1) path b hdepth (by omega), visit_succ]

/-! ## The same file again -/

/-- Whether it could be read or not, a file that was opened is on record. -/
theorem hasFile_addFile (path : Path) (b : Build) :
    (addFile store.library options path b).2.schema.hasFile (Store.key path) = true := by
  have hkeeps : ∀ q b', Keeps b'.record (addFile store.library options q b') := addFile_keeps
  rw [addFile_eq]
  split
  · next h => exact h
  · next hnew =>
    have hopen : Store.key path ∈ (b.opening path).record := by
      rw [opening, record_markFile hnew]
      exact List.mem_append_right _ (List.mem_singleton_self _)
    split
    · next text _ =>
      have htext : Keeps (b.opening path).record (addText store.library options.includeDirs
          (addFile store.library options) path text (b.opening path)) :=
        addText_keeps (fun q b' _ => hkeeps q b') path text _ (Nat.le_refl _)
      exact hasFile_iff.2 (htext.grows.subset hopen)
    · exact hasFile_iff.2 hopen

/-- A file that was opened is skipped from then on, also if it could not be read or its text or one
of its includes failed; a file that cannot be read is put on record all the same. -/
theorem addFile_again (store : Store) (options : Options) (path : Path) (b : Build) :
    addFile store.library options path (addFile store.library options path b).2 =
      (.ok (), (addFile store.library options path b).2.note .debug
        ("Skipping " ++ path.display ++ " (already parsed)")) ∧
    (b.schema.hasFile (Store.key path) = false → store.find? path = none →
      addFile store.library options path b = (.error (.file (.notFound path.display)),
        { b with
          schema.files := b.schema.files ++ [Store.key path]
          schema.seenFiles := b.schema.seenFiles.insert (Store.key path) () })) := by
  constructor
  · rw [addFile_eq path (addFile store.library options path b).2, if_pos (hasFile_addFile path b)]
  · intro hnew hmissing
    rw [addFile_eq, if_neg (by simp [hnew]), hmissing]
    unfold opening Schema.markFile
    rw [if_neg (by simp [hnew])]

/-- In an empty store a file goes on record although there is none. -/
theorem addFile_again_empty : (start .default).schema.hasFile (Store.key ⟨"a.fbs"⟩) = false ∧
    Store.empty.find? ⟨"a.fbs"⟩ = none ∧
    addFile Store.empty.library .default ⟨"a.fbs"⟩ (start .default) =
      (.error (.file (.notFound "a.fbs")), { start .default with
        schema.files := (start .default).schema.files ++ [Store.key ⟨"a.fbs"⟩]
        schema.seenFiles := (start .default).schema.seenFiles.insert (Store.key ⟨"a.fbs"⟩) () }) :=
  ⟨rfl, rfl, (addFile_again .empty .default ⟨"a.fbs"⟩ (start .default)).2 rfl rfl⟩

/-- In an empty store the first attempt fails, and the second succeeds. -/
theorem addFile_missing_twice :
    (addFile Store.empty.library .default ⟨"a.fbs"⟩ (start .default)).1 =
        .error (.file (.notFound "a.fbs")) ∧
      (addFile Store.empty.library .default ⟨"a.fbs"⟩
        (addFile Store.empty.library .default ⟨"a.fbs"⟩ (start .default)).2).1 = .ok () ∧
      (start .default).schema.files = [] ∧
      (addFile Store.empty.library .default ⟨"a.fbs"⟩ (start .default)).2.schema.files =
        ["a.fbs"] := by
  decide +kernel

end Build

end FlatSchema
