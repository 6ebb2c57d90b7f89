import FlatSchema.Proofs.Includes.Spellings

/-!
# Files are opened once for each key

Whatever a library takes for the key of a file, a build opens no two paths with one key
(`visit_opens`); what it opens is written down by a traced library.  A library whose keys are the paths
as written opens each spelling once, and so a file as often as it is spelled differently
(`addFile_spelled_twice`), or without an end (`visit_detour`).

Where paths are written in normal form and includes go straight down, every file has one spelling.  Keys
as written then lead to the same build as normal ones, which ends and opens every file once
(`addFile_spelled`).
-/

namespace FlatSchema

/-! ## Traced libraries -/

namespace Library

/-- The library, which writes down what is read from it. -/
def traced (lib : Library Id) : Library (StateM (List Path)) where
  isFile p := pure (lib.isFile p)
  read p := do
    modify (· ++ [p])
    pure (lib.read p)
  key p := pure (lib.key p)
  depth := lib.depth

def keyOf (lib : Library Id) (p : Path) : String :=
  Id.run (lib.key p)

end Library

namespace Build

variable {lib : Library Id} {dirs : List Path} {origin : Path}

/-- Where an include leads. -/
def locate? (lib : Library Id) (dirs : List Path) (origin : Path) (written : String) : Option Path :=
  Id.run (firstFile lib (candidates dirs origin written))

theorem firstFile_traced (ps : List Path) :
    firstFile lib.traced ps = pure (Id.run (firstFile lib ps)) := by
  induction ps with
  | nil => rfl
  | cons p ps ih =>
    show (if Id.run (lib.isFile p) then pure (some p) else firstFile lib.traced ps) =
      pure (if Id.run (lib.isFile p) then some p else Id.run (firstFile lib ps))
    rw [ih]
    split <;> rfl

theorem follow_traced_cons (visit : Path → Build → StateM (List Path) Result) (written : String)
    (ws : List String) (b : Build) :
    follow lib.traced dirs visit origin (written :: ws) b =
      (match locate? lib dirs origin written with
      | none => pure (.error (.includeNotFound written), b)
      | some p => do
        match ← visit p (b.following written p) with
        | (.ok _, b) => follow lib.traced dirs visit origin ws b
        | (.error e, b) => pure (.error e, b)) := by
  rw [follow, firstFile_traced, locate?]
  cases Id.run (firstFile lib (candidates dirs origin written)) <;> rfl

theorem follow_untraced_cons (visit : Path → Build → Result) (written : String) (ws : List String)
    (b : Build) :
    follow lib dirs visit origin (written :: ws) b =
      match locate? lib dirs origin written with
      | none => (.error (.includeNotFound written), b)
      | some p =>
        match visit p (b.following written p) with
        | (.ok _, b) => follow lib dirs visit origin ws b
        | (.error e, b) => (.error e, b) := by
  rw [follow, locate?]
  generalize firstFile lib (candidates dirs origin written) = place
  cases place <;> rfl

/-- A step that opens the files `ps`: they have new keys, each its own, and all of them go on record. -/
structure Opens (lib : Library Id) (record : List String) (m : StateM (List Path) Result) (r : Result)
    (ps : List Path) : Prop where
  run : ∀ log, m.run log = (r, log ++ ps)
  files : r.2.record = record ++ ps.map lib.keyOf
  nodup : (ps.map lib.keyOf).Nodup
  fresh : ∀ k ∈ ps.map lib.keyOf, k ∉ record

/-- A step that opens nothing. -/
theorem Opens.pure (lib : Library Id) (r : Result) : Opens lib r.2.record (Pure.pure r) r [] :=
  ⟨fun log => by rw [List.append_nil]; rfl, by simp, by simp, by simp⟩

/-- A step ends in one way. -/
theorem Opens.unique {lib' : Library Id} {record record' : List String} {m : StateM (List Path) Result}
    {r r' : Result} {ps ps' : List Path} (h : Opens lib record m r ps) (h' : Opens lib' record' m r' ps') :
    r = r' ∧ ps = ps' :=
  Prod.mk.inj ((h.run []).symm.trans (h'.run []))

theorem follow_opens {visit : Path → Build → StateM (List Path) Result} {visit' : Path → Build → Result}
    (hvisit : ∀ p b, ∃ ps, Opens lib b.record (visit p b) (visit' p b) ps) :
    ∀ ws b, ∃ ps, Opens lib b.record (follow lib.traced dirs visit origin ws b)
      (follow lib dirs visit' origin ws b) ps := by
  intro ws
  induction ws with
  | nil => exact fun b => ⟨[], .pure lib (.ok (), b)⟩
  | cons written ws ih =>
    intro b
    rw [follow_traced_cons, follow_untraced_cons]
    cases locate? lib dirs origin written with
    | none => exact ⟨[], .pure lib (_, b)⟩
    | some p =>
      obtain ⟨ps, hrun, hfiles, hnodup, hfresh⟩ := hvisit p (b.following written p)
      dsimp only
      generalize visit' p (b.following written p) = r at hrun hfiles
      obtain ⟨outcome, b'⟩ := r
      cases outcome with
      | error e =>
        refine ⟨ps, fun log => ?_, hfiles, hnodup, hfresh⟩
        rw [StateT.run_bind, hrun]
        rfl
      | ok _ =>
        obtain ⟨qs, hrun', hfiles', hnodup', hfresh'⟩ := ih b'
        have hfiles : b'.record = b.record ++ ps.map lib.keyOf := hfiles
        rw [hfiles] at hfiles' hfresh'
        refine ⟨ps ++ qs, fun log => ?_, ?_, ?_, ?_⟩
        · rw [StateT.run_bind, hrun, ← List.append_assoc]
          exact hrun' _
        · rw [hfiles', List.map_append, List.append_assoc]
        · rw [List.map_append, List.nodup_append]
          refine ⟨hnodup, hnodup', ?_⟩
          rintro k hk _ hk' rfl
          exact hfresh' k hk' (List.mem_append_right _ hk)
        · intro k hk
          rw [List.map_append, List.mem_append] at hk
          rcases hk with hk | hk
          · exact hfresh k hk
          · exact fun hmem => hfresh' k hk (List.mem_append_left _ hmem)

theorem addText_opens (dirs : List Path) {visit : Path → Build → StateM (List Path) Result}
    {visit' : Path → Build → Result}
    (hvisit : ∀ p b, ∃ ps, Opens lib b.record (visit p b) (visit' p b) ps) (p : Path)
    (text : String) (b : Build) :
    ∃ ps, Opens lib b.record (addText lib.traced dirs visit p text b)
      (addText lib dirs visit' p text b) ps := by
  unfold addText
  rcases hparse : b.schema.parse p.display text with ⟨schema, e | head⟩ <;> rw [← record_of_parse hparse]
  · exact ⟨[], .pure lib (.error e, { b with schema := schema })⟩
  · exact follow_opens hvisit head.includes (b.parsed p schema head)

/-- A file that is read after it went on record. -/
theorem Opens.cons {record : List String} {m : StateM (List Path) Result} {r : Result} {ps : List Path}
    {p : Path} (hp : lib.keyOf p ∉ record) (h : Opens lib (record ++ [lib.keyOf p]) m r ps) :
    Opens lib record (do modify (· ++ [p]); m) r (p :: ps) where
  run log := by
    rw [StateT.run_bind, List.append_cons]
    exact h.run _
  files := by
    rw [h.files, List.append_assoc]
    rfl
  nodup := by
    rw [List.map_cons, List.nodup_cons]
    refine ⟨fun hmem => h.fresh _ hmem ?_, h.nodup⟩
    exact List.mem_append_right _ (List.mem_singleton_self _)
  fresh := by
    intro k hk
    rcases List.mem_cons.1 hk with rfl | hk
    · exact hp
    · exact fun hmem => h.fresh k hk (List.mem_append_left _ hmem)

/-- The build in which the path is on record. -/
def recorded (lib : Library Id) (b : Build) (p : Path) : Build :=
  { b with schema := b.schema.markFile (lib.keyOf p) }

theorem visit_traced_succ (depth : Nat) (p : Path) (b : Build) : visit lib.traced dirs (depth + 1) p b =
    (if b.schema.hasFile (lib.keyOf p) then
      pure (.ok (), b.note .debug ("Skipping " ++ p.display ++ " (already parsed)"))
    else do
      modify (· ++ [p])
      match Id.run (lib.read p) with
      | .ok text => addText lib.traced dirs (visit lib.traced dirs depth) p text (recorded lib b p)
      | .error e => pure (.error (.file e), recorded lib b p)) :=
  rfl

theorem visit_untraced_succ (depth : Nat) (p : Path) (b : Build) : visit lib dirs (depth + 1) p b =
    if b.schema.hasFile (lib.keyOf p) then
      (.ok (), b.note .debug ("Skipping " ++ p.display ++ " (already parsed)"))
    else
      match Id.run (lib.read p) with
      | .ok text => addText lib dirs (visit lib dirs depth) p text (recorded lib b p)
      | .error e => (.error (.file e), recorded lib b p) :=
  rfl

/-- A build opens the paths that it puts on record. -/
theorem visit_opens (lib : Library Id) (dirs : List Path) (depth : Nat) (p : Path) (b : Build) :
    ∃ ps, Opens lib b.record (visit lib.traced dirs depth p b) (visit lib dirs depth p b) ps := by
  induction depth generalizing p b with
  | zero => exact ⟨[], .pure lib (_, b)⟩
  | succ depth ih =>
    rw [visit_traced_succ, visit_untraced_succ]
    by_cases hold : b.schema.hasFile (lib.keyOf p) = true
    · rw [if_pos hold, if_pos hold]
      exact ⟨[], .pure lib (.ok (), b.note _ _)⟩
    · have hnew : lib.keyOf p ∉ b.record := mt hasFile_iff.2 hold
      have hfiles : (recorded lib b p).record = b.record ++ [lib.keyOf p] := record_markFile hold
      rw [if_neg hold, if_neg hold]
      cases Id.run (lib.read p) with
      | error e => exact ⟨[p], .cons hnew (hfiles ▸ .pure lib (_, recorded lib b p))⟩
      | ok text =>
        obtain ⟨ps, hps⟩ := addText_opens dirs ih p text (recorded lib b p)
        exact ⟨p :: ps, .cons hnew (hfiles ▸ hps)⟩

/-! ## Paths written in normal form -/

section Spelled

variable {store : Store} {q : Path} {written : String}

theorem keyOf_spelled (store : Store) (p : Path) : store.spelledLibrary.keyOf p = p.display :=
  rfl

theorem read_spelled (store : Store) (p : Path) :
    Id.run (store.spelledLibrary.read p) = store.read p :=
  rfl

theorem locate?_spelled (store : Store) : locate? store.spelledLibrary dirs origin written =
    store.locate? dirs origin written := by
  have hsame : ∀ ps, firstFile store.spelledLibrary ps = firstFile store.library ps := by
    intro ps
    induction ps with
    | nil => rfl
    | cons p ps ih => rw [firstFile, firstFile, ih]; rfl
  rw [locate?, hsame, firstFile_library]
  rfl

theorem locate?_library (store : Store) : locate? store.library dirs origin written =
    store.locate? dirs origin written := by
  rw [locate?, firstFile_library]
  rfl

theorem normalize_of_locate? (horigin : origin.normalize = origin) (hdirs : ∀ d ∈ dirs, d.normalize = d)
    (hwritten : (⟨written⟩ : Path).Direct) (h : store.locate? dirs origin written = some q) :
    q.normalize = q := by
  have hmem := List.mem_of_find?_eq_some h
  rw [candidates] at hmem
  rcases List.mem_cons.1 hmem with rfl | hmem
  · cases hparent : origin.parent? with
    | none => exact hwritten.1
    | some dir => exact Path.normalize_join (Path.normalize_parent horigin hparent) hwritten
  · obtain ⟨d, hd, rfl⟩ := List.mem_map.1 hmem
    exact Path.normalize_join (hdirs d hd) hwritten

theorem follow_spelled {visit visit' : Path → Build → StateM (List Path) Result}
    (horigin : origin.normalize = origin) (hdirs : ∀ d ∈ dirs, d.normalize = d)
    (hvisit : ∀ q b, q.normalize = q → visit q b = visit' q b) :
    ∀ (ws : List String) b, (∀ w ∈ ws, (⟨w⟩ : Path).Direct) →
      follow store.spelledLibrary.traced dirs visit origin ws b =
        follow store.library.traced dirs visit' origin ws b := by
  intro ws
  induction ws with
  | nil => exact fun b _ => rfl
  | cons written ws ih =>
    intro b hws
    have ih' := fun b => ih b fun w hw => hws w (List.mem_cons_of_mem written hw)
    rw [follow_traced_cons, follow_traced_cons, locate?_spelled, locate?_library]
    cases hlocate : store.locate? dirs origin written with
    | none => rfl
    | some q =>
      have hq := normalize_of_locate? horigin hdirs (hws written List.mem_cons_self) hlocate
      simp only [hvisit q _ hq, ih']

theorem visit_spelled (hdirs : ∀ d ∈ dirs, d.normalize = d)
    (hincludes : ∀ f ∈ store.files, ∀ w ∈ includesOf f.2, (⟨w⟩ : Path).Direct) (depth : Nat) (p : Path)
    (b : Build) (hp : p.normalize = p) :
    visit store.spelledLibrary.traced dirs depth p b = visit store.library.traced dirs depth p b := by
  induction depth generalizing p b with
  | zero => rfl
  | succ depth ih =>
    have hkey : store.spelledLibrary.keyOf p = store.library.keyOf p := congrArg Path.display hp.symm
    have hread : Id.run (store.library.read p) = store.read p := rfl
    rw [visit_traced_succ, visit_traced_succ, read_spelled, hread, recorded, recorded, hkey, Store.read]
    cases htext : store.find? p with
    | none => rfl
    | some text =>
      obtain ⟨f, hf, rfl⟩ := Option.map_eq_some_iff.1 htext
      have haddText : ∀ b, addText store.spelledLibrary.traced dirs
          (visit store.spelledLibrary.traced dirs depth) p f.2 b =
            addText store.library.traced dirs (visit store.library.traced dirs depth) p f.2 b := by
        intro b
        unfold addText
        rcases hparse : b.schema.parse p.display f.2 with ⟨schema, e | head⟩
        · rfl
        · refine follow_spelled hp hdirs ih head.includes _ ?_
          rw [Schema.includes_of_parse hparse]
          exact hincludes f (List.mem_of_find?_eq_some hf)
      dsimp only
      rw [haddText]

/-! ## Top theorem -/

/-- A build with keys as written opens no spelling of a path twice.  If the paths that it is given are
written in normal form, and the includes go straight down, it is the build with normal keys: it ends,
however deep files may be nested, and opens no file twice. -/
theorem addFile_spelled (store : Store) (options : Options) (entry : Path) (b : Build) :
    ∃ ps, (addFile store.spelledLibrary.traced options entry b).run [] =
        (addFile store.spelledLibrary options entry b, ps) ∧
      (ps.map Path.display).Nodup ∧
      (entry.normalize = entry → (∀ d ∈ options.includeDirs, d.normalize = d) →
        (∀ f ∈ store.files, ∀ w ∈ includesOf f.2, (⟨w⟩ : Path).Direct) →
          (∀ depth, store.files.length < depth →
            visit store.spelledLibrary options.includeDirs depth entry b =
              addFile store.library options entry b) ∧
          (∀ path, (addFile store.library options entry b).1 ≠ .error (.includeDepth path)) ∧
          (ps.map Store.key).Nodup) := by
  obtain ⟨ps, hps⟩ := visit_opens store.spelledLibrary options.includeDirs store.spelledLibrary.depth
    entry b
  refine ⟨ps, hps.run [], hps.nodup, fun hentry hdirs hincludes => ?_⟩
  have hopens : ∀ depth, ∃ qs, Opens store.library b.record
      (visit store.spelledLibrary.traced options.includeDirs depth entry b)
      (visit store.library options.includeDirs depth entry b) qs := by
    intro depth
    rw [visit_spelled hdirs hincludes depth entry b hentry]
    exact visit_opens ..
  refine ⟨?_, (addFile_keeps entry b).settles, ?_⟩
  · intro depth hdepth
    obtain ⟨qs, hqs⟩ := hopens depth
    obtain ⟨rs, hrs⟩ := visit_opens store.spelledLibrary options.includeDirs depth entry b
    have hunread := store.unread_le b.record
    rw [(hrs.unique hqs).1]
    exact visit_depth _ _ entry b (by omega) (unread_lt_depth store b)
  · obtain ⟨qs, hqs⟩ := hopens store.spelledLibrary.depth
    rw [(hps.unique hqs).2]
    exact hqs.nodup

/-- Files that include each other and themselves. -/
def straight : Store :=
  ⟨[(⟨"m.fbs"⟩, "include 'a.fbs'; include 'd/b.fbs';"), (⟨"a.fbs"⟩, "include 'm.fbs';"),
    (⟨"d/b.fbs"⟩, "include 'b.fbs'; table B \x7b\x7d")]⟩

theorem addFile_spelled_straight :
    (⟨"m.fbs"⟩ : Path).normalize = ⟨"m.fbs"⟩ ∧
      (∀ d ∈ Options.default.includeDirs, d.normalize = d) ∧
      (∀ f ∈ straight.files, ∀ w ∈ includesOf f.2, (⟨w⟩ : Path).Direct) ∧
      ∃ ps, (addFile straight.spelledLibrary.traced .default ⟨"m.fbs"⟩ (start .default)).run [] =
          (addFile straight.spelledLibrary .default ⟨"m.fbs"⟩ (start .default), ps) ∧
        (ps.map Path.display).Nodup ∧
        (∀ depth, straight.files.length < depth →
          visit straight.spelledLibrary Options.default.includeDirs depth ⟨"m.fbs"⟩ (start .default) =
            addFile straight.library .default ⟨"m.fbs"⟩ (start .default)) ∧
        (∀ path, (addFile straight.library .default ⟨"m.fbs"⟩ (start .default)).1 ≠
          .error (.includeDepth path)) ∧
        (ps.map Store.key).Nodup := by
  have hentry : (⟨"m.fbs"⟩ : Path).normalize = ⟨"m.fbs"⟩ := by decide +kernel
  have hdirs : ∀ d ∈ Options.default.includeDirs, d.normalize = d := by decide
  have hincludes : ∀ f ∈ straight.files, ∀ w ∈ includesOf f.2, (⟨w⟩ : Path).Direct := by decide +kernel
  obtain ⟨ps, hrun, htexts, hspelled⟩ := addFile_spelled straight .default ⟨"m.fbs"⟩ (start .default)
  exact ⟨hentry, hdirs, hincludes, ps, hrun, htexts, hspelled hentry hdirs hincludes⟩

end Spelled

/-! ## Paths written in other ways -/

/-- A file that is included under two spellings. -/
def twofold : Store :=
  ⟨[(⟨"m.fbs"⟩, "include \"a.fbs\"; include \"./a.fbs\";"), (⟨"a.fbs"⟩, "table A \x7b x: int; \x7d")]⟩

/-- A file that includes itself by a detour. -/
def endless : Store :=
  ⟨[(⟨"a.fbs"⟩, "include \"x/../a.fbs\";")]⟩

/-- What the file puts in front of its name in `n` includes. -/
def turns : Nat → List OsText
  | 0 => []
  | n + 1 => "x" :: ".." :: turns n

/-- How the file spells itself after `n` includes. -/
def detour (n : Nat) : Path :=
  ⟨OsText.joined (turns n ++ [.ofText "a.fbs"])⟩

theorem turns_append (n : Nat) : turns n ++ [.ofText "x", .ofText ".."] = turns (n + 1) := by
  induction n with
  | zero => rfl
  | succ n ih =>
    rw [turns, List.cons_append, List.cons_append, ih]
    rfl

theorem length_turns (n : Nat) : (turns n).length = 2 * n := by
  induction n with
  | zero => rfl
  | succ n ih =>
    rw [turns, List.length_cons, List.length_cons, ih]
    omega

theorem mem_turns {n : Nat} {s : OsText} (h : s ∈ turns n) : s = "x" ∨ s = ".." := by
  induction n with
  | zero => cases h
  | succ n ih =>
    rcases List.mem_cons.1 h with rfl | h
    · exact .inl rfl
    · rcases List.mem_cons.1 h with rfl | h
      · exact .inr rfl
      · exact ih h

theorem segments_turns {n : Nat} (h : turns n ≠ []) : (OsText.joined (turns n)).segments = turns n := by
  refine OsText.segments_joined h fun s hs => ?_
  rcases mem_turns hs with rfl | rfl <;> decide +kernel

theorem segments_detour (n : Nat) : (detour n).segments = turns n ++ [.ofText "a.fbs"] := by
  refine OsText.segments_joined (by simp) fun s hs => ?_
  rcases List.mem_append.1 hs with hs | hs
  · rcases mem_turns hs with rfl | rfl <;> decide +kernel
  · rw [List.mem_singleton.1 hs]
    decide +kernel

theorem isAbsolute_detour (n : Nat) : (detour n).isAbsolute = false := by
  rw [Bool.eq_false_iff, ne_eq, Path.isAbsolute_iff, segments_detour]
  rintro ⟨s, ss, hss⟩
  cases n with
  | zero => cases hss
  | succ n =>
    exact absurd (List.cons.inj hss).1 (by decide +kernel)

theorem normalize_detour (n : Nat) : (detour n).normalize = ⟨"a.fbs"⟩ := by
  have hpush : ∀ n, ((turns n).filterMap Path.innerComponent?).foldl Path.push [] = [] := by
    intro n
    induction n with
    | zero => rfl
    | succ n ih => exact ih
  have hstack : (detour n).stack = (⟨"a.fbs"⟩ : Path).stack := by
    rw [Path.stack_eq, isAbsolute_detour, Path.inner, segments_detour, List.filterMap_append,
      List.foldl_append]
    refine (congrArg (List.foldl _ · _) (hpush n)).trans ?_
    decide +kernel
  rw [Path.normalize_eq_iff.2 hstack]
  decide +kernel

/-- Next to a detour there is a longer one. -/
theorem candidates_detour (n : Nat) : candidates [] (detour n) "x/../a.fbs" = [detour (n + 1)] := by
  cases n with
  | zero => decide +kernel
  | succ n =>
    have hcomponent : ∀ s ∈ turns (n + 1), Path.innerComponent? s ≠ none := by
      intro s hs
      rcases mem_turns hs with rfl | rfl <;> decide +kernel
    obtain ⟨rest, hfront⟩ : ∃ rest, turns (n + 1) = .ofText "x" :: rest := ⟨_, rfl⟩
    have htrim : Path.trimSegments (detour (n + 1)).segments =
        .ofText "x" :: (rest ++ [.ofText "a.fbs"]) := by
      rw [segments_detour, hfront]
      refine Path.trimSegments_eq_self fun s hs => ?_
      have hname : s = "a.fbs" := by simpa using hs.symm
      rw [hname]
      decide +kernel
    have htrim' : Path.trimSegments (.ofText "x" :: rest) = .ofText "x" :: rest := by
      refine Path.trimSegments_eq_self fun s hs => hcomponent s ?_
      rw [hfront]
      exact List.mem_cons_of_mem _ (List.mem_of_getLast? hs)
    have hparent := (Path.parent?_of_trimSegments htrim htrim').2
    have hx : ¬ (OsText.ofText "x" = .ofText "" ∧ rest = []) := fun h => absurd h.1 (by decide +kernel)
    rw [Path.ofSegments, if_neg hx, ← hfront] at hparent
    have hlast : (⟨OsText.joined (turns (n + 1))⟩ : Path).segments.getLast? ≠ some (.ofText "") := by
      rw [Path.segments, segments_turns (by rw [hfront]; simp)]
      exact fun hlast => hcomponent _ (List.mem_of_getLast? hlast) rfl
    rw [candidates, hparent, detour, ← turns_append (n + 1), List.append_assoc,
      OsText.joined_append (by rw [hfront]; simp) (by simp)]
    dsimp only
    rw [Path.join_of_getLast? hlast (by decide +kernel)]
    rfl

theorem parse_endless (s : Schema) (file : String) : ∃ s' head,
    s.parse file "include \"x/../a.fbs\";" = (s', .ok head) ∧ head.includes = ["x/../a.fbs"] := by
  have houtline : Grammar.outline "" (.declaration true)
      (Stream.ofText "" "include \"x/../a.fbs\";") = ⟨[.includeFile "x/../a.fbs"], none⟩ := by
    decide +kernel
  rw [s.parse_inFile "" file, Schema.parse, Schema.parseStream, houtline]
  exact ⟨_, _, rfl, rfl⟩

theorem display_detour_ne {n m : Nat} (h : n < m) : (detour m).display ≠ (detour n).display := by
  intro hdisplay
  have hlength := congrArg (fun s => (Path.segments ⟨.ofText s⟩).length) hdisplay
  change (detour m).shown.segments.length = (detour n).shown.segments.length at hlength
  simp only [Path.segments_shown, segments_detour, List.length_map, List.length_append, length_turns,
    List.length_cons, List.length_nil] at hlength
  omega

/-- A file that has not come to its end does not come to it. -/
theorem visit_detour (depth n : Nat) (b : Build) (hb : ∀ m, n ≤ m → (detour m).display ∉ b.record) :
    ∃ path, (visit endless.spelledLibrary [] depth (detour n) b).1 = .error (.includeDepth path) := by
  induction depth generalizing n b with
  | zero => exact ⟨_, rfl⟩
  | succ depth ih =>
    have hfind : ∀ n, endless.find? (detour n) = some "include \"x/../a.fbs\";" := by
      intro n
      rw [Store.find?, normalize_detour]
      decide +kernel
    have hnew : b.schema.hasFile (detour n).display = false :=
      Bool.eq_false_iff.2 (mt hasFile_iff.1 (hb n (Nat.le_refl n)))
    have hlocate : endless.locate? [] (detour n) "x/../a.fbs" = some (detour (n + 1)) := by
      rw [Store.locate?, candidates_detour, List.find?_cons_of_pos]
      rw [Store.contains, hfind]
      rfl
    obtain ⟨s', head, hparse, hhead⟩ := parse_endless (recorded endless.spelledLibrary b (detour n)).schema
      (detour n).display
    have hrecord : (recorded endless.spelledLibrary b (detour n)).record =
        b.record ++ [(detour n).display] := by
      rw [recorded, keyOf_spelled]
      exact record_markFile (by rw [hnew]; exact Bool.false_ne_true)
    rw [visit_untraced_succ, keyOf_spelled, hnew, read_spelled, Store.read, hfind]
    dsimp only
    rw [if_neg (by simp), addText, hparse]
    dsimp only
    rw [hhead, follow_untraced_cons, locate?_spelled, hlocate]
    dsimp only
    generalize hnext : Build.following _ "x/../a.fbs" (detour (n + 1)) = b'
    have hb' : ∀ m, n + 1 ≤ m → (detour m).display ∉ b'.record := by
      intro m hm hmem
      rw [← hnext] at hmem
      have hmem : (detour m).display ∈ b.record ++ [(detour n).display] := by
        rwa [← hrecord, ← record_of_parse hparse]
      rcases List.mem_append.1 hmem with hmem | hmem
      · exact hb m (by omega) hmem
      · exact display_detour_ne (by omega) (List.mem_singleton.1 hmem)
    obtain ⟨path, hpath⟩ := ih (n + 1) b' hb'
    generalize visit endless.spelledLibrary [] depth (detour (n + 1)) b' = r at hpath
    obtain ⟨outcome, c⟩ := r
    obtain rfl : outcome = .error (.includeDepth path) := hpath
    exact ⟨path, rfl⟩

/-- Keys as written do not keep a file from being opened twice, and a declaration in it is refused as its
own duplicate.  A file may even spell itself in new ways without an end. -/
theorem addFile_spelled_twice :
    ((addFile twofold.spelledLibrary.traced .default ⟨"m.fbs"⟩ (start .default)).run []).2 =
        [⟨"m.fbs"⟩, ⟨"a.fbs"⟩, ⟨"./a.fbs"⟩] ∧
      Store.key ⟨"a.fbs"⟩ = Store.key ⟨"./a.fbs"⟩ ∧
      (addFile twofold.spelledLibrary .default ⟨"m.fbs"⟩ (start .default)).1 =
        .error (.declaration (.duplicateIdentifier "A") ⟨"./a.fbs", ⟨1, 7⟩⟩) ∧
      (addFile twofold.library .default ⟨"m.fbs"⟩ (start .default)).1 = .ok () ∧
      ∀ depth, ∃ path, (visit endless.spelledLibrary [] depth ⟨"a.fbs"⟩ (start .default)).1 =
        .error (.includeDepth path) := by
  refine ⟨by decide +kernel, by decide +kernel, by decide +kernel, by decide +kernel, fun depth => ?_⟩
  have hstart : detour 0 = ⟨"a.fbs"⟩ := by decide +kernel
  rw [← hstart]
  exact visit_detour depth 0 _ fun m _ => List.not_mem_nil

end Build

end FlatSchema
