import FlatSchema.Proofs.Indexes
import FlatSchema.Proofs.Includes.Visits

/-!
# The files of a build, in order

Includes are followed depth first and in the order in which they are written: `Walks` says in which
order files are opened, with the files still to come as a list that starts with the includes of the
file opened last.  A build of a store succeeds exactly if there is such a walk, on which every include
leads somewhere, and the texts along it can be read one after another; then this is what it does
(`addFile_traverses`).

`Covers` is a part of a build: what it opens, what goes on record, and what is read.  Parts of a build
compose (`Covers.append`) and come apart (`Covers.split`).
-/

namespace FlatSchema

namespace Store

/-- What the file at a path includes. -/
def includesAt (store : Store) (p : Path) : List String :=
  ((store.find? p).map includesOf).getD []

/-- From the paths in front on, files that are not in `seen` are opened one after another, each before
what it includes, and that before what comes behind it. -/
inductive Walks (store : Store) (dirs : List Path) : List String → List Path → List Path → Prop where
  | nil (seen : List String) : Walks store dirs seen [] []
  | skip {seen : List String} {p : Path} {ps vs : List Path} (hp : key p ∈ seen)
      (h : Walks store dirs seen ps vs) : Walks store dirs seen (p :: ps) vs
  | enter {seen : List String} {p : Path} {qs ps vs : List Path} (hp : key p ∉ seen)
      (hqs : (store.includesAt p).map (store.locate? dirs p) = qs.map some)
      (h : Walks store dirs (seen ++ [key p]) (qs ++ ps) vs) : Walks store dirs seen (p :: ps) (p :: vs)

/-- The texts at the paths are read one after another. -/
inductive Reads (store : Store) : Schema → List Path → Schema → Prop where
  | nil (s : Schema) : Reads store s [] s
  | cons {s s₁ s' : Schema} {p : Path} {ps : List Path} {text : String} {head : FileHead}
      (htext : store.find? p = some text) (hparse : s.parse (key p) text = (s₁, .ok head))
      (h : Reads store s₁ ps s') : Reads store s (p :: ps) s'

/-- A part of a build that leads from `s` to `s'`: it is asked to open `ps`, and opens `vs`. -/
structure Covers (store : Store) (dirs : List Path) (s : Schema) (ps vs : List Path) (s' : Schema) :
    Prop where
  before : s.Seen
  walks : store.Walks dirs s.files ps vs
  files : s'.files = s.files ++ vs.map key
  reads : store.Reads (s.withFiles []) vs (s'.withFiles [])
  after : s'.Seen

/-- What a build leaves that starts with the file `entry` and opens `vs`. -/
structure Traverses (store : Store) (options : Options) (entry : Path) (vs : List Path) (s : Schema) :
    Prop where
  /-- The order is that of a walk, depth first. -/
  walks : store.Walks options.includeDirs [] [entry] vs
  files : s.files = vs.map key
  first : s.files.head? = some (key entry)
  nodup : s.files.Nodup
  seen : s.Seen
  /-- What a file includes, from where it was opened, is a file on record. -/
  closed : ∀ v ∈ vs, ∀ written ∈ store.includesAt v, ∃ q,
    store.locate? options.includeDirs v written = some q ∧ store.contains q = true ∧ key q ∈ s.files
  /-- Every file but the first is included by one before it. -/
  included : ∀ i v, vs[i + 1]? = some v → ∃ j u, j ≤ i ∧ vs[j]? = some u ∧
    ∃ written ∈ store.includesAt u, store.locate? options.includeDirs u written = some v
  /-- But for the record, the schema is that of the texts read one after another. -/
  reads : ∃ texts, vs.map store.find? = texts.map some ∧
    (Schema.empty options.rootName).readAll (s.files.zip texts) = .ok (s.withFiles [])

/-! ## Walks -/

variable {store : Store} {dirs : List Path} {seen : List String} {ps qs vs ws us : List Path}

namespace Walks

theorem append (h : store.Walks dirs seen ps vs)
    (h' : store.Walks dirs (seen ++ vs.map key) qs ws) :
    store.Walks dirs seen (ps ++ qs) (vs ++ ws) := by
  induction h with
  | nil seen =>
    rw [List.map_nil, List.append_nil] at h'
    exact h'
  | skip hp _ ih => exact .skip hp (ih h')
  | @enter seen p cs ps vs hp hcs _ ih =>
    rw [List.map_cons, ← List.singleton_append, ← List.append_assoc] at h'
    have hrest := ih h'
    rw [List.append_assoc] at hrest
    exact .enter hp hcs hrest

theorem split (h : store.Walks dirs seen (ps ++ qs) us) : ∃ vs ws, us = vs ++ ws ∧
    store.Walks dirs seen ps vs ∧ store.Walks dirs (seen ++ vs.map key) qs ws := by
  generalize hrs : ps ++ qs = rs at h
  induction h generalizing ps qs with
  | nil seen =>
    obtain ⟨rfl, rfl⟩ := List.append_eq_nil_iff.1 hrs
    exact ⟨[], [], rfl, .nil seen, .nil _⟩
  | @skip seen p rs us hp h ih =>
    cases ps with
    | nil =>
      obtain rfl : qs = p :: rs := hrs
      exact ⟨[], us, rfl, .nil seen, by simpa using Walks.skip hp h⟩
    | cons p' ps =>
      obtain ⟨rfl, htail⟩ := List.cons.inj hrs
      obtain ⟨vs, ws, rfl, hvs, hws⟩ := ih htail
      exact ⟨vs, ws, rfl, .skip hp hvs, hws⟩
  | @enter seen p cs rs us hp hcs h ih =>
    cases ps with
    | nil =>
      obtain rfl : qs = p :: rs := hrs
      exact ⟨[], p :: us, rfl, .nil seen, by simpa using Walks.enter hp hcs h⟩
    | cons p' ps =>
      obtain ⟨rfl, htail⟩ := List.cons.inj hrs
      have hchain : (cs ++ ps) ++ qs = cs ++ rs := by
        rw [List.append_assoc]
        exact congrArg (cs ++ ·) htail
      obtain ⟨vs, ws, rfl, hvs, hws⟩ := ih hchain
      refine ⟨p' :: vs, ws, rfl, .enter hp hcs hvs, ?_⟩
      rw [List.append_assoc] at hws
      exact hws

theorem nil_of_nil (h : store.Walks dirs seen [] vs) : vs = [] := by
  cases h
  rfl

/-- No file is opened that was seen, and none twice. -/
theorem nodup (h : store.Walks dirs seen ps vs) :
    (vs.map key).Nodup ∧ ∀ v ∈ vs, key v ∉ seen := by
  induction h with
  | nil seen => exact ⟨.nil, fun v hv => absurd hv List.not_mem_nil⟩
  | skip _ _ ih => exact ih
  | @enter seen p qs ps vs hp _ _ ih =>
    obtain ⟨hnodup, hnew⟩ := ih
    constructor
    · rw [List.map_cons, List.nodup_cons]
      refine ⟨fun hmem => ?_, hnodup⟩
      obtain ⟨v, hv, hkey⟩ := List.mem_map.1 hmem
      apply hnew v hv
      rw [hkey]
      exact List.mem_append_right _ (List.mem_singleton_self _)
    · intro v hv
      rcases List.mem_cons.1 hv with rfl | hv
      · exact hp
      · exact fun hmem => hnew v hv (List.mem_append_left _ hmem)

/-- What is to be opened is seen in the end. -/
theorem mem (h : store.Walks dirs seen ps vs) : ∀ p ∈ ps, key p ∈ seen ++ vs.map key := by
  induction h with
  | nil seen => exact fun p hp => absurd hp List.not_mem_nil
  | skip hp _ ih =>
    intro q hq
    rcases List.mem_cons.1 hq with rfl | hq
    · exact List.mem_append_left _ hp
    · exact ih q hq
  | @enter seen p qs ps vs _ _ _ ih =>
    intro q hq
    rw [List.map_cons, ← List.singleton_append, ← List.append_assoc]
    rcases List.mem_cons.1 hq with rfl | hq
    · exact List.mem_append_left _ (List.mem_append_right _ (List.mem_singleton_self _))
    · exact ih q (List.mem_append_right _ hq)

/-- What an opened file includes is found, and seen in the end. -/
theorem closed (h : store.Walks dirs seen ps vs) : ∀ v ∈ vs, ∀ written ∈ store.includesAt v,
    ∃ q, store.locate? dirs v written = some q ∧ key q ∈ seen ++ vs.map key := by
  induction h with
  | nil seen => exact fun v hv => absurd hv List.not_mem_nil
  | skip _ _ ih => exact ih
  | @enter seen p qs ps vs _ hqs h ih =>
    intro v hv written hwritten
    rw [List.map_cons, ← List.singleton_append, ← List.append_assoc]
    rcases List.mem_cons.1 hv with rfl | hv
    · have hmem := List.mem_map_of_mem (f := store.locate? dirs v) hwritten
      rw [hqs] at hmem
      obtain ⟨q, hq, hlocate⟩ := List.mem_map.1 hmem
      exact ⟨q, hlocate.symm, h.mem q (List.mem_append_left _ hq)⟩
    · exact ih v hv written hwritten

/-- A file is opened because it was to be opened, or because a file before it includes it. -/
theorem origin (h : store.Walks dirs seen ps vs) : ∀ (i : Nat) (v : Path), vs[i]? = some v → v ∈ ps ∨
    ∃ (j : Nat) (u : Path), j < i ∧ vs[j]? = some u ∧ ∃ written ∈ store.includesAt u,
      store.locate? dirs u written = some v := by
  induction h with
  | nil seen => exact fun i v hv => by simp at hv
  | skip _ _ ih =>
    intro i v hv
    rcases ih i v hv with hmem | hinclude
    · exact .inl (List.mem_cons_of_mem _ hmem)
    · exact .inr hinclude
  | @enter seen p qs ps vs _ hqs _ ih =>
    intro i v hv
    cases i with
    | zero =>
      cases hv
      exact .inl List.mem_cons_self
    | succ i =>
      rcases ih i v hv with hmem | ⟨j, u, hj, hu, hinclude⟩
      · rcases List.mem_append.1 hmem with hmem | hmem
        · have hsome := List.mem_map_of_mem (f := some) hmem
          rw [← hqs] at hsome
          obtain ⟨written, hwritten, hlocate⟩ := List.mem_map.1 hsome
          exact .inr ⟨0, p, Nat.succ_pos i, rfl, written, hwritten, hlocate⟩
        · exact .inl (List.mem_cons_of_mem _ hmem)
      · exact .inr ⟨j + 1, u, Nat.succ_lt_succ hj, hu, hinclude⟩

end Walks

/-! ## Parts of a build -/

variable {s s₁ s' : Schema}

theorem includesAt_of_parse {file text : String} {head : FileHead} {p : Path}
    (htext : store.find? p = some text) (h : s.parse file text = (s', .ok head)) :
    store.includesAt p = head.includes := by
  rw [Schema.includes_of_parse h, Store.includesAt, htext]
  rfl

namespace Reads

theorem append (h : store.Reads s vs s₁) (h' : store.Reads s₁ ws s') :
    store.Reads s (vs ++ ws) s' := by
  induction h with
  | nil s => exact h'
  | cons htext hparse _ ih => exact .cons htext hparse (ih h')

theorem split (h : store.Reads s (vs ++ ws) s') :
    ∃ s₁, store.Reads s vs s₁ ∧ store.Reads s₁ ws s' := by
  induction vs generalizing s with
  | nil => exact ⟨s, .nil s, h⟩
  | cons v vs ih =>
    cases h with
    | cons htext hparse h =>
      obtain ⟨s₁, hvs, hws⟩ := ih h
      exact ⟨s₁, .cons htext hparse hvs, hws⟩

theorem record (h : store.Reads s vs s') : s'.files = s.files ∧ s'.seenFiles = s.seenFiles := by
  induction h with
  | nil s => exact ⟨rfl, rfl⟩
  | @cons s s₁ s' p ps text head _ hparse _ ih =>
    obtain ⟨hfiles, hseen⟩ := s.record_parse (key p) text
    rw [hparse] at hfiles hseen
    exact ⟨ih.1.trans hfiles, ih.2.trans hseen⟩

/-- A record that is put on a schema without one, and taken away. -/
theorem withFiles_withFiles (h : store.Reads (s.withFiles []) vs s') (files : List String) :
    (s'.withFiles files).withFiles [] = s' := by
  obtain ⟨hfiles, hseen⟩ := h.record
  cases s'
  cases hfiles
  cases hseen
  rfl

theorem readAll (h : store.Reads s vs s') : ∃ texts, vs.map store.find? = texts.map some ∧
    s.readAll ((vs.map key).zip texts) = .ok s' := by
  induction h with
  | nil s => exact ⟨[], rfl, rfl⟩
  | @cons s s₁ s' p ps text head htext hparse _ ih =>
    obtain ⟨texts, htexts, hread⟩ := ih
    refine ⟨text :: texts, ?_, ?_⟩
    · rw [List.map_cons, List.map_cons, htexts, htext]
    · rw [List.map_cons, List.zip_cons_cons, Schema.readAll, hparse]
      exact hread

theorem of_readAll {texts : List String} (htexts : vs.map store.find? = texts.map some)
    (h : s.readAll ((vs.map key).zip texts) = .ok s') : store.Reads s vs s' := by
  induction vs generalizing s texts with
  | nil =>
    cases h
    exact .nil _
  | cons v vs ih =>
    cases texts with
    | nil => cases htexts
    | cons text texts =>
      rw [List.map_cons, List.map_cons] at htexts
      obtain ⟨htext, htexts⟩ := List.cons.inj htexts
      rw [List.map_cons, List.zip_cons_cons, Schema.readAll] at h
      split at h
      · next s₁ head hparse => exact .cons htext hparse (ih htexts h)
      · cases h

end Reads

/-- A schema is known by its files and what it is without them. -/
theorem eq_of_withFiles (h : s.Seen) (h' : s'.Seen) (hfiles : s'.files = s.files)
    (hrest : s'.withFiles [] = s.withFiles []) : s' = s := by
  have hseen : s'.seenFiles = s.seenFiles := by
    rw [NameMap.eq_ofNames s'.seenFiles, NameMap.eq_ofNames s.seenFiles, h, h', hfiles]
  cases s
  cases s'
  cases hrest
  cases hfiles
  cases hseen
  rfl

namespace Covers

theorem append (h : store.Covers dirs s ps vs s₁) (h' : store.Covers dirs s₁ qs ws s') :
    store.Covers dirs s (ps ++ qs) (vs ++ ws) s' where
  before := h.before
  after := h'.after
  walks := h.walks.append (h.files ▸ h'.walks)
  files := by rw [h'.files, h.files, List.map_append, List.append_assoc]
  reads := h.reads.append h'.reads

theorem split (h : store.Covers dirs s (ps ++ qs) us s') : ∃ vs ws s₁, us = vs ++ ws ∧
    store.Covers dirs s ps vs s₁ ∧ store.Covers dirs s₁ qs ws s' := by
  obtain ⟨vs, ws, rfl, hvs, hws⟩ := h.walks.split
  obtain ⟨s₁, hreads, hreads'⟩ := h.reads.split
  -- The texts are read without a record: what the record holds halfway is put back.
  have hnone := hreads.withFiles_withFiles (s.files ++ vs.map key)
  have hseen : (s₁.withFiles (s.files ++ vs.map key)).Seen := NameMap.names_ofNames _
  refine ⟨vs, ws, s₁.withFiles (s.files ++ vs.map key), rfl, ⟨h.before, hvs, rfl, ?_, hseen⟩,
    ⟨hseen, hws, ?_, ?_, h.after⟩⟩
  · rw [hnone]
    exact hreads
  · rw [h.files, List.map_append, ← List.append_assoc]
    rfl
  · rw [hnone]
    exact hreads'

/-- Nothing is to be opened: nothing happens. -/
theorem refl (hs : s.Seen) : store.Covers dirs s [] [] s :=
  ⟨hs, .nil _, (List.append_nil _).symm, .nil _, hs⟩

theorem eq_of_nil (h : store.Covers dirs s ps [] s') : s' = s := by
  have hfiles : s'.files = s.files := by simpa using h.files
  have hreads := h.reads
  generalize hs : s.withFiles [] = t, hs' : s'.withFiles [] = t' at hreads
  cases hreads
  exact eq_of_withFiles h.before h.after hfiles (hs'.trans hs.symm)

theorem skip {p : Path} (hs : s.Seen) (hp : key p ∈ s.files) : store.Covers dirs s [p] [] s :=
  ⟨hs, .skip hp (.nil _), (List.append_nil _).symm, .nil _, hs⟩

variable {p : Path} {text : String} {head : FileHead}

theorem enter (hs : s.Seen) (hp : key p ∉ s.files) (htext : store.find? p = some text)
    (hparse : (s.withFiles []).parse (key p) text = (s₁.withFiles [], .ok head))
    (hfiles : s₁.files = s.files ++ [key p])
    (hqs : head.includes.map (store.locate? dirs p) = qs.map some)
    (h : store.Covers dirs s₁ qs vs s') : store.Covers dirs s [p] (p :: vs) s' where
  before := hs
  after := h.after
  walks := by
    have hwalks := h.walks
    rw [hfiles, ← List.append_nil qs] at hwalks
    refine .enter hp ?_ hwalks
    rw [includesAt_of_parse htext hparse]
    exact hqs
  files := by
    rw [h.files, hfiles, List.append_assoc]
    rfl
  reads := .cons htext hparse h.reads

/-- A file is skipped, or its text is read and what it includes is covered. -/
theorem skip_or_enter (h : store.Covers dirs s [p] vs s') : (key p ∈ s.files ∧ vs = [] ∧ s' = s) ∨
    ∃ text s₁ head qs vs', key p ∉ s.files ∧ vs = p :: vs' ∧ store.find? p = some text ∧
      (s.withFiles []).parse (key p) text = (s₁, .ok head) ∧
      head.includes.map (store.locate? dirs p) = qs.map some ∧
      store.Covers dirs (s₁.withFiles (s.files ++ [key p])) qs vs' s' := by
  have hfiles := h.files
  have hreads := h.reads
  cases h.walks with
  | skip hold hnil =>
    obtain rfl := hnil.nil_of_nil
    exact .inl ⟨hold, rfl, h.eq_of_nil⟩
  | @enter _ _ qs _ vs hnew hqs hrest =>
    rw [List.append_nil] at hrest
    cases hreads with
    | @cons _ s₁ _ _ _ text head htext hparse htail =>
      have hread : store.Reads (s.withFiles []) [p] s₁ := .cons htext hparse (.nil _)
      rw [includesAt_of_parse htext hparse] at hqs
      refine .inr ⟨text, s₁, head, qs, vs, hnew, rfl, htext, hparse, hqs, NameMap.names_ofNames _, hrest,
        ?_, ?_, h.after⟩
      · rw [hfiles, List.map_cons, ← List.singleton_append, ← List.append_assoc]
        rfl
      · rw [hread.withFiles_withFiles]
        exact htail

end Covers

end Store

/-! ## Builds -/

namespace Build

variable {store : Store} {options : Options} {dirs : List Path} {origin : Path}
  {visit : Path → Build → Result} {n : Nat}

theorem withFiles_opening (b : Build) (path : Path) (files : List String) :
    (b.opening path).schema.withFiles files = b.schema.withFiles files := by
  unfold opening Schema.markFile
  split <;> rfl

theorem files_opening {b : Build} {path : Path} (hs : b.schema.Seen)
    (h : ¬ b.schema.hasFile (Store.key path)) :
    (b.opening path).schema.files = b.schema.files ++ [Store.key path] := by
  rw [← (show (b.opening path).schema.Seen from hs.markFile _), ← (show b.record = b.schema.files from hs)]
  exact record_markFile h

/-- A text that is read when its file is on record can be read without a record, -/
theorem parse_unrecorded {b : Build} {path : Path} {text : String} {schema : Schema} {head : FileHead}
    (h : (b.opening path).schema.parse path.display text = (schema, .ok head)) :
    (b.schema.withFiles []).parse (Store.key path) text = (schema.withFiles [], .ok head) := by
  have hparse := (b.opening path).schema.parse_withFiles [] path.display text
  rw [h, withFiles_opening] at hparse
  exact Schema.parse_rename hparse _

/-- and the other way round. -/
theorem parse_recorded {b : Build} {path : Path} {text : String} {schema : Schema} {head : FileHead}
    (hs : b.schema.Seen)
    (h : (b.schema.withFiles []).parse (Store.key path) text = (schema, .ok head)) :
    (b.opening path).schema.parse path.display text =
      (schema.withFiles (b.opening path).schema.files, .ok head) := by
  have hparse := (b.schema.withFiles []).parse_withFiles (b.opening path).schema.files
    (Store.key path) text
  have hopen : (b.opening path).schema = b.schema.withFiles (b.opening path).schema.files := by
    refine Store.eq_of_withFiles (NameMap.names_ofNames _) (hs.markFile _) rfl ?_
    rw [withFiles_opening]
    rfl
  rw [h] at hparse
  rw [hopen]
  exact Schema.parse_rename hparse _

/-! ### What a build does -/

theorem follow_covers
    (hkeeps : ∀ p b, store.unread b.record ≤ n → Keeps b.record (visit p b))
    (hvisit : ∀ p b b', b.schema.Seen → store.unread b.record ≤ n → visit p b = (.ok (), b') →
      ∃ vs, store.Covers dirs b.schema [p] vs b'.schema) :
    ∀ ws b b', b.schema.Seen → store.unread b.record ≤ n →
      follow store.library dirs visit origin ws b = (.ok (), b') →
        ∃ qs vs, ws.map (store.locate? dirs origin) = qs.map some ∧
          store.Covers dirs b.schema qs vs b'.schema := by
  intro ws
  induction ws with
  | nil =>
    intro b b' hs _ h
    cases h
    exact ⟨[], [], rfl, .refl hs⟩
  | cons written ws ih =>
    intro b b' hs hb h
    rw [follow_cons] at h
    cases hlocate : store.locate? dirs origin written with
    | none =>
      rw [hlocate] at h
      cases h
    | some p =>
      have hp := hkeeps p (b.following written p) hb
      rw [hlocate] at h
      dsimp only at h
      split at h
      · next b₁ hb₁ =>
        rw [hb₁] at hp
        obtain ⟨vs, hvs⟩ := hvisit p (b.following written p) b₁ hs hb hb₁
        obtain ⟨qs, ws, hqs, hws⟩ := ih b₁ b' hvs.after (Nat.le_trans (Store.unread_mono hp.grows) hb) h
        refine ⟨p :: qs, vs ++ ws, ?_, hvs.append hws⟩
        rw [List.map_cons, List.map_cons, hlocate, hqs]
      · cases h

/-- A build that succeeds is covered, by induction on the files that are left to open. -/
theorem addFile_covers (p : Path) (b b' : Build) (hs : b.schema.Seen)
    (h : addFile store.library options p b = (.ok (), b')) :
    ∃ vs, store.Covers options.includeDirs b.schema [p] vs b'.schema := by
  generalize hn : store.unread b.record = n
  induction n using Nat.strong_induction_on generalizing p b b' with
  | _ n ih =>
    rw [addFile_eq] at h
    split at h
    · next hold =>
      cases h
      exact ⟨[], .skip hs ((hs.hasFile_iff _).1 hold)⟩
    · next hnew =>
      split at h
      · next text htext =>
        have hless := unread_opening htext hnew
        obtain ⟨hfiles, hseen⟩ := (b.opening p).schema.record_parse p.display text
        rcases hparse : (b.opening p).schema.parse p.display text with ⟨schema, e | head⟩
        · rw [addText_of_error hparse] at h
          cases h
        rw [hparse] at hfiles hseen
        rw [addText_of_ok hparse] at h
        have hschema : schema.Seen := by
          rw [Schema.Seen, hfiles, hseen]
          exact hs.markFile _
        obtain ⟨qs, vs, hqs, hvs⟩ := follow_covers (n := store.unread (b.opening p).record)
          (fun q c _ => addFile_keeps q c)
          (fun q c c' hc hless' hok => ih _ (by omega) q c c' hc hok rfl)
          head.includes ((b.opening p).parsed p schema head) b' hschema
          (by rw [← record_of_parse hparse]; exact Nat.le_refl _) h
        rw [files_opening hs hnew] at hfiles
        exact ⟨p :: vs, .enter hs (mt (hs.hasFile_iff _).2 hnew) htext (parse_unrecorded hparse)
          hfiles hqs hvs⟩
      · cases h

/-! ### What a build can do -/

theorem follow_of_covers {m : Nat}
    (hvisit : ∀ p vs b s', vs.length ≤ m → store.Covers dirs b.schema [p] vs s' →
      ∃ b', visit p b = (.ok (), b') ∧ b'.schema = s') :
    ∀ ws qs vs b s', vs.length ≤ m → ws.map (store.locate? dirs origin) = qs.map some →
      store.Covers dirs b.schema qs vs s' →
        ∃ b', follow store.library dirs visit origin ws b = (.ok (), b') ∧ b'.schema = s' := by
  intro ws
  induction ws with
  | nil =>
    intro qs vs b s' _ hqs h
    obtain rfl : qs = [] := List.map_eq_nil_iff.1 hqs.symm
    obtain rfl := h.walks.nil_of_nil
    exact ⟨b, rfl, h.eq_of_nil.symm⟩
  | cons written ws ih =>
    intro qs us b s' hus hqs h
    cases qs with
    | nil => cases hqs
    | cons q qs =>
      rw [List.map_cons, List.map_cons] at hqs
      obtain ⟨hlocate, hrest⟩ := List.cons.inj hqs
      have hcons : store.Covers dirs b.schema ([q] ++ qs) us s' := h
      obtain ⟨vs, ws', s₁, rfl, hvs, hws⟩ := hcons.split
      rw [List.length_append] at hus
      obtain ⟨b₁, hb₁, rfl⟩ := hvisit q vs (b.following written q) s₁ (by omega) hvs
      obtain ⟨b', hb', rfl⟩ := ih qs ws' b₁ s' (by omega) hrest hws
      refine ⟨b', ?_, rfl⟩
      rw [follow_cons, hlocate]
      dsimp only
      rw [hb₁]
      exact hb'

/-- What can be covered is built, by induction on the files that are opened. -/
theorem addFile_of_covers (p : Path) (vs : List Path) (b : Build) (s' : Schema)
    (h : store.Covers options.includeDirs b.schema [p] vs s') :
    ∃ b', addFile store.library options p b = (.ok (), b') ∧ b'.schema = s' := by
  generalize hm : vs.length = m
  induction m using Nat.strong_induction_on generalizing p vs b s' with
  | _ m ih =>
    rw [addFile_eq]
    rcases h.skip_or_enter with ⟨hold, rfl, rfl⟩ |
      ⟨text, s₁, head, qs, vs, hnew, rfl, htext, hparse, hqs, hrest⟩
    · rw [if_pos ((h.before.hasFile_iff _).2 hold)]
      exact ⟨_, rfl, rfl⟩
    · have hnew' : ¬ b.schema.hasFile (Store.key p) := mt (h.before.hasFile_iff _).1 hnew
      have hopen := parse_recorded h.before hparse
      rw [← files_opening h.before hnew'] at hrest
      rw [if_neg hnew', htext]
      dsimp only
      rw [addText_of_ok hopen]
      refine follow_of_covers (m := vs.length) (fun q us c t hus hc => ih us.length ?_ q us c t hc rfl)
        head.includes qs vs _ s' (Nat.le_refl _) hqs hrest
      rw [← hm, List.length_cons]
      omega

/-! ## Builds of a store -/

variable {entry : Path} {vs : List Path} {s : Schema}

theorem traverses_of_covers
    (h : store.Covers options.includeDirs (start options).schema [entry] vs s) :
    store.Traverses options entry vs s := by
  have hfiles : s.files = vs.map Store.key := h.files
  have hwalks : store.Walks options.includeDirs [] [entry] vs := h.walks
  have hnodup := hwalks.nodup.1
  have hfirst : vs[0]? = some entry := by
    rcases h.skip_or_enter with ⟨hold, _, _⟩ | ⟨_, _, _, _, _, _, rfl, _⟩
    · exact absurd hold List.not_mem_nil
    · rfl
  refine ⟨hwalks, hfiles, ?_, hfiles ▸ hnodup, h.after, ?_, ?_, ?_⟩
  · rw [hfiles, List.head?_map, List.head?_eq_getElem?, hfirst]
    rfl
  · intro v hv written hwritten
    obtain ⟨q, hlocate, hmem⟩ := hwalks.closed v hv written hwritten
    have hcontains := List.find?_some hlocate
    exact ⟨q, hlocate, hcontains, hfiles ▸ hmem⟩
  · intro i v hv
    rcases hwalks.origin (i + 1) v hv with hentry | ⟨j, u, hj, hu, hinclude⟩
    · -- The entry is opened first, and not again.
      cases List.mem_singleton.1 hentry
      have hlen : 0 < vs.length := (List.getElem?_eq_some_iff.1 hfirst).1
      have hindex := (List.getElem?_inj hlen hnodup.of_map).1 (hfirst.trans hv.symm)
      omega
    · exact ⟨j, u, by omega, hu, hinclude⟩
  · rw [hfiles]
    exact h.reads.readAll

theorem covers_of_traverses (h : store.Traverses options entry vs s) :
    store.Covers options.includeDirs (start options).schema [entry] vs s := by
  obtain ⟨texts, htexts, hread⟩ := h.reads
  rw [h.files] at hread
  exact ⟨rfl, h.walks, h.files, .of_readAll htexts hread, h.seen⟩

/-- Opening a file in a store always comes to an end, and no bound on the open files takes part in it.
It succeeds exactly if the files can be walked depth first from there, in the order in which includes
are written, and their texts read one after another; what it leaves is then what that leaves. -/
theorem addFile_traverses (store : Store) (options : Options) (entry : Path) :
    (∀ depth, store.library.depth ≤ depth →
      Build.visit store.library options.includeDirs depth entry (start options) =
        addFile store.library options entry (start options)) ∧
    (∀ path, (addFile store.library options entry (start options)).1 ≠ .error (.includeDepth path)) ∧
    ∀ s, ((addFile store.library options entry (start options)).1 = .ok () ∧
        (addFile store.library options entry (start options)).2.schema = s) ↔
      ∃ vs, store.Traverses options entry vs s := by
  have hdepth := unread_lt_depth store (start options)
  refine ⟨fun depth h => ?_, (addFile_keeps entry _).settles, fun s => ⟨?_, ?_⟩⟩
  · exact visit_depth depth _ entry _ (Nat.lt_of_lt_of_le hdepth h) hdepth
  · rintro ⟨hok, rfl⟩
    obtain ⟨vs, hvs⟩ := addFile_covers entry (start options) _ rfl (Prod.ext hok rfl)
    exact ⟨vs, traverses_of_covers hvs⟩
  · rintro ⟨vs, hvs⟩
    obtain ⟨b', hb', rfl⟩ := addFile_of_covers entry vs _ s (covers_of_traverses hvs)
    rw [hb']
    exact ⟨rfl, rfl⟩

/-- Two files that include a third, which includes the first again, under several spellings. -/
def diamond : Store := .ofList
  [(⟨"d/top.fbs"⟩, "include \"left.fbs\"; include \"./right.fbs\"; table T \x7b b: B; \x7d"),
    (⟨"d/left.fbs"⟩, "include \"base.fbs\"; include \"left.fbs\";"),
    (⟨"d/right.fbs"⟩, "include \"../inc/base.fbs\"; struct R \x7b x: int; \x7d"),
    (⟨"inc/base.fbs"⟩, "include \"d/./top.fbs\"; table B \x7b x: int; \x7d")]

theorem addFile_traverses_diamond :
    (addFile diamond.library ⟨"default", [⟨"."⟩, ⟨"inc"⟩]⟩ ⟨"d/top.fbs"⟩ (start ⟨"default", []⟩)).1 =
        .ok () ∧
      (addFile diamond.library ⟨"default", [⟨"."⟩, ⟨"inc"⟩]⟩ ⟨"d/top.fbs"⟩
        (start ⟨"default", []⟩)).2.schema.files =
          ["d/top.fbs", "d/left.fbs", "inc/base.fbs", "d/right.fbs"] ∧
      ∃ vs, diamond.Traverses ⟨"default", [⟨"."⟩, ⟨"inc"⟩]⟩ ⟨"d/top.fbs"⟩ vs
        (addFile diamond.library ⟨"default", [⟨"."⟩, ⟨"inc"⟩]⟩ ⟨"d/top.fbs"⟩
          (start ⟨"default", []⟩)).2.schema := by
  have hrun : (addFile diamond.library ⟨"default", [⟨"."⟩, ⟨"inc"⟩]⟩ ⟨"d/top.fbs"⟩
        (start ⟨"default", []⟩)).1 = .ok () ∧
      (addFile diamond.library ⟨"default", [⟨"."⟩, ⟨"inc"⟩]⟩ ⟨"d/top.fbs"⟩
        (start ⟨"default", []⟩)).2.schema.files =
          ["d/top.fbs", "d/left.fbs", "inc/base.fbs", "d/right.fbs"] := by
    decide +kernel
  refine ⟨hrun.1, hrun.2, ?_⟩
  exact ((addFile_traverses diamond ⟨"default", [⟨"."⟩, ⟨"inc"⟩]⟩ ⟨"d/top.fbs"⟩).2.2 _).1 ⟨hrun.1, rfl⟩

end Build

end FlatSchema
