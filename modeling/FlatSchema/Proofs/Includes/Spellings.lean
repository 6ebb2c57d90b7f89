import FlatSchema.Proofs.Grammar.Spacing
import FlatSchema.Proofs.Includes.Traversal
import FlatSchema.Proofs.Paths.Normal
import Mathlib.Data.Option.Basic

/-!
# A file by another name

The name of a file shows in the faults of its text and nowhere else (`Schema.parse_inFile`).  A build
that starts from another spelling of a path takes the same way from there: the files next to one spelling
and next to the other are the same files, under two spellings again (`Store.locate?_respelled`).  So both
builds leave the same schema, and succeed both or fail both for one reason.  Spellings are paths with one
normal form, and no two others can be exchanged (`addFile_respelled`): one key is enough for texts, but not
for all paths (`addFile_shown_alike`).
-/

namespace FlatSchema

/-! ## The name of a text -/

namespace CompileError

def inFile (file : String) (e : CompileError) : CompileError :=
  e.relocate fun l => { l with file := file }

/-- The error, with the paths in it in normal form. -/
def normalize : CompileError → CompileError
  | .file (.notFound path) => .file (.notFound (Store.key ⟨path⟩))
  | includeDepth path => includeDepth (Store.key ⟨path⟩)
  | e => e.relocate fun l => { l with file := Store.key ⟨l.file⟩ }

theorem normalize_inFile {file file' : String} (hkey : Store.key ⟨file⟩ = Store.key ⟨file'⟩)
    (e : CompileError) : (e.inFile file).normalize = (e.inFile file').normalize := by
  cases e with
  | file cause => rfl
  | parse fault l => simp only [inFile, relocate, normalize, hkey]
  | declaration cause l => simp only [inFile, relocate, normalize, hkey]
  | schema cause => rfl
  | unsupported feature l => simp only [inFile, relocate, normalize, hkey]
  | includeNotFound written => rfl
  | includeDepth path => rfl

end CompileError

namespace Stream

def inFile (file : String) : Stream → Stream
  | token t rest => token t (rest.inFile file)
  | eof p => eof p
  | fault e => fault (e.inFile file)

theorem readFrom_inFile (file file' : String) (i : Input) :
    readFrom file' i = (readFrom file i).inFile file' := by
  fun_induction readFrom file i with
  | case1 i next f h =>
    rw [readFrom]
    split
    · next f' h' =>
      cases h.symm.trans h'
      cases f <;> rfl
    · next h' => cases h.symm.trans h'
  | case2 i next h =>
    rw [readFrom]
    split
    · next h' => cases h.symm.trans h'
    · next l h' =>
      cases h.symm.trans h'
      rfl
  | case3 i next l h hl ih =>
    rw [inFile, ← ih]
    conv_lhs => rw [readFrom]
    split
    · next h' => cases h.symm.trans h'
    · next l' h' =>
      cases h.symm.trans h'
      rw [dif_neg hl]

end Stream

theorem Grammar.outline_inFile (file file' : String) (S : Stream) (q : State) :
    outline file' q (S.inFile file') =
      ⟨(outline file q S).actions, (outline file q S).fault.map (·.inFile file')⟩ := by
  induction S generalizing q with
  | token t rest ih =>
    unfold outline Stream.inFile
    dsimp only
    cases (step q t).next with
    | error f => rfl
    | ok q' => simp [ih]
  | eof p =>
    unfold outline Stream.inFile
    dsimp only
    cases (step q ⟨.eof, p⟩).next with
    | error f => rfl
    | ok q' => rfl
  | fault e => rfl

theorem Schema.parse_inFile (s : Schema) (file file' text : String) :
    s.parse file' text = ((s.parse file text).1, (s.parse file text).2.mapError (·.inFile file')) := by
  unfold parse parseStream Stream.ofText
  rw [Stream.readFrom_inFile file file', Grammar.outline_inFile file]
  dsimp only
  generalize (Session.start s).performAll _ = r
  obtain ⟨x, refusal⟩ := r
  cases refusal with
  | some r => rfl
  | none => cases (Grammar.outline file _ _).fault <;> rfl

theorem Schema.parse_empty (s : Schema) (file : String) : ∃ s', s.parse file "" = (s', .ok ⟨[], []⟩) := by
  have houtline : Grammar.outline "" (.declaration true) (Stream.ofText "" "") = ⟨[], none⟩ := by
    decide +kernel
  rw [s.parse_inFile "" file, parse, parseStream, houtline]
  exact ⟨_, rfl⟩

/-! ## Other spellings -/

/-- Two spellings of the path of one file. -/
structure Path.Respelled (p q : Path) : Prop where
  normalize : p.normalize = q.normalize
  left : p.EndsInName
  right : q.EndsInName

theorem Path.Respelled.key_display {p q : Path} (h : p.Respelled q) :
    Store.key ⟨p.display⟩ = Store.key ⟨q.display⟩ := by
  have hkey := key_congr h.normalize
  rwa [← key_shown p, ← key_shown q] at hkey

namespace Store

variable {store : Store} {p q : Path} {written : String}

theorem find?_respelled (h : p.Respelled q) : store.find? p = store.find? q := by
  rw [find?, find?, h.normalize]

theorem find?_insert (s : Store) (p q : Path) (text : String) :
    (s.insert p text).find? q = if p.normalize = q.normalize then some text else s.find? q := by
  unfold insert find?
  rw [List.find?_cons]
  by_cases h : p.normalize = q.normalize
  · simp [h]
  · have hkept : (s.files.filter (·.1 ≠ p.normalize)).find? (·.1 = q.normalize) =
        s.files.find? (·.1 = q.normalize) := by
      rw [List.find?_filter]
      refine congrArg (s.files.find? ·) (funext fun f => ?_)
      by_cases hf : f.1 = q.normalize
      · simp [hf, Ne.symm h]
      · simp [hf]
    simp only [h, decide_false, if_false]
    rw [hkept]

theorem contains_respelled (h : p.Respelled q) : store.contains p = store.contains q := by
  rw [contains, contains, find?_respelled h]

theorem candidates_respelled (dirs : List Path) (h : p.Respelled q)
    (hwritten : (⟨written⟩ : Path).EndsInName) :
    List.Forall₂ Path.Respelled (Build.candidates dirs p written) (Build.candidates dirs q written) := by
  obtain ⟨dir, dir', hdir, hdir', hsame⟩ := Path.exists_parent_congr h.left h.right h.normalize
  rw [Build.candidates, Build.candidates, hdir, hdir']
  refine .cons ⟨Path.normalize_join_congr hsame _, hwritten.join dir, hwritten.join dir'⟩ ?_
  rw [List.forall₂_map_left_iff, List.forall₂_map_right_iff, List.forall₂_same]
  exact fun d _ => ⟨rfl, hwritten.join d, hwritten.join d⟩

theorem locate?_respelled (store : Store) (dirs : List Path) (h : p.Respelled q)
    (hwritten : (⟨written⟩ : Path).EndsInName) :
    Option.Rel Path.Respelled (store.locate? dirs p written) (store.locate? dirs q written) := by
  have hcandidates := candidates_respelled dirs h hwritten
  unfold locate?
  generalize Build.candidates dirs p written = ps, Build.candidates dirs q written = qs at hcandidates
  induction hcandidates with
  | nil => exact .none
  | @cons p q ps qs hpq _ ih =>
    rw [List.find?_cons, List.find?_cons, contains_respelled hpq]
    cases store.contains q with
    | true => exact .some hpq
    | false => exact ih

end Store

/-! ## Builds -/

namespace Build

/-- The same schema, and the same outcome up to the spelling of paths. -/
structure Agree (r r' : Result) : Prop where
  schema : r.2.schema = r'.2.schema
  outcome : r.1.mapError CompileError.normalize = r'.1.mapError CompileError.normalize

variable {store : Store} {options : Options} {dirs : List Path} {p q : Path}
  {visit visit' : Path → Build → Result}

theorem follow_agree (h : p.Respelled q)
    (hvisit : ∀ p q b b', p.Respelled q → b.schema = b'.schema → Agree (visit p b) (visit' q b')) :
    ∀ (ws : List String) b b', (∀ w ∈ ws, (⟨w⟩ : Path).EndsInName) → b.schema = b'.schema →
      Agree (follow store.library dirs visit p ws b) (follow store.library dirs visit' q ws b') := by
  intro ws
  induction ws with
  | nil => exact fun b b' _ hb => ⟨hb, rfl⟩
  | cons written ws ih =>
    intro b b' hws hb
    rw [follow_cons, follow_cons]
    have hlocate := store.locate?_respelled dirs h (hws written List.mem_cons_self)
    generalize store.locate? dirs p written = l, store.locate? dirs q written = l' at hlocate
    cases hlocate with
    | none => exact ⟨hb, rfl⟩
    | @some p' q' hp' =>
      have hagree := hvisit p' q' (b.following written p') (b'.following written q') hp' hb
      dsimp only
      generalize visit p' (b.following written p') = r, visit' q' (b'.following written q') = r'
        at hagree
      obtain ⟨outcome, c⟩ := r
      obtain ⟨outcome', c'⟩ := r'
      cases outcome with
      | ok _ =>
        cases outcome' with
        | ok _ => exact ih c c' (fun w hw => hws w (List.mem_cons_of_mem written hw)) hagree.schema
        | error e => cases hagree.outcome
      | error e =>
        cases outcome' with
        | ok _ => cases hagree.outcome
        | error e' => exact hagree

theorem addText_agree (h : p.Respelled q)
    (hvisit : ∀ p q b b', p.Respelled q → b.schema = b'.schema → Agree (visit p b) (visit' q b'))
    {text : String} (htext : ∀ w ∈ includesOf text, (⟨w⟩ : Path).EndsInName) {b b' : Build}
    (hb : b.schema = b'.schema) :
    Agree (addText store.library dirs visit p text b) (addText store.library dirs visit' q text b') := by
  have hp := b.schema.parse_inFile "" p.display text
  have hq := b'.schema.parse_inFile "" q.display text
  rw [← hb] at hq
  rcases hparse : b.schema.parse "" text with ⟨schema, e | head⟩
  · rw [hparse] at hp hq
    rw [addText_of_error hp, addText_of_error (hb ▸ hq)]
    exact ⟨rfl, congrArg Except.error (CompileError.normalize_inFile h.key_display e)⟩
  · rw [hparse] at hp hq
    rw [addText_of_ok hp, addText_of_ok (hb ▸ hq)]
    refine follow_agree h hvisit head.includes _ _ ?_ rfl
    rw [Schema.includes_of_parse hparse]
    exact htext

theorem visit_agree (hincludes : ∀ f ∈ store.files, ∀ w ∈ includesOf f.2, (⟨w⟩ : Path).EndsInName)
    (depth : Nat) (p q : Path) (b b' : Build) (h : p.Respelled q) (hb : b.schema = b'.schema) :
    Agree (Build.visit store.library dirs depth p b) (Build.visit store.library dirs depth q b') := by
  induction depth generalizing p q b b' with
  | zero =>
    exact ⟨hb, congrArg (fun k => Except.error (CompileError.includeDepth k)) h.key_display⟩
  | succ depth ih =>
    have hkey := Path.key_congr h.normalize
    have hopen : (b.opening p).schema = (b'.opening q).schema := by
      rw [opening, opening, hb, hkey]
    rw [visit_succ, visit_succ, ← hb, ← hkey, ← Store.find?_respelled h]
    split
    · exact ⟨hb, rfl⟩
    · cases htext : store.find? p with
      | none =>
        exact ⟨hopen, congrArg (fun k => Except.error (CompileError.file (.notFound k))) h.key_display⟩
      | some text =>
        obtain ⟨f, hf, rfl⟩ := Option.map_eq_some_iff.1 htext
        exact addText_agree h ih (hincludes f (List.mem_of_find?_eq_some hf)) hopen

/-- In a store that holds an empty file only, a build is done where it starts from a spelling of that file. -/
theorem addFile_alone (p q : Path) :
    (addFile (Store.empty.insert p "").library .default q (start .default)).1 =
      if p.normalize = q.normalize then .ok () else .error (.file (.notFound q.display)) := by
  have hnew : ((start .default).schema.hasFile (Store.key q)) = false := rfl
  rw [addFile_eq, hnew, if_neg Bool.false_ne_true, Store.find?_insert]
  by_cases h : p.normalize = q.normalize
  · obtain ⟨s', hparse⟩ := ((start .default).opening q).schema.parse_empty q.display
    rw [if_pos h, if_pos h]
    dsimp only
    rw [addText_of_ok hparse]
    rfl
  · rw [if_neg h, if_neg h]
    rfl

/-! ## Top theorem -/

/-- A build of any store, with any options and from any state, leaves the same schema from two paths, and
succeeds from both or fails from both with errors that differ in the spelling of paths only, if the paths
and all includes end in names and the two have one normal form; and no other two paths are exchanged like
that.  Where paths are texts, to have one normal form is to have one key. -/
theorem addFile_respelled (hp : p.EndsInName) (hq : q.EndsInName) :
    (p.normalize = q.normalize ↔ ∀ store : Store,
      (∀ f ∈ store.files, ∀ w ∈ includesOf f.2, (⟨w⟩ : Path).EndsInName) → ∀ (options : Options) (b : Build),
        (addFile store.library options p b).2.schema = (addFile store.library options q b).2.schema ∧
          (addFile store.library options p b).1.mapError CompileError.normalize =
            (addFile store.library options q b).1.mapError CompileError.normalize) ∧
      (p.IsText → q.IsText → (Store.key p = Store.key q ↔ p.normalize = q.normalize)) := by
  refine ⟨⟨fun h store hincludes options b => ?_, fun h => ?_⟩, Path.key_eq_iff⟩
  · have hagree : Agree (addFile store.library options p b) (addFile store.library options q b) :=
      visit_agree hincludes _ p q b b ⟨h, hp, hq⟩ rfl
    exact ⟨hagree.schema, hagree.outcome⟩
  · -- the store that holds the first path only tells the two apart
    by_contra hne
    have hincludes : ∀ f ∈ (Store.empty.insert p "").files, ∀ w ∈ includesOf f.2,
        (⟨w⟩ : Path).EndsInName := by
      intro f hf w hw
      have hnone : includesOf "" = [] := by decide +kernel
      obtain rfl : f = (p.normalize, "") := List.mem_singleton.1 hf
      rw [hnone] at hw
      cases hw
    have hsame := (h (Store.empty.insert p "") hincludes .default (start .default)).2
    rw [addFile_alone, addFile_alone, if_pos rfl, if_neg hne] at hsame
    cases hsame

/-- Two files, one of which includes the other from a directory. -/
def upward : Store :=
  ⟨[(⟨"a/m.fbs"⟩, "include '../b.fbs'; table M \x7b b: B; \x7d"), (⟨"b.fbs"⟩, "table B \x7b\x7d")]⟩

theorem addFile_respelled_upward :
    (⟨"a/m.fbs"⟩ : Path).EndsInName ∧ (⟨"./x/..//a/./m.fbs"⟩ : Path).EndsInName ∧
      (∀ f ∈ upward.files, ∀ w ∈ includesOf f.2, (⟨w⟩ : Path).EndsInName) ∧
      Store.key ⟨"a/m.fbs"⟩ = Store.key ⟨"./x/..//a/./m.fbs"⟩ ∧
      ∀ b : Build,
        (addFile upward.library .default ⟨"a/m.fbs"⟩ b).2.schema =
            (addFile upward.library .default ⟨"./x/..//a/./m.fbs"⟩ b).2.schema ∧
          (addFile upward.library .default ⟨"a/m.fbs"⟩ b).1.mapError CompileError.normalize =
            (addFile upward.library .default ⟨"./x/..//a/./m.fbs"⟩ b).1.mapError
              CompileError.normalize := by
  have hkey : Store.key ⟨"a/m.fbs"⟩ = Store.key ⟨"./x/..//a/./m.fbs"⟩ := by decide +kernel
  have hp : (⟨"a/m.fbs"⟩ : Path).EndsInName := by decide +kernel
  have hq : (⟨"./x/..//a/./m.fbs"⟩ : Path).EndsInName := by decide +kernel
  have hincludes : ∀ f ∈ upward.files, ∀ w ∈ includesOf f.2, (⟨w⟩ : Path).EndsInName := by
    decide +kernel
  obtain ⟨hnormal, htexts⟩ := addFile_respelled hp hq
  have hsame := (htexts (Path.isText_ofText _) (Path.isText_ofText _)).1 hkey
  exact ⟨hp, hq, hincludes, hkey, hnormal.1 hsame upward hincludes .default⟩

/-- Two names that are no texts are shown alike, and have one key.  A store that holds one of the two files
is built from the one and not from the other. -/
theorem addFile_shown_alike : ∃ p q : Path, p.EndsInName ∧ q.EndsInName ∧ Store.key p = Store.key q ∧
    (∀ f ∈ (Store.empty.insert p "").files, ∀ w ∈ includesOf f.2, (⟨w⟩ : Path).EndsInName) ∧
    (addFile (Store.empty.insert p "").library .default p (start .default)).1 = .ok () ∧
    (addFile (Store.empty.insert p "").library .default q (start .default)).1 =
      .error (.file (.notFound q.display)) := by
  refine ⟨⟨⟨0xff :: (OsText.ofText ".fbs").bytes⟩⟩, ⟨⟨0xfe :: (OsText.ofText ".fbs").bytes⟩⟩, ?_⟩
  refine ⟨by decide +kernel, by decide +kernel, by decide +kernel, by decide +kernel, ?_, ?_⟩
  · rw [addFile_alone, if_pos rfl]
  · rw [addFile_alone, if_neg (by decide +kernel)]

end Build

end FlatSchema
