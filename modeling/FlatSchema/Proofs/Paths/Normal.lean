import FlatSchema.Library
import FlatSchema.Proofs.Paths.Components

/-!
# Normal paths

The normal form of a path is what is left of its components on a stack (`stack`): names, on at most one
`..`, on the root or nothing (`Normal`).  Written out, a stack is read back (`stack_ofComponents`), so
paths have one normal form exactly if they have one stack (`normalize_eq_iff`).  A key is a normal form as
it is shown.  It is that of what is shown of the path, too (`key_shown`), so that paths that are texts have
one key exactly if they have one normal form (`key_eq_iff`).

What is next to a file does not depend on how its path is spelled, if that ends in a name
(`normalize_join_congr`, `exists_parent_congr`).  Where paths are written in normal form and go straight
down, so are the paths next to them (`normalize_join`, `normalize_parent`).
-/

namespace FlatSchema.Path

/-! ## Components of a segment -/

/-- The component is what its text is read as. -/
def Component.IsInner (c : Component) : Prop :=
  innerComponent? c.text = some c ∧ OsText.slash ∉ c.text.bytes

variable {p q d w : Path} {c : Component} {cs : List Component}

theorem text_of_innerComponent? {s : OsText} (h : innerComponent? s = some c) : c.text = s := by
  unfold innerComponent? at h
  split at h
  · cases h
  · split at h
    · next hs =>
      cases h
      exact hs.symm
    · cases h
      rfl

theorem isInner_of_mem (h : c ∈ p.inner) : c.IsInner := by
  obtain ⟨s, hs, hc⟩ := List.mem_filterMap.1 h
  obtain rfl := text_of_innerComponent? hc
  exact ⟨hc, slash_not_mem hs⟩

theorem Component.IsInner.text_ne (h : c.IsInner) : c.text ≠ "" := by
  intro hempty
  have hnone := h.1
  rw [hempty] at hnone
  cases hnone

theorem not_isInner_root : ¬ Component.root.IsInner :=
  fun h => h.text_ne rfl

theorem not_isInner_current : ¬ Component.current.IsInner :=
  fun h => nomatch h.1

/-! ## Stacks -/

/-- The components of the normal form, the last one first. -/
def stack (p : Path) : List Component :=
  p.components.foldl push []

theorem stack_eq (p : Path) : p.stack = p.inner.foldl push (if p.isAbsolute then [.root] else []) := by
  cases h : p.isAbsolute with
  | true =>
    rw [stack, components_of_absolute h]
    rfl
  | false =>
    rcases components_of_relative h with hp | hp
    · rw [stack, hp]
      rfl
    · rw [stack, hp]
      rfl

inductive Normal : List Component → Prop where
  | nil : Normal []
  | root : Normal [.root]
  | parent {base : List Component} (h : base = [] ∨ base = [.root]) : Normal (.parent :: base)
  | name {s : OsText} {done : List Component} (hs : (Component.name s).IsInner) (h : Normal done) :
    Normal (.name s :: done)

variable {done : List Component}

theorem Normal.push (h : Normal done) (hc : c.IsInner) : Normal (push done c) := by
  cases c with
  | root => exact absurd hc not_isInner_root
  | current => exact absurd hc not_isInner_current
  | name s => exact .name hc h
  | parent =>
    cases h with
    | nil => exact .parent (.inl rfl)
    | root => exact .parent (.inr rfl)
    | parent hbase =>
      rcases hbase with rfl | rfl
      · exact .nil
      · exact .root
    | name _ h => exact h

theorem Normal.foldl (h : Normal done) (hcs : ∀ c ∈ cs, c.IsInner) : Normal (cs.foldl Path.push done) := by
  induction cs generalizing done with
  | nil => exact h
  | cons c cs ih =>
    exact ih (h.push (hcs c List.mem_cons_self)) fun c' hc' => hcs c' (List.mem_cons_of_mem c hc')

theorem normal_stack (p : Path) : Normal p.stack := by
  have hbase : Normal (if p.isAbsolute then [.root] else []) := by
    split
    · exact .root
    · exact .nil
  rw [stack_eq]
  exact hbase.foldl fun c hc => isInner_of_mem hc

/-- A normal form is taken down and put up again. -/
theorem Normal.foldl_reverse (h : Normal done) : done.reverse.foldl Path.push [] = done := by
  induction h with
  | nil => rfl
  | root => rfl
  | parent hbase => rcases hbase with rfl | rfl <;> rfl
  | name _ _ ih => rw [List.reverse_cons, List.foldl_append, ih]; rfl

/-- All components but the root are those of a segment. -/
theorem Normal.exists_inner (h : Normal done) : ∃ cs, (∀ c ∈ cs, c.IsInner) ∧
    (done.reverse = cs ∨ done.reverse = .root :: cs) := by
  induction h with
  | nil => exact ⟨[], by simp, .inl rfl⟩
  | root => exact ⟨[], by simp, .inr rfl⟩
  | parent hbase =>
    have hparent : ∀ c ∈ [Component.parent], c.IsInner := by
      intro c hc
      rw [List.mem_singleton.1 hc]
      exact ⟨rfl, by decide⟩
    rcases hbase with rfl | rfl
    · exact ⟨[.parent], hparent, .inl rfl⟩
    · exact ⟨[.parent], hparent, .inr rfl⟩
  | @name s done hs _ ih =>
    obtain ⟨cs, hcs, hdone⟩ := ih
    refine ⟨cs ++ [.name s], ?_, ?_⟩
    · intro c hc
      rcases List.mem_append.1 hc with hc | hc
      · exact hcs c hc
      · rwa [List.mem_singleton.1 hc]
    · rw [List.reverse_cons]
      rcases hdone with hdone | hdone
      · exact .inl (by rw [hdone])
      · exact .inr (by rw [hdone, List.cons_append])

theorem Normal.tail (h : Normal (c :: done)) : Normal done := by
  cases h with
  | root => exact .nil
  | parent hbase =>
    rcases hbase with rfl | rfl
    · exact .nil
    · exact .root
  | name _ h => exact h

theorem Normal.head_isInner (h : Normal (c :: done)) (hroot : c :: done ≠ [.root]) : c.IsInner := by
  cases h with
  | root => exact absurd rfl hroot
  | parent _ => exact ⟨rfl, by decide⟩
  | name hs _ => exact hs

/-! ## Stacks written out -/

theorem segments_ofComponents (h : Normal done) (hne : done ≠ []) (hroot : done ≠ [.root]) :
    (ofComponents done.reverse).segments = done.reverse.map Component.text := by
  have hroot' : done.reverse ≠ [.root] := fun h' => hroot (List.reverse_eq_iff.1 h')
  rw [ofComponents, if_neg hroot']
  refine segments_join (by simpa using hne) ?_
  intro s hs
  obtain ⟨c, hc, rfl⟩ := List.mem_map.1 hs
  obtain ⟨cs, hcs, hdone | hdone⟩ := h.exists_inner
  · exact (hcs c (hdone ▸ hc)).2
  · rw [hdone] at hc
    rcases List.mem_cons.1 hc with rfl | hc
    · decide
    · exact (hcs c hc).2

theorem filterMap_text (hcs : ∀ c ∈ cs, c.IsInner) :
    (cs.map Component.text).filterMap innerComponent? = cs := by
  induction cs with
  | nil => rfl
  | cons c cs ih =>
    rw [List.map_cons, List.filterMap_cons_some (hcs c List.mem_cons_self).1,
      ih fun c' hc' => hcs c' (List.mem_cons_of_mem c hc')]

/-- What is written is read back. -/
theorem reverse_eq_inner (h : Normal done) : done.reverse =
    if (ofComponents done.reverse).isAbsolute then .root :: (ofComponents done.reverse).inner
    else (ofComponents done.reverse).inner := by
  by_cases hne : done = []
  · subst hne
    decide +kernel
  by_cases hroot : done = [.root]
  · subst hroot
    decide +kernel
  have hsegments := segments_ofComponents h hne hroot
  obtain ⟨cs, hcs, hreverse | hreverse⟩ := h.exists_inner
  · have hrelative : (ofComponents done.reverse).isAbsolute = false := by
      rw [Bool.eq_false_iff, ne_eq, isAbsolute_iff, hsegments, hreverse]
      rintro ⟨s, ss, hss⟩
      cases cs with
      | nil => cases hss
      | cons c cs => exact (hcs c List.mem_cons_self).text_ne (List.cons.inj hss).1
    rw [hrelative, inner, hsegments, hreverse, filterMap_text hcs]
    rfl
  · have habsolute : (ofComponents done.reverse).isAbsolute = true := by
      rw [isAbsolute_iff, hsegments, hreverse]
      cases cs with
      | nil => exact absurd (List.reverse_eq_iff.1 hreverse) hroot
      | cons c cs => exact ⟨_, _, rfl⟩
    rw [habsolute, inner, hsegments, hreverse, List.map_cons, List.filterMap_cons_none rfl,
      filterMap_text hcs]
    rfl

theorem stack_ofComponents (h : Normal done) : (ofComponents done.reverse).stack = done := by
  have hdone := h.foldl_reverse
  rw [reverse_eq_inner h] at hdone
  rw [stack_eq]
  split at hdone
  · next habsolute => rwa [if_pos habsolute]
  · next hrelative => rwa [if_neg hrelative]

theorem stack_normalize (p : Path) : p.normalize.stack = p.stack :=
  stack_ofComponents p.normal_stack

theorem normalize_eq_iff : p.normalize = q.normalize ↔ p.stack = q.stack := by
  constructor
  · intro h
    rw [← stack_normalize p, h, stack_normalize]
  · intro h
    show ofComponents p.stack.reverse = ofComponents q.stack.reverse
    rw [h]

/-! ## What is shown of a path -/

/-- The path that is written as this one is shown. -/
def shown (p : Path) : Path :=
  ⟨p.display⟩

def Component.shown : Component → Component
  | .name s => .name s.shown
  | c => c

theorem innerComponent?_shown (s : OsText) :
    innerComponent? s.shown = (innerComponent? s).map Component.shown := by
  have hdot : s.shown = .ofText "." ↔ s = .ofText "." := OsText.shown_eq_iff (by simp [OsText.Plain])
  have hdots : s.shown = .ofText ".." ↔ s = .ofText ".." := OsText.shown_eq_iff (by simp [OsText.Plain])
  unfold innerComponent?
  simp only [OsText.shown_eq_empty_iff, hdot, hdots]
  split
  · rfl
  · split <;> rfl

theorem segments_shown (p : Path) : p.shown.segments = p.segments.map OsText.shown :=
  OsText.segments_shown p.text

theorem isAbsolute_shown (p : Path) : p.shown.isAbsolute = p.isAbsolute := by
  rw [Bool.eq_iff_iff, isAbsolute_iff, isAbsolute_iff, segments_shown]
  cases p.segments with
  | nil => simp
  | cons s ss =>
    cases ss with
    | nil => simp
    | cons s' ss => simp [OsText.shown_eq_empty_iff]

theorem inner_shown (p : Path) : p.shown.inner = p.inner.map Component.shown := by
  rw [inner, inner, segments_shown, List.filterMap_map, List.map_filterMap]
  exact congrArg (p.segments.filterMap ·) (funext innerComponent?_shown)

theorem push_shown (done : List Component) (c : Component) :
    push (done.map Component.shown) c.shown = (push done c).map Component.shown := by
  cases c with
  | root => rfl
  | current => rfl
  | name s => rfl
  | parent =>
    match done with
    | [] => rfl
    | [.root] => rfl
    | [.current] => rfl
    | [.parent] => rfl
    | [.name s] => rfl
    | .root :: d :: done => rfl
    | .current :: d :: done => rfl
    | .parent :: d :: done => rfl
    | .name s :: d :: done => rfl

theorem stack_shown (p : Path) : p.shown.stack = p.stack.map Component.shown := by
  have hfold : ∀ cs done : List Component, (cs.map Component.shown).foldl push (done.map Component.shown) =
      (cs.foldl push done).map Component.shown := by
    intro cs
    induction cs with
    | nil => exact fun _ => rfl
    | cons c cs ih =>
      intro done
      rw [List.map_cons, List.foldl_cons, push_shown, ih, List.foldl_cons]
  have hbase : (if p.isAbsolute then [Component.root] else []).map Component.shown =
      if p.isAbsolute then [.root] else [] := by
    split <;> rfl
  rw [stack_eq, stack_eq, isAbsolute_shown, inner_shown, ← hbase, hfold, hbase]

theorem ofComponents_shown (cs : List Component) :
    ofComponents (cs.map Component.shown) = (ofComponents cs).shown := by
  have htext : ∀ c : Component, c.shown.text = c.text.shown := by
    intro c
    cases c with
    | name s => rfl
    | root => decide +kernel
    | current => decide +kernel
    | parent => decide +kernel
  have hroot : cs.map Component.shown = [.root] ↔ cs = [.root] := by
    constructor
    · intro h
      obtain ⟨c, rfl, hc⟩ := List.map_eq_singleton_iff.1 h
      cases c with
      | root => rfl
      | current => cases hc
      | parent => cases hc
      | name s => cases hc
    · rintro rfl
      rfl
  unfold ofComponents
  simp only [hroot]
  split
  · decide +kernel
  · refine congrArg Path.mk ?_
    rw [display, ← OsText.shown, OsText.shown_joined, List.map_map, List.map_map]
    exact congrArg OsText.joined (List.map_congr_left fun c _ => htext c)

theorem normalize_shown (p : Path) : p.shown.normalize = p.normalize.shown := by
  show ofComponents p.shown.stack.reverse = (ofComponents p.stack.reverse).shown
  rw [stack_shown, ← List.map_reverse, ofComponents_shown]

/-! ## Keys -/

theorem key_congr (h : p.normalize = q.normalize) : Store.key p = Store.key q :=
  congrArg display h

theorem key_shown (p : Path) : Store.key p.shown = Store.key p := by
  rw [Store.key, normalize_shown]
  exact OsText.display_ofText _

/-- The path is the encoding of a text. -/
def IsText (p : Path) : Prop :=
  p.text.IsText

instance (p : Path) : Decidable p.IsText :=
  inferInstanceAs (Decidable p.text.IsText)

theorem isText_ofText (s : String) : IsText ⟨s⟩ :=
  OsText.isText_ofText s

theorem IsText.normalize_eq (h : p.IsText) : p.normalize = ⟨Store.key p⟩ := by
  have hself : p.shown = p := ext_text h
  have hnormal := normalize_shown p
  rwa [hself] at hnormal

theorem key_eq_iff (hp : p.IsText) (hq : q.IsText) :
    Store.key p = Store.key q ↔ p.normalize = q.normalize := by
  constructor
  · intro h
    rw [hp.normalize_eq, hq.normalize_eq, h]
  · exact key_congr

/-! ## Next to a file -/

theorem stack_join (d : Path) (hw : w.isAbsolute = false) :
    (d.join w).stack = w.inner.foldl push d.stack := by
  rw [stack_eq, stack_eq d, inner_join d hw, isAbsolute_join d hw, List.foldl_append]

theorem normalize_join_congr (h : p.normalize = q.normalize) (w : Path) :
    (p.join w).normalize = (q.join w).normalize := by
  cases hw : w.isAbsolute with
  | true => rw [join_of_absolute hw, join_of_absolute hw]
  | false =>
    rw [normalize_eq_iff] at h ⊢
    rw [stack_join p hw, stack_join q hw, h]

theorem exists_parent_stack (h : p.EndsInName) :
    ∃ dir s, p.parent? = some dir ∧ p.stack = .name s :: dir.stack := by
  obtain ⟨dir, s, hdir, habsolute, hinner⟩ := exists_parent h
  refine ⟨dir, s, hdir, ?_⟩
  rw [stack_eq, stack_eq dir, hinner, habsolute, List.foldl_append]
  rfl

theorem exists_parent_congr (hp : p.EndsInName) (hq : q.EndsInName) (h : p.normalize = q.normalize) :
    ∃ dir dir', p.parent? = some dir ∧ q.parent? = some dir' ∧ dir.normalize = dir'.normalize := by
  obtain ⟨dir, s, hdir, hstack⟩ := exists_parent_stack hp
  obtain ⟨dir', s', hdir', hstack'⟩ := exists_parent_stack hq
  rw [normalize_eq_iff, hstack, hstack'] at h
  exact ⟨dir, dir', hdir, hdir', normalize_eq_iff.2 (List.cons.inj h).2⟩

/-! ## Paths written in normal form -/

/-- The path is written in normal form and, unless it is absolute, goes straight down. -/
def Direct (w : Path) : Prop :=
  w.normalize = w ∧ w.text ≠ "" ∧ (w.isAbsolute = true ∨ .parent ∉ w.components)

instance (w : Path) : Decidable w.Direct :=
  inferInstanceAs (Decidable (_ ∧ _))

theorem normalize_ofComponents (h : Normal done) :
    (ofComponents done.reverse).normalize = ofComponents done.reverse := by
  show ofComponents (ofComponents done.reverse).stack.reverse = _
  rw [stack_ofComponents h]

theorem text_ofComponents (h : cs ≠ [.root]) :
    (ofComponents cs).text = OsText.joined (cs.map Component.text) := by
  rw [ofComponents, if_neg h]

theorem foldl_push_names (hcs : ∀ c ∈ cs, ∃ s, c = .name s) : cs.foldl push done = cs.reverse ++ done := by
  induction cs generalizing done with
  | nil => rfl
  | cons c cs ih =>
    obtain ⟨s, rfl⟩ := hcs c List.mem_cons_self
    rw [List.foldl_cons, ih fun c' hc' => hcs c' (List.mem_cons_of_mem _ hc'), List.reverse_cons,
      List.append_assoc]
    rfl

/-- A relative path that goes straight down is its names. -/
theorem Direct.names (h : w.Direct) (hw : w.isAbsolute = false) :
    (∀ c ∈ w.inner, ∃ s, c = .name s) ∧ w.inner ≠ [] ∧ w = ofComponents w.inner := by
  obtain ⟨hnormal, hne, hdown⟩ := h
  have hparent : .parent ∉ w.inner := by
    have hdown := hdown.resolve_left (by simp [hw])
    rcases components_of_relative hw with hcs | hcs
    · rwa [hcs] at hdown
    · rw [hcs] at hdown
      exact fun h => hdown (List.mem_cons_of_mem _ h)
  have hnames : ∀ c ∈ w.inner, ∃ s, c = .name s := by
    intro c hc
    cases c with
    | root => exact absurd (isInner_of_mem hc) not_isInner_root
    | current => exact absurd (isInner_of_mem hc) not_isInner_current
    | parent => exact absurd hc hparent
    | name s => exact ⟨s, rfl⟩
  have hstack : w.stack.reverse = w.inner := by
    rw [stack_eq, hw, foldl_push_names hnames]
    simp
  have hself : w = ofComponents w.inner := by
    rw [← hstack]
    exact hnormal.symm
  refine ⟨hnames, fun hnil => hne ?_, hself⟩
  rw [hself, hnil]
  rfl

/-- A path written in normal form does not end in a slash, the root apart. -/
theorem Normal.getLast?_segments (h : Normal done) (hne : done ≠ []) (hroot : done ≠ [.root]) :
    (ofComponents done.reverse).segments.getLast? ≠ some (.ofText "") := by
  rw [segments_ofComponents h hne hroot]
  cases done with
  | nil => exact absurd rfl hne
  | cons c rest =>
    have hc : c.IsInner := h.head_isInner hroot
    simpa using hc.text_ne

theorem join_eq_ofComponents (hd : d.normalize = d) (hw : w.Direct) (hrelative : w.isAbsolute = false) :
    d.join w = ofComponents (d.stack.reverse ++ w.inner) := by
  obtain ⟨hnames, hne, hself⟩ := hw.names hrelative
  have hd' : d = ofComponents d.stack.reverse := hd.symm
  by_cases hempty : d.stack = []
  · have htext : d.text = "" := by rw [hd', hempty]; rfl
    rw [join, if_pos (.inr htext), hempty]
    exact hself
  have hnotRoot : w.inner ≠ [.root] := by
    intro hroot
    obtain ⟨s, hs⟩ := hnames .root (by rw [hroot]; exact List.mem_singleton_self _)
    cases hs
  have hlong : d.stack.reverse ++ w.inner ≠ [.root] := by
    intro hroot
    have hd := List.length_pos_iff.2 hempty
    have hw := List.length_pos_iff.2 hne
    have hlength := congrArg List.length hroot
    simp only [List.length_append, List.length_reverse, List.length_singleton] at hlength
    omega
  have hwtext : w.text = OsText.joined (w.inner.map Component.text) := by
    rw [← text_ofComponents hnotRoot, ← hself]
  refine ext_text ?_
  rw [text_ofComponents hlong, List.map_append,
    OsText.joined_append (by simpa using hempty) (by simpa using hne), ← hwtext]
  by_cases hroot : d.stack = [.root]
  · rw [hroot] at hd' ⊢
    rw [hd', join, if_neg (by rw [hrelative]; decide), if_pos (by decide)]
    rfl
  · have hlast := d.normal_stack.getLast?_segments hempty hroot
    rw [← hd'] at hlast
    rw [join_of_getLast? hlast hrelative]
    conv_lhs => rw [hd', text_ofComponents fun h => hroot (List.reverse_eq_iff.1 h)]

theorem normalize_join (hd : d.normalize = d) (hw : w.Direct) : (d.join w).normalize = d.join w := by
  cases habsolute : w.isAbsolute with
  | true => rw [join_of_absolute habsolute, hw.1]
  | false =>
    have hnormal : Normal (w.inner.foldl push d.stack) :=
      d.normal_stack.foldl fun c hc => isInner_of_mem hc
    rw [foldl_push_names (hw.names habsolute).1] at hnormal
    have hsame := normalize_ofComponents hnormal
    rw [List.reverse_append, List.reverse_reverse] at hsame
    rw [join_eq_ofComponents hd hw habsolute, hsame]

theorem parent?_ofComponents {rest : List Component} (h : Normal (c :: rest)) (hc : c.IsInner) :
    (ofComponents (c :: rest).reverse).parent? = some (ofComponents rest.reverse) := by
  have hnotRoot : c :: rest ≠ [.root] := by
    intro hroot
    rw [(List.cons.inj hroot).1] at hc
    exact not_isInner_root hc
  have hsegments := segments_ofComponents h (List.cons_ne_nil _ _) hnotRoot
  rw [List.reverse_cons, List.map_append, List.map_singleton] at hsegments
  rw [List.reverse_cons]
  generalize ofComponents (rest.reverse ++ [c]) = p at hsegments
  cases hrest : rest.reverse with
  | nil =>
    have htrim : trimSegments p.segments = [c.text] := by
      rw [hsegments, hrest]
      rfl
    exact (parent?_of_single htrim hc.text_ne).2
  | cons first init =>
    -- Behind the first component there is no root, so nothing is trimmed.
    have hinit : ∀ c ∈ init, c.IsInner := by
      obtain ⟨cs, hcs, hreverse | hreverse⟩ := h.tail.exists_inner
      · rw [hrest] at hreverse
        exact fun c hc => hcs c (hreverse ▸ List.mem_cons_of_mem first hc)
      · rw [hrest] at hreverse
        exact (List.cons.inj hreverse).2 ▸ hcs
    rw [hrest, List.map_cons] at hsegments
    have htrim : trimSegments p.segments = first.text :: (init.map Component.text ++ [c.text]) := by
      rw [hsegments]
      exact trimSegments_eq_self (by simp [hc.1])
    have htrim' : trimSegments (first.text :: init.map Component.text) =
        first.text :: init.map Component.text := by
      refine trimSegments_eq_self fun s hs => ?_
      obtain ⟨c', hc', rfl⟩ := List.mem_map.1 (List.mem_of_getLast? hs)
      simp [(hinit c' hc').1]
    have hroot : first.text = "" ∧ init.map Component.text = [] ↔ first :: init = [.root] := by
      constructor
      · rintro ⟨hfirst, hnil⟩
        obtain rfl := List.map_eq_nil_iff.1 hnil
        obtain rfl : rest = [first] := List.reverse_eq_iff.1 hrest
        by_contra hroot
        exact (h.tail.head_isInner hroot).text_ne hfirst
      · intro hroot
        obtain ⟨rfl, rfl⟩ := List.cons.inj hroot
        exact ⟨rfl, rfl⟩
    rw [(parent?_of_trimSegments htrim htrim').2, ofSegments, ofComponents]
    simp only [hroot, List.map_cons]

theorem normalize_parent (hp : p.normalize = p) (h : p.parent? = some d) : d.normalize = d := by
  have hp' : p = ofComponents p.stack.reverse := hp.symm
  have hnormal := p.normal_stack
  generalize p.stack = done at hp' hnormal
  subst hp'
  cases done with
  | nil => cases h
  | cons c rest =>
    by_cases hroot : c :: rest = [.root]
    · rw [hroot] at h
      cases h
    · rw [parent?_ofComponents hnormal (hnormal.head_isInner hroot)] at h
      cases h
      exact normalize_ofComponents hnormal.tail

end FlatSchema.Path
