import FlatSchema.Proofs.Consistency
import FlatSchema.Proofs.Script.Objects

/-!
# Types by their qualified names

A name is looked for in one namespace after the other, by the text before its last dot and the text
behind it.  Put together again, the name `n` used in the namespace `space` stands for

* `space.n`, if it has no dot,
* else `n` itself,
* else `p.n` for a dotted prefix `p` of `space`, the longest for which there is such a type.

`Chosen` is this rule, in terms of qualified names only.  A qualified name tells the namespace and
the name of its type, as the names of types that can be found have no dots (`qualify_inj`), so that
a lookup finds exactly the type of the rule (`findType?_eq_some_iff_chosen`).

A type of a named namespace is found by its own qualified name, from everywhere, if its name has no
dots, and from nowhere if it has some (`findType?_qualifiedName_iff`).  Nothing refuses such a name
where it is declared (`findType?_dotted`).
-/

namespace FlatSchema

/-! ## Searching in order -/

/-- In a list that is sorted by a key, what is found first has the greatest key. -/
theorem findSome?_eq_some_iff_of_pairwise {α β : Type} {l : List α} {size : α → Nat}
    (hl : l.Pairwise fun a b => size b < size a) {f : α → Option β} {b : β} :
    l.findSome? f = some b ↔
      ∃ a ∈ l, f a = some b ∧ ∀ a' ∈ l, size a < size a' → f a' = none := by
  induction l with
  | nil => simp
  | cons c l ih =>
    obtain ⟨hc, hl⟩ := List.pairwise_cons.1 hl
    rw [List.findSome?_cons]
    cases hf : f c with
    | some d =>
      -- The head has the greatest key, so nothing behind it counts.
      constructor
      · rintro ⟨⟩
        refine ⟨c, List.mem_cons_self, hf, fun a' ha' hlt => ?_⟩
        rcases List.mem_cons.1 ha' with rfl | ha'
        · omega
        · have := hc a' ha'
          omega
      · rintro ⟨a, ha, hfa, hlonger⟩
        rcases List.mem_cons.1 ha with rfl | ha
        · exact hf.symm.trans hfa
        · have hnone := hlonger c List.mem_cons_self (hc a ha)
          rw [hf] at hnone
          cases hnone
    | none =>
      show l.findSome? f = some b ↔ _
      rw [ih hl]
      constructor
      · rintro ⟨a, ha, hfa, hlonger⟩
        refine ⟨a, List.mem_cons_of_mem c ha, hfa, fun a' ha' hlt => ?_⟩
        rcases List.mem_cons.1 ha' with rfl | ha'
        · exact hf
        · exact hlonger a' ha' hlt
      · rintro ⟨a, ha, hfa, hlonger⟩
        rcases List.mem_cons.1 ha with rfl | ha
        · rw [hf] at hfa
          cases hfa
        · exact ⟨a, ha, hfa, fun a' ha' => hlonger a' (List.mem_cons_of_mem c ha')⟩

/-! ## Dotted prefixes -/

/-- A text begins with a dot. -/
def DotFirst (s : String) : Prop :=
  s.toList.head? = some '.'

/-- `name` is `p` itself, or goes on with a dot behind it. -/
def DottedPrefix (p name : String) : Prop :=
  p ≠ "" ∧ (p = name ∨ ∃ rest, name = p ++ "." ++ rest)

/-- The ancestors of a name are its dotted prefixes. -/
theorem mem_ancestors_iff {name p : String} (h : ¬ DotFirst name) :
    p ∈ ancestors name ↔ DottedPrefix p name := by
  rw [mem_ancestors]
  constructor
  · rintro ⟨hname, n, hn, rfl⟩
    have htake : (Text.pieces '.' name).take (n + 1) ≠ [] := by
      simp [Text.pieces_ne_nil]
    have hsplit := List.take_append_drop (n + 1) (Text.pieces '.' name)
    have hdot : Text.join '.' ((Text.pieces '.' name).take (n + 1)) = name ∨
        ∃ rest, name = Text.join '.' ((Text.pieces '.' name).take (n + 1)) ++ "." ++ rest := by
      by_cases hdrop : (Text.pieces '.' name).drop (n + 1) = []
      · rw [hdrop, List.append_nil] at hsplit
        exact .inl (by rw [hsplit, Text.join_pieces])
      · have hjoin : Text.join '.' _ = _ ++ "." ++ _ := Text.join_append htake hdrop
        rw [hsplit, Text.join_pieces] at hjoin
        exact .inr ⟨_, hjoin⟩
    -- An empty prefix would leave a dot in front of the name.
    refine ⟨fun hempty => ?_, hdot⟩
    rw [hempty] at hdot
    rcases hdot with hsame | ⟨rest, hrest⟩
    · exact hname hsame.symm
    · exact h (by simp [DotFirst, hrest])
  · rintro ⟨hp, hdot⟩
    obtain ⟨rest, hpieces⟩ : ∃ rest, Text.pieces '.' name = Text.pieces '.' p ++ rest := by
      rcases hdot with rfl | ⟨rest, rfl⟩
      · exact ⟨[], (List.append_nil _).symm⟩
      · exact ⟨_, Text.pieces_append '.' p rest⟩
    have hpos := List.length_pos_iff.2 (Text.pieces_ne_nil '.' p)
    refine ⟨?_, (Text.pieces '.' p).length - 1, ?_, ?_⟩
    · rintro rfl
      rcases hdot with rfl | ⟨rest, hrest⟩
      · exact hp rfl
      · exact hp (by simpa using congrArg String.toList hrest)
    · rw [hpieces, List.length_append]
      omega
    · rw [Nat.sub_add_cancel hpos, hpieces, List.take_left, Text.join_pieces]

/-- Ancestors come in the order of their lengths. -/
theorem pairwise_ancestors (name : String) :
    (ancestors name).Pairwise fun p q => q.length < p.length := by
  unfold ancestors
  split
  · exact .nil
  · rw [List.pairwise_map, List.pairwise_reverse]
    refine List.pairwise_lt_range.imp_of_mem fun _ hn hlt => ?_
    exact Text.length_join_take_lt hlt (List.mem_range.1 hn)

namespace Schema

/-! ## Qualified names -/

theorem qualify_of_ne {space : String} (h : space ≠ "") (name : String) :
    qualify space name = space ++ "." ++ name :=
  if_neg h

theorem splitLast_qualify (space : String) {name : String} (h : '.' ∉ name.toList) :
    Text.splitLast '.' (qualify space name) = (space, name) := by
  unfold qualify
  split
  · next hspace => rw [hspace, Text.splitLast_of_not_mem h]
  · exact Text.splitLast_append space h

/-- A qualified name is cut at its last dot in one way only. -/
theorem qualify_inj {a b n m : String} (hn : '.' ∉ n.toList) (hm : '.' ∉ m.toList)
    (h : qualify a n = qualify b m) : a = b ∧ n = m := by
  rw [← Prod.mk.injEq, ← splitLast_qualify a hn, ← splitLast_qualify b hm, h]

/-- A name that does not begin with a dot is qualified by what comes before its last dot. -/
theorem exists_qualify {name : String} (h : ¬ DotFirst name) : ∃ space simple,
    name = qualify space simple ∧ '.' ∉ simple.toList ∧ (space = "" ↔ '.' ∉ name.toList) := by
  by_cases hdot : '.' ∈ name.toList
  · obtain ⟨space, simple, rfl, hsimple⟩ := Text.exists_last_sep hdot
    have hspace : space ≠ "" := by
      rintro rfl
      exact h (by simp [DotFirst])
    refine ⟨space, simple, (qualify_of_ne hspace simple).symm, hsimple, ?_⟩
    exact ⟨fun hempty => absurd hempty hspace, fun hnot => absurd hdot hnot⟩
  · exact ⟨"", name, (if_pos rfl).symm, hdot, fun _ => hdot, fun _ => rfl⟩

variable {s : Schema} {ns : NamespaceId} {space name q : String} {id : TypeId}

/-- The type `id` has a name without dots, and with its namespace it is called `q`. -/
def Named (s : Schema) (q : String) (id : TypeId) : Prop :=
  ∃ t, s.types[id]? = some t ∧ '.' ∉ t.name.toList ∧ s.qualifiedName id = q

theorem Kept.childOf?_eq_some_iff (hs : s.Kept) {simple : String} (hsimple : '.' ∉ simple.toList) :
    s.childOf? space simple = some id ↔ s.Named (qualify space simple) id := by
  unfold childOf?
  rw [Option.bind_eq_some_iff]
  constructor
  · rintro ⟨ns, hns, hid⟩
    obtain ⟨t, ht, rfl, rfl⟩ := hs.indexed.child.1 hid
    refine ⟨t, ht, hsimple, ?_⟩
    rw [qualifiedName, ht]
    show qualify (s.namespaceName t.home) t.name = qualify space t.name
    rw [namespaceName, hs.indexed.namespaceId.1 hns, Option.getD_some]
  · rintro ⟨t, ht, hname, hq⟩
    rw [qualifiedName, ht] at hq
    obtain ⟨rfl, rfl⟩ := qualify_inj hname hsimple hq
    have hchild := hs.indexed.child.2 ⟨t, ht, rfl, rfl⟩
    refine ⟨t.home, hs.indexed.namespaceId.2 ?_, hchild⟩
    rw [namespaceName, List.getElem?_eq_getElem (hs.indexed.home id t ht)]
    rfl

theorem Kept.childOf?_eq_none_iff (hs : s.Kept) {simple : String} (hsimple : '.' ∉ simple.toList) :
    s.childOf? space simple = none ↔ ∀ id, ¬ s.Named (qualify space simple) id := by
  rw [Option.eq_none_iff_forall_ne_some]
  exact forall_congr' fun id => not_congr (hs.childOf?_eq_some_iff hsimple)

/-! ## Choices -/

/-- In the namespace `space`, `name` may stand for the type with the qualified name `q`. -/
def StandsFor (space name q : String) : Prop :=
  q = name ∨ ∃ p, DottedPrefix p space ∧ q = p ++ "." ++ name

/-- The type that `name` stands for in the namespace `space`. -/
inductive Chosen (s : Schema) (space name : String) : TypeId → Prop where
  | own {id : TypeId} (hdot : '.' ∉ name.toList) (h : s.Named (qualify space name) id) :
      Chosen s space name id
  | exact {id : TypeId} (hown : '.' ∉ name.toList → ∀ x, ¬ s.Named (qualify space name) x)
      (h : s.Named name id) : Chosen s space name id
  | outer {id : TypeId} {p : String} (hown : '.' ∉ name.toList → ∀ x, ¬ s.Named (qualify space name) x)
      (hexact : ∀ x, ¬ s.Named name x) (hp : DottedPrefix p space)
      (hlonger : ∀ p', DottedPrefix p' space → p.length < p'.length →
        ∀ x, ¬ s.Named (p' ++ "." ++ name) x)
      (h : s.Named (p ++ "." ++ name) id) : Chosen s space name id

theorem Chosen.standsFor (h : s.Chosen space name id) :
    StandsFor space name (s.qualifiedName id) := by
  cases h with
  | own _ h =>
    obtain ⟨-, -, -, hq⟩ := h
    rw [hq]
    by_cases hspace : space = ""
    · exact .inl (if_pos hspace)
    · exact .inr ⟨space, ⟨hspace, .inl rfl⟩, qualify_of_ne hspace name⟩
  | exact _ h =>
    obtain ⟨-, -, -, hq⟩ := h
    exact .inl hq
  | outer _ _ hp _ h =>
    obtain ⟨-, -, -, hq⟩ := h
    exact .inr ⟨_, hp, hq⟩

/-! ## Lookups -/

theorem qualify_below {p : String} (hp : p ≠ "") (qualifier simple : String) :
    qualify (if qualifier = "" then p else p ++ "." ++ qualifier) simple =
      p ++ "." ++ qualify qualifier simple := by
  by_cases hq : qualifier = ""
  · rw [if_pos hq, qualify_of_ne hp, qualify, if_pos hq]
  · rw [if_neg hq, qualify_of_ne (by simp [hp]), qualify_of_ne hq]
    simp only [String.append_assoc]

/-- The places where a name is looked for: the namespace itself, that of the qualifier, and those
below the ancestors. -/
theorem findType?_qualify (s : Schema) (ns : NamespaceId) (qualifier : String) {simple : String}
    (hsimple : '.' ∉ simple.toList) : s.findType? ns (qualify qualifier simple) =
      (if qualifier = "" then s.childOf? (s.namespaceName ns) simple else none).or
        ((s.childOf? qualifier simple).or
          ((ancestors (s.namespaceName ns)).findSome? fun p =>
            s.childOf? (if qualifier = "" then p else p ++ "." ++ qualifier) simple)) := by
  unfold findType? searchOrder
  rw [splitLast_qualify qualifier hsimple]
  dsimp only
  rw [List.findSome?_append, ← List.singleton_append (x := qualifier), List.findSome?_append,
    List.findSome?_singleton, List.findSome?_map]
  by_cases hq : qualifier = ""
  · simp only [if_pos hq, List.findSome?_singleton, Function.comp_def]
  · simp only [if_neg hq, List.findSome?_nil, Function.comp_def]

section

variable (hs : s.Kept) {qualifier simple : String} (hsimple : '.' ∉ simple.toList)
include hs hsimple

theorem Kept.own_eq_some_iff (hdot : qualifier = "" ↔ '.' ∉ (qualify qualifier simple).toList) :
    (if qualifier = "" then s.childOf? space simple else none) = some id ↔
      '.' ∉ (qualify qualifier simple).toList ∧
        s.Named (qualify space (qualify qualifier simple)) id := by
  rw [← hdot]
  by_cases hq : qualifier = ""
  · have hname : qualify qualifier simple = simple := if_pos hq
    rw [if_pos hq, hs.childOf?_eq_some_iff hsimple, hname]
    exact ⟨fun h => ⟨hq, h⟩, fun h => h.2⟩
  · rw [if_neg hq]
    exact ⟨fun h => (by cases h), fun h => absurd h.1 hq⟩

theorem Kept.outer_eq_some_iff (hspace : ¬ DotFirst space) :
    ((ancestors space).findSome? fun p =>
        s.childOf? (if qualifier = "" then p else p ++ "." ++ qualifier) simple) = some id ↔
      ∃ p, DottedPrefix p space ∧ s.Named (p ++ "." ++ qualify qualifier simple) id ∧
        ∀ p', DottedPrefix p' space → p.length < p'.length →
          ∀ x, ¬ s.Named (p' ++ "." ++ qualify qualifier simple) x := by
  rw [findSome?_eq_some_iff_of_pairwise (pairwise_ancestors space)]
  simp only [mem_ancestors_iff hspace, hs.childOf?_eq_some_iff hsimple,
    hs.childOf?_eq_none_iff hsimple]
  refine exists_congr fun p => and_congr_right fun hp => ?_
  rw [qualify_below hp.1]
  refine and_congr_right fun _ => forall_congr' fun p' => forall_congr' fun hp' => ?_
  rw [qualify_below hp'.1]

end

section

variable (hs : s.Kept) (hspace : ¬ DotFirst (s.namespaceName ns)) (hname : ¬ DotFirst name)
include hs hspace hname

theorem Kept.findType?_eq_some_iff :
    s.findType? ns name = some id ↔ s.Chosen (s.namespaceName ns) name id := by
  obtain ⟨qualifier, simple, rfl, hsimple, hdot⟩ := exists_qualify hname
  -- A dotted name is not looked for in the namespace itself, and so never found there.
  have hown : (if qualifier = "" then s.childOf? (s.namespaceName ns) simple else none) = none ↔
      ('.' ∉ (qualify qualifier simple).toList →
        ∀ x, ¬ s.Named (qualify (s.namespaceName ns) (qualify qualifier simple)) x) := by
    rw [Option.eq_none_iff_forall_ne_some]
    simp only [ne_eq, hs.own_eq_some_iff hsimple hdot, not_and]
    exact forall_comm
  rw [findType?_qualify s ns qualifier hsimple, Option.or_eq_some_iff, Option.or_eq_some_iff,
    hs.own_eq_some_iff hsimple hdot, hown, hs.childOf?_eq_some_iff hsimple,
    hs.childOf?_eq_none_iff hsimple, hs.outer_eq_some_iff hsimple hspace]
  constructor
  · rintro (⟨hd, h⟩ | ⟨ho, h | ⟨he, p, hp, h, hlonger⟩⟩)
    · exact .own hd h
    · exact .exact ho h
    · exact .outer ho he hp hlonger h
  · intro h
    cases h with
    | own hd h => exact .inl ⟨hd, h⟩
    | exact ho h => exact .inr ⟨ho, .inl h⟩
    | outer ho he hp hlonger h => exact .inr ⟨ho, .inr ⟨he, _, hp, h, hlonger⟩⟩

/-- What a name may stand for is found, or something that comes before it. -/
theorem Kept.findType?_ne_none (hq : StandsFor (s.namespaceName ns) name q) (h : s.Named q id) :
    s.findType? ns name ≠ none := by
  intro hnone
  obtain ⟨qualifier, simple, rfl, hsimple, -⟩ := exists_qualify hname
  rw [findType?_qualify s ns qualifier hsimple, Option.or_eq_none_iff, Option.or_eq_none_iff,
    hs.childOf?_eq_none_iff hsimple, List.findSome?_eq_none_iff] at hnone
  obtain ⟨-, hexact, houter⟩ := hnone
  rcases hq with rfl | ⟨p, hp, rfl⟩
  · exact hexact id h
  · have hfree := houter p ((mem_ancestors_iff hspace).2 hp)
    rw [hs.childOf?_eq_none_iff hsimple, qualify_below hp.1] at hfree
    exact hfree id h

end

/-! ## Top theorem -/

/-- A name that is used in a namespace is found exactly if there is a type that it may stand for,
and what is found is the one that comes first. -/
theorem findType?_eq_some_iff_chosen (h : s.Reachable) (hspace : ¬ DotFirst (s.namespaceName ns))
    (hname : ¬ DotFirst name) :
    (∀ id, s.findType? ns name = some id → StandsFor (s.namespaceName ns) name (s.qualifiedName id)) ∧
      (∀ q id, StandsFor (s.namespaceName ns) name q → s.Named q id → s.findType? ns name ≠ none) ∧
      ∀ id, s.findType? ns name = some id ↔ s.Chosen (s.namespaceName ns) name id := by
  refine ⟨fun id hid => ?_, fun q id => h.kept.findType?_ne_none hspace hname, fun id => ?_⟩
  · exact ((h.kept.findType?_eq_some_iff hspace hname).1 hid).standsFor
  · exact h.kept.findType?_eq_some_iff hspace hname

/-- Two types with one name, below a namespace and below an ancestor of it. -/
def scopes : Schema :=
  ((empty "scopes").parse "scopes.fbs" ("namespace a.b; table X \x7b \x7d " ++
    "namespace a.m; table Y \x7b \x7d namespace a.b.m; table Y \x7b \x7d")).1

/-- In `a.b`, the name `m.Y` stands for `a.b.m.Y`, and not for `a.m.Y`. -/
theorem findType?_scopes : scopes.Reachable ∧ scopes.namespaceName 1 = "a.b" ∧
    scopes.qualifiedName 1 = "a.m.Y" ∧ scopes.qualifiedName 2 = "a.b.m.Y" ∧
    scopes.findType? 1 "m.Y" = some 2 ∧ scopes.Chosen "a.b" "m.Y" 2 := by
  have hreachable : scopes.Reachable := .step (.empty "scopes") (.parse _ _) trivial
  have hfacts : scopes.namespaceName 1 = "a.b" ∧ scopes.qualifiedName 1 = "a.m.Y" ∧
      scopes.qualifiedName 2 = "a.b.m.Y" ∧ scopes.findType? 1 "m.Y" = some 2 := by
    decide +kernel
  obtain ⟨hspace, hother, hname, hfind⟩ := hfacts
  have hdots : ¬ DotFirst "a.b" ∧ ¬ DotFirst "m.Y" := by
    unfold DotFirst
    decide +kernel
  have hchosen := findType?_eq_some_iff_chosen hreachable (by rw [hspace]; exact hdots.1) hdots.2
  rw [hspace] at hchosen
  exact ⟨hreachable, hspace, hother, hname, hfind, (hchosen.2.2 2).1 hfind⟩

/-! ## Types by their own qualified names -/

variable {t : TypeDecl}

/-- What is looked for is the text behind a last dot, so a type with a dot in its name is never
found. -/
theorem Kept.dotless_of_findType? (hs : s.Kept) (h : s.findType? ns name = some id)
    (ht : s.types[id]? = some t) : '.' ∉ t.name.toList := by
  obtain ⟨space, -, hspace⟩ := List.exists_of_findSome?_eq_some h
  obtain ⟨home, -, hchild⟩ := Option.bind_eq_some_iff.1 hspace
  obtain ⟨t', ht', -, hname⟩ := hs.indexed.child.1 hchild
  obtain rfl := Option.some.inj (ht.symm.trans ht')
  rw [hname]
  exact Text.not_mem_splitLast '.' name

/-- The namespace of the qualifier comes first, before any below an ancestor. -/
theorem Kept.findType?_qualifiedName (hs : s.Kept) (ht : s.types[id]? = some t)
    (hspace : s.namespaceName t.home ≠ "") (hname : '.' ∉ t.name.toList) (ns : NamespaceId) :
    s.findType? ns (s.qualifiedName id) = some id := by
  have hq : s.qualifiedName id = qualify (s.namespaceName t.home) t.name := by
    rw [qualifiedName, ht]
  have hchild : s.childOf? (s.namespaceName t.home) t.name = some id :=
    (hs.childOf?_eq_some_iff hname).2 ⟨t, ht, hname, hq⟩
  rw [hq, findType?_qualify s ns _ hname, if_neg hspace, hchild]
  rfl

/-- In any namespace, the qualified name of a type that is declared in a named namespace stands for
this type exactly if the type's own name has no dots. -/
theorem findType?_qualifiedName_iff (h : s.Reachable) (ht : s.types[id]? = some t)
    (hspace : s.namespaceName t.home ≠ "") (ns : NamespaceId) :
    s.findType? ns (s.qualifiedName id) = some id ↔ '.' ∉ t.name.toList := by
  constructor
  · exact fun hfind => h.kept.dotless_of_findType? hfind ht
  · exact fun hname => h.kept.findType?_qualifiedName ht hspace hname ns

theorem findType?_qualifiedName_scopes : scopes.Reachable ∧ scopes.qualifiedName 1 = "a.m.Y" ∧
    scopes.namespaceName 3 = "a.b.m" ∧ scopes.findType? 3 "a.m.Y" = some 1 := by
  have hreachable : scopes.Reachable := .step (.empty "scopes") (.parse _ _) trivial
  have hfacts : scopes.types[1]? = some ⟨"Y", 2, none, .newTable⟩ ∧
      scopes.namespaceName 2 ≠ "" ∧ '.' ∉ "Y".toList ∧ scopes.qualifiedName 1 = "a.m.Y" ∧
      scopes.namespaceName 3 = "a.b.m" := by
    decide +kernel
  obtain ⟨ht, hspace, hdot, hname, hfrom⟩ := hfacts
  have hfind := (findType?_qualifiedName_iff hreachable ht hspace 3).2 hdot
  rw [hname] at hfind
  exact ⟨hreachable, hname, hfrom, hfind⟩

/-- A name with a dot where a type is declared. -/
def dotted : Schema × Except CompileError FileHead :=
  (empty "dotted").parse "dotted.fbs" "namespace n; table a.B \x7b \x7d"

/-- The file is read without a fault, and no name stands for its type. -/
theorem findType?_dotted : dotted.2 = .ok ⟨[], []⟩ ∧ dotted.1.types.map (·.name) = ["a.B"] ∧
    dotted.1.qualifiedName 0 = "n.a.B" ∧ dotted.1.findType? 0 "n.a.B" = none ∧
    dotted.1.findType? 1 "n.a.B" = none := by
  decide +kernel

end Schema

end FlatSchema
