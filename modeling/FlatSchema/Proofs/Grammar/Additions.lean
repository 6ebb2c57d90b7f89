import FlatSchema.Proofs.Consistency

/-!
# Reading a file only adds

Whether a file is read to its end or breaks off, what the schema held before stays in it, in its place
(`staysIn_parse`).  The one thing that a file changes in place is the type declared last, and before a file
says anything of a type it has declared one of its own: up to the first declaration there are no fields,
values or metadata (`isMember_outline`), and from there on the type declared last is a new one
(`performAll_staysIn_of_owner`).
-/

namespace FlatSchema

/-! ## What stays -/

namespace Schema

/-- All of `s` is in `s'` and stands where it stood.  Root names, the file identifier and the file extension
may be others, but are not taken away. -/
structure StaysIn (s s' : Schema) : Prop where
  types : s.types <+: s'.types
  namespaces : s.namespaces.map (·.name) <+: s'.namespaces.map (·.name)
  children : ∀ ns, s.children ns <+: s'.children ns
  attributes : s.attributes <+: s'.attributes
  rest : s'.name = s.name ∧ s'.files = s.files ∧ s'.rootType = s.rootType
  seenFiles : s'.seenFiles = s.seenFiles
  rootName : ∀ ns : NamespaceId, (s.namespaces[ns]?.bind (·.rootName)).isSome →
    (s'.namespaces[ns]?.bind (·.rootName)).isSome
  fileIdentifier : s.fileIdentifier.isSome → s'.fileIdentifier.isSome
  fileExtension : s.fileExtension.isSome → s'.fileExtension.isSome

variable {s s₁ s₂ : Schema}

theorem StaysIn.refl (s : Schema) : s.StaysIn s :=
  ⟨List.prefix_refl _, List.prefix_refl _, fun _ => List.prefix_refl _, List.prefix_refl _,
    ⟨rfl, rfl, rfl⟩, rfl, fun _ => id, id, id⟩

theorem StaysIn.trans (h : s.StaysIn s₁) (h' : s₁.StaysIn s₂) : s.StaysIn s₂ where
  types := h.types.trans h'.types
  namespaces := h.namespaces.trans h'.namespaces
  children ns := (h.children ns).trans (h'.children ns)
  attributes := h.attributes.trans h'.attributes
  rest := ⟨h'.rest.1.trans h.rest.1, h'.rest.2.1.trans h.rest.2.1, h'.rest.2.2.trans h.rest.2.2⟩
  seenFiles := h'.seenFiles.trans h.seenFiles
  rootName ns hns := h'.rootName ns (h.rootName ns hns)
  fileIdentifier hs := h'.fileIdentifier (h.fileIdentifier hs)
  fileExtension hs := h'.fileExtension (h.fileExtension hs)

/-- Each namespace stays in its place, with what it lists and with its root name if it has one. -/
theorem staysIn_of_namespaces {nss : List Namespace} {ids : NameMap NamespaceId}
    (hnames : s.namespaces.map (·.name) <+: nss.map (·.name))
    (h : ∀ (ns : NamespaceId) n, s.namespaces[ns]? = some n → ∃ n', nss[ns]? = some n' ∧
      n.children <+: n'.children ∧ (n.rootName.isSome → n'.rootName.isSome)) :
    s.StaysIn { s with namespaces := nss, namespaceIds := ids } := by
  refine { StaysIn.refl s with namespaces := hnames, children := fun ns => ?_, rootName := fun ns => ?_ }
  · unfold Schema.children
    cases hn : s.namespaces[ns]? with
    | none => exact List.nil_prefix
    | some n =>
      obtain ⟨n', hn', hchildren, -⟩ := h ns n hn
      simpa [hn'] using hchildren
  · cases hn : s.namespaces[ns]? with
    | none => exact nofun
    | some n =>
      obtain ⟨n', hn', -, hroot⟩ := h ns n hn
      simpa [hn'] using hroot

/-! ## One call -/

theorem staysIn_defineNamespace (s : Schema) (name : String) : s.StaysIn (s.defineNamespace name).2 := by
  unfold defineNamespace
  split
  · exact .refl s
  · refine staysIn_of_namespaces ?_ fun ns n hn => ?_
    · rw [List.map_append]
      exact List.prefix_append _ _
    · refine ⟨n, ?_, List.prefix_refl _, id⟩
      rw [List.getElem?_append_left (List.getElem?_eq_some_iff.1 hn).1]
      exact hn

theorem staysIn_declare (s : Schema) (t : TypeDecl) : s.StaysIn (s.declare t) := by
  have hspaces : s.StaysIn { s with namespaces := (s.declare t).namespaces } := by
    refine staysIn_of_namespaces ⟨[], by rw [List.append_nil, names_declare]⟩ fun ns n hn => ?_
    rw [namespaces_declare, hn]
    refine ⟨_, rfl, ?_⟩
    by_cases hns : t.home = ns <;> simp [hns, Namespace.list]
  exact { hspaces with types := List.prefix_append _ _ }

theorem staysIn_setRootName (s : Schema) (ns : NamespaceId) (name : String) :
    s.StaysIn (s.setRootName ns name) := by
  have hnames : s.namespaces.map (·.name) <+: (s.setRootName ns name).namespaces.map (·.name) :=
    ⟨[], by rw [List.append_nil, names_setRootName]⟩
  refine staysIn_of_namespaces hnames fun i n hn => ?_
  rw [List.getElem?_modify, hn]
  refine ⟨_, rfl, ?_⟩
  by_cases hi : ns = i <;> simp [hi]

/-- A change to a type that is not of the first schema. -/
theorem StaysIn.updateType (h : s.StaysIn s₁) {id : TypeId} (hid : s.types.length ≤ id)
    (f : TypeDecl → TypeDecl) : s.StaysIn (s₁.updateType id f) := by
  refine { h with types := ?_ }
  have hfront : s.types <+: s₁.types.take id := List.prefix_take_iff.2 ⟨h.types, hid⟩
  rw [Schema.updateType, List.modify_eq_take_drop]
  exact hfront.trans (List.prefix_append _ _)

theorem StaysIn.addField (h : s.StaysIn s₁) {id : TypeId} (hid : s.types.length ≤ id) {f : Field}
    (ha : s₁.addField id f = .ok s₂) : s.StaysIn s₂ := by
  obtain rfl | ⟨t, k, -, -, rfl⟩ := addField_eq_ok ha
  · exact h
  · exact h.updateType hid _

theorem StaysIn.addValue (h : s.StaysIn s₁) {id : TypeId} (hid : s.types.length ≤ id) {e : Entry}
    (ha : s₁.addValue id e = .ok s₂) : s.StaysIn s₂ := by
  obtain rfl | ⟨t, k, -, -, rfl⟩ := addValue_eq_ok ha
  · exact h
  · exact h.updateType hid _

theorem staysIn_setFileIdentifier {text : String} (h : s.setFileIdentifier text = .ok s₁) :
    s.StaysIn s₁ := by
  obtain rfl := setFileIdentifier_eq_ok h
  exact { StaysIn.refl s with fileIdentifier := fun _ => rfl }

end Schema

/-! ## One action -/

namespace Action

/-- A type is declared. -/
def opens : Action → Bool
  | declareType .. => true
  | declareEnum .. => true
  | _ => false

/-- Something is said of the type declared last. -/
def isMember : Action → Bool
  | attachMetadata _ => true
  | addField .. => true
  | addValue .. => true
  | _ => false

end Action

namespace Session

open Schema

variable {s : Schema} {x y : Session} {a : Action}

theorem declare_staysIn {name : String} {kind : Kind} {p : Position} (h : s.StaysIn x.schema)
    (hd : x.declare name kind p = .ok y) : s.StaysIn y.schema ∧ s.types.length ≤ y.owner := by
  unfold declare addType at hd
  split at hd
  · next ha =>
    split at ha
    · cases ha
    · cases ha
      cases hd
      exact ⟨h.trans (staysIn_declare _ _), h.types.length_le⟩
  · cases hd

theorem update_eq_ok {p : Position} {r : Except SchemaError Schema} (h : x.update p r = .ok y) :
    r = .ok y.schema ∧ y.owner = x.owner := by
  unfold update at h
  split at h
  · cases h
    exact ⟨rfl, rfl⟩
  · cases h

/-- Whatever the action is, it is about the type declared last or adds something, and the type declared last
is then a new one or the same. -/
theorem perform_staysIn (h : s.StaysIn x.schema) (hp : x.perform a = .ok y)
    (ha : a.isMember = true → s.types.length ≤ x.owner) :
    s.StaysIn y.schema ∧
      (a.opens = true ∧ s.types.length ≤ y.owner ∨ a.opens = false ∧ y.owner = x.owner) := by
  cases a with
  | includeFile written =>
    cases hp
    exact ⟨h, .inr ⟨rfl, rfl⟩⟩
  | enterNamespace name =>
    cases hp
    exact ⟨h.trans (staysIn_defineNamespace _ name), .inr ⟨rfl, rfl⟩⟩
  | declareType name kind p =>
    obtain ⟨hy, howner⟩ := declare_staysIn h hp
    exact ⟨hy, .inl ⟨rfl, howner⟩⟩
  | declareEnum name base p =>
    change (if base.repeated then _ else _) = _ at hp
    split at hp
    · cases hp
    · obtain ⟨hy, howner⟩ := declare_staysIn h hp
      exact ⟨hy, .inl ⟨rfl, howner⟩⟩
  | attachMetadata m =>
    cases hp
    exact ⟨h.updateType (ha rfl) _, .inr ⟨rfl, rfl⟩⟩
  | addField f p =>
    obtain ⟨hr, howner⟩ := update_eq_ok hp
    exact ⟨h.addField (ha rfl) hr, .inr ⟨rfl, howner⟩⟩
  | addValue e p =>
    obtain ⟨hr, howner⟩ := update_eq_ok hp
    exact ⟨h.addValue (ha rfl) hr, .inr ⟨rfl, howner⟩⟩
  | setRootType name =>
    cases hp
    exact ⟨h.trans (staysIn_setRootName _ _ name), .inr ⟨rfl, rfl⟩⟩
  | setFileExtension text =>
    cases hp
    exact ⟨h.trans { StaysIn.refl _ with fileExtension := fun _ => rfl }, .inr ⟨rfl, rfl⟩⟩
  | setFileIdentifier text p =>
    obtain ⟨hr, howner⟩ := update_eq_ok hp
    exact ⟨h.trans (staysIn_setFileIdentifier hr), .inr ⟨rfl, howner⟩⟩
  | addAttribute name =>
    cases hp
    exact ⟨h.trans { StaysIn.refl _ with attributes := List.prefix_append _ _ }, .inr ⟨rfl, rfl⟩⟩

/-! ## All actions -/

/-- Once the type declared last is a new one, any actions are about new types. -/
theorem performAll_staysIn_of_owner (as : List Action) (h : s.StaysIn x.schema)
    (hx : s.types.length ≤ x.owner) : s.StaysIn (x.performAll as).1.schema := by
  induction as generalizing x with
  | nil => exact h
  | cons a as ih =>
    unfold performAll
    cases hp : x.perform a with
    | error r => exact h
    | ok y =>
      obtain ⟨hy, howner⟩ := perform_staysIn h hp fun _ => hx
      refine ih hy ?_
      rcases howner with ⟨-, howner⟩ | ⟨-, howner⟩
      · exact howner
      · rwa [howner]

/-- Nothing is said of the type declared last before a type is declared. -/
theorem performAll_staysIn (as : List Action) (h : s.StaysIn x.schema)
    (has : ∀ a ∈ as.takeWhile (!·.opens), a.isMember = false) :
    s.StaysIn (x.performAll as).1.schema := by
  induction as generalizing x with
  | nil => exact h
  | cons a as ih =>
    unfold performAll
    cases hp : x.perform a with
    | error r => exact h
    | ok y =>
      cases ha : a.opens with
      | true =>
        have hmember : a.isMember = true → s.types.length ≤ x.owner := by
          cases a <;> simp [Action.opens, Action.isMember] at ha ⊢
        obtain ⟨hy, ⟨-, howner⟩ | ⟨hopens, -⟩⟩ := perform_staysIn h hp hmember
        · exact performAll_staysIn_of_owner as hy howner
        · rw [ha] at hopens
          cases hopens
      | false =>
        rw [List.takeWhile_cons_of_pos (by simp [ha])] at has
        have hmember := has a List.mem_cons_self
        have hy := (perform_staysIn h hp fun hm => by rw [hmember] at hm; cases hm).1
        exact ih hy fun b hb => has b (List.mem_cons_of_mem a hb)

end Session

/-! ## Tokens -/

namespace Grammar

/-- A type has been declared, and its body has not ended. -/
def State.inside : State → Bool
  | declaration _ | includePath | includeEnd _ | namespaceName | namespaceEnd _ => false
  | typeName .. | enumName | enumColon .. | enumBase .. | enumElement .. | enumBracket .. => false
  | rootTypeName | fileExtension | fileIdentifier | settingEnd => false
  | attributeName | attributeEnd _ | finished => false
  | _ => true

/-- A type is declared, or nothing is said of types and the state behind is none inside of one. -/
def Step.Outside (s : Step) : Prop :=
  (∃ a q, a.opens = true ∧ s = .emit a q) ∨
    (∀ a ∈ s.actions, a.opens = false ∧ a.isMember = false) ∧ ∀ q, s.next = .ok q → q.inside = false

namespace Step

theorem outside_fail (f : ParseFault) : (fail f).Outside :=
  .inr ⟨fun _ h => absurd h List.not_mem_nil, fun _ h => by cases h⟩

theorem outside_goto {q : State} (h : q.inside = false) : (goto q).Outside :=
  .inr ⟨fun _ h' => absurd h' List.not_mem_nil, fun _ h' => by cases h'; exact h⟩

theorem outside_emit {a : Action} {q : State} (ha : a.opens = false ∧ a.isMember = false)
    (h : q.inside = false) : (emit a q).Outside :=
  .inr ⟨fun _ h' => by rwa [List.mem_singleton.1 h'], fun _ h' => by cases h'; exact h⟩

theorem outside_open {a : Action} (ha : a.opens = true) (q : State) : (emit a q).Outside :=
  .inl ⟨a, q, ha, rfl⟩

end Step

open Step

variable {s : Step}

theorem outside_punct (c : Char) (l : Lexeme) (h : s.Outside) : (punct c l s).Outside := by
  unfold punct
  split
  · exact h
  · exact outside_fail _

theorem outside_identifier {f : String → Step} (l : Lexeme) (h : ∀ n, (f n).Outside) :
    (identifier l f).Outside := by
  unfold identifier
  split
  · exact h _
  · exact outside_fail _

theorem outside_quoted {f : String → Step} (l : Lexeme) (h : ∀ n, (f n).Outside) :
    (quoted l f).Outside := by
  unfold quoted
  split
  · exact h _
  · exact outside_fail _

theorem outside_declaration (head : Bool) (l : Lexeme) : (declaration head l).Outside := by
  unfold declaration
  split
  · exact outside_goto rfl
  · split
    · next q hq =>
      refine outside_goto ?_
      unfold keyword? at hq
      split at hq
      · split at hq <;> cases hq
        rfl
      all_goals cases hq <;> rfl
    · exact outside_fail _
  · exact outside_fail _

/-- One token. -/
theorem outside_step {q : State} (t : Token) (hq : q.inside = false) : (step q t).Outside := by
  cases q with
  | declaration head => exact outside_declaration head _
  | includePath => exact outside_quoted _ fun _ => outside_goto rfl
  | includeEnd s => exact outside_punct _ _ (outside_emit ⟨rfl, rfl⟩ rfl)
  | namespaceName => exact outside_identifier _ fun _ => outside_goto rfl
  | namespaceEnd n => exact outside_punct _ _ (outside_emit ⟨rfl, rfl⟩ rfl)
  | typeName kind body => exact outside_identifier _ fun _ => outside_open rfl _
  | enumName => exact outside_identifier _ fun _ => outside_goto rfl
  | enumColon n p => exact outside_punct _ _ (outside_goto rfl)
  | enumBase n p =>
    show (enumBase n p t.lexeme).Outside
    unfold enumBase
    split
    · exact outside_open rfl _
    · exact outside_goto rfl
    · exact outside_fail _
  | enumElement n p =>
    show (enumElement n p t.lexeme).Outside
    unfold enumElement
    split
    · exact outside_goto rfl
    · exact outside_fail _
  | enumBracket n p base => exact outside_punct _ _ (outside_open rfl _)
  | rootTypeName => exact outside_identifier _ fun _ => outside_emit ⟨rfl, rfl⟩ rfl
  | fileExtension => exact outside_quoted _ fun _ => outside_emit ⟨rfl, rfl⟩ rfl
  | fileIdentifier => exact outside_quoted _ fun _ => outside_emit ⟨rfl, rfl⟩ rfl
  | settingEnd =>
    show (settingEnd t.lexeme).Outside
    unfold settingEnd
    split
    · exact outside_goto rfl
    · exact outside_declaration false _
  | attributeName =>
    show (attributeName t.lexeme).Outside
    unfold attributeName
    split
    · exact outside_goto rfl
    · exact outside_goto rfl
    · exact outside_fail _
  | attributeEnd n => exact outside_punct _ _ (outside_emit ⟨rfl, rfl⟩ rfl)
  | finished => exact outside_fail _
  -- The other states are inside of a type.
  | _ => cases hq

/-- All tokens: up to the first type nothing is said of one. -/
theorem isMember_outline (file : String) (tokens : Stream) : ∀ q : State, q.inside = false →
    ∀ a ∈ (outline file q tokens).actions.takeWhile (!·.opens), a.isMember = false := by
  have hlast : ∀ s : Step, s.Outside → ∀ a ∈ s.actions.takeWhile (!·.opens), a.isMember = false := by
    rintro s (⟨b, q, hb, rfl⟩ | ⟨hactions, -⟩) a ha
    · simp [emit, hb] at ha
    · exact (hactions a (List.takeWhile_subset _ ha)).2
  induction tokens with
  | token t rest ih =>
    intro q hq
    have hstep := outside_step t hq
    unfold outline
    dsimp only
    cases hn : (step q t).next with
    | error f => exact hlast _ hstep
    | ok q' =>
      dsimp only
      rcases hstep with ⟨b, q'', hb, hs⟩ | ⟨hactions, hnext⟩
      · -- The actions behind a declaration do not matter.
        intro a ha
        rw [hs] at ha
        simp [emit, hb] at ha
      · rw [List.takeWhile_append_of_pos fun a ha => by simp [(hactions a ha).1]]
        intro a ha
        rcases List.mem_append.1 ha with ha | ha
        · exact (hactions a ha).2
        · exact ih q' (hnext q' hn) a ha
  | eof p =>
    intro q hq
    unfold outline
    dsimp only
    split <;> exact hlast _ (outside_step _ hq)
  | fault e => exact fun q _ a ha => absurd ha List.not_mem_nil

end Grammar

/-! ## Top theorem -/

namespace Schema

/-- Whether the file is read to its end or not, all types, namespaces and attributes stay and others come
behind them, also among the types of each namespace. -/
theorem staysIn_parse (s : Schema) (file text : String) :
    s.StaysIn (s.parse file text).1 ∧ ∀ ns, s.children ns <+: (s.parse file text).1.children ns := by
  have hmember := Grammar.isMember_outline file (.ofText file text) (.declaration true) rfl
  have hrun := Session.performAll_staysIn (x := Session.start s) _ (staysIn_defineNamespace s "") hmember
  have hparse : s.StaysIn (s.parse file text).1 := by
    unfold parse parseStream
    dsimp only
    split <;> exact hrun
  exact ⟨hparse, hparse.children⟩

end Schema

end FlatSchema
