import FlatSchema.Script.Accessor
import FlatSchema.Proofs.Script.Nesting
import FlatSchema.Proofs.Spelling
import Mathlib.Data.List.Basic

/-!
# The members of a class

Names, numbers and the words around them are `Quiet`: they have no line feed, no dollar and no opening
brace.  So a member is nested whatever the names in it are, and where it has a dollar it has a path
from the root, which is that of a class (`OnlyClasses`).  The four characters of a file identifier may
be any, but are too few to spell such a path.
-/

namespace FlatSchema

/-! ## Quiet texts -/

def Quiet (text : String) : Prop :=
  ∀ c ∈ text.toList, c ≠ '\n' ∧ c ≠ '$' ∧ c ≠ '\x7b'

theorem quiet_append {a b : String} : Quiet (a ++ b) ↔ Quiet a ∧ Quiet b := by
  unfold Quiet
  rw [String.toList_append, List.forall_mem_append]

-- A literal is the list of its characters, which is decided without decoding its bytes.
theorem quiet_ofList {cs : List Char}
    (h : (cs.all fun c => decide (c ≠ '\n' ∧ c ≠ '$' ∧ c ≠ '\x7b')) = true) :
    Quiet (String.ofList cs) := by
  unfold Quiet
  rw [String.toList_ofList]
  exact fun c hc => of_decide_eq_true (List.all_eq_true.1 h c hc)

theorem quiet_of_idRest {text : String} (h : ∀ c ∈ text.toList, isIdRest c = true) : Quiet text := by
  intro c hc
  have hrest := h c hc
  refine ⟨?_, ?_, ?_⟩
  · rintro rfl
    exact absurd hrest (by decide)
  · rintro rfl
    exact absurd hrest (by decide)
  · rintro rfl
    exact absurd hrest (by decide)

theorem quiet_of_isDigit {text : String} (h : ∀ c ∈ text.toList, c.isDigit = true ∨ c = '-' ∨ c = '.') :
    Quiet text := by
  intro c hc
  have hdigit := h c hc
  refine ⟨?_, ?_, ?_⟩
  · rintro rfl
    exact absurd hdigit (by decide)
  · rintro rfl
    exact absurd hdigit (by decide)
  · rintro rfl
    exact absurd hdigit (by decide)

theorem IsName.quiet {name : String} (h : IsName name) : Quiet name :=
  quiet_of_idRest h.idRest

theorem isDigit_of_mem_repr {n : Nat} {c : Char} (h : c ∈ n.repr.toList) : c.isDigit = true := by
  rw [Nat.toList_repr] at h
  exact Nat.isDigit_of_mem_toDigits (by decide) (by decide) h

theorem quiet_nat (n : Nat) : Quiet (toString n) :=
  quiet_of_isDigit fun _ hc => .inl (isDigit_of_mem_repr hc)

theorem quiet_int (n : Int) : Quiet (toString n) := by
  refine quiet_of_isDigit fun c hc => ?_
  rw [Int.toString_eq_repr, Int.repr_eq_if] at hc
  split at hc
  · exact .inl (isDigit_of_mem_repr hc)
  · rw [String.toList_append] at hc
    rcases List.mem_append.1 hc with hc | hc
    · exact .inr (.inl (List.mem_singleton.1 hc))
    · exact .inl (isDigit_of_mem_repr hc)

theorem mem_positionalText {ds : List Char} {e : Int} {c : Char}
    (hds : ∀ d ∈ ds, d.isDigit = true) (h : c ∈ Binary64.positionalText false ds e) :
    c.isDigit = true ∨ c = '.' := by
  have hzeros : ∀ n : Int, ∀ d ∈ Binary64.zeros n, d.isDigit = true := by
    intro n d hd
    rw [List.eq_of_mem_replicate hd]
    rfl
  unfold Binary64.positionalText at h
  dsimp only at h
  split at h
  · simp only [Bool.false_eq_true, if_false, List.append_nil] at h
    rcases List.mem_append.1 h with h | h
    · exact .inl (hds c h)
    · exact .inl (hzeros _ c h)
  · split at h
    · rcases List.mem_append.1 h with h | h
      · exact .inl (hds c (List.mem_of_mem_take h))
      · rcases List.mem_cons.1 h with h | h
        · exact .inr h
        · exact .inl (hds c (List.mem_of_mem_drop h))
    · rcases List.mem_append.1 h with h | h
      · rcases List.mem_append.1 h with h | h
        · rcases List.mem_cons.1 h with rfl | h
          · exact .inl rfl
          · exact .inr (List.mem_singleton.1 h)
        · exact .inl (hzeros _ c h)
      · exact .inl (hds c h)

/-- In a script no number has an exponent. -/
theorem scriptNumber_digits (d : Binary64.Decimal) : Value.scriptNumber.digits d =
    Binary64.positionalText false (Nat.toDigits 10 d.digits) d.exponent := by
  unfold Binary64.Style.digits
  exact if_pos rfl

theorem quiet_write (x : Binary64) : Quiet (Value.scriptNumber.write x) := by
  unfold Binary64.Style.write
  split
  · exact quiet_ofList (by decide)
  · split <;> exact quiet_ofList (by decide)
  · next m q _ =>
    refine quiet_of_isDigit fun c hc => ?_
    dsimp only at hc
    rw [String.toList_ofList] at hc
    rcases List.mem_append.1 hc with hc | hc
    · split at hc
      · exact .inr (.inl (List.mem_singleton.1 hc))
      · exact absurd hc List.not_mem_nil
    · split at hc
      · exact (mem_positionalText (by simp) hc).imp_right .inr
      · rw [scriptNumber_digits] at hc
        refine (mem_positionalText (fun d hd => ?_) hc).imp_right .inr
        exact Nat.isDigit_of_mem_toDigits (by decide) (by decide) hd

theorem Value.Spelled.quiet {v : Value} (h : v.Spelled) : Quiet v.script := by
  cases v with
  | null => exact quiet_ofList (by decide)
  | bool b => cases b <;> exact quiet_ofList (by decide)
  | integer n => exact quiet_int _
  | float x => exact quiet_write x
  | string s => exact h.elim
  | ident name => exact IsName.quiet h

theorem quiet_primitive (p : Primitive) : Quiet p.name := by
  cases p <;> exact quiet_ofList (by decide)

theorem quiet_typedArray {p : Primitive} {array : String} (h : p.typedArray? = some array) :
    Quiet array := by
  cases p <;> cases h <;> exact quiet_ofList (by decide)

/-- A quiet text that neither is indented, nor closes a block, nor starts a getter. -/
def Statement (text : String) : Prop :=
  (text.toList.head?.any fun c => c ≠ ' ' ∧ c ≠ '\x7d' ∧ c ≠ 'g') = true ∧ Quiet text

theorem statement_ofList {c : Char} {cs : List Char} (hc : c ≠ ' ' ∧ c ≠ '\x7d' ∧ c ≠ 'g')
    (h : ((c :: cs).all fun d => decide (d ≠ '\n' ∧ d ≠ '$' ∧ d ≠ '\x7b')) = true) :
    Statement (String.ofList (c :: cs)) := by
  refine ⟨?_, quiet_ofList h⟩
  rw [String.toList_ofList, List.head?_cons, Option.any_some]
  exact decide_eq_true hc

theorem Statement.exists_cons {text : String} (h : Statement text) :
    ∃ c cs, text.toList = c :: cs ∧ c ≠ ' ' ∧ c ≠ '\x7d' ∧ c ≠ 'g' := by
  cases htext : text.toList with
  | nil =>
    have hstart := h.1
    rw [htext] at hstart
    cases hstart
  | cons c cs =>
    have hstart := h.1
    rw [htext, List.head?_cons, Option.any_some] at hstart
    exact ⟨c, cs, rfl, of_decide_eq_true hstart⟩

theorem Statement.leads {text : String} (h : Statement text) : Leads text := by
  obtain ⟨c, cs, htext, hspace, hbrace, -⟩ := h.exists_cons
  exact ⟨c, cs, htext, hspace, hbrace⟩

theorem Statement.append {text more : String} (h : Statement text) (hq : Quiet more) :
    Statement (text ++ more) := by
  obtain ⟨c, cs, htext, hc⟩ := h.exists_cons
  refine ⟨?_, quiet_append.2 ⟨h.2, hq⟩⟩
  rw [String.toList_append, htext, List.cons_append, List.head?_cons, Option.any_some]
  exact decide_eq_true hc

/-! ## Paths of classes -/

namespace Schema

def IsClass (s : Schema) (id : TypeId) : Prop :=
  ∃ t, s.types[id]? = some t ∧ (t.kind.isTable = true ∨ t.kind.isStruct = true)

/-- Where the text makes an object by a path from the root, the path is that of a class. -/
def OnlyClasses (s : Schema) (text : String) : Prop :=
  ∀ q : String, '(' ∉ q.toList → ("new $root." ++ q ++ "(").toList <:+: text.toList →
    ∃ id, s.IsClass id ∧ q = s.qualifiedName id

variable {s : Schema} {id : TypeId} {text : String}

theorem onlyClasses_of_not_mem (h : '$' ∉ text.toList) : s.OnlyClasses text := by
  intro q hq hnew
  refine absurd (hnew.subset ?_) h
  rw [String.toList_append, String.toList_append]
  refine List.mem_append_left _ (List.mem_append_left _ ?_)
  simp

theorem qualifiedName_idRest (hs : s.Spelled) (id : TypeId) :
    ∀ c ∈ (s.qualifiedName id).toList, isIdRest c = true := by
  intro c hc
  unfold qualifiedName at hc
  split at hc
  · next t ht =>
    have hname := (hs.name id t ht).idRest
    unfold qualify at hc
    split at hc
    · exact hname c hc
    · next hspace =>
      rw [String.toList_append, String.toList_append] at hc
      rcases List.mem_append.1 hc with hc | hc
      · rcases List.mem_append.1 hc with hc | hc
        · unfold namespaceName at hc hspace
          cases hn : s.namespaces[t.home]? with
          | none =>
            rw [hn] at hspace
            exact absurd rfl hspace
          | some n =>
            rw [hn] at hc hspace
            rcases hs.namespaces n (List.mem_of_getElem? hn) with hempty | hname
            · exact absurd hempty hspace
            · exact hname.idRest c hc
        · rw [List.mem_singleton.1 hc]
          rfl
      · exact hname c hc
  · exact absurd hc List.not_mem_nil

/-- A path ends at the first parenthesis behind the only dollar. -/
theorem onlyClasses_of_path (hs : s.Spelled) (hid : s.IsClass id) {front back : List Char}
    (hfront : '$' ∉ front) (hback : '$' ∉ back)
    (htext : text.toList = front ++ (s.classPath id).toList ++ '(' :: back) : s.OnlyClasses text := by
  intro q hq hnew
  have hpath := qualifiedName_idRest hs id
  have hopen : '(' ∉ (s.qualifiedName id).toList := fun h => absurd (hpath _ h) (by decide)
  have hdollar : '$' ∉ (s.qualifiedName id).toList := fun h => absurd (hpath _ h) (by decide)
  obtain ⟨u, v, huv⟩ := hnew
  have hsplit : (u ++ "new ".toList) ++ '$' :: ("root.".toList ++ (q.toList ++ '(' :: v)) =
      front ++ '$' :: ("root.".toList ++ ((s.qualifiedName id).toList ++ '(' :: back)) := by
    rw [htext, classPath] at huv
    simpa [String.toList_append] using huv
  have hrest : '$' ∉ "root.".toList ++ ((s.qualifiedName id).toList ++ '(' :: back) := by
    simp [hdollar, hback]
  obtain ⟨-, -, htail⟩ := (List.append_cons_inj_of_notMem hfront hrest).1 hsplit.symm
  have hcut := congrArg (Text.cut '(') (List.append_cancel_left htail)
  rw [Text.cut_append hopen, Text.cut_append hq] at hcut
  exact ⟨id, hid, String.toList_injective (List.cons.inj hcut).1.symm⟩

/-- Four characters between quotes spell no path from the root. -/
theorem onlyClasses_of_quoted {front word : List Char} (hfront : '$' ∉ front) (hword : word.length = 4)
    (htext : text.toList = front ++ word ++ ['\'', ')', ';']) : s.OnlyClasses text := by
  intro q hq hnew
  obtain ⟨u, v, huv⟩ := hnew
  have hsplit : (u ++ "new ".toList) ++ '$' :: ("root.".toList ++ (q.toList ++ '(' :: v)) =
      front ++ (word ++ ['\'', ')', ';']) := by
    rw [htext] at huv
    simpa [String.toList_append] using huv
  -- The dollar is one of the four characters, so the quote is at most four places behind it.
  obtain ⟨before, hbefore⟩ : ∃ before, word ++ ['\'', ')', ';'] =
      before ++ '$' :: ("root.".toList ++ (q.toList ++ '(' :: v)) := by
    rcases List.append_eq_append_iff.1 hsplit with ⟨as, hfront', has⟩ | ⟨bs, -, hbs⟩
    · cases as with
      | nil => exact ⟨[], has.symm⟩
      | cons a as =>
        obtain ⟨rfl, -⟩ := List.cons.inj has
        rw [hfront'] at hfront
        exact absurd (List.mem_append_right _ List.mem_cons_self) hfront
    · exact ⟨bs, hbs⟩
  rcases List.append_eq_append_iff.1 hbefore with ⟨as, -, has⟩ | ⟨cs, hcs, hrest⟩
  · have hmem : '$' ∈ ['\'', ')', ';'] := by
      rw [has]
      exact List.mem_append_right _ List.mem_cons_self
    exact absurd hmem (by decide)
  · cases cs with
    | nil => exact absurd (List.cons.inj hrest).1 (by decide)
    | cons c cs =>
      rw [List.cons_append] at hrest
      obtain ⟨rfl, htail⟩ := List.cons.inj hrest
      have hlen : cs.length ≤ 3 := by
        have hword' := congrArg List.length hcs
        rw [List.length_append, List.length_cons, hword] at hword'
        omega
      have hquote : cs ++ ['\''] <+: cs ++ ['\'', ')', ';'] :=
        (List.prefix_append_right_inj cs).2 ⟨[')', ';'], rfl⟩
      have hroot : "root.".toList <+: cs ++ ['\'', ')', ';'] := by
        rw [← htail]
        exact List.prefix_append _ _
      have hshort : (cs ++ ['\'']).length ≤ "root.".toList.length := by
        have hfive : "root.".toList.length = 5 := by simp
        rw [hfive, List.length_append, List.length_singleton]
        omega
      have hword' := List.prefix_of_prefix_length_le hquote hroot hshort
      have hmem := hword'.subset (List.mem_append_right cs (List.mem_singleton_self '\''))
      exact absurd hmem (by simp)

/-! ## Getters -/

/-- What holds of the lines inside a member. -/
def Inner (s : Schema) (text : String) : Prop :=
  s.OnlyClasses text ∧ text.toList.head? ≠ some 'g'

open Script

theorem inner_of_statement (h : Statement text) (more : String) (hmore : '$' ∉ more.toList) :
    s.Inner (text ++ more) := by
  obtain ⟨c, cs, htext, -, -, hc⟩ := h.exists_cons
  constructor
  · refine onlyClasses_of_not_mem ?_
    rw [String.toList_append, List.mem_append]
    exact not_or.2 ⟨fun hmem => (h.2 _ hmem).2.1 rfl, hmore⟩
  · rw [String.toList_append, htext, List.cons_append, List.head?_cons]
    exact fun hg => hc (Option.some.inj hg)

theorem nested_statement (h : Statement text) : Nested s.Inner [.top text] := by
  have hinner : s.Inner (text ++ "") := inner_of_statement h "" List.not_mem_nil
  rw [String.append_empty] at hinner
  refine .line h.leads (fun hmem => (h.2 _ hmem).1 rfl) ?_ hinner
  exact fun hlast => (h.2 _ (List.mem_of_getLast? hlast)).2.2 rfl

theorem nested_block {body : Script} (h : Statement text) (hbody : Nested s.Inner body) :
    Nested s.Inner (block text body "") := by
  refine .block h.leads (fun hmem => (h.2 _ hmem).1 rfl) List.not_mem_nil List.not_mem_nil
    (inner_of_statement h _ (by simp)) ⟨onlyClasses_of_not_mem ?_, ?_⟩ hbody
  · simp [closing]
  · simp [closing]

/-- A line that makes an object of a class. -/
theorem nested_path (hs : s.Spelled) (hid : s.IsClass id) {front back : String}
    (hfront : Statement front) (hback : Quiet back) (hopen : back.toList.head? = some '(') :
    Nested s.Inner [.top (front ++ s.classPath id ++ back)] := by
  obtain ⟨c, cs, htext, -, -, hc⟩ := hfront.exists_cons
  obtain ⟨rest, hrest⟩ := List.head?_eq_some_iff.1 hopen
  have hpath : Quiet (s.qualifiedName id) := quiet_of_idRest (qualifiedName_idRest hs id)
  have hchars : ∀ c ∈ (front ++ s.classPath id ++ back).toList, c ≠ '\n' ∧ c ≠ '\x7b' := by
    intro c hc
    unfold classPath at hc
    rw [String.toList_append, String.toList_append, String.toList_append, List.mem_append,
      List.mem_append, List.mem_append] at hc
    rcases hc with (hc | hc | hc) | hc
    · exact ⟨(hfront.2 c hc).1, (hfront.2 c hc).2.2⟩
    · exact (by simp : ∀ c ∈ "$root.".toList, c ≠ '\n' ∧ c ≠ '\x7b') c hc
    · exact ⟨(hpath c hc).1, (hpath c hc).2.2⟩
    · exact ⟨(hback c hc).1, (hback c hc).2.2⟩
  refine .line ((hfront.leads.append _).append _) (fun hmem => (hchars _ hmem).1 rfl)
    (fun hlast => (hchars _ (List.mem_of_getLast? hlast)).2 rfl) ⟨?_, ?_⟩
  · have hdollar : '$' ∉ rest := by
      intro hmem
      have hmem' : '$' ∈ back.toList := by
        rw [hrest]
        exact List.mem_cons_of_mem _ hmem
      exact (hback _ hmem').2.1 rfl
    refine onlyClasses_of_path hs hid (fun hmem => (hfront.2 _ hmem).2.1 rfl) hdollar ?_
    rw [String.toList_append, String.toList_append, hrest]
  · rw [String.toList_append, String.toList_append, htext, List.cons_append, List.cons_append,
      List.head?_cons]
    exact fun hg => hc (Option.some.inj hg)

variable {f : Field}

theorem nested_unsupported (hf : IsName f.name) : Nested s.Inner (unsupported f) := by
  have hfront : Statement "throw new Error(\"'" := statement_ofList (by decide) (by decide)
  have hback : Quiet "' is not supported.\");" := quiet_ofList (by decide)
  exact nested_statement ((hfront.append hf.quiet).append hback)

theorem nested_readSlot (f : Field) : Nested s.Inner [readSlot f] := by
  have hfront : Statement "const offset = this._reader.offset(this._offset, " :=
    statement_ofList (by decide) (by decide)
  have hback : Quiet ");" := quiet_ofList (by decide)
  exact nested_statement ((hfront.append (quiet_nat _)).append hback)

/-- The elements of a vector are objects of a class. -/
theorem nested_vectorLoop (hs : s.Spelled) (hid : s.IsClass id) {arguments : String}
    (hquiet : Quiet arguments) (hopen : arguments.toList.head? = some '(') :
    Nested s.Inner (vectorLoop (s.classPath id ++ arguments)) := by
  have hpush : Nested s.Inner
      [.top ("vector.push(new " ++ (s.classPath id ++ arguments) ++ ");")] := by
    have hback : Quiet (arguments ++ ");") := quiet_append.2 ⟨hquiet, quiet_ofList (by decide)⟩
    have hopen' : (arguments ++ ");").toList.head? = some '(' := by
      rw [String.toList_append, List.head?_append, hopen]
      rfl
    have hfront : Statement "vector.push(new " := statement_ofList (by decide) (by decide)
    have hpath := nested_path hs hid hfront hback hopen'
    rw [← String.append_assoc] at hpath ⊢
    exact hpath
  have hlength : Statement "const length = offset ? this._reader.length(this._offset + offset) : 0;" :=
    statement_ofList (by decide) (by decide)
  have hvector : Statement "const vector = [];" := statement_ofList (by decide) (by decide)
  have hloop : Statement "for (let i = 0; i < length; i++)" := statement_ofList (by decide) (by decide)
  have hreturn : Statement "return vector;" := statement_ofList (by decide) (by decide)
  exact .append (.append (.cons (nested_statement hlength) (nested_statement hvector))
    (nested_block hloop hpush)) (nested_statement hreturn)

theorem isClass_of_table (h : s.access f = .table id) : s.IsClass id := by
  unfold access at h
  split at h
  · cases h
  · split at h
    · cases h
    · next hkind =>
      cases h
      obtain ⟨t, ht, hk⟩ := Option.map_eq_some_iff.1 hkind
      exact ⟨t, ht, .inl (by rw [hk]; rfl)⟩
    · cases h
    · cases h
  · cases h

theorem isClass_of_struct {size : ByteCount} (h : s.access f = .struct id size) : s.IsClass id := by
  unfold access at h
  split at h
  · cases h
  · split at h
    · cases h
    · cases h
    · next hkind =>
      cases h
      obtain ⟨t, ht, hk⟩ := Option.map_eq_some_iff.1 hkind
      exact ⟨t, ht, .inr (by rw [hk]; rfl)⟩
    · cases h
  · cases h

theorem nested_vectorGetter (hs : s.Spelled) (hf : f.Spelled) :
    Nested s.Inner (s.vectorGetter f) := by
  unfold vectorGetter
  split
  · split
    · next array harray =>
      refine .cons (nested_readSlot f) (nested_statement ?_)
      have hfront : Statement "return offset ? new " := statement_ofList (by decide) (by decide)
      refine (((hfront.append (quiet_typedArray harray)).append ?_).append ?_).append ?_
      · exact quiet_ofList (by decide)
      · exact quiet_ofList (by decide)
      · exact quiet_ofList (by decide)
    · exact nested_unsupported hf.1
  · next id hid =>
    refine .cons (nested_readSlot f) ?_
    rw [String.append_assoc]
    refine nested_vectorLoop hs (isClass_of_table hid) (quiet_append.2 ⟨?_, ?_⟩) ?_
    · exact quiet_ofList (by decide)
    · exact quiet_ofList (by decide)
    · simp
  · next id size hid =>
    refine .cons (nested_readSlot f) ?_
    rw [String.append_assoc, String.append_assoc, String.append_assoc]
    refine nested_vectorLoop hs (isClass_of_struct hid) ?_ ?_
    · refine quiet_append.2 ⟨?_, quiet_append.2 ⟨?_, quiet_append.2 ⟨quiet_nat _, ?_⟩⟩⟩
      · exact quiet_ofList (by decide)
      · exact quiet_ofList (by decide)
      · exact quiet_ofList (by decide)
    · simp [String.toList_append]
  · exact nested_unsupported hf.1

theorem quiet_default (hf : f.Spelled) : Quiet ((f.default.map Value.script).getD "null") := by
  cases hd : f.default with
  | none => exact quiet_ofList (by decide)
  | some v => exact (hf.2 v hd).quiet

theorem nested_singleGetter (hs : s.Spelled) (hf : f.Spelled) :
    Nested s.Inner (s.singleGetter f) := by
  unfold singleGetter
  split
  · next p _ =>
    split
    · exact nested_unsupported hf.1
    · refine .cons (nested_readSlot f) (nested_statement ?_)
      have hfront : Statement "return offset ? this._reader." := statement_ofList (by decide) (by decide)
      refine (((hfront.append (quiet_primitive p)).append ?_).append (quiet_default hf)).append ?_
      · exact quiet_ofList (by decide)
      · exact quiet_ofList (by decide)
  · next id hid =>
    refine .cons (nested_readSlot f) (nested_path hs (isClass_of_table hid) ?_ ?_ ?_)
    · exact statement_ofList (by decide) (by decide)
    · exact quiet_ofList (by decide)
    · simp
  · next id size hid =>
    refine .cons (nested_readSlot f) (nested_path hs (isClass_of_struct hid) ?_ ?_ ?_)
    · exact statement_ofList (by decide) (by decide)
    · exact quiet_ofList (by decide)
    · simp
  · exact nested_unsupported hf.1

theorem nested_tableGetter (hs : s.Spelled) (hf : f.Spelled) :
    Nested s.Inner (s.tableGetter f) := by
  unfold tableGetter
  split
  · exact nested_vectorGetter hs hf
  · exact nested_singleGetter hs hf

theorem nested_structGetter (hs : s.Spelled) (hf : f.Spelled) :
    Nested s.Inner (s.structGetter f) := by
  unfold structGetter
  split
  · next p _ =>
    split
    · exact nested_unsupported hf.1
    · refine nested_statement ?_
      have hfront : Statement "return this._reader." := statement_ofList (by decide) (by decide)
      refine (((hfront.append (quiet_primitive p)).append ?_).append (quiet_nat _)).append ?_
      · exact quiet_ofList (by decide)
      · exact quiet_ofList (by decide)
  · next id size hid =>
    rw [String.append_assoc, String.append_assoc]
    refine nested_path hs (isClass_of_struct hid) (statement_ofList (by decide) (by decide)) ?_ ?_
    · refine quiet_append.2 ⟨?_, quiet_append.2 ⟨quiet_nat _, ?_⟩⟩
      · exact quiet_ofList (by decide)
      · exact quiet_ofList (by decide)
    · simp [String.toList_append]
  · exact nested_unsupported hf.1

end Schema

end FlatSchema
