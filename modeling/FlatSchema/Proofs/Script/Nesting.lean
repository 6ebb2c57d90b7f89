import FlatSchema.Script.Line
import FlatSchema.Proofs.Pieces
import Mathlib.Data.List.TakeWhile

/-!
# How the lines of a text nest

`nesting` reads the depth of every line off a text: a line that starts with a closing brace is one
less deep than the line before it, and the line after one that ends in an opening brace is one deeper.
`blocks` are the lines at depth 0 that open a block, with what stands inside.

A script is `Nested` if it is made of statements and blocks.  The lines of its text then nest as the
script says (`Nested.nesting_render`), and each is indented by its depth (`Nested.indentation`).
-/

namespace FlatSchema

/-! ## Lines of a text -/

def opens (line : String) : Bool :=
  line.toList.getLast? = some '\x7b'

def closes (line : String) : Bool :=
  (line.toList.dropWhile (· = ' ')).head? = some '\x7d'

def indentation (line : String) : Nat :=
  (line.toList.takeWhile (· = ' ')).length

/-- The lines with their depths, and the depth at the end.  There is none where a block is closed that
was not opened. -/
def nesting : Nat → List String → Option (List (Nat × String) × Nat)
  | depth, [] => some ([], depth)
  | depth, line :: lines =>
    if closes line ∧ depth = 0 then none
    else
      let here := if closes line then depth - 1 else depth
      (nesting (if opens line then here + 1 else here) lines).map fun r => ((here, line) :: r.1, r.2)

/-- The blocks at depth 0, each with its first line and the lines inside. -/
def blocks : List (Nat × String) → List (String × List (Nat × String))
  | [] => []
  | l :: ls =>
    if l.1 = 0 ∧ opens l.2 then (l.2, ls.takeWhile (0 < ·.1)) :: blocks ls else blocks ls

/-! ## Lines of a script -/

namespace Line

/-- The line as it stands in the text, with its depth. -/
def tag (l : Line) : Nat × String :=
  (l.depth, l.render)

def shift (depth : Nat) (l : Line) : Line :=
  { l with depth := l.depth + depth }

theorem shift_deeper (depth : Nat) (l : Line) : l.deeper.shift depth = l.shift (depth + 1) := by
  unfold deeper shift
  rw [Nat.add_right_comm]
  rfl

/-- The line as it stands inside `depth` blocks, with its depth in the innermost. -/
def tagIn (depth : Nat) (l : Line) : Nat × String :=
  (l.depth, (l.shift depth).render)

end Line

/-- The text neither is indented nor closes a block. -/
def Leads (text : String) : Prop :=
  ∃ c cs, text.toList = c :: cs ∧ c ≠ ' ' ∧ c ≠ '\x7d'

/-- The text of a closing line. -/
def closing (tail : String) : String :=
  "\x7d" ++ tail

namespace Script

/-- Statements and blocks, where `P` holds of the text of every line but the empty ones. -/
inductive Nested (P : String → Prop) : Script → Prop where
  | nil : Nested P []
  | blank : Nested P [.blank]
  | line {text : String} (hlead : Leads text) (hfeed : '\n' ∉ text.toList)
      (hlast : text.toList.getLast? ≠ some '\x7b') (hp : P text) : Nested P [.top text]
  | block {head tail : String} {body : Script} (hlead : Leads head) (hfeed : '\n' ∉ head.toList)
      (hfeed' : '\n' ∉ tail.toList) (hlast : '\x7b' ∉ tail.toList) (hp : P (head ++ " \x7b"))
      (hp' : P (closing tail)) (h : Nested P body) : Nested P (block head body tail)
  | append {a b : Script} (ha : Nested P a) (hb : Nested P b) : Nested P (a ++ b)

end Script

/-! ## Rendered lines -/

theorem Leads.ne_empty {text : String} (h : Leads text) : text ≠ "" := by
  obtain ⟨c, cs, htext, -⟩ := h
  rintro rfl
  cases htext

theorem leads_ofList {c : Char} {cs : List Char} (hspace : c ≠ ' ') (hbrace : c ≠ '\x7d') :
    Leads (String.ofList (c :: cs)) :=
  ⟨c, cs, String.toList_ofList, hspace, hbrace⟩

theorem Leads.append {text : String} (h : Leads text) (more : String) : Leads (text ++ more) := by
  obtain ⟨c, cs, htext, hc⟩ := h
  exact ⟨c, cs ++ more.toList, by rw [String.toList_append, htext, List.cons_append], hc⟩

theorem toList_render {depth : Nat} {text : String} (h : text ≠ "") :
    (Line.render ⟨depth, text⟩).toList = List.replicate (4 * depth) ' ' ++ text.toList := by
  rw [Line.render, if_neg h, String.toList_append, String.toList_ofList]

theorem dropWhile_render {depth : Nat} {text : String} {c : Char} {cs : List Char}
    (h : text.toList = c :: cs) (hc : c ≠ ' ') :
    (Line.render ⟨depth, text⟩).toList.dropWhile (· = ' ') = text.toList := by
  have hne : text ≠ "" := by
    rintro rfl
    cases h
  rw [toList_render hne, List.dropWhile_append_of_pos fun a ha => by simp [List.eq_of_mem_replicate ha],
    h, List.dropWhile_cons_of_neg (by simpa using hc)]

theorem indentation_render {depth : Nat} {text : String} {c : Char} {cs : List Char}
    (h : text.toList = c :: cs) (hc : c ≠ ' ') : indentation (Line.render ⟨depth, text⟩) = 4 * depth := by
  have hne : text ≠ "" := by
    rintro rfl
    cases h
  rw [indentation, toList_render hne,
    List.takeWhile_append_of_pos fun a ha => by simp [List.eq_of_mem_replicate ha],
    h, List.takeWhile_cons_of_neg (by simpa using hc), List.append_nil, List.length_replicate]

theorem closes_render {depth : Nat} {text : String} (h : Leads text) :
    closes (Line.render ⟨depth, text⟩) = false := by
  obtain ⟨c, cs, htext, hspace, hbrace⟩ := h
  rw [closes, dropWhile_render htext hspace, htext, List.head?_cons]
  simpa using hbrace

theorem closes_closing (depth : Nat) (tail : String) :
    closes (Line.render ⟨depth, closing tail⟩) = true := by
  have htext : (closing tail).toList = '\x7d' :: tail.toList := by
    rw [closing, String.toList_append]
    rfl
  rw [closes, dropWhile_render htext (by decide), htext]
  rfl

theorem opens_append (text : String) {more : String} (h : more ≠ "") :
    opens (text ++ more) = opens more := by
  have hne : more.toList ≠ [] := by simpa using h
  rw [opens, opens, String.toList_append, List.getLast?_append, List.getLast?_eq_some_getLast hne]
  rfl

theorem opens_render {depth : Nat} {text : String} (h : text ≠ "") :
    opens (Line.render ⟨depth, text⟩) = opens text := by
  rw [Line.render, if_neg h, opens_append _ h]

theorem opens_closing {tail : String} (h : '\x7b' ∉ tail.toList) : opens (closing tail) = false := by
  rw [opens, closing, String.toList_append, decide_eq_false_iff_not]
  intro hlast
  have hmem := List.mem_of_getLast? hlast
  rcases List.mem_append.1 hmem with hmem | hmem
  · exact absurd hmem (by simp)
  · exact h hmem

theorem closing_ne_empty (tail : String) : closing tail ≠ "" := by
  intro h
  have hlist := congrArg String.toList h
  rw [closing, String.toList_append] at hlist
  exact absurd (List.append_eq_nil_iff.1 hlist).1 (by simp)

/-! ## Nested scripts -/

theorem nesting_cons_of_leads {depth : Nat} {line : String} (h : closes line = false)
    (lines : List String) : nesting depth (line :: lines) =
      (nesting (if opens line then depth + 1 else depth) lines).map
        fun r => ((depth, line) :: r.1, r.2) := by
  rw [nesting, h]
  simp

theorem nesting_cons_of_closes {depth : Nat} {line : String} (h : closes line = true)
    (ho : opens line = false) (lines : List String) : nesting (depth + 1) (line :: lines) =
      (nesting depth lines).map fun r => ((depth, line) :: r.1, r.2) := by
  rw [nesting, h, ho]
  simp

namespace Script

variable {P Q : String → Prop} {s a b : Script}

theorem Nested.imp (h : Nested P s) (hpq : ∀ text, P text → Q text) : Nested Q s := by
  induction h with
  | nil => exact .nil
  | blank => exact .blank
  | line hlead hfeed hlast hp => exact .line hlead hfeed hlast (hpq _ hp)
  | block hlead hfeed hfeed' hlast hp hp' _ ih =>
    exact .block hlead hfeed hfeed' hlast (hpq _ hp) (hpq _ hp') ih
  | append _ _ iha ihb => exact .append iha ihb

theorem Nested.cons {l : Line} (hl : Nested P [l]) (h : Nested P s) : Nested P (l :: s) :=
  .append hl h

theorem Nested.flatMap {α : Type} {xs : List α} {f : α → Script} (h : ∀ x ∈ xs, Nested P (f x)) :
    Nested P (xs.flatMap f) := by
  induction xs with
  | nil => exact .nil
  | cons x xs ih =>
    rw [List.flatMap_cons]
    exact .append (h x List.mem_cons_self) (ih fun y hy => h y (List.mem_cons_of_mem x hy))

/-- A block, at any depth. -/
theorem map_shift_block (depth : Nat) (head tail : String) (body : Script) :
    (block head body tail).map (Line.shift depth) =
      ⟨depth, head ++ " \x7b"⟩ :: body.map (Line.shift (depth + 1)) ++ [⟨depth, closing tail⟩] := by
  have hdeeper : (body.map Line.deeper).map (Line.shift depth) = body.map (Line.shift (depth + 1)) := by
    rw [List.map_map]
    exact List.map_congr_left fun l _ => l.shift_deeper depth
  rw [block, List.map_append, List.map_cons, hdeeper]
  simp [Line.shift, Line.top, closing]

theorem opens_head (head : String) : opens (head ++ " \x7b") = true := by
  rw [opens_append _ (by decide)]
  simp [opens]

/-- Where a nested script stands, the lines after it nest as if it were not there. -/
theorem Nested.nesting_append (h : Nested P s) : ∀ (depth : Nat) (lines : List String),
    nesting depth ((s.map (Line.shift depth)).map Line.render ++ lines) =
      (nesting depth lines).map fun r => ((s.map (Line.shift depth)).map Line.tag ++ r.1, r.2) := by
  induction h with
  | nil =>
    intro depth lines
    exact (congrFun Option.map_id _).symm
  | blank =>
    intro depth lines
    have hline : nesting depth ("" :: lines) =
        (nesting depth lines).map fun r => ((depth, "") :: r.1, r.2) :=
      nesting_cons_of_leads rfl lines
    simpa [Line.blank, Line.shift, Line.render, Line.tag] using hline
  | @line text hlead hfeed hlast hp =>
    intro depth lines
    have hopens : opens (Line.render ⟨depth, text⟩) = false := by
      rw [opens_render hlead.ne_empty]
      simpa [opens] using hlast
    have hline : nesting depth (Line.render ⟨depth, text⟩ :: lines) = _ :=
      nesting_cons_of_leads (closes_render hlead) lines
    rw [hopens] at hline
    simpa [Line.top, Line.shift, Line.tag] using hline
  | @block head tail body hlead hfeed hfeed' hlast hp hp' h ih =>
    intro depth lines
    have hhead := hlead.append " \x7b"
    have hopens : opens (Line.render ⟨depth, head ++ " \x7b"⟩) = true := by
      rw [opens_render hhead.ne_empty, opens_head]
    have hcloses : opens (Line.render ⟨depth, closing tail⟩) = false := by
      rw [opens_render (closing_ne_empty tail), opens_closing hlast]
    rw [map_shift_block, List.map_append, List.map_cons, List.cons_append, List.cons_append,
      List.append_assoc, nesting_cons_of_leads (closes_render hhead), hopens, if_pos rfl, ih,
      List.map_singleton, List.singleton_append,
      nesting_cons_of_closes (closes_closing depth tail) hcloses, Option.map_map, Option.map_map]
    congr 1
    funext r
    simp [Line.tag]
  | append _ _ iha ihb =>
    intro depth lines
    rw [List.map_append, List.map_append, List.append_assoc, iha, ihb, Option.map_map]
    congr 1
    funext r
    simp

/-- What holds of every line. -/
theorem Nested.mem (h : Nested P s) : ∀ l ∈ s, l.text = "" ∨
    P l.text ∧ '\n' ∉ l.text.toList ∧ ∃ c cs, l.text.toList = c :: cs ∧ c ≠ ' ' := by
  induction h with
  | nil => exact fun l hl => absurd hl List.not_mem_nil
  | blank =>
    intro l hl
    rw [List.mem_singleton.1 hl]
    exact .inl rfl
  | line hlead hfeed hlast hp =>
    intro l hl
    obtain ⟨c, cs, htext, hspace, -⟩ := hlead
    rw [List.mem_singleton.1 hl]
    exact .inr ⟨hp, hfeed, c, cs, htext, hspace⟩
  | @block head tail body hlead hfeed hfeed' hlast hp hp' h ih =>
    obtain ⟨c, cs, hhead, hspace, -⟩ := hlead.append " \x7b"
    intro l hl
    rcases List.mem_append.1 hl with hl | hl
    · rcases List.mem_cons.1 hl with rfl | hl
      · refine .inr ⟨hp, ?_, c, cs, hhead, hspace⟩
        rw [Line.top, String.toList_append, List.mem_append]
        exact not_or.2 ⟨hfeed, by simp⟩
      · obtain ⟨l', hl', rfl⟩ := List.mem_map.1 hl
        exact ih l' hl'
    · rw [List.mem_singleton.1 hl]
      refine .inr ⟨hp', ?_, '\x7d', tail.toList, ?_, by decide⟩
      · rw [Line.top, String.toList_append, List.mem_append]
        exact not_or.2 ⟨by simp, hfeed'⟩
      · rw [Line.top, String.toList_append]
        rfl
  | append _ _ iha ihb =>
    intro l hl
    rcases List.mem_append.1 hl with hl | hl
    · exact iha l hl
    · exact ihb l hl

theorem Nested.indentation (h : Nested P s) {l : Line} (hl : l ∈ s) :
    l.render = "" ∨ FlatSchema.indentation l.render = 4 * l.depth := by
  rcases h.mem l hl with htext | ⟨-, -, c, cs, htext, hc⟩
  · rw [Line.render, if_pos htext]
    exact .inl rfl
  · exact .inr (indentation_render htext hc)

/-! ## Rendered scripts -/

theorem toList_render_cons (l : Line) (s : Script) :
    (render (l :: s)).toList = l.render.toList ++ '\n' :: (render s).toList := by
  simp [render, String.join_cons, String.toList_append]

theorem pieces_render (h : ∀ l ∈ s, '\n' ∉ l.render.toList) :
    Text.pieces '\n' (render s) = s.map Line.render ++ [""] := by
  induction s with
  | nil => rfl
  | cons l s ih =>
    have hrest := ih fun l' hl' => h l' (List.mem_cons_of_mem l hl')
    unfold Text.pieces at hrest ⊢
    rw [toList_render_cons, Text.cut_append (h l List.mem_cons_self), List.map_cons, hrest,
      String.ofList_toList, List.map_cons, List.cons_append]

theorem Nested.feed (h : Nested P s) : ∀ l ∈ s, '\n' ∉ l.render.toList := by
  intro l hl
  rw [Line.render]
  split
  · exact List.not_mem_nil
  · next hne =>
    rcases h.mem l hl with htext | ⟨-, hfeed, -⟩
    · exact absurd htext hne
    · rw [String.toList_append, String.toList_ofList, List.mem_append]
      exact not_or.2 ⟨fun hmem => absurd (List.eq_of_mem_replicate hmem) (by decide), hfeed⟩

/-- The lines of the text nest as the script says. -/
theorem Nested.nesting_render (h : Nested P s) :
    nesting 0 (Text.pieces '\n' (render s)) = some (s.map Line.tag ++ [(0, "")], 0) := by
  have happend := h.nesting_append 0 [""]
  have hshift : s.map (Line.shift 0) = s := List.map_id s
  rw [hshift] at happend
  rw [pieces_render h.feed, happend]
  rfl

/-! ## Blocks -/

theorem render_top (text : String) : (Line.top text).render = text := by
  unfold Line.top Line.render
  split
  · next h => exact h.symm
  · exact String.empty_append

theorem blocks_cons_of_not {l : Nat × String} (h : opens l.2 = false) (ls : List (Nat × String)) :
    blocks (l :: ls) = blocks ls := by
  rw [blocks, h]
  simp

theorem blocks_append_of_pos {ms : List (Nat × String)} (h : ∀ l ∈ ms, 0 < l.1)
    (ls : List (Nat × String)) : blocks (ms ++ ls) = blocks ls := by
  induction ms with
  | nil => rfl
  | cons m ms ih =>
    have hm := h m List.mem_cons_self
    rw [List.cons_append, blocks, if_neg (by omega), ih fun l hl => h l (List.mem_cons_of_mem m hl)]

/-- A block shows up with its head and its body, also inside of other blocks. -/
theorem blocks_block_in (depth : Nat) {head tail : String} (body : Script)
    (htail : '\x7b' ∉ tail.toList) (ls : List (Nat × String)) :
    blocks ((block head body tail).map (Line.tagIn depth) ++ ls) =
      (Line.render ⟨depth, head ++ " \x7b"⟩, (body.map Line.deeper).map (Line.tagIn depth)) ::
        blocks ls := by
  have hpos : ∀ l ∈ (body.map Line.deeper).map (Line.tagIn depth), 0 < l.1 := by
    intro l hl
    rw [List.map_map] at hl
    obtain ⟨l', -, rfl⟩ := List.mem_map.1 hl
    exact Nat.succ_pos l'.depth
  have hopens : opens (Line.render ⟨depth, head ++ " \x7b"⟩) = true := by
    rw [opens_render (by simp), opens_head]
  let last : Nat × String := (0, Line.render ⟨depth, closing tail⟩)
  have hcloses : opens last.2 = false := by
    rw [opens_render (closing_ne_empty tail), opens_closing htail]
  have hlines : (block head body tail).map (Line.tagIn depth) ++ ls =
      (0, Line.render ⟨depth, head ++ " \x7b"⟩) ::
        ((body.map Line.deeper).map (Line.tagIn depth) ++ last :: ls) := by
    rw [block, List.map_append, List.map_cons, List.cons_append, List.cons_append, List.append_assoc]
    simp only [Line.tagIn, Line.shift, Line.top, Nat.zero_add, List.map_cons, List.map_nil,
      List.singleton_append]
    rfl
  rw [hlines, blocks, if_pos ⟨rfl, hopens⟩, blocks_append_of_pos hpos, blocks_cons_of_not hcloses,
    List.takeWhile_append_of_pos (by simpa using hpos), List.takeWhile_cons_of_neg (by simp [last]),
    List.append_nil]

theorem blocks_block {head tail : String} (body : Script) (htail : '\x7b' ∉ tail.toList)
    (ls : List (Nat × String)) : blocks ((block head body tail).map Line.tag ++ ls) =
      (head ++ " \x7b", (body.map Line.deeper).map Line.tag) :: blocks ls := by
  have hhead : Line.render ⟨0, head ++ " \x7b"⟩ = head ++ " \x7b" := render_top _
  have hblock : blocks ((block head body tail).map (Line.tagIn 0) ++ ls) = _ :=
    blocks_block_in 0 body htail ls
  rw [hhead] at hblock
  exact hblock

end Script

end FlatSchema
