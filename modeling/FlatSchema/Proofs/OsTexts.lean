import FlatSchema.Proofs.Pieces
import FlatSchema.Text.Os
import Mathlib.Algebra.Group.Nat.Defs

/-!
# What is shown of a text of the operating system

A text is shown as itself (`display_ofText`), so that texts are told apart by what they show.  Of other
bytes more than one may show alike.  But a byte below 128 shows as its character and as nothing else does,
so that slashes and dots can be told from what is shown (`segments_shown`, `display_eq_iff`).
-/

namespace FlatSchema.OsText

/-! ## Steps -/

/-- The character is shown for its own byte only. -/
def Plain (c : Char) : Prop :=
  0 < c.toNat ∧ c.toNat < 0x80

/-- The character that has begun needs more than one byte. -/
def Begun.Wide (begun : Begun) : Prop :=
  0x80 ≤ (64 * begun.value + begun.low) * 64 ^ begun.behind

variable {begun : Option Begun} {b : Nat}

theorem step_low (begun : Option Begun) (hb : b < 0x80) :
    step begun b = (ended begun ++ [Char.ofNat b], none) := by
  have hfirst : first b = ([Char.ofNat b], none) := if_pos hb
  cases begun with
  | none => exact hfirst
  | some g =>
    have hrange : ¬ (0x80 + g.low ≤ b ∧ b ≤ 0x80 + g.high) := by omega
    rw [step, if_neg hrange, hfirst]
    rfl

theorem not_plain_replacement : ¬ Plain replacement :=
  fun h => absurd h.2 (by decide)

theorem toNat_ofNat (h : b.isValidChar) : (Char.ofNat b).toNat = b := by
  rw [Char.ofNat, dif_pos h]
  rfl

theorem not_plain_ofNat (h : 0x80 ≤ b) : ¬ Plain (Char.ofNat b) := by
  rintro ⟨hpos, hlt⟩
  by_cases hvalid : b.isValidChar
  · rw [toNat_ofNat hvalid] at hlt
    omega
  · -- a number that is no character reads as NUL
    rw [Char.ofNat, dif_neg hvalid] at hpos
    exact absurd hpos (by decide)

theorem wide_of_begun? {g : Begun} (h : begun? b = some g) : g.Wide := by
  unfold begun? at h
  split at h
  · obtain rfl := Option.some.inj h
    unfold Begun.Wide
    dsimp only
    omega
  · split at h
    · obtain rfl := Option.some.inj h
      unfold Begun.Wide
      dsimp only
      split <;> omega
    · split at h
      · obtain rfl := Option.some.inj h
        unfold Begun.Wide
        dsimp only
        split <;> omega
      · cases h

theorem first_high (hb : 0x80 ≤ b) : (∀ c ∈ (first b).1, ¬ Plain c) ∧ (∀ g ∈ (first b).2, g.Wide) ∧
    ((first b).2 = none → (first b).1 ≠ []) := by
  rw [first, if_neg (by omega)]
  cases h : begun? b with
  | none => simpa using not_plain_replacement
  | some g => simpa using wide_of_begun? h

/-- A byte from 128 on shows nothing plain, and something unless a character has begun. -/
theorem step_high (hbegun : ∀ g ∈ begun, g.Wide) (hb : 0x80 ≤ b) :
    (∀ c ∈ (step begun b).1, ¬ Plain c) ∧ (∀ g ∈ (step begun b).2, g.Wide) ∧
      ((step begun b).2 = none → (step begun b).1 ≠ []) := by
  cases begun with
  | none => exact first_high hb
  | some g =>
    have hwide := hbegun g rfl
    obtain ⟨value, behind, low, high⟩ := g
    unfold Begun.Wide at hwide
    dsimp only at hwide
    rw [step]
    split
    · next hrange =>
      dsimp only at hrange ⊢
      have hvalue : 64 * value + low ≤ 64 * value + (b - 0x80) := by omega
      cases behind with
      | zero =>
        have hlarge : ¬ Plain (Char.ofNat (64 * value + (b - 0x80))) := not_plain_ofNat (by omega)
        simpa using hlarge
      | succ behind =>
        have hnext : Begun.Wide ⟨64 * value + (b - 0x80), behind, 0, 0x3f⟩ := by
          unfold Begun.Wide
          dsimp only
          calc 0x80 ≤ (64 * value + low) * 64 ^ (behind + 1) := hwide
            _ ≤ (64 * value + (b - 0x80)) * 64 ^ (behind + 1) := Nat.mul_le_mul_right _ hvalue
            _ = (64 * (64 * value + (b - 0x80)) + 0) * 64 ^ behind := by
              rw [Nat.pow_succ', ← Nat.mul_assoc, Nat.mul_comm 64 (64 * value + (b - 0x80)), Nat.add_zero]
        simpa using hnext
    · obtain ⟨hplain, hnext, -⟩ := first_high hb
      refine ⟨fun c hc => ?_, hnext, fun _ => List.cons_ne_nil _ _⟩
      rcases List.mem_cons.1 hc with rfl | hc
      · exact not_plain_replacement
      · exact hplain c hc

/-! ## Slashes and other plain characters -/

theorem decode_low {c : UInt8} (hc : c.toNat < 0x80) (begun : Option Begun) (as bs : List UInt8) :
    decode begun (as ++ c :: bs) = decode begun as ++ Char.ofNat c.toNat :: decode none bs := by
  induction as generalizing begun with
  | nil =>
    rw [List.nil_append, decode.eq_2, step_low begun hc, decode.eq_1, List.append_assoc,
      List.singleton_append]
  | cons a as ih => rw [List.cons_append, decode, ih, decode, List.append_assoc]

theorem mem_of_mem_decode {c : Char} (hc : Plain c) (hbegun : ∀ g ∈ begun, g.Wide) {bs : List UInt8}
    (h : c ∈ decode begun bs) : UInt8.ofNat c.toNat ∈ bs := by
  induction bs generalizing begun with
  | nil =>
    cases begun with
    | none => cases h
    | some g =>
      rw [decode, ended, List.mem_singleton] at h
      exact absurd (h ▸ hc) not_plain_replacement
  | cons b bs ih =>
    rw [decode, List.mem_append] at h
    by_cases hb : b.toNat < 0x80
    · rw [step_low begun hb] at h
      rcases h with h | h
      · rcases List.mem_append.1 h with h | h
        · cases begun with
          | none => cases h
          | some g => exact absurd (List.mem_singleton.1 h ▸ hc) not_plain_replacement
        · rw [List.mem_singleton.1 h, toNat_ofNat (.inl (by omega)), UInt8.ofNat_toNat]
          exact List.mem_cons_self
      · exact List.mem_cons_of_mem b (ih (by simp) h)
    · obtain ⟨hplain, hnext, -⟩ := step_high hbegun (Nat.le_of_not_lt hb)
      rcases h with h | h
      · exact absurd hc (hplain c h)
      · exact List.mem_cons_of_mem b (ih hnext h)

/-- Where only plain characters are shown, they are the bytes. -/
theorem eq_of_decode (hbegun : ∀ g ∈ begun, g.Wide) {bs : List UInt8}
    (h : ∀ c ∈ decode begun bs, Plain c) :
    begun = none ∧ bs = (decode begun bs).map fun c => UInt8.ofNat c.toNat := by
  induction bs generalizing begun with
  | nil =>
    cases begun with
    | none => exact ⟨rfl, rfl⟩
    | some g => exact absurd (h replacement List.mem_cons_self) not_plain_replacement
  | cons b bs ih =>
    rw [decode] at h ⊢
    by_cases hb : b.toNat < 0x80
    · rw [step_low begun hb] at h ⊢
      have hnone : begun = none := by
        cases begun with
        | none => rfl
        | some g => exact absurd (h replacement (by simp [ended])) not_plain_replacement
      obtain ⟨-, hbs⟩ := ih (by simp) fun c hc => h c (List.mem_append_right _ hc)
      have hnat : (Char.ofNat b.toNat).toNat = b.toNat := toNat_ofNat (.inl (by omega))
      refine ⟨hnone, ?_⟩
      rw [hnone, ended, List.nil_append, List.singleton_append, List.map_cons, ← hbs, hnat,
        UInt8.ofNat_toNat]
    · obtain ⟨hplain, hnext, hshows⟩ := step_high hbegun (Nat.le_of_not_lt hb)
      obtain ⟨hnone, -⟩ := ih hnext fun c hc => h c (List.mem_append_right _ hc)
      obtain ⟨c, cs, hcs⟩ := List.exists_cons_of_ne_nil (hshows hnone)
      have hc : c ∈ (step begun b.toNat).1 := by rw [hcs]; exact List.mem_cons_self
      exact absurd (h c (List.mem_append_left _ hc)) (hplain c hc)

/-! ## Encoded characters -/

theorem first_two {n : Nat} (h : 2 ≤ n ∧ n < 0x20) : first (n + 0xc0) = ([], some ⟨n, 0, 0, 0x3f⟩) := by
  rw [first, if_neg (by omega), begun?, if_pos (by omega), Nat.add_sub_cancel]

theorem first_three {n : Nat} (h : n < 0x10) : first (n + 0xe0) =
    ([], some ⟨n, 1, if n = 0 then 0x20 else 0, if n = 0xd then 0x1f else 0x3f⟩) := by
  rw [first, if_neg (by omega), begun?, if_neg (by omega), if_pos (by omega), Nat.add_sub_cancel]
  simp only [Nat.add_eq_right, show n + 0xe0 = 0xed ↔ n = 0xd by omega]

theorem first_four {n : Nat} (h : n < 5) : first (n + 0xf0) =
    ([], some ⟨n, 2, if n = 0 then 0x10 else 0, if n = 4 then 0x0f else 0x3f⟩) := by
  rw [first, if_neg (by omega), begun?, if_neg (by omega), if_neg (by omega), if_pos (by omega),
    Nat.add_sub_cancel]
  simp only [Nat.add_eq_right, show n + 0xf0 = 0xf4 ↔ n = 4 by omega]

theorem step_last {value low high n : Nat} (h : low ≤ n ∧ n ≤ high) :
    step (some ⟨value, 0, low, high⟩) (n + 0x80) = ([Char.ofNat (64 * value + n)], none) := by
  rw [step, if_pos (by dsimp only; omega), Nat.add_sub_cancel]

theorem step_more {value behind low high n : Nat} (h : low ≤ n ∧ n ≤ high) :
    step (some ⟨value, behind + 1, low, high⟩) (n + 0x80) =
      ([], some ⟨64 * value + n, behind, 0, 0x3f⟩) := by
  rw [step, if_pos (by dsimp only; omega), Nat.add_sub_cancel]

/-- A byte that is written out as a number. -/
theorem decode_cons {n : Nat} (hn : n < 256) (begun : Option Begun) (bs : List UInt8) :
    decode begun (UInt8.ofNat n :: bs) = (step begun n).1 ++ decode (step begun n).2 bs := by
  rw [decode, UInt8.toNat_ofNat_of_lt' hn]

theorem decode_utf8EncodeChar (c : Char) (bs : List UInt8) :
    decode none (String.utf8EncodeChar c ++ bs) = c :: decode none bs := by
  have hvalid : c.toNat < 0xd800 ∨ 0xdfff < c.toNat ∧ c.toNat < 0x110000 := c.valid
  unfold String.utf8EncodeChar
  change c.val.toNat < 0xd800 ∨ 0xdfff < c.val.toNat ∧ c.val.toNat < 0x110000 at hvalid
  dsimp only
  generalize hv : c.val.toNat = v at hvalid
  have hchar {w : Nat} (hw : w = v) : Char.ofNat w = c := by
    rw [hw, ← hv]
    exact Char.ofNat_toNat c
  split
  · next h =>
    rw [List.singleton_append, decode_cons (by omega), step_low none (by omega), hchar rfl]
    rfl
  · split
    · next h h' =>
      have hlead : v / 64 % 32 + 192 = v / 64 + 0xc0 := by omega
      simp only [List.cons_append, List.nil_append]
      rw [hlead, decode_cons (by omega), step, first_two (by omega), decode_cons (by omega),
        step_last (by omega), hchar (by omega)]
      rfl
    · split
      · next h h' h'' =>
        have hlead : v / 4096 % 16 + 224 = v / 4096 + 0xe0 := by omega
        simp only [List.cons_append, List.nil_append]
        rw [hlead, decode_cons (by omega), step, first_three (by omega), decode_cons (by omega),
          step_more (by split <;> split <;> omega), decode_cons (by omega), step_last (by omega),
          hchar (by omega)]
        rfl
      · next h h' h'' =>
        have hlead : v / 262144 % 8 + 240 = v / 262144 + 0xf0 := by omega
        simp only [List.cons_append, List.nil_append]
        rw [hlead, decode_cons (by omega), step, first_four (by omega), decode_cons (by omega),
          step_more (by split <;> split <;> omega), decode_cons (by omega), step_more (by omega),
          decode_cons (by omega), step_last (by omega), hchar (by omega)]
        rfl

/-! ## Texts -/

variable {t : OsText} {s : String}

theorem decode_flatMap (cs : List Char) : decode none (cs.flatMap String.utf8EncodeChar) = cs := by
  induction cs with
  | nil => rfl
  | cons c cs ih => rw [List.flatMap_cons, decode_utf8EncodeChar, ih]

@[simp] theorem display_ofText (s : String) : (ofText s).display = s := by
  rw [display, ofText, decode_flatMap, String.ofList_toList]

theorem ofText_inj {s s' : String} : ofText s = ofText s' ↔ s = s' := by
  constructor
  · intro h
    rw [← display_ofText s, h, display_ofText]
  · exact congrArg ofText

/-- The bytes are the encoding of a text. -/
def IsText (t : OsText) : Prop :=
  ofText t.display = t

instance (t : OsText) : Decidable t.IsText :=
  inferInstanceAs (Decidable (_ = _))

theorem isText_ofText (s : String) : (ofText s).IsText := by
  rw [IsText, display_ofText]

theorem display_eq_iff (hs : ∀ c ∈ s.toList, Plain c) : t.display = s ↔ t = ofText s := by
  constructor
  · intro h
    have hcs : decode none t.bytes = s.toList := by rw [← h, display, String.toList_ofList]
    obtain ⟨-, hbytes⟩ := eq_of_decode (by simp) fun c hc => hs c (hcs ▸ hc)
    have hcodes : ∀ cs : List Char, (∀ c ∈ cs, Plain c) →
        cs.map (fun c => UInt8.ofNat c.toNat) = cs.flatMap String.utf8EncodeChar := by
      intro cs hplain
      induction cs with
      | nil => rfl
      | cons c cs ih =>
        have hc : c.val.toNat ≤ 127 := Nat.le_of_lt_succ (hplain c List.mem_cons_self).2
        rw [List.map_cons, List.flatMap_cons, ih fun d hd => hplain d (List.mem_cons_of_mem c hd),
          String.utf8EncodeChar, if_pos hc]
        rfl
    obtain ⟨bytes⟩ := t
    rw [hcs, hcodes _ hs] at hbytes
    exact congrArg mk hbytes
  · rintro rfl
    exact display_ofText s

/-! ## Slashes between -/

theorem segments_ne_nil (t : OsText) : t.segments ≠ [] := by
  simp [segments, Text.cut_ne_nil]

theorem slash_not_mem_of_mem {part : OsText} (h : part ∈ t.segments) : slash ∉ part.bytes := by
  obtain ⟨bs, hbs, rfl⟩ := List.mem_map.1 h
  exact Text.not_mem_of_mem_cut hbs

theorem segments_joined {ts : List OsText} (hts : ts ≠ []) (h : ∀ t ∈ ts, slash ∉ t.bytes) :
    (joined ts).segments = ts := by
  rw [segments, joined, Text.cut_glue (by simpa using hts)]
  · rw [List.map_map]
    exact List.map_id ts
  · intro bs hbs
    obtain ⟨t, ht, rfl⟩ := List.mem_map.1 hbs
    exact h t ht

theorem joined_segments (t : OsText) : joined t.segments = t := by
  have hbytes : t.segments.map bytes = Text.cut slash t.bytes := by
    rw [segments, List.map_map]
    exact List.map_id _
  rw [joined, hbytes, Text.glue_cut]

theorem bytes_append_slash (a b : OsText) :
    (a ++ ofText "/" ++ b).bytes = a.bytes ++ slash :: b.bytes := by
  show a.bytes ++ [slash] ++ b.bytes = _
  rw [List.append_assoc, List.singleton_append]

theorem segments_append (a b : OsText) :
    (a ++ ofText "/" ++ b).segments = a.segments ++ b.segments := by
  rw [segments, bytes_append_slash, Text.cut_append_sep, List.map_append]
  rfl

theorem joined_append {ts us : List OsText} (hts : ts ≠ []) (hus : us ≠ []) :
    joined (ts ++ us) = joined ts ++ ofText "/" ++ joined us := by
  have hglue : (joined (ts ++ us)).bytes = (joined ts).bytes ++ slash :: (joined us).bytes := by
    rw [joined, List.map_append, Text.glue_append (by simpa using hts) (by simpa using hus)]
    rfl
  exact congrArg mk (hglue.trans (bytes_append_slash _ _).symm)

/-! ## What is shown, as bytes again -/

def shown (t : OsText) : OsText :=
  ofText t.display

theorem shown_eq_iff (hs : ∀ c ∈ s.toList, Plain c) : t.shown = ofText s ↔ t = ofText s := by
  rw [shown, ofText_inj, display_eq_iff hs]

theorem shown_eq_empty_iff : t.shown = ofText "" ↔ t = ofText "" :=
  shown_eq_iff (by simp)

theorem decode_glue (parts : List (List UInt8)) :
    decode none (Text.glue slash parts) = Text.glue '/' (parts.map (decode none)) := by
  induction parts with
  | nil => rfl
  | cons p ps ih =>
    cases ps with
    | nil => rfl
    | cons q qs =>
      rw [Text.glue, decode_low (by decide), ih]
      rfl

theorem flatMap_glue (parts : List (List Char)) : (Text.glue '/' parts).flatMap String.utf8EncodeChar =
    Text.glue slash (parts.map (·.flatMap String.utf8EncodeChar)) := by
  induction parts with
  | nil => rfl
  | cons p ps ih =>
    cases ps with
    | nil => rfl
    | cons q qs =>
      rw [Text.glue, List.flatMap_append, List.flatMap_cons, ih]
      rfl

theorem shown_joined (ts : List OsText) : (joined ts).shown = joined (ts.map shown) := by
  refine congrArg mk ?_
  rw [display, joined, String.toList_ofList, decode_glue, flatMap_glue]
  refine congrArg (Text.glue slash) ?_
  rw [List.map_map, List.map_map, List.map_map]
  refine List.map_congr_left fun t _ => ?_
  simp [shown, ofText, display]

theorem slash_not_mem_shown (h : slash ∉ t.bytes) : slash ∉ t.shown.bytes := by
  intro hslash
  have hplain : Plain '/' := ⟨by decide, by decide⟩
  obtain ⟨as, bs, hbytes⟩ := List.append_of_mem hslash
  have hshown : decode none t.shown.bytes = decode none t.bytes := by
    rw [shown, ofText, decode_flatMap, display, String.toList_ofList]
  rw [hbytes, decode_low (by decide)] at hshown
  have hmem : '/' ∈ decode none t.bytes := by
    rw [← hshown]
    exact List.mem_append_right _ List.mem_cons_self
  exact h (mem_of_mem_decode hplain (by simp) hmem)

theorem segments_shown (t : OsText) : t.shown.segments = t.segments.map shown := by
  have hslash : ∀ part ∈ t.segments.map shown, slash ∉ part.bytes := by
    intro part hpart
    obtain ⟨u, hu, rfl⟩ := List.mem_map.1 hpart
    exact slash_not_mem_shown (slash_not_mem_of_mem hu)
  conv_lhs => rw [← joined_segments t, shown_joined]
  exact segments_joined (by simpa using t.segments_ne_nil) hslash

end FlatSchema.OsText
