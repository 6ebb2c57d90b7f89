import FlatSchema.Schema.Lookup
import FlatSchema.Script.Accessor
import FlatSchema.Proofs.Pieces
import FlatSchema.Proofs.Spelling

/-!
# The objects of namespaces

A script makes an object for a namespace and for each of its dotted ancestors, from the outermost on
(`objectPaths_eq`), and none of them twice (`mem_newPaths`, `nodup_newPaths`).
-/

namespace FlatSchema

/-! ## Dotted names -/

namespace Text

variable {sep : Char}

/-- The first pieces are the front of the text. -/
theorem glue_take (n : Nat) (ps : List (List Char)) : glue sep (ps.take n) <+: glue sep ps := by
  induction ps generalizing n with
  | nil => simp
  | cons p ps ih =>
    cases n with
    | zero => exact List.nil_prefix
    | succ n =>
      cases ps with
      | nil => simp
      | cons q ps =>
        cases n with
        | zero => exact List.prefix_append p _
        | succ n =>
          have hrest := ih (n + 1)
          show p ++ sep :: glue sep ((q :: ps).take (n + 1)) <+: p ++ sep :: glue sep (q :: ps)
          rw [List.prefix_append_right_inj, List.prefix_cons_inj]
          exact hrest

theorem join_singleton (p : String) : join sep [p] = p := by
  rw [join, List.map_singleton, glue, String.ofList_toList]

/-- The first piece of a text that does not start with the separator. -/
theorem exists_pieces_cons {text : String} {c : Char} {cs : List Char} (htext : text.toList = c :: cs)
    (h : c ≠ sep) : ∃ p ps, pieces sep text = p :: ps ∧ p ≠ "" := by
  unfold pieces
  rw [htext, cut, if_neg h]
  cases hcut : cut sep cs with
  | nil => exact absurd hcut (cut_ne_nil sep cs)
  | cons p ps =>
    refine ⟨String.ofList (c :: p), ps.map String.ofList, rfl, fun hempty => ?_⟩
    have hlist := congrArg String.toList hempty
    rw [String.toList_ofList] at hlist
    cases hlist

end Text

theorem mem_ancestors {name path : String} : path ∈ ancestors name ↔ name ≠ "" ∧
    ∃ n < (Text.pieces '.' name).length, Text.join '.' ((Text.pieces '.' name).take (n + 1)) = path := by
  unfold ancestors
  split
  · next h =>
    constructor
    · exact fun hmem => absurd hmem List.not_mem_nil
    · exact fun hne => absurd h hne.1
  · next h =>
    rw [List.mem_map]
    simp only [List.mem_reverse, List.mem_range]
    exact ⟨fun hn => ⟨h, hn⟩, fun hn => hn.2⟩

theorem prefix_of_mem_ancestors {name path : String} (h : path ∈ ancestors name) :
    path.toList <+: name.toList := by
  obtain ⟨-, n, -, rfl⟩ := mem_ancestors.1 h
  have htake : Text.glue '.' _ <+: Text.glue '.' _ :=
    Text.glue_take (n + 1) ((Text.pieces '.' name).map String.toList)
  have hjoin : (Text.join '.' (Text.pieces '.' name)).toList = name.toList := by rw [Text.join_pieces]
  rw [← hjoin, Text.join, Text.join, String.toList_ofList, String.toList_ofList, List.map_take]
  exact htake

namespace Schema

/-! ## Paths -/

/-- The paths behind one that is there, by induction on the pieces that are left. -/
theorem objectPaths_behind (ps : List String) : ∀ (done paths : List String), Text.join '.' done ≠ "" →
    (ps.foldl (fun (paths, path) piece =>
        let path := if path = "" then piece else path ++ "." ++ piece
        (paths ++ [path], path)) (paths, Text.join '.' done)).1 =
      paths ++ (List.range ps.length).map fun n => Text.join '.' (done ++ ps.take (n + 1)) := by
  induction ps with
  | nil =>
    intro done paths _
    exact (List.append_nil paths).symm
  | cons p ps ih =>
    intro done paths hdone
    have hne : done ≠ [] := by
      rintro rfl
      exact hdone rfl
    have hnext : Text.join '.' done ++ "." ++ p = Text.join '.' (done ++ [p]) := by
      rw [Text.join_append hne (List.cons_ne_nil p []), Text.join_singleton]
      rfl
    have hrest := ih (done ++ [p]) (paths ++ [Text.join '.' (done ++ [p])]) (by
      rw [← hnext]
      simp [hdone])
    rw [List.foldl_cons]
    dsimp only
    rw [if_neg hdone, hnext, hrest, List.append_assoc, List.length_cons, List.range_succ_eq_map,
      List.map_cons, List.map_map]
    simp [Function.comp_def]

theorem objectPaths_eq {name : String} (h : IsName name) :
    objectPaths name = (ancestors name).reverse := by
  obtain ⟨c, cs, hname, hc, -⟩ := h
  have hdot : c ≠ '.' := by
    rintro rfl
    exact absurd hc (by decide)
  have hne : name ≠ "" := by
    rintro rfl
    cases hname
  obtain ⟨p, ps, hpieces, hp⟩ := Text.exists_pieces_cons hname hdot
  have hbehind := objectPaths_behind ps [p] [p] (by rw [Text.join_singleton]; exact hp)
  rw [Text.join_singleton] at hbehind
  unfold objectPaths ancestors
  rw [if_neg hne, hpieces, List.foldl_cons]
  dsimp only
  rw [if_pos rfl, List.nil_append, hbehind, List.map_reverse, List.reverse_reverse, List.length_cons,
    List.range_succ_eq_map, List.map_cons, List.map_map, List.take_succ_cons, List.take_zero,
    Text.join_singleton]
  rfl

theorem mem_objectPaths {name path : String} (h : IsName name) :
    path ∈ objectPaths name ↔ path ∈ ancestors name := by
  rw [objectPaths_eq h, List.mem_reverse]

theorem objectPaths_idRest {name path : String} (h : IsName name) (hp : path ∈ objectPaths name) :
    ∀ c ∈ path.toList, isIdRest c = true := fun c hc =>
  h.idRest c ((prefix_of_mem_ancestors ((mem_objectPaths h).1 hp)).subset hc)

/-! ## Paths that are made -/

theorem mem_newPaths {ps : List String} : ∀ {made : List String} {p : String},
    p ∈ newPaths made ps ↔ p ∈ ps ∧ p ∉ made := by
  induction ps with
  | nil =>
    intro made p
    simp [newPaths]
  | cons q ps ih =>
    intro made p
    unfold newPaths
    split
    · next hq =>
      rw [ih, List.mem_cons]
      constructor
      · exact fun h => ⟨.inr h.1, h.2⟩
      · rintro ⟨rfl | hp, hnew⟩
        · exact absurd hq hnew
        · exact ⟨hp, hnew⟩
    · next hq =>
      rw [List.mem_cons, ih, List.mem_cons, List.mem_cons]
      by_cases hpq : p = q
      · subst hpq
        simp [hq]
      · simp [hpq]

theorem nodup_newPaths (ps : List String) : ∀ made : List String, (newPaths made ps).Nodup := by
  induction ps with
  | nil => exact fun _ => .nil
  | cons p ps ih =>
    intro made
    unfold newPaths
    split
    · exact ih made
    · rw [List.nodup_cons]
      refine ⟨fun hmem => ?_, ih (p :: made)⟩
      exact (mem_newPaths.1 hmem).2 List.mem_cons_self

end Schema

end FlatSchema
