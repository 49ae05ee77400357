import Mathlib.Data.List.Infix

/-!
# Positions in a log of parts

A log is kept in parts of which only the last one grows; a new part is opened behind it. A
reader's position is a part and the number of its items that were read. A position stays where
it is while the log grows, and from the end of a part that is not the last one it moves to the
front of the next.
-/

namespace MicrostructureEngine.SegmentedLog

set_option autoImplicit false

universe u
variable {α : Type u}

def upTo (parts : List (List α)) (part item : Nat) : List α :=
  (parts.take part).flatten ++ (parts.getD part []).take item

/-- The position is one of the log. -/
def Within (parts : List (List α)) (part item : Nat) : Prop :=
  part < parts.length ∧ item ≤ (parts.getD part []).length

/-- Growth, with the items that it adds. -/
inductive Grows : List (List α) → List (List α) → List α → Prop
  | same (parts : List (List α)) : Grows parts parts []
  | trans {parts parts' parts'' : List (List α)} {items items' : List α} (h : Grows parts parts' items)
      (h' : Grows parts' parts'' items') : Grows parts parts'' (items ++ items')
  | added (front : List (List α)) (last items : List α) :
      Grows (front ++ [last]) (front ++ [last ++ items]) items
  | opened (parts : List (List α)) : Grows parts (parts ++ [[]]) []

section Position
variable {parts parts' : List (List α)} {part item : Nat} {items : List α}

theorem Within.split (h : Within parts part item) :
    ∃ front current rest, parts = front ++ current :: rest ∧ front.length = part ∧ item ≤ current.length ∧
      parts.getD part [] = current := by
  obtain ⟨hlt, hle⟩ := h
  have hget : parts.getD part [] = parts[part] := by
    rw [List.getD_eq_getElem?_getD, List.getElem?_eq_getElem hlt, Option.getD_some]
  rw [hget] at hle
  refine ⟨parts.take part, parts[part], parts.drop (part + 1), ?_, ?_, hle, hget⟩
  · rw [List.getElem_cons_drop, List.take_append_drop]
  · rw [List.length_take]
    omega

theorem upTo_append (front : List (List α)) (current : List α) (rest : List (List α)) (item : Nat) :
    upTo (front ++ current :: rest) front.length item = front.flatten ++ current.take item := by
  unfold upTo
  rw [List.take_left, List.getD_eq_getElem?_getD, List.getElem?_append_right (Nat.le_refl _), Nat.sub_self]
  rfl

theorem upTo_prefix (h : Within parts part item) : upTo parts part item <+: parts.flatten := by
  obtain ⟨front, current, rest, rfl, rfl, -, -⟩ := h.split
  rw [upTo_append, List.flatten_append, List.flatten_cons]
  refine (List.prefix_append_right_inj front.flatten).mpr ?_
  exact (List.take_prefix _ _).trans (List.prefix_append _ _)

theorem upTo_zero (parts : List (List α)) : upTo parts 0 0 = [] := by
  unfold upTo
  rw [List.take_zero, List.take_zero]
  rfl

theorem upTo_take {k : Nat} (hle : k ≤ item) : upTo parts part k <+: upTo parts part item := by
  unfold upTo
  rw [List.prefix_append_right_inj, ← Nat.min_eq_left hle, ← List.take_take]
  exact List.take_prefix k _

/-- What growth adds stands behind everything else. -/
theorem Grows.flatten (h : Grows parts parts' items) : parts'.flatten = parts.flatten ++ items := by
  induction h with
  | same => rw [List.append_nil]
  | trans _ _ ih ih' => rw [ih', ih, List.append_assoc]
  | added front last =>
    rw [List.flatten_append, List.flatten_append, List.flatten_cons, List.flatten_cons, List.flatten_nil,
      List.append_nil, List.append_nil, List.append_assoc]
  | opened => rw [List.flatten_append, List.flatten_cons, List.flatten_nil, List.append_nil]

theorem Grows.length_le (h : Grows parts parts' items) : parts.length ≤ parts'.length := by
  induction h with
  | same => exact Nat.le_refl _
  | trans _ _ ih ih' => exact Nat.le_trans ih ih'
  | added front last =>
    rw [List.length_append, List.length_append]
    exact Nat.le_refl _
  | opened =>
    rw [List.length_append]
    exact Nat.le_add_right _ _

/-- A part only gets longer, and does not change once there is another one behind it. -/
theorem Grows.part_prefix (h : Grows parts parts' items) (hpart : part < parts.length) :
    parts.getD part [] <+: parts'.getD part [] ∧
      (part + 1 < parts.length → parts'.getD part [] = parts.getD part []) := by
  induction h with
  | same => exact ⟨List.prefix_rfl, fun _ => rfl⟩
  | trans h h' ih ih' =>
    have hlength := h.length_le
    obtain ⟨hpre, hsame⟩ := ih hpart
    obtain ⟨hpre', hsame'⟩ := ih' (by omega)
    exact ⟨hpre.trans hpre', fun hsealed => (hsame' (by omega)).trans (hsame hsealed)⟩
  | added front last =>
    rw [List.length_append, List.length_singleton] at hpart ⊢
    rw [List.getD_eq_getElem?_getD, List.getD_eq_getElem?_getD]
    rcases Nat.lt_or_ge part front.length with hlt | hge
    · rw [List.getElem?_append_left hlt, List.getElem?_append_left hlt]
      exact ⟨List.prefix_rfl, fun _ => rfl⟩
    · have heq : part = front.length := by omega
      subst heq
      rw [List.getElem?_append_right (Nat.le_refl _), List.getElem?_append_right (Nat.le_refl _), Nat.sub_self]
      refine ⟨List.prefix_append _ _, ?_⟩
      intro hsealed
      omega
  | opened =>
    rw [List.getD_eq_getElem?_getD, List.getD_eq_getElem?_getD, List.getElem?_append_left hpart]
    exact ⟨List.prefix_rfl, fun _ => rfl⟩

theorem Grows.take (h : Grows parts parts' items) (hpart : part < parts.length) :
    parts'.take part = parts.take part := by
  induction h with
  | same => rfl
  | trans h h' ih ih' =>
    have hlength := h.length_le
    exact (ih' (by omega)).trans (ih hpart)
  | added front last =>
    rw [List.length_append, List.length_singleton] at hpart
    have hle : part ≤ front.length := by omega
    rw [List.take_append_of_le_length hle, List.take_append_of_le_length hle]
  | opened => rw [List.take_append_of_le_length (Nat.le_of_lt hpart)]

theorem Grows.filterMap {β : Type u} (g : α → Option β) (h : Grows parts parts' items) :
    Grows (parts.map (List.filterMap g)) (parts'.map (List.filterMap g)) (items.filterMap g) := by
  induction h with
  | same => exact .same _
  | trans _ _ ih ih' =>
    rw [List.filterMap_append]
    exact .trans ih ih'
  | added front last items =>
    rw [List.map_append, List.map_append, List.map_singleton, List.map_singleton, List.filterMap_append]
    exact .added _ _ _
  | opened parts =>
    rw [List.map_append]
    exact .opened _

theorem Grows.forall {p : α → Prop} (h : Grows parts parts' items) (hparts : ∀ part ∈ parts, ∀ x ∈ part, p x)
    (hitems : ∀ x ∈ items, p x) : ∀ part ∈ parts', ∀ x ∈ part, p x := by
  induction h with
  | same => exact hparts
  | trans _ _ ih ih' =>
    have hfirst := ih hparts fun x hx => hitems x (List.mem_append_left _ hx)
    exact ih' hfirst fun x hx => hitems x (List.mem_append_right _ hx)
  | added front last items =>
    intro part hpart x hx
    rcases List.mem_append.mp hpart with hpart | hpart
    · exact hparts part (List.mem_append_left _ hpart) x hx
    · rw [List.mem_singleton.mp hpart] at hx
      rcases List.mem_append.mp hx with hx | hx
      · exact hparts last (List.mem_append_right _ List.mem_cons_self) x hx
      · exact hitems x hx
  | opened parts =>
    intro part hpart x hx
    rcases List.mem_append.mp hpart with hpart | hpart
    · exact hparts part hpart x hx
    · rw [List.mem_singleton.mp hpart] at hx
      exact absurd hx List.not_mem_nil

theorem Within.grows (hin : Within parts part item) (h : Grows parts parts' items) : Within parts' part item := by
  have hlength := h.length_le
  have hpart := (h.part_prefix hin.1).1.length_le
  exact ⟨Nat.lt_of_lt_of_le hin.1 hlength, Nat.le_trans hin.2 hpart⟩

/-- A position stays where it is while the log grows. -/
theorem upTo_grows (hin : Within parts part item) (h : Grows parts parts' items) :
    upTo parts' part item = upTo parts part item := by
  obtain ⟨more, hmore⟩ := (h.part_prefix hin.1).1
  unfold upTo
  rw [h.take hin.1, ← hmore, List.take_append_of_le_length hin.2]

variable (parts) in
theorem upTo_next (hlt : part + 1 < parts.length) (hend : item = (parts.getD part []).length) :
    Within parts (part + 1) 0 ∧ upTo parts (part + 1) 0 = upTo parts part item := by
  refine ⟨⟨hlt, Nat.zero_le _⟩, ?_⟩
  have hsplit : parts.take (part + 1) = parts.take part ++ [parts.getD part []] := by
    rw [List.getD_eq_getElem?_getD, List.getElem?_eq_getElem (by omega), Option.getD_some]
    exact (List.take_append_getElem (by omega)).symm
  unfold upTo
  rw [hsplit, hend, List.take_length, List.take_zero, List.append_nil, List.flatten_append, List.flatten_cons,
    List.flatten_nil, List.append_nil]

theorem upTo_item {x : α} {rest : List α} (hin : Within parts part item)
    (hitem : (parts.getD part []).drop item = x :: rest) :
    Within parts part (item + 1) ∧ upTo parts part (item + 1) = upTo parts part item ++ [x] ∧
      (parts.getD part []).drop (item + 1) = rest := by
  have hlt : item < (parts.getD part []).length := by
    by_contra hge
    rw [List.drop_eq_nil_of_le (Nat.not_lt.mp hge)] at hitem
    cases hitem
  rw [List.drop_eq_getElem_cons hlt, List.cons.injEq] at hitem
  obtain ⟨hx, hrest⟩ := hitem
  refine ⟨⟨hin.1, hlt⟩, ?_, hrest⟩
  unfold upTo
  rw [List.take_succ_eq_append_getElem hlt, hx, List.append_assoc]

/-- At the end of the last part everything is in front of the position. -/
theorem upTo_last (hin : Within parts part item) (hlast : ¬ part + 1 < parts.length)
    (hend : (parts.getD part []).drop item = []) : upTo parts part item = parts.flatten := by
  obtain ⟨front, current, rest, rfl, rfl, -, hcurrent⟩ := hin.split
  rw [hcurrent] at hend
  have hrest : rest = [] := by
    rw [List.length_append, List.length_cons] at hlast
    exact List.length_eq_zero_iff.mp (by omega)
  have htake := List.take_append_drop item current
  rw [hend, List.append_nil] at htake
  rw [upTo_append, htake, hrest, List.flatten_append, List.flatten_cons, List.flatten_nil, List.append_nil]

end Position

end MicrostructureEngine.SegmentedLog
