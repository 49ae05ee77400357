import Mathlib.Data.List.Perm.Basic

/-!
# Pools of slots

A bounded pool is a list of optional values, one for each slot. Values are put into the
first free slot and taken from the first slot that matches. The lemmas speak about the
contents of the pool only, up to order, so that a user never looks at slot positions.
-/

namespace MicrostructureEngine.SlotPool

open scoped List
set_option autoImplicit false

universe u
variable {α : Type u}

def contents (slots : List (Option α)) : List α := slots.filterMap id

/-- Store in the first free slot; `none` when every slot is taken. -/
def put (a : α) : List (Option α) → Option (List (Option α))
  | [] => none
  | none :: slots => some (some a :: slots)
  | some b :: slots => (put a slots).map (some b :: ·)

/-- Remove the first value that satisfies `p`. -/
def takeFirst (p : α → Bool) : List (Option α) → Option (α × List (Option α))
  | [] => none
  | none :: slots => (takeFirst p slots).map fun r => (r.1, none :: r.2)
  | some b :: slots =>
    if p b then some (b, none :: slots)
    else (takeFirst p slots).map fun r => (r.1, some b :: r.2)

/-- Free every slot whose value satisfies `p`. -/
def discard (p : α → Bool) (slots : List (Option α)) : List (Option α) :=
  slots.map fun slot => slot.filter fun a => !p a

@[simp] theorem contents_nil : contents ([] : List (Option α)) = [] := rfl

@[simp] theorem contents_none (slots : List (Option α)) : contents (none :: slots) = contents slots := rfl

@[simp] theorem contents_some (a : α) (slots : List (Option α)) :
    contents (some a :: slots) = a :: contents slots := rfl

@[simp] theorem contents_replicate (n : Nat) : contents (List.replicate n (none : Option α)) = [] := by
  induction n with
  | zero => rfl
  | succ n ih => exact ih

theorem contents_length_le (slots : List (Option α)) : (contents slots).length ≤ slots.length :=
  List.length_filterMap_le id slots

theorem put_eq_some {a : α} {slots slots' : List (Option α)} (h : put a slots = some slots') :
    (contents slots').Perm (a :: contents slots) ∧ slots'.length = slots.length := by
  induction slots generalizing slots' with
  | nil => cases h
  | cons slot slots ih =>
    cases slot with
    | none =>
      cases h
      exact ⟨List.Perm.refl _, rfl⟩
    | some b =>
      obtain ⟨rest, hrest, rfl⟩ := Option.map_eq_some_iff.mp h
      obtain ⟨hperm, hlen⟩ := ih hrest
      refine ⟨?_, by simp [hlen]⟩
      calc contents (some b :: rest) = b :: contents rest := rfl
        _ ~ b :: a :: contents slots := hperm.cons b
        _ ~ a :: b :: contents slots := List.Perm.swap a b _

theorem put_ne_none {a : α} {slots : List (Option α)}
    (h : (contents slots).length < slots.length) : put a slots ≠ none := by
  induction slots with
  | nil => cases h
  | cons slot slots ih =>
    cases slot with
    | none => simp [put]
    | some b =>
      have hrest : put a slots ≠ none := ih (by simpa using h)
      simpa [put] using hrest

theorem takeFirst_eq_some {p : α → Bool} {a : α} {slots slots' : List (Option α)}
    (h : takeFirst p slots = some (a, slots')) :
    p a = true ∧ (contents slots).Perm (a :: contents slots') ∧ slots'.length = slots.length := by
  induction slots generalizing slots' with
  | nil => cases h
  | cons slot slots ih =>
    cases slot with
    | none =>
      obtain ⟨⟨b, rest⟩, hrest, heq⟩ := Option.map_eq_some_iff.mp h
      cases heq
      obtain ⟨hp, hperm, hlen⟩ := ih hrest
      exact ⟨hp, hperm, by simp [hlen]⟩
    | some b =>
      unfold takeFirst at h
      split at h
      · rename_i hb
        cases h
        exact ⟨hb, List.Perm.refl _, rfl⟩
      · obtain ⟨⟨c, rest⟩, hrest, heq⟩ := Option.map_eq_some_iff.mp h
        cases heq
        obtain ⟨hp, hperm, hlen⟩ := ih hrest
        refine ⟨hp, ?_, by simp [hlen]⟩
        calc contents (some b :: slots) = b :: contents slots := rfl
          _ ~ b :: c :: contents rest := hperm.cons b
          _ ~ c :: b :: contents rest := List.Perm.swap c b _

/-- In terms of the contents: a search for the first match and its removal. -/
theorem takeFirst_find {p : α → Bool} {a : α} {slots slots' : List (Option α)}
    (h : takeFirst p slots = some (a, slots')) :
    (contents slots).find? p = some a ∧ contents slots' = (contents slots).eraseP p := by
  induction slots generalizing slots' with
  | nil => cases h
  | cons slot slots ih =>
    cases slot with
    | none =>
      obtain ⟨⟨b, rest⟩, hrest, heq⟩ := Option.map_eq_some_iff.mp h
      cases heq
      obtain ⟨hfind, herase⟩ := ih hrest
      exact ⟨hfind, herase⟩
    | some b =>
      unfold takeFirst at h
      split at h
      · rename_i hb
        cases h
        simp [hb]
      · rename_i hb
        obtain ⟨⟨c, rest⟩, hrest, heq⟩ := Option.map_eq_some_iff.mp h
        cases heq
        obtain ⟨hfind, herase⟩ := ih hrest
        simp [hb, hfind, herase]

theorem takeFirst_eq_none_iff {p : α → Bool} {slots : List (Option α)} :
    takeFirst p slots = none ↔ ∀ a ∈ contents slots, p a = false := by
  induction slots with
  | nil => simp [takeFirst]
  | cons slot slots ih =>
    cases slot with
    | none => simp [takeFirst, ih]
    | some b =>
      unfold takeFirst
      cases hb : p b <;> simp [hb, ih]

theorem contents_discard (p : α → Bool) (slots : List (Option α)) :
    contents (discard p slots) = (contents slots).filter fun a => !p a := by
  induction slots with
  | nil => rfl
  | cons slot slots ih =>
    have hcons : discard p (slot :: slots) = slot.filter (fun a => !p a) :: discard p slots := rfl
    rw [hcons]
    cases slot with
    | none => exact ih
    | some b => cases hb : p b <;> simp [Option.filter, hb, ih]

@[simp] theorem length_discard (p : α → Bool) (slots : List (Option α)) :
    (discard p slots).length = slots.length := by
  simp [discard]

end MicrostructureEngine.SlotPool
