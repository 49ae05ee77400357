import Mathlib.Data.List.Basic
import Mathlib.Logic.Function.Basic

/-!
# A table with one hash for each slot

An item falls into the slot that the low bits of its hash name, and leaves its hash there; the hash
of an empty slot is 0. An item is flagged if it finds its own hash. After any sequence of items a
slot holds the hash of the last one that fell there, so what is flagged can be told without the table.
-/

namespace MicrostructureEngine.HashSlots

set_option autoImplicit false

universe u
variable {α : Type u} (hash : α → UInt64) (capacity : Nat)

/-- What an item leaves in its slot; 0 is remapped, as it stands for an empty one. -/
def stored (a : α) : UInt64 := if hash a = 0 then 1 else hash a

def slotOf (a : α) : Nat := (hash a).toNat &&& (capacity - 1)

def checkAndRecord (table : Nat → UInt64) (a : α) : Bool × (Nat → UInt64) :=
  (table (slotOf hash capacity a) == hash a && hash a != 0,
    Function.update table (slotOf hash capacity a) (stored hash a))

def flagsNone (table : Nat → UInt64) : List α → Bool
  | [] => true
  | a :: as => !(checkAndRecord hash capacity table a).1 && flagsNone (checkAndRecord hash capacity table a).2 as

/-- The last item of the slot among those that went before, which are listed latest first. -/
def lastInSlot (before : List α) (slot : Nat) : Option α :=
  before.find? fun b => slotOf hash capacity b == slot

/-- No item hashes to what the last item of its slot has left there. -/
def Unclashing : List α → List α → Prop
  | _, [] => True
  | before, a :: as =>
    (∀ b ∈ lastInSlot hash capacity before (slotOf hash capacity a), stored hash b ≠ hash a) ∧
      Unclashing (a :: before) as

/-- The table after the items of `before`. -/
def tableAfter (before : List α) (slot : Nat) : UInt64 :=
  (lastInSlot hash capacity before slot).elim 0 (stored hash)

theorem stored_ne_zero (a : α) : stored hash a ≠ 0 := by
  unfold stored
  split
  · decide
  · assumption

theorem recorded (before : List α) (a : α) :
    (checkAndRecord hash capacity (tableAfter hash capacity before) a).2 = tableAfter hash capacity (a :: before) := by
  funext slot
  unfold checkAndRecord tableAfter lastInSlot
  dsimp only
  rw [List.find?_cons]
  by_cases hslot : slot = slotOf hash capacity a
  · rw [hslot, beq_self_eq_true, Function.update_self]
    rfl
  · have hother : (slotOf hash capacity a == slot) = false := beq_eq_false_iff_ne.mpr (Ne.symm hslot)
    rw [hother, Function.update_of_ne hslot]

theorem checked_iff (before : List α) (a : α) :
    (checkAndRecord hash capacity (tableAfter hash capacity before) a).1 = false ↔
      ∀ b ∈ lastInSlot hash capacity before (slotOf hash capacity a), stored hash b ≠ hash a := by
  unfold checkAndRecord tableAfter
  rw [Bool.and_eq_false_iff, beq_eq_false_iff_ne, bne_eq_false_iff_eq]
  cases lastInSlot hash capacity before (slotOf hash capacity a) with
  | none =>
    simp only [Option.elim_none, Option.not_mem_none, false_imp_iff, implies_true, iff_true]
    by_cases hzero : hash a = 0
    · exact .inr hzero
    · exact .inl (Ne.symm hzero)
  | some b =>
    simp only [Option.elim_some, Option.mem_def, Option.some.injEq, forall_eq']
    constructor
    · rintro (hne | hzero)
      · exact hne
      · rw [hzero]
        exact stored_ne_zero hash b
    · exact .inl

theorem flagsNone_iff (before as : List α) :
    flagsNone hash capacity (tableAfter hash capacity before) as = true ↔ Unclashing hash capacity before as := by
  induction as generalizing before with
  | nil => exact ⟨fun _ => trivial, fun _ => rfl⟩
  | cons a as ih =>
    unfold flagsNone Unclashing
    rw [Bool.and_eq_true, Bool.not_eq_true', checked_iff, recorded, ih]

end MicrostructureEngine.HashSlots
