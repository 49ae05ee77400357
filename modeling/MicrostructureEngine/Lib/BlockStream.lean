import Mathlib.Data.List.Basic
import Mathlib.Data.List.Range

/-!
# Streams in blocks

A machine takes the items of a stream in blocks of a fixed size; what does not fill a block yet is
pending. Where the stream is cut makes no difference, and a stream of whole blocks leaves nothing
pending. A buffer of the size of a block is written from its front, and nothing behind what was
written is looked at.
-/

namespace MicrostructureEngine.BlockStream

set_option autoImplicit false

universe u v
variable {σ : Type u} {α : Type v}

structure Absorber (σ : Type u) (α : Type v) (size : Nat) where
  state : σ
  pending : List α
  short : pending.length < size

variable {size : Nat} (process : σ → List α → σ)

/-- One more item; it is the last one of its block if nothing is missing behind it. -/
def absorb (a : Absorber σ α size) (x : α) : Absorber σ α size :=
  if h : a.pending.length + 1 < size then
    ⟨a.state, a.pending ++ [x], by rwa [List.length_append, List.length_singleton]⟩
  else ⟨process a.state (a.pending ++ [x]), [], Nat.lt_of_le_of_lt (Nat.zero_le _) a.short⟩

def absorbAll (a : Absorber σ α size) (xs : List α) : Absorber σ α size := xs.foldl (absorb process) a

theorem Absorber.ext {a b : Absorber σ α size} (hstate : a.state = b.state) (hpending : a.pending = b.pending) :
    a = b := by
  cases a
  cases b
  cases hstate
  cases hpending
  rfl

@[simp] theorem absorbAll_nil (a : Absorber σ α size) : absorbAll process a [] = a := rfl

@[simp] theorem absorbAll_cons (a : Absorber σ α size) (x : α) (xs : List α) :
    absorbAll process a (x :: xs) = absorbAll process (absorb process a x) xs := rfl

/-- Where the stream is cut makes no difference. -/
theorem absorbAll_append (a : Absorber σ α size) (xs ys : List α) :
    absorbAll process a (xs ++ ys) = absorbAll process (absorbAll process a xs) ys := List.foldl_append

theorem absorbAll_short (a : Absorber σ α size) (xs : List α) (h : a.pending.length + xs.length < size) :
    (absorbAll process a xs).state = a.state ∧ (absorbAll process a xs).pending = a.pending ++ xs := by
  induction xs generalizing a with
  | nil => exact ⟨rfl, (List.append_nil _).symm⟩
  | cons x xs ih =>
    rw [List.length_cons] at h
    have hroom : a.pending.length + 1 < size := by omega
    have hfirst : (absorb process a x).state = a.state ∧ (absorb process a x).pending = a.pending ++ [x] := by
      unfold absorb
      rw [dif_pos hroom]
      exact ⟨rfl, rfl⟩
    obtain ⟨hstate, hpending⟩ := ih (absorb process a x) (by
      rw [hfirst.2, List.length_append, List.length_singleton]
      omega)
    rw [absorbAll_cons, hstate, hpending, hfirst.1, hfirst.2, List.append_assoc]
    exact ⟨rfl, rfl⟩

/-- Items that fill the block up to its end. -/
theorem absorbAll_full (a : Absorber σ α size) (xs : List α) (h : a.pending.length + xs.length = size) :
    (absorbAll process a xs).state = process a.state (a.pending ++ xs) ∧ (absorbAll process a xs).pending = [] := by
  have hshort := a.short
  obtain ⟨front, x, rfl⟩ := List.eq_nil_or_concat' xs |>.resolve_left (by
    rintro rfl
    rw [List.length_nil] at h
    omega)
  rw [List.length_append, List.length_singleton] at h
  obtain ⟨hstate, hpending⟩ := absorbAll_short process a front (by omega)
  have hfull : ¬ (absorbAll process a front).pending.length + 1 < size := by
    rw [hpending, List.length_append]
    omega
  rw [absorbAll_append, absorbAll_cons, absorbAll_nil, ← List.append_assoc, ← hpending, ← hstate]
  unfold absorb
  rw [dif_neg hfull]
  exact ⟨rfl, rfl⟩

theorem length_pending (a : Absorber σ α size) (xs : List α) :
    (absorbAll process a xs).pending.length = (a.pending.length + xs.length) % size := by
  induction xs generalizing a with
  | nil => exact (Nat.mod_eq_of_lt a.short).symm
  | cons x xs ih =>
    have hfirst : (absorb process a x).pending.length % size = (a.pending.length + 1) % size := by
      unfold absorb
      split
      case isTrue =>
        rw [List.length_append, List.length_singleton]
      case isFalse hfull =>
        have hlast : a.pending.length + 1 = size := Nat.le_antisymm a.short (Nat.not_lt.mp hfull)
        rw [hlast, Nat.mod_self]
        exact Nat.zero_mod size
    rw [absorbAll_cons, ih, List.length_cons, Nat.add_mod, hfirst, ← Nat.add_mod, Nat.add_assoc, Nat.add_comm 1]

/-! ## Whole blocks -/

/-- The whole blocks at the front of a stream. -/
def blocks (size : Nat) (xs : List α) : List (List α) :=
  (List.range (xs.length / size)).map fun i => (xs.drop (size * i)).take size

theorem blocks_step {xs : List α} (hsize : 0 < size) (h : size ≤ xs.length) :
    blocks size xs = xs.take size :: blocks size (xs.drop size) := by
  have hcount : xs.length / size = (xs.length - size) / size + 1 := by
    rw [← Nat.add_div_right _ hsize, Nat.sub_add_cancel h]
  unfold blocks
  rw [hcount, List.range_succ_eq_map, List.map_cons, List.map_map, Nat.mul_zero, List.drop_zero, List.length_drop]
  congr 1
  apply List.map_congr_left
  intro i _
  rw [Function.comp_apply, List.drop_drop, Nat.succ_eq_add_one, Nat.mul_succ, Nat.add_comm]

/-- A stream of whole blocks is processed block by block. -/
theorem absorbAll_blocks (count : Nat) : ∀ (s : σ) (hsize : 0 < size) (xs : List α), xs.length = size * count →
    (absorbAll process ⟨s, [], hsize⟩ xs).state = (blocks size xs).foldl process s ∧
      (absorbAll process ⟨s, [], hsize⟩ xs).pending = [] := by
  induction count with
  | zero =>
    intro s hsize xs h
    rw [List.length_eq_zero_iff.mp h]
    unfold blocks
    rw [List.length_nil, Nat.zero_div]
    exact ⟨rfl, rfl⟩
  | succ count ih =>
    intro s hsize xs h
    rw [Nat.mul_succ] at h
    have hle : size ≤ xs.length := by omega
    obtain ⟨hstate, hpending⟩ := absorbAll_full process ⟨s, [], hsize⟩ (xs.take size) (by
      show 0 + (xs.take size).length = size
      rw [List.length_take]
      omega)
    have hfirst : absorbAll process ⟨s, [], hsize⟩ (xs.take size) = ⟨process s (xs.take size), [], hsize⟩ :=
      Absorber.ext hstate hpending
    have hrest : (xs.drop size).length = size * count := by
      rw [List.length_drop]
      omega
    have hall : absorbAll process ⟨s, [], hsize⟩ xs =
        absorbAll process ⟨process s (xs.take size), [], hsize⟩ (xs.drop size) := by
      rw [← hfirst, ← absorbAll_append, List.take_append_drop]
    rw [hall, blocks_step hsize hle, List.foldl_cons]
    exact ih _ hsize _ hrest

/-! ## The buffer of a block -/

/-- `xs` written into the buffer from `k` on. -/
def place (buffer : List α) (k : Nat) (xs : List α) : List α :=
  buffer.take k ++ (xs ++ buffer.drop (k + xs.length))

section Buffer
variable {buffer xs : List α} {k : Nat}

theorem length_place (h : k + xs.length ≤ buffer.length) : (place buffer k xs).length = buffer.length := by
  unfold place
  rw [List.length_append, List.length_append, List.length_take, List.length_drop]
  omega

/-- What stands in front of the end of what was written. -/
theorem take_place (h : k ≤ buffer.length) : (place buffer k xs).take (k + xs.length) = buffer.take k ++ xs := by
  have hlength : (buffer.take k).length = k := by
    rw [List.length_take]
    omega
  unfold place
  rw [← List.append_assoc]
  apply List.take_left'
  rw [List.length_append, hlength]

theorem place_append (h : k ≤ buffer.length) (ys : List α) :
    place (place buffer k xs) (k + xs.length) ys = place buffer k (xs ++ ys) := by
  have hlength : (buffer.take k ++ xs).length = k + xs.length := by
    rw [List.length_append, List.length_take, Nat.min_eq_left h]
  have hdrop : (place buffer k xs).drop (k + xs.length + ys.length) = buffer.drop (k + (xs ++ ys).length) := by
    unfold place
    rw [← List.append_assoc, List.drop_append, hlength, List.drop_eq_nil_of_le (by omega), List.nil_append,
      List.drop_drop, List.length_append]
    congr 1
    omega
  calc place (place buffer k xs) (k + xs.length) ys
      = (place buffer k xs).take (k + xs.length) ++
          (ys ++ (place buffer k xs).drop (k + xs.length + ys.length)) := rfl
    _ = (buffer.take k ++ xs) ++ (ys ++ buffer.drop (k + (xs ++ ys).length)) := by rw [take_place h, hdrop]
    _ = place buffer k (xs ++ ys) := by
        unfold place
        rw [List.append_assoc, List.append_assoc]

end Buffer

end MicrostructureEngine.BlockStream
