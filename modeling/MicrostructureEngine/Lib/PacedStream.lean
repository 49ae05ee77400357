import Mathlib.Data.List.Basic

/-!
# Streams read in pieces

A call on a stream returns some of what is asked for: at least one item while there is one, and
how many is for the system to say. Reading an exact number of items repeats the call until they
are there or the stream is over. What it returns does not depend on the sizes of the pieces.
-/

namespace MicrostructureEngine

set_option autoImplicit false

universe u

/-- A stream, and for each call how many items beyond the first it can bring. -/
structure PacedStream (α : Type u) where
  items : List α
  pace : Nat → Nat
  calls : Nat := 0

namespace PacedStream
variable {α : Type u}

/-- What one call brings; nothing where the stream is over. -/
def readSome (s : PacedStream α) (size : Nat) : List α × PacedStream α :=
  let taken := min size (s.pace s.calls + 1)
  (s.items.take taken, { s with items := s.items.drop taken, calls := s.calls + 1 })

/-- The loop over `readSome`; every turn brings an item, so `size` turns are enough. -/
def readLoop : Nat → PacedStream α → Nat → Option (List α) × PacedStream α
  | 0, s, _ => (some [], s)
  | n + 1, s, size =>
    if size = 0 then (some [], s)
    else
      let got := s.readSome size
      if got.1 = [] then (none, got.2)
      else
        let more := readLoop n got.2 (size - got.1.length)
        (more.1.map (got.1 ++ ·), more.2)

def readExact (s : PacedStream α) (size : Nat) : Option (List α) × PacedStream α := s.readLoop size size

theorem readSome_items (s : PacedStream α) (size : Nat) :
    s.items = (s.readSome size).1 ++ (s.readSome size).2.items :=
  (List.take_append_drop _ s.items).symm

theorem readSome_length_le (s : PacedStream α) (size : Nat) : (s.readSome size).1.length ≤ size := by
  unfold readSome
  dsimp only
  rw [List.length_take]
  omega

theorem readSome_eq_nil {s : PacedStream α} {size : Nat} (hsize : size ≠ 0) (h : (s.readSome size).1 = []) :
    s.items = [] := by
  unfold readSome at h
  rcases List.take_eq_nil_iff.mp h with hzero | hnil
  · omega
  · exact hnil

/-- The loop brings the first `size` items, or finds fewer and leaves none. -/
theorem readLoop_spec (n : Nat) : ∀ (s : PacedStream α) (size : Nat), size ≤ n →
    (s.readLoop n size).1 = (if size ≤ s.items.length then some (s.items.take size) else none) ∧
      (s.readLoop n size).2.items = s.items.drop size := by
  induction n with
  | zero =>
    intro s size hsize
    obtain rfl : size = 0 := by omega
    simp [readLoop]
  | succ n ih =>
    intro s size hsize
    unfold readLoop
    by_cases hzero : size = 0
    · subst hzero
      simp
    rw [if_neg hzero]
    have hitems := s.readSome_items size
    have hlength := s.readSome_length_le size
    generalize hgot : s.readSome size = got at hitems hlength
    dsimp only
    by_cases hnil : got.1 = []
    · rw [if_pos hnil]
      have hempty : s.items = [] := readSome_eq_nil hzero (by rw [hgot]; exact hnil)
      have hrest : got.2.items = [] := by
        rw [hempty, hnil] at hitems
        exact hitems.symm
      rw [hempty, hrest]
      refine ⟨?_, List.drop_nil.symm⟩
      rw [if_neg (by simpa using hzero)]
    · rw [if_neg hnil]
      have hpos : 0 < got.1.length := List.length_pos_iff.mpr hnil
      obtain ⟨hread, hrest⟩ := ih got.2 (size - got.1.length) (by omega)
      have htotal : s.items.length = got.1.length + got.2.items.length := by
        rw [hitems, List.length_append]
      refine ⟨?_, ?_⟩
      · dsimp only
        rw [hread]
        by_cases hfits : size ≤ s.items.length
        · rw [if_pos hfits, if_pos (by omega), Option.map_some]
          have htake : s.items.take size = got.1 ++ got.2.items.take (size - got.1.length) := by
            rw [hitems, List.take_append, List.take_of_length_le hlength]
          rw [htake]
        · rw [if_neg hfits, if_neg (by omega), Option.map_none]
      · dsimp only
        rw [hrest, hitems, List.drop_append, List.drop_eq_nil_of_le hlength, List.nil_append]

theorem readExact_value (s : PacedStream α) (size : Nat) :
    (s.readExact size).1 = if size ≤ s.items.length then some (s.items.take size) else none :=
  (readLoop_spec size s size (Nat.le_refl size)).1

theorem readExact_items (s : PacedStream α) (size : Nat) :
    (s.readExact size).2.items = s.items.drop size :=
  (readLoop_spec size s size (Nat.le_refl size)).2

end PacedStream

end MicrostructureEngine
