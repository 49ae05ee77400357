import MicrostructureEngine.Lib.Probing

/-!
# A cursor on a ring

`distance n c p` counts the advances that take a cursor from `c` to `p`. An advance brings
every position one closer, except the one it leaves, which becomes the last.
-/

namespace MicrostructureEngine.Rotation

open Probing
set_option autoImplicit false

variable {n c p : Nat}

theorem distance_eq (hc : c < n) (hp : p < n) :
    distance n c p = if c ≤ p then p - c else p + n - c := by
  unfold distance
  rw [Nat.mod_eq_of_lt hc]
  split
  · have hsplit : p + (n - c) = p - c + n := by omega
    rw [hsplit, Nat.add_mod_right, Nat.mod_eq_of_lt (by omega)]
  · have hsplit : p + (n - c) = p + n - c := by omega
    rw [hsplit, Nat.mod_eq_of_lt (by omega)]

theorem advance_eq (hc : c < n) : (c + 1) % n = if c + 1 = n then 0 else c + 1 := by
  split
  · rename_i hlast
    rw [hlast, Nat.mod_self]
  · exact Nat.mod_eq_of_lt (by omega)

theorem advance_lt (hn : 0 < n) : (c + 1) % n < n := Nat.mod_lt _ hn

theorem distance_self (hc : c < n) : distance n c c = 0 := by
  rw [distance_eq hc hc, if_pos le_rfl, Nat.sub_self]

theorem distance_advance (hc : c < n) (hp : p < n) (hne : p ≠ c) :
    distance n ((c + 1) % n) p + 1 = distance n c p := by
  rw [distance_eq (advance_lt (by omega)) hp, distance_eq hc hp, advance_eq hc]
  split_ifs <;> omega

theorem distance_advance_self (hc : c < n) : distance n ((c + 1) % n) c + 1 = n := by
  rw [distance_eq (advance_lt (by omega)) hc, advance_eq hc]
  split_ifs <;> omega

end MicrostructureEngine.Rotation
