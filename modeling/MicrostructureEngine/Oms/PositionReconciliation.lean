import MicrostructureEngine.Exec.Types
import Mathlib.Data.List.Perm.Basic
import Mathlib.Logic.Function.Basic
import Mathlib.Tactic.SplitIfs

/-!
# Position reconciliation

`compare_positions` nets the venue's positions by symbol and writes a row for each symbol whose net
volume is not the local one. The bound of the table is part of the condition that ends the first
loop, so a position in a symbol outside of it hides all positions behind it.
-/

namespace MicrostructureEngine

open scoped List
set_option autoImplicit false

structure PositionSnapshot where
  positionTicket : UInt64 := 0
  symbolId : Nat := 0
  side : Side := .buy
  volume : Int := 0
  deriving DecidableEq, Repr, Inhabited

structure PositionMismatch where
  symbolId : Nat := 0
  localNetVolume : Int := 0
  venueNetVolume : Int := 0
  deriving DecidableEq, Repr, Inhabited

def PositionSnapshot.signedVolume (p : PositionSnapshot) : Int := if p.side = .buy then p.volume else -p.volume

namespace PositionReconciliation

/-- The size of `venue_net`. -/
def venueNetSize : Nat := 64

/-- The first loop. It ends at the end of the list or at a symbol that has no place in the table. -/
def accumulate (net : Nat → Int) : List PositionSnapshot → Nat → Int
  | [] => net
  | p :: ps =>
    if p.symbolId < venueNetSize then
      accumulate (Function.update net p.symbolId (net p.symbolId + p.signedVolume)) ps
    else net

/-- The second loop, at symbol `s` with room for `room` more rows. -/
def report (venueNet : Nat → Int) : Nat → Nat → List Int → List PositionMismatch
  | _, _, [] => []
  | s, room, localNet :: rest =>
    if s < venueNetSize ∧ 0 < room then
      if localNet ≠ venueNet s then ⟨s, localNet, venueNet s⟩ :: report venueNet (s + 1) (room - 1) rest
      else report venueNet (s + 1) room rest
    else []

def comparePositions (venue : List PositionSnapshot) (localNetBySymbol : List Int) (outCapacity : Nat) :
    List PositionMismatch :=
  report (accumulate (fun _ => 0) venue) 0 outCapacity localNetBySymbol

/-! ## What the rows should be -/

/-- The signed sum of the positions in one symbol. -/
def netOf (venue : List PositionSnapshot) (symbol : Nat) : Int :=
  ((venue.filter fun p => p.symbolId == symbol).map PositionSnapshot.signedVolume).sum

/-- One row for each symbol from `s` on whose two net volumes differ. -/
def mismatches (venueNet : Nat → Int) : Nat → List Int → List PositionMismatch
  | _, [] => []
  | s, localNet :: rest =>
    if localNet ≠ venueNet s then ⟨s, localNet, venueNet s⟩ :: mismatches venueNet (s + 1) rest
    else mismatches venueNet (s + 1) rest

/-- The rows are those of the symbols that differ, wherever the venue lists its positions. -/
structure Exact (venue : List PositionSnapshot) (localNetBySymbol : List Int) (outCapacity : Nat) : Prop where
  rows : comparePositions venue localNetBySymbol outCapacity = mismatches (netOf venue) 0 localNetBySymbol
  orderless : ∀ venue', venue' ~ venue →
    comparePositions venue' localNetBySymbol outCapacity = comparePositions venue localNetBySymbol outCapacity

/-- No position is in a symbol outside of the table, or none of the compared symbols has any volume. -/
def AllSeen (venue : List PositionSnapshot) (symbols : Nat) : Prop :=
  (∀ p ∈ venue, p.symbolId < venueNetSize) ∨ ∀ p ∈ venue, p.symbolId < symbols → p.volume = 0

/-! ## The two loops -/

theorem netOf_nil (symbol : Nat) : netOf [] symbol = 0 := rfl

theorem netOf_cons (p : PositionSnapshot) (ps : List PositionSnapshot) (symbol : Nat) :
    netOf (p :: ps) symbol = (if p.symbolId = symbol then p.signedVolume else 0) + netOf ps symbol := by
  unfold netOf
  by_cases hp : p.symbolId = symbol
  · simp [hp]
  · simp [hp]

theorem netOf_perm {venue venue' : List PositionSnapshot} (h : venue' ~ venue) : netOf venue' = netOf venue := by
  funext symbol
  unfold netOf
  exact ((h.filter _).map _).sum_eq

theorem netOf_eq_zero {venue : List PositionSnapshot} {symbol : Nat}
    (h : ∀ p ∈ venue, p.symbolId = symbol → p.volume = 0) : netOf venue symbol = 0 := by
  induction venue with
  | nil => rfl
  | cons p ps ih =>
    rw [netOf_cons, ih fun q hq => h q (List.mem_cons_of_mem p hq)]
    split
    · rename_i hp
      have hzero := h p List.mem_cons_self hp
      simp [PositionSnapshot.signedVolume, hzero]
    · rfl

/-- The positions before the first one outside of the table. -/
def seen (venue : List PositionSnapshot) : List PositionSnapshot :=
  venue.takeWhile fun p => decide (p.symbolId < venueNetSize)

theorem seen_cons_of_lt {p : PositionSnapshot} (h : p.symbolId < venueNetSize) (ps : List PositionSnapshot) :
    seen (p :: ps) = p :: seen ps := by
  simp [seen, h]

theorem seen_cons_of_not {p : PositionSnapshot} (h : ¬ p.symbolId < venueNetSize) (ps : List PositionSnapshot) :
    seen (p :: ps) = [] := by
  simp [seen, h]

theorem seen_of_forall {venue : List PositionSnapshot} (h : ∀ p ∈ venue, p.symbolId < venueNetSize) :
    seen venue = venue := by
  induction venue with
  | nil => rfl
  | cons p ps ih =>
    rw [seen_cons_of_lt (h p List.mem_cons_self), ih fun q hq => h q (List.mem_cons_of_mem p hq)]

theorem accumulate_eq (net : Nat → Int) (venue : List PositionSnapshot) (symbol : Nat) :
    accumulate net venue symbol = net symbol + netOf (seen venue) symbol := by
  induction venue generalizing net with
  | nil => exact (Int.add_zero _).symm
  | cons p ps ih =>
    unfold accumulate
    split
    · rename_i hp
      rw [ih, seen_cons_of_lt hp, netOf_cons]
      by_cases hs : symbol = p.symbolId
      · rw [hs, Function.update_self, if_pos rfl, Int.add_assoc]
      · rw [Function.update_of_ne hs, if_neg (Ne.symm hs), Int.zero_add]
    · rename_i hp
      rw [seen_cons_of_not hp, netOf_nil, Int.add_zero]

/-- With room for every row and no symbol beyond the table the second loop writes all rows. -/
theorem report_eq (venueNet : Nat → Int) {s room : Nat} {locals : List Int}
    (hsize : s + locals.length ≤ venueNetSize) (hroom : locals.length ≤ room) :
    report venueNet s room locals = mismatches venueNet s locals := by
  induction locals generalizing s room with
  | nil => rfl
  | cons localNet rest ih =>
    rw [List.length_cons] at hsize hroom
    unfold report mismatches
    rw [if_pos ⟨by omega, by omega⟩, ih (by omega) (by omega), ih (by omega) (by omega)]

theorem mismatches_congr {f g : Nat → Int} {s : Nat} {locals : List Int}
    (h : ∀ k, s ≤ k → k < s + locals.length → f k = g k) : mismatches f s locals = mismatches g s locals := by
  induction locals generalizing s with
  | nil => rfl
  | cons localNet rest ih =>
    rw [List.length_cons] at h
    unfold mismatches
    rw [h s (Nat.le_refl s) (by omega), ih fun k hk hlt => h k (by omega) (by omega)]

theorem symbol_of_mem_mismatches {f : Nat → Int} {s : Nat} {locals : List Int} {row : PositionMismatch}
    (h : row ∈ mismatches f s locals) : s ≤ row.symbolId := by
  induction locals generalizing s with
  | nil => cases h
  | cons localNet rest ih =>
    unfold mismatches at h
    split at h
    · rcases List.mem_cons.mp h with rfl | hrest
      · exact Nat.le_refl _
      · exact Nat.le_of_succ_le (ih hrest)
    · exact Nat.le_of_succ_le (ih h)

/-- The rows tell the net volumes that they were made from: a symbol without a row has the local one. -/
theorem net_of_mismatches {f g : Nat → Int} {s : Nat} {locals : List Int}
    (h : mismatches f s locals = mismatches g s locals) :
    ∀ k, s ≤ k → k < s + locals.length → f k = g k := by
  induction locals generalizing s with
  | nil =>
    intro k hk hlt
    rw [List.length_nil] at hlt
    omega
  | cons localNet rest ih =>
    have hbehind : ∀ {f' : Nat → Int} {row : PositionMismatch}, row.symbolId = s →
        row ∉ mismatches f' (s + 1) rest := by
      intro f' row hrow hmem
      have hle := symbol_of_mem_mismatches hmem
      omega
    have hboth : f s = g s ∧ mismatches f (s + 1) rest = mismatches g (s + 1) rest := by
      unfold mismatches at h
      split_ifs at h with hf hg hg
      · rw [List.cons.injEq, PositionMismatch.mk.injEq] at h
        exact ⟨h.1.2.2, h.2⟩
      · exact absurd (h ▸ List.mem_cons_self) (hbehind rfl)
      · exact absurd (h ▸ List.mem_cons_self) (hbehind rfl)
      · exact ⟨(not_not.mp hf).symm.trans (not_not.mp hg), h⟩
    intro k hk hlt
    rw [List.length_cons] at hlt
    by_cases hks : k = s
    · rw [hks]
      exact hboth.1
    · exact ih hboth.2 k (by omega) (by omega)

/-! ## When every mismatch is reported -/

section Compare
variable {venue : List PositionSnapshot} {locals : List Int} {outCapacity : Nat}

theorem comparePositions_eq (venue : List PositionSnapshot) (hsize : locals.length ≤ venueNetSize)
    (hroom : locals.length ≤ outCapacity) :
    comparePositions venue locals outCapacity = mismatches (netOf (seen venue)) 0 locals := by
  unfold comparePositions
  rw [report_eq _ (by omega) hroom]
  apply mismatches_congr
  intro k _ _
  rw [accumulate_eq, Int.zero_add]

theorem AllSeen.perm {venue' : List PositionSnapshot} {symbols : Nat} (h : AllSeen venue symbols)
    (hperm : venue' ~ venue) : AllSeen venue' symbols :=
  h.imp (fun hall p hp => hall p (hperm.mem_iff.mp hp)) fun hnone p hp => hnone p (hperm.mem_iff.mp hp)

theorem AllSeen.netOf_seen {symbols : Nat} (h : AllSeen venue symbols) {k : Nat} (hk : k < symbols) :
    netOf (seen venue) k = netOf venue k := by
  rcases h with hall | hnone
  · rw [seen_of_forall hall]
  · have hzero : ∀ p ∈ venue, p.symbolId = k → p.volume = 0 := fun p hp hs => hnone p hp (by omega)
    have hsubset : seen venue ⊆ venue := (List.takeWhile_sublist _).subset
    rw [netOf_eq_zero hzero, netOf_eq_zero fun p hp => hzero p (hsubset hp)]

/-- A position that is seen in front of one outside of the table, and not behind it. -/
theorem differs_of_hidden {e p : PositionSnapshot} (he : ¬ e.symbolId < venueNetSize)
    (hp : p.symbolId < venueNetSize) (rest : List PositionSnapshot) :
    netOf (seen (p :: e :: rest)) p.symbolId = netOf (seen (e :: p :: rest)) p.symbolId + p.signedVolume := by
  rw [seen_cons_of_not he, seen_cons_of_lt hp, seen_cons_of_not he, netOf_cons, if_pos rfl, netOf_nil,
    Int.add_zero, Int.zero_add]

/-- Every mismatch is reported, in any order of the positions, exactly if no position can hide
another one that counts. -/
theorem comparePositions_exact_iff (venue : List PositionSnapshot) (locals : List Int) (outCapacity : Nat)
    (hsize : locals.length ≤ venueNetSize) (hroom : locals.length ≤ outCapacity) :
    Exact venue locals outCapacity ↔ AllSeen venue locals.length := by
  constructor
  · intro h
    by_contra hhidden
    unfold AllSeen at hhidden
    push Not at hhidden
    obtain ⟨⟨e, he, hout⟩, p, hp, hin, hvolume⟩ := hhidden
    have hne : p ≠ e := by
      rintro rfl
      omega
    obtain ⟨others, hothers⟩ : ∃ others, venue ~ e :: p :: others := by
      have hrest : p ∈ venue.erase e := (List.mem_erase_of_ne hne).mpr hp
      exact ⟨_, (List.perm_cons_erase he).trans ((List.perm_cons_erase hrest).cons e)⟩
    have hswap : p :: e :: others ~ venue := (List.Perm.swap e p others).trans hothers.symm
    have hsame := (h.orderless _ hswap).trans (h.orderless _ hothers.symm).symm
    rw [comparePositions_eq _ hsize hroom, comparePositions_eq _ hsize hroom] at hsame
    have hnet := net_of_mismatches hsame p.symbolId (Nat.zero_le _) (by omega)
    rw [differs_of_hidden (by omega) (by omega)] at hnet
    have hzero : p.signedVolume = 0 := by omega
    unfold PositionSnapshot.signedVolume at hzero
    split at hzero <;> omega
  · intro h
    have hrows : ∀ venue', venue' ~ venue →
        comparePositions venue' locals outCapacity = mismatches (netOf venue) 0 locals := by
      intro venue' hperm
      rw [comparePositions_eq _ hsize hroom]
      apply mismatches_congr
      intro k _ hk
      rw [(h.perm hperm).netOf_seen (by omega), netOf_perm hperm]
    refine ⟨hrows venue (List.Perm.refl _), fun venue' hperm => ?_⟩
    rw [hrows venue' hperm, hrows venue (List.Perm.refl _)]

end Compare

theorem comparePositions_exact_two_symbols :
    let venue : List PositionSnapshot := [⟨1, 0, .buy, 5⟩, ⟨2, 1, .sell, 3⟩]
    [5, 0].length ≤ venueNetSize ∧ (Exact venue [5, 0] 2 ↔ AllSeen venue 2) :=
  ⟨by decide, comparePositions_exact_iff _ [5, 0] 2 (by decide) (by decide)⟩

/-- The venue and the book agree on symbol 0, but a position in symbol 64 is listed first. -/
theorem hidden_position_is_a_mismatch :
    let venue : List PositionSnapshot := [⟨1, 64, .buy, 1⟩, ⟨2, 0, .buy, 5⟩]
    netOf venue 0 = 5 ∧ comparePositions venue [5] 1 = [⟨0, 5, 0⟩] ∧ mismatches (netOf venue) 0 [5] = [] ∧
      comparePositions venue.reverse [5] 1 = [] := by decide

end PositionReconciliation

end MicrostructureEngine
