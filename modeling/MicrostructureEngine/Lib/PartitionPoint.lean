import Mathlib.Data.List.Basic

/-!
# Partition points

A predicate that holds on the front of a sequence and nowhere behind has one partition point. Three
loops find it by bisection: the one that halves a count, and the two that move the ends of a closed
interval and remember the last hit. On a list the point splits off what the predicate selects.
-/

namespace MicrostructureEngine.PartitionPoint

set_option autoImplicit false

universe u
variable {α : Type u}

/-- `p` holds below `k` and nowhere from `k` on. -/
structure Splits (n : Nat) (p : Nat → Bool) (k : Nat) : Prop where
  le : k ≤ n
  below : ∀ i < k, p i = true
  above : ∀ i, k ≤ i → i < n → p i = false

/-! ## The loops -/

/-- The rest of `count` positions from `first` on is halved until nothing is left. -/
def halving (p : Nat → Bool) : Nat → Nat → Nat → Nat
  | 0, first, _ => first
  | fuel + 1, first, count =>
    if count = 0 then first
    else if p (first + count / 2) then halving p fuel (first + count / 2 + 1) (count - (count / 2 + 1))
    else halving p fuel first (count / 2)

/-- The last hit in the interval, and the search goes on behind it. -/
def lastHit (p : Nat → Bool) : Nat → Int → Int → Int → Int
  | 0, _, _, idx => idx
  | fuel + 1, lo, hi, idx =>
    if lo ≤ hi then
      let mid := (lo + hi) / 2
      if p mid.toNat then lastHit p fuel (mid + 1) hi mid else lastHit p fuel lo (mid - 1) idx
    else idx

def firstHit (p : Nat → Bool) : Nat → Int → Int → Int → Int
  | 0, _, _, idx => idx
  | fuel + 1, lo, hi, idx =>
    if lo ≤ hi then
      let mid := (lo + hi) / 2
      if p mid.toNat then firstHit p fuel lo (mid - 1) mid else firstHit p fuel (mid + 1) hi idx
    else idx

variable {n k : Nat} {p : Nat → Bool}

theorem Splits.lt_iff (h : Splits n p k) {i : Nat} (hi : i < n) : p i = true ↔ i < k := by
  constructor
  · intro hp
    by_contra hge
    rw [h.above i (Nat.le_of_not_lt hge) hi] at hp
    cases hp
  · exact h.below i

theorem Splits.halving_eq (h : Splits n p k) {fuel first count : Nat} (hfuel : count ≤ fuel) (hfirst : first ≤ k)
    (hlast : k ≤ first + count) (hcount : first + count ≤ n) : halving p fuel first count = k := by
  induction fuel generalizing first count with
  | zero =>
    unfold halving
    omega
  | succ fuel ih =>
    unfold halving
    by_cases hzero : count = 0
    · rw [if_pos hzero]
      omega
    · have hmid := h.lt_iff (i := first + count / 2) (by omega)
      rw [if_neg hzero]
      by_cases hp : p (first + count / 2) = true
      · have hbelow := hmid.mp hp
        rw [if_pos hp]
        exact ih (by omega) (by omega) (by omega) (by omega)
      · have habove : ¬ first + count / 2 < k := fun hlt => hp (hmid.mpr hlt)
        rw [if_neg hp]
        exact ih (by omega) hfirst (by omega) (by omega)

/-- The remembered hit is always the position in front of the interval. -/
theorem Splits.lastHit_eq (h : Splits n p k) {fuel : Nat} {lo hi : Int} (hfuel : hi - lo < fuel) (hlo : 0 ≤ lo)
    (hfirst : lo ≤ k) (hlast : k ≤ hi + 1) (hhi : hi < n) : lastHit p fuel lo hi (lo - 1) = k - 1 := by
  induction fuel generalizing lo hi with
  | zero =>
    unfold lastHit
    omega
  | succ fuel ih =>
    unfold lastHit
    by_cases hin : lo ≤ hi
    · have hmid := h.lt_iff (i := ((lo + hi) / 2).toNat) (by omega)
      rw [if_pos hin]
      dsimp only
      by_cases hp : p ((lo + hi) / 2).toNat = true
      · have hbelow := hmid.mp hp
        have hprevious : (lo + hi) / 2 = (lo + hi) / 2 + 1 - 1 := by omega
        rw [if_pos hp]
        conv_lhs => arg 5; rw [hprevious]
        exact ih (by omega) (by omega) (by omega) hlast hhi
      · have habove : ¬ ((lo + hi) / 2).toNat < k := fun hlt => hp (hmid.mpr hlt)
        rw [if_neg hp]
        exact ih (by omega) hlo hfirst (by omega) (by omega)
    · rw [if_neg hin]
      omega

theorem Splits.firstHit_eq (h : Splits n (fun i => !p i) k) {fuel : Nat} {lo hi idx : Int} (hfuel : hi - lo < fuel)
    (hlo : 0 ≤ lo) (hfirst : lo ≤ k) (hlast : k ≤ hi + 1) (hhi : hi < n)
    (hidx : idx = if hi + 1 = n then -1 else hi + 1) :
    firstHit p fuel lo hi idx = if k = n then -1 else (k : Int) := by
  induction fuel generalizing lo hi idx with
  | zero =>
    unfold firstHit
    rw [hidx]
    split_ifs <;> omega
  | succ fuel ih =>
    unfold firstHit
    by_cases hin : lo ≤ hi
    · have hmid := h.lt_iff (i := ((lo + hi) / 2).toNat) (by omega)
      rw [if_pos hin]
      dsimp only
      by_cases hp : p ((lo + hi) / 2).toNat = true
      · have habove : ¬ ((lo + hi) / 2).toNat < k := by
          intro hlt
          have hnot := hmid.mpr hlt
          rw [hp] at hnot
          cases hnot
        rw [if_pos hp]
        refine ih (by omega) hlo hfirst (by omega) (by omega) ?_
        rw [if_neg (by omega)]
        omega
      · have hbelow := hmid.mp (by simpa using hp)
        rw [if_neg hp]
        exact ih (by omega) (by omega) (by omega) hlast hhi hidx
    · rw [if_neg hin, hidx]
      split_ifs <;> omega

/-! ## Lists -/

/-- What is selected is in front of what is not. -/
def Partitioned (select : α → Bool) (l : List α) : Prop := l.Pairwise fun a b => select b = true → select a = true

variable {select : α → Bool} {l : List α}

theorem Partitioned.filter_append (h : Partitioned select l) :
    l.filter select ++ l.filter (fun a => !select a) = l := by
  induction l with
  | nil => rfl
  | cons a l ih =>
    obtain ⟨hhead, htail⟩ := List.pairwise_cons.mp h
    cases ha : select a with
    | true =>
      rw [List.filter_cons_of_pos ha, List.filter_cons_of_neg (by simp [ha]), List.cons_append, ih htail]
    | false =>
      have hnone : l.filter select = [] := by
        rw [List.filter_eq_nil_iff]
        intro b hb hsel
        rw [hhead b hb hsel] at ha
        cases ha
      have hrest := ih htail
      rw [hnone, List.nil_append] at hrest
      rw [List.filter_cons_of_neg (by simp [ha]), List.filter_cons_of_pos (by simp [ha]), hnone, hrest,
        List.nil_append]

def at? (select : α → Bool) (l : List α) (i : Nat) : Bool := l[i]?.any select

theorem Partitioned.splits (h : Partitioned select l) : Splits l.length (at? select l) (l.filter select).length := by
  have hparts := h.filter_append
  refine ⟨List.length_filter_le _ _, ?_, ?_⟩
  · intro i hi
    unfold at?
    rw [← hparts, List.getElem?_append_left hi, List.getElem?_eq_getElem hi]
    exact (List.mem_filter.mp (List.getElem_mem hi)).2
  · intro i hge hi
    unfold at?
    have hlength := congrArg List.length hparts
    rw [List.length_append] at hlength
    have hback : i - (l.filter select).length < (l.filter fun a => !select a).length := by omega
    rw [← hparts, List.getElem?_append_right hge, List.getElem?_eq_getElem hback]
    have hnot := (List.mem_filter.mp (List.getElem_mem hback)).2
    simpa using hnot

theorem Partitioned.splits_not (h : Partitioned (fun a => !select a) l) :
    Splits l.length (fun i => !at? select l i) (l.filter fun a => !select a).length := by
  have hswap : ∀ i < l.length, at? (fun a => !select a) l i = !at? select l i := by
    intro i hi
    unfold at?
    rw [List.getElem?_eq_getElem hi]
    rfl
  refine ⟨h.splits.le, fun i hi => ?_, fun i hge hi => ?_⟩
  · have hin : i < l.length := Nat.lt_of_lt_of_le hi h.splits.le
    rw [← hswap i hin]
    exact h.splits.below i hi
  · rw [← hswap i hi]
    exact h.splits.above i hge hi

theorem Partitioned.getElem?_point (h : Partitioned select l) :
    l[(l.filter select).length]? = (l.filter fun a => !select a).head? := by
  have hparts := h.filter_append
  generalize l.filter select = front, l.filter (fun a => !select a) = back at hparts ⊢
  rw [← hparts, List.getElem?_append_right (Nat.le_refl _), Nat.sub_self, List.head?_eq_getElem?]

theorem Partitioned.getElem?_before (h : Partitioned select l) (hpos : 0 < (l.filter select).length) :
    l[(l.filter select).length - 1]? = (l.filter select).getLast? := by
  have hparts := h.filter_append
  generalize l.filter select = front, l.filter (fun a => !select a) = back at hparts hpos ⊢
  rw [← hparts, List.getElem?_append_left (by omega), List.getLast?_eq_getElem?]

end MicrostructureEngine.PartitionPoint
