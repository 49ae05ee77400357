import Mathlib.Data.Finset.Card
import Mathlib.Data.Finset.Range
import Mathlib.Data.List.Nodup
import Mathlib.Data.List.Perm.Subperm
import Mathlib.Logic.Function.Basic

/-!
# Open addressing with tombstones

A table of `n` cells indexes the slots of a dense array by key. The probe run of a key
starts at its home position and wraps once around the table; a lookup walks it until it
meets the key or an empty cell. `Indexed` is the representation invariant: every occupied
cell belongs to a live slot, no slot has two cells, and no empty cell separates a live
slot from its home. Insertion, deletion by tombstone and relocation of a slot keep it.
-/

namespace MicrostructureEngine.Probing

set_option autoImplicit false

universe u v
variable {β : Type v}

/-- `for (k = 0; k < n; ++k)` with an early return: the first value the body yields. -/
def scan (n : Nat) (body : Nat → Option β) : Option β := (List.range n).findSome? body

theorem scan_succ (n : Nat) (body : Nat → Option β) :
    scan (n + 1) body = (scan n body).or (body n) := by
  simp [scan, List.range_succ, List.findSome?_append]

theorem scan_eq_none_iff {n : Nat} {body : Nat → Option β} :
    scan n body = none ↔ ∀ k < n, body k = none := by
  simp [scan]

theorem scan_eq_some_iff {n : Nat} {body : Nat → Option β} {b : β} :
    scan n body = some b ↔ ∃ k < n, body k = some b ∧ ∀ j < k, body j = none := by
  induction n with
  | zero => simp [scan]
  | succ n ih =>
    rw [scan_succ, Option.or_eq_some_iff, ih, scan_eq_none_iff]
    constructor
    · rintro (⟨k, hk, hb, hj⟩ | ⟨hnone, hb⟩)
      · exact ⟨k, by omega, hb, hj⟩
      · exact ⟨n, by omega, hb, hnone⟩
    · rintro ⟨k, hk, hb, hj⟩
      by_cases hkn : k = n
      · subst hkn
        exact Or.inr ⟨hj, hb⟩
      · exact Or.inl ⟨k, by omega, hb, hj⟩

theorem scan_map {γ : Type v} (n : Nat) (body : Nat → Option β) (f : β → γ) :
    scan n (fun k => (body k).map f) = (scan n body).map f := by
  induction n with
  | zero => rfl
  | succ n ih =>
    rw [scan_succ, scan_succ, ih]
    cases scan n body <;> rfl

/-- The `k`-th position of the probe run that starts at `home`. -/
def probe (n home k : Nat) : Nat := (home + k) % n

theorem probe_lt {n : Nat} (hn : 0 < n) (home k : Nat) : probe n home k < n :=
  Nat.mod_lt _ hn

/-- How many steps from `home` the probe run meets position `p`. -/
def distance (n home p : Nat) : Nat := (p + (n - home % n)) % n

theorem distance_lt {n : Nat} (hn : 0 < n) (home p : Nat) : distance n home p < n :=
  Nat.mod_lt _ hn

theorem probe_distance {n p : Nat} (hp : p < n) (home : Nat) :
    probe n home (distance n home p) = p := by
  have hh := Nat.mod_lt home (by omega : 0 < n)
  unfold probe distance
  rw [Nat.add_mod, Nat.mod_mod, ← Nat.add_mod]
  have hsplit : home + (p + (n - home % n)) = p + n * (home / n + 1) := by
    have := Nat.div_add_mod home n
    rw [Nat.mul_add, Nat.mul_one]
    omega
  rw [hsplit, Nat.add_mul_mod_self_left, Nat.mod_eq_of_lt hp]

/-- One pass of a probe run visits every position. -/
theorem exists_probe_eq {n p : Nat} (hp : p < n) (home : Nat) :
    ∃ k < n, probe n home k = p :=
  ⟨distance n home p, distance_lt (by omega) home p, probe_distance hp home⟩

inductive Cell where
  | empty
  | tombstone
  | occupied (slot : Nat)
  deriving DecidableEq, Repr, Inhabited

namespace Cell

def slot : Cell → Nat
  | occupied i => i
  | _ => 0

def isOccupied : Cell → Bool
  | occupied _ => true
  | _ => false

theorem isOccupied_iff {c : Cell} : c.isOccupied = true ↔ ∃ i, c = occupied i := by
  cases c <;> simp [isOccupied]

end Cell

variable {K : Type u}

/-- What one step of a lookup sees: `some none` ends the walk at an empty cell. -/
def lookupStep [DecidableEq K] (cells : Nat → Cell) (key : Nat → K) (k : K) (p : Nat) :
    Option (Option Nat) :=
  match cells p with
  | .empty => some none
  | .tombstone => none
  | .occupied i => if key i = k then some (some p) else none

/-- The position of `k`'s cell, if the probe run meets it before an empty cell. -/
def lookup [DecidableEq K] (n : Nat) (home : K → Nat) (cells : Nat → Cell) (key : Nat → K)
    (k : K) : Option Nat :=
  (scan n fun step => lookupStep cells key k (probe n (home k) step)).join

/-- The first cell of the run that holds no slot: an empty one or a tombstone. -/
def freeCell (n home : Nat) (cells : Nat → Cell) : Option Nat :=
  scan n fun step =>
    if (cells (probe n home step)).isOccupied then none else some (probe n home step)

structure Indexed (n : Nat) (home : K → Nat) (cells : Nat → Cell) (key : Nat → K)
    (live : Nat → Prop) : Prop where
  live_of_cell : ∀ p < n, ∀ i, cells p = .occupied i → live i
  single : ∀ p < n, ∀ q < n, ∀ i, cells p = .occupied i → cells q = .occupied i → p = q
  reach : ∀ i, live i → ∃ k < n, cells (probe n (home (key i)) k) = .occupied i ∧
    ∀ j < k, cells (probe n (home (key i)) j) ≠ .empty

variable {n : Nat} {home : K → Nat} {cells : Nat → Cell} {key : Nat → K} {live : Nat → Prop}

theorem indexed_empty (n : Nat) (home : K → Nat) (key : Nat → K) :
    Indexed n home (fun _ => .empty) key (fun _ => False) where
  live_of_cell := by simp
  single := by simp
  reach := by simp

theorem Indexed.congr {live' : Nat → Prop} {key' : Nat → K}
    (h : Indexed n home cells key live) (hlive : ∀ i, live i ↔ live' i)
    (hkey : ∀ i, live i → key i = key' i) : Indexed n home cells key' live' where
  live_of_cell := fun p hp i hc => (hlive i).mp (h.live_of_cell p hp i hc)
  single := h.single
  reach := by
    intro i hi
    have hl := (hlive i).mpr hi
    rw [← hkey i hl]
    exact h.reach i hl

/-- Cells outside the table do not matter. -/
theorem Indexed.congr_cells {cells' : Nat → Cell} (h : Indexed n home cells key live)
    (hcells : ∀ p < n, cells' p = cells p) : Indexed n home cells' key live where
  live_of_cell := by
    intro p hp i hc
    exact h.live_of_cell p hp i (hcells p hp ▸ hc)
  single := by
    intro p hp q hq i hpi hqi
    exact h.single p hp q hq i (hcells p hp ▸ hpi) (hcells q hq ▸ hqi)
  reach := by
    intro i hi
    obtain ⟨k, hk, hc, hpath⟩ := h.reach i hi
    have hlt : ∀ j, probe n (home (key i)) j < n := probe_lt (by omega) _
    refine ⟨k, hk, by rw [hcells _ (hlt k)]; exact hc, ?_⟩
    intro j hj
    rw [hcells _ (hlt j)]
    exact hpath j hj

theorem Indexed.exists_cell (h : Indexed n home cells key live) {i : Nat} (hi : live i) :
    ∃ p < n, cells p = .occupied i := by
  obtain ⟨k, hk, hc, _⟩ := h.reach i hi
  exact ⟨probe n (home (key i)) k, probe_lt (by omega) _ _, hc⟩

section Lookup
variable [DecidableEq K]

theorem lookupStep_eq_none_iff {k : K} {p : Nat} :
    lookupStep cells key k p = none ↔
      cells p ≠ .empty ∧ ∀ i, cells p = .occupied i → key i ≠ k := by
  unfold lookupStep
  cases cells p with
  | empty => simp
  | tombstone => simp
  | occupied i =>
    by_cases hk : key i = k <;> simp [hk]

theorem lookupStep_eq_some_none_iff {k : K} {p : Nat} :
    lookupStep cells key k p = some none ↔ cells p = .empty := by
  unfold lookupStep
  cases cells p with
  | empty => simp
  | tombstone => simp
  | occupied i =>
    by_cases hk : key i = k <;> simp [hk]

theorem lookupStep_eq_some_some_iff {k : K} {p q : Nat} :
    lookupStep cells key k p = some (some q) ↔
      p = q ∧ ∃ i, cells p = .occupied i ∧ key i = k := by
  unfold lookupStep
  cases cells p with
  | empty => simp
  | tombstone => simp
  | occupied i =>
    by_cases hk : key i = k <;> simp [hk]

/-- A lookup that finds something finds a live slot with the key asked for. -/
theorem Indexed.lookup_sound (h : Indexed n home cells key live) {k : K} {p : Nat}
    (hl : lookup n home cells key k = some p) :
    p < n ∧ ∃ i, live i ∧ key i = k ∧ cells p = .occupied i := by
  obtain ⟨step, hstep, hb, _⟩ := scan_eq_some_iff.mp (Option.join_eq_some_iff.mp hl)
  obtain ⟨rfl, i, hc, hk⟩ := lookupStep_eq_some_some_iff.mp hb
  have hp : probe n (home k) step < n := probe_lt (by omega) _ _
  exact ⟨hp, i, h.live_of_cell _ hp i hc, hk, hc⟩

/-- A live key is never reported missing: no empty cell cuts its probe run short. -/
theorem Indexed.lookup_ne_none (h : Indexed n home cells key live) {i : Nat} (hi : live i) :
    lookup n home cells key (key i) ≠ none := by
  obtain ⟨k, hk, hc, hne⟩ := h.reach i hi
  have hhit : lookupStep cells key (key i) (probe n (home (key i)) k) ≠ none := by
    intro hb
    exact (lookupStep_eq_none_iff.mp hb).2 i hc rfl
  intro hl
  rcases Option.join_eq_none_iff.mp hl with hscan | hscan
  · exact hhit (scan_eq_none_iff.mp hscan k hk)
  · obtain ⟨step, _, hb, hbefore⟩ := scan_eq_some_iff.mp hscan
    have hempty := lookupStep_eq_some_none_iff.mp hb
    rcases Nat.lt_trichotomy step k with hlt | heq | hgt
    · exact hne step hlt hempty
    · rw [heq, hc] at hempty
      cases hempty
    · exact hhit (hbefore k hgt)

theorem Indexed.lookup_eq_some_iff (h : Indexed n home cells key live)
    (hkeys : ∀ i j, live i → live j → key i = key j → i = j) {k : K} {p : Nat} :
    lookup n home cells key k = some p ↔
      p < n ∧ ∃ i, live i ∧ key i = k ∧ cells p = .occupied i := by
  refine ⟨h.lookup_sound, ?_⟩
  rintro ⟨hp, i, hi, rfl, hc⟩
  cases hl : lookup n home cells key (key i) with
  | none => exact absurd hl (h.lookup_ne_none hi)
  | some q =>
    obtain ⟨hq, j, hj, hkey, hcq⟩ := h.lookup_sound hl
    have hij := hkeys j i hj hi hkey
    subst hij
    rw [h.single q hq p hp j hcq hc]

theorem Indexed.lookup_eq_none_iff (h : Indexed n home cells key live) {k : K} :
    lookup n home cells key k = none ↔ ∀ i, live i → key i ≠ k := by
  constructor
  · rintro hl i hi rfl
    exact h.lookup_ne_none hi hl
  · intro hk
    cases hl : lookup n home cells key k with
    | none => rfl
    | some p =>
      obtain ⟨_, i, hi, hkey, _⟩ := h.lookup_sound hl
      exact absurd hkey (hk i hi)

end Lookup

theorem freeCell_sound {m p : Nat} (hf : freeCell n m cells = some p) :
    p < n ∧ (cells p).isOccupied = false ∧ ∃ k < n, probe n m k = p ∧
      ∀ j < k, (cells (probe n m j)).isOccupied = true := by
  obtain ⟨k, hk, hb, hbefore⟩ := scan_eq_some_iff.mp hf
  split at hb
  · cases hb
  · rename_i hfree
    simp only [Option.some.injEq] at hb
    subst hb
    refine ⟨probe_lt (by omega) _ _, by simpa using hfree, k, hk, rfl, ?_⟩
    intro j hj
    have := hbefore j hj
    by_contra hocc
    simp [hocc] at this

/-- Fewer live slots than cells leave a cell for the next insertion (pigeonhole). -/
theorem Indexed.freeCell_ne_none (h : Indexed n home cells key live) {c : Nat}
    (hlive : ∀ i, live i → i < c) (hc : c < n) (m : Nat) : freeCell n m cells ≠ none := by
  intro hf
  have hall : ∀ p < n, ∃ i, cells p = .occupied i := by
    intro p hp
    obtain ⟨k, hk, rfl⟩ := exists_probe_eq hp m
    have hb := scan_eq_none_iff.mp hf k hk
    apply Cell.isOccupied_iff.mp
    by_contra hocc
    simp [hocc] at hb
  have hcard : (Finset.range n).card ≤ (Finset.range c).card := by
    apply Finset.card_le_card_of_injOn (fun p => (cells p).slot)
    · intro p hp
      have hp' : p < n := by simpa using hp
      obtain ⟨i, hi⟩ := hall p hp'
      have := hlive i (h.live_of_cell p hp' i hi)
      simpa [hi, Cell.slot] using this
    · intro p hp q hq heq
      have hp' : p < n := by simpa using hp
      have hq' : q < n := by simpa using hq
      obtain ⟨i, hi⟩ := hall p hp'
      obtain ⟨j, hj⟩ := hall q hq'
      simp only [hi, hj, Cell.slot] at heq
      subst heq
      exact h.single p hp' q hq' i hi hj
  simp at hcard
  omega

/-- Storing a new slot in the first free cell of its run. -/
theorem Indexed.insert (h : Indexed n home cells key live) {i p : Nat} (hi : ¬ live i)
    (hf : freeCell n (home (key i)) cells = some p) :
    Indexed n home (Function.update cells p (.occupied i)) key (fun j => live j ∨ j = i) := by
  obtain ⟨hp, hfree, k, hk, hpk, hbefore⟩ := freeCell_sound hf
  have hne : ∀ j, cells p ≠ .occupied j := by
    intro j hj
    simp [hj, Cell.isOccupied] at hfree
  -- Filling a free cell turns no cell empty, so every older run stays connected.
  have hkeep : ∀ q, cells q ≠ .empty → Function.update cells p (.occupied i) q ≠ .empty := by
    intro q hq
    by_cases hqp : q = p
    · simp [hqp]
    · rwa [Function.update_of_ne hqp]
  have hold : ∀ q j, cells q = .occupied j → Function.update cells p (.occupied i) q = .occupied j := by
    intro q j hq
    rw [Function.update_of_ne]
    · exact hq
    · rintro rfl
      exact hne j hq
  refine ⟨?_, ?_, ?_⟩
  · intro q hq j hj
    by_cases hqp : q = p
    · subst hqp
      simp only [Function.update_self, Cell.occupied.injEq] at hj
      exact Or.inr hj.symm
    · rw [Function.update_of_ne hqp] at hj
      exact Or.inl (h.live_of_cell q hq j hj)
  · intro q hq r hr j hqj hrj
    have hnot : ∀ t < n, t ≠ p → Function.update cells p (.occupied i) t = .occupied i → False := by
      intro t ht htp hti
      rw [Function.update_of_ne htp] at hti
      exact hi (h.live_of_cell t ht i hti)
    by_cases hqp : q = p <;> by_cases hrp : r = p
    · rw [hqp, hrp]
    · rw [hqp, Function.update_self, Cell.occupied.injEq] at hqj
      exact (hnot r hr hrp (hqj ▸ hrj)).elim
    · rw [hrp, Function.update_self, Cell.occupied.injEq] at hrj
      exact (hnot q hq hqp (hrj ▸ hqj)).elim
    · rw [Function.update_of_ne hqp] at hqj
      rw [Function.update_of_ne hrp] at hrj
      exact h.single q hq r hr j hqj hrj
  · rintro j (hj | rfl)
    · obtain ⟨m, hm, hc, hpath⟩ := h.reach j hj
      exact ⟨m, hm, hold _ j hc, fun t ht => hkeep _ (hpath t ht)⟩
    · refine ⟨k, hk, by rw [hpk, Function.update_self], fun t ht => hkeep _ ?_⟩
      obtain ⟨i', hi'⟩ := Cell.isOccupied_iff.mp (hbefore t ht)
      simp [hi']

/-- Deleting a slot leaves a tombstone in its cell. -/
theorem Indexed.erase (h : Indexed n home cells key live) {i p : Nat} (hp : p < n)
    (hc : cells p = .occupied i) :
    Indexed n home (Function.update cells p .tombstone) key (fun j => live j ∧ j ≠ i) := by
  have hback : ∀ q j, Function.update cells p .tombstone q = .occupied j →
      q ≠ p ∧ cells q = .occupied j := by
    intro q j hq
    by_cases hqp : q = p
    · simp [hqp] at hq
    · exact ⟨hqp, by rwa [Function.update_of_ne hqp] at hq⟩
  refine ⟨?_, ?_, ?_⟩
  · intro q hq j hj
    obtain ⟨hqp, hcq⟩ := hback q j hj
    refine ⟨h.live_of_cell q hq j hcq, ?_⟩
    rintro rfl
    exact hqp (h.single q hq p hp j hcq hc)
  · intro q hq r hr j hqj hrj
    exact h.single q hq r hr j (hback q j hqj).2 (hback r j hrj).2
  · rintro j ⟨hj, hji⟩
    obtain ⟨m, hm, hcm, hpath⟩ := h.reach j hj
    refine ⟨m, hm, ?_, ?_⟩
    · rw [Function.update_of_ne]
      · exact hcm
      · intro he
        rw [he, hc, Cell.occupied.injEq] at hcm
        exact hji hcm.symm
    · intro t ht
      by_cases he : probe n (home (key j)) t = p
      · simp [he]
      · rw [Function.update_of_ne he]
        exact hpath t ht

/-- Moving the entry of slot `i` to the unused slot `i'`: its cell is relabelled in place. -/
theorem Indexed.relabel (h : Indexed n home cells key live) {i i' p : Nat} (hp : p < n)
    (hc : cells p = .occupied i) (hi' : ¬ live i') :
    Indexed n home (Function.update cells p (.occupied i')) (Function.update key i' (key i))
      (fun j => (live j ∧ j ≠ i) ∨ j = i') := by
  have hi : live i := h.live_of_cell p hp i hc
  have hback : ∀ q j, Function.update cells p (.occupied i') q = .occupied j →
      (q = p ∧ j = i') ∨ (q ≠ p ∧ cells q = .occupied j) := by
    intro q j hq
    by_cases hqp : q = p
    · simp only [hqp, Function.update_self, Cell.occupied.injEq] at hq
      exact Or.inl ⟨hqp, hq.symm⟩
    · exact Or.inr ⟨hqp, by rwa [Function.update_of_ne hqp] at hq⟩
  have hkeep : ∀ q, cells q ≠ .empty → Function.update cells p (.occupied i') q ≠ .empty := by
    intro q hq
    by_cases hqp : q = p
    · simp [hqp]
    · rwa [Function.update_of_ne hqp]
  refine ⟨?_, ?_, ?_⟩
  · intro q hq j hj
    rcases hback q j hj with ⟨_, rfl⟩ | ⟨hqp, hcq⟩
    · exact Or.inr rfl
    · refine Or.inl ⟨h.live_of_cell q hq j hcq, ?_⟩
      rintro rfl
      exact hqp (h.single q hq p hp j hcq hc)
  · intro q hq r hr j hqj hrj
    rcases hback q j hqj with ⟨hq', hj⟩ | ⟨hqp, hcq⟩ <;>
      rcases hback r j hrj with ⟨hr', hj'⟩ | ⟨hrp, hcr⟩
    · rw [hq', hr']
    · exact (hi' (hj ▸ h.live_of_cell r hr j hcr)).elim
    · exact (hi' (hj' ▸ h.live_of_cell q hq j hcq)).elim
    · exact h.single q hq r hr j hcq hcr
  · rintro j (⟨hj, hji⟩ | rfl)
    · have hji' : j ≠ i' := by
        rintro rfl
        exact hi' hj
      rw [Function.update_of_ne hji']
      obtain ⟨m, hm, hcm, hpath⟩ := h.reach j hj
      refine ⟨m, hm, ?_, fun t ht => hkeep _ (hpath t ht)⟩
      rw [Function.update_of_ne]
      · exact hcm
      · intro he
        rw [he, hc, Cell.occupied.injEq] at hcm
        exact hji hcm.symm
    · rw [Function.update_self]
      obtain ⟨m, hm, hcm, hpath⟩ := h.reach i hi
      refine ⟨m, hm, ?_, fun t ht => hkeep _ (hpath t ht)⟩
      have : probe n (home (key i)) m = p := h.single _ (probe_lt (by omega) _ _) p hp i hcm hc
      rw [this, Function.update_self]

/-! ## Tallies -/

namespace Cell

def isEmpty : Cell → Bool
  | empty => true
  | _ => false

def isTombstone : Cell → Bool
  | tombstone => true
  | _ => false

theorem isEmpty_iff {c : Cell} : c.isEmpty = true ↔ c = empty := by
  cases c <;> simp [isEmpty]

end Cell

/-- How many cells of the table satisfy `p`. -/
def tally (n : Nat) (cells : Nat → Cell) (p : Cell → Bool) : Nat :=
  (List.range n).countP fun q => p (cells q)

theorem tally_succ (n : Nat) (cells : Nat → Cell) (p : Cell → Bool) :
    tally (n + 1) cells p = tally n cells p + (p (cells n)).toNat := by
  unfold tally
  rw [List.range_succ, List.countP_append, List.countP_singleton]
  cases p (cells n) <;> rfl

/-- Rewriting one cell moves a tally by what the new cell adds and the old one takes away. -/
theorem tally_update (cells : Nat → Cell) {q : Nat} (hq : q < n) (c : Cell) (p : Cell → Bool) :
    tally n (Function.update cells q c) p + (p (cells q)).toNat = tally n cells p + (p c).toNat := by
  induction n with
  | zero => cases hq
  | succ n ih =>
    rw [tally_succ, tally_succ]
    rcases Nat.lt_or_ge q n with hlt | hge
    · rw [Function.update_of_ne (Nat.ne_of_gt hlt)]
      have hrest := ih hlt
      omega
    · obtain rfl : q = n := by omega
      have hsame : tally q (Function.update cells q c) p = tally q cells p := by
        apply List.countP_congr
        intro r hr
        rw [Function.update_of_ne (Nat.ne_of_lt (List.mem_range.mp hr))]
      rw [hsame, Function.update_self]
      omega

theorem tally_kinds (n : Nat) (cells : Nat → Cell) :
    tally n cells Cell.isEmpty + tally n cells Cell.isTombstone + tally n cells Cell.isOccupied = n := by
  induction n with
  | zero => rfl
  | succ n ih =>
    rw [tally_succ, tally_succ, tally_succ]
    have hone : (cells n).isEmpty.toNat + (cells n).isTombstone.toNat + (cells n).isOccupied.toNat = 1 := by
      cases cells n <;> rfl
    omega

/-- The occupied cells are as many as the live slots. -/
theorem Indexed.tally_occupied {c : Nat} (h : Indexed n home cells key (· < c)) :
    tally n cells Cell.isOccupied = c := by
  have hcell : ∀ q ∈ (List.range n).filter fun q => (cells q).isOccupied,
      q < n ∧ cells q = .occupied (cells q).slot := by
    intro q hq
    obtain ⟨hrange, hocc⟩ := List.mem_filter.mp hq
    obtain ⟨i, hi⟩ := Cell.isOccupied_iff.mp hocc
    exact ⟨List.mem_range.mp hrange, by rw [hi]; rfl⟩
  have hnodup : (((List.range n).filter fun q => (cells q).isOccupied).map fun q => (cells q).slot).Nodup := by
    apply List.Nodup.map_on _ (List.nodup_range.filter _)
    intro q hq r hr heq
    obtain ⟨hqn, hcq⟩ := hcell q hq
    obtain ⟨hrn, hcr⟩ := hcell r hr
    exact h.single q hqn r hrn _ hcq (heq ▸ hcr)
  have hperm : (((List.range n).filter fun q => (cells q).isOccupied).map fun q => (cells q).slot).Perm
      (List.range c) := by
    apply (List.perm_ext_iff_of_nodup hnodup List.nodup_range).mpr
    intro i
    rw [List.mem_map, List.mem_range]
    constructor
    · rintro ⟨q, hq, rfl⟩
      obtain ⟨hqn, hcq⟩ := hcell q hq
      exact h.live_of_cell q hqn _ hcq
    · intro hi
      obtain ⟨q, hqn, hcq⟩ := h.exists_cell hi
      refine ⟨q, List.mem_filter.mpr ⟨List.mem_range.mpr hqn, ?_⟩, ?_⟩
      · rw [hcq]
        rfl
      · rw [hcq]
        rfl
  have hlength := hperm.length_eq
  rw [List.length_map, List.length_range, ← List.countP_eq_length_filter] at hlength
  exact hlength

theorem exists_empty (h : tally n cells Cell.isOccupied + tally n cells Cell.isTombstone < n) :
    ∃ q < n, cells q = .empty := by
  have hkinds := tally_kinds n cells
  have hpos : 0 < tally n cells Cell.isEmpty := by omega
  obtain ⟨q, hq, hempty⟩ := List.countP_pos_iff.mp hpos
  exact ⟨q, List.mem_range.mp hq, Cell.isEmpty_iff.mp hempty⟩

/-- In a table with an empty cell a lookup that finds nothing ends at an empty cell. -/
theorem lookup_ends_at_empty [DecidableEq K] {k : K} (hl : lookup n home cells key k = none)
    (hroom : tally n cells Cell.isOccupied + tally n cells Cell.isTombstone < n) :
    ∃ step < n, cells (probe n (home k) step) = .empty ∧
      ∀ j < step, lookupStep cells key k (probe n (home k) j) = none := by
  rcases Option.join_eq_none_iff.mp hl with hscan | hscan
  · obtain ⟨q, hq, hempty⟩ := exists_empty hroom
    obtain ⟨step, hstep, rfl⟩ := exists_probe_eq hq (home k)
    exact absurd hempty (lookupStep_eq_none_iff.mp (scan_eq_none_iff.mp hscan step hstep)).1
  · obtain ⟨step, hstep, hb, hbefore⟩ := scan_eq_some_iff.mp hscan
    exact ⟨step, hstep, lookupStep_eq_some_none_iff.mp hb, hbefore⟩

end MicrostructureEngine.Probing
