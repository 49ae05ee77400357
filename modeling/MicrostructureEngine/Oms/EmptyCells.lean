import MicrostructureEngine.Lib.Runs
import MicrostructureEngine.Oms.OrderMap

/-!
# Empty cells of the order index

How full the index gets. A reclaim turns an occupied cell into a tombstone and an insertion fills the
first cell of its run that is free, so only an insertion into an empty cell brings the table closer to
full. The tombstones are cleared once there are more of them than the capacity, not as many: with an index
of exactly twice the capacity the live orders and the tombstones together can fill it.
-/

namespace MicrostructureEngine.OmsState

open Probing
set_option autoImplicit false

/-- One call, its answer dropped. -/
def call (s : OmsState) (op : OmsOp) : OmsState := (s.apply op).2

def occupiedEntries (s : OmsState) : Nat := tally s.indexCapacity s.index Cell.isOccupied

def tombstoneMarkers (s : OmsState) : Nat := tally s.indexCapacity s.index Cell.isTombstone

/-- The probe run of the reference meets an EMPTY marker, and nothing before it stops the run. -/
def EndsAtEmpty (s : OmsState) (ref : BrokerOrderRef) : Prop :=
  ∃ step < s.indexCapacity, s.index (s.probePos ref step) = .empty ∧
    ∀ earlier < step, s.probeStep ref (s.probePos ref earlier) = none

structure KeepsEmpty (s : OmsState) : Prop where
  room : s.occupiedEntries + s.tombstones < s.indexCapacity
  finds : ∀ ref, s.find ref = none → s.EndsAtEmpty ref
  tombstones : s.tombstones = s.tombstoneMarkers

/-- The reference that a `create` or `restore` is going to insert. -/
def inserting (s : OmsState) : OmsOp → Option BrokerOrderRef
  | .create ref _ _ => if (s.find ref).isSome ∨ s.count ≥ s.capacity then none else some ref
  | .restore o =>
    if (s.find o.ref).isSome ∨ s.count ≥ s.capacity ∨ o.requestedVolume ≤ 0 ∨
        o.filledVolume < 0 ∨ o.filledVolume > o.requestedVolume then none
    else some o.ref
  | _ => none

/-- The first cell of the reference's run that holds no order is a tombstone. -/
def MeetsTombstone (s : OmsState) (ref : BrokerOrderRef) : Prop :=
  ∃ step < s.indexCapacity, s.index (s.probePos ref step) = .tombstone ∧
    ∀ earlier < step, (s.index (s.probePos ref earlier)).isOccupied = true

/-- An insertion leaves a cell empty, or takes the place of a tombstone. -/
def LeavesEmpty (s : OmsState) (op : OmsOp) : Prop :=
  ∀ ref ∈ s.inserting op, s.count + s.tombstones + 1 < s.indexCapacity ∨ s.MeetsTombstone ref

/-! ## Counting tombstones -/

/-- `tombstones_` is the number of tombstone markers. -/
def Counted (s : OmsState) : Prop := s.tombstones = s.tombstoneMarkers

theorem occupiedEntries_eq {s : OmsState} (h : s.Inv) : s.occupiedEntries = s.count := h.indexed.tally_occupied

theorem indexInsert_counted {s : OmsState} (hpow : ∃ k, s.indexCapacity = 2 ^ k) (h : s.Counted)
    (ref : BrokerOrderRef) (slot : Nat) : (s.indexInsert ref slot).Counted := by
  cases hf : freeCell s.indexCapacity (s.home ref) s.index with
  | none =>
    have hsame : s.indexInsert ref slot = s := by
      unfold indexInsert
      unfold freeCell at hf
      simp only [probePos_eq hpow, hf]
    rw [hsame]
    exact h
  | some p =>
    obtain ⟨hp, hfree, -⟩ := freeCell_sound hf
    have htally := tally_update s.index hp (.occupied slot) Cell.isTombstone
    rw [indexInsert_eq hpow ref slot hf]
    unfold Counted tombstoneMarkers at h ⊢
    dsimp only
    cases hc : s.index p with
    | empty =>
      rw [hc] at htally
      simp only [Cell.isTombstone, Bool.toNat_false, Nat.add_zero] at htally
      rw [if_neg (by simp), htally]
      exact h
    | tombstone =>
      rw [hc] at htally
      simp only [Cell.isTombstone, Bool.toNat_false, Bool.toNat_true, Nat.add_zero] at htally
      rw [if_pos rfl]
      omega
    | occupied i =>
      rw [hc] at hfree
      cases hfree

theorem indexInsert_tombstones_le (s : OmsState) (ref : BrokerOrderRef) (slot : Nat) :
    (s.indexInsert ref slot).tombstones ≤ s.tombstones := by
  unfold indexInsert
  split
  · exact Nat.le_refl _
  · dsimp only
    split
    · exact Nat.sub_le _ _
    · exact Nat.le_refl _

theorem reindex_counted {s : OmsState} (hpow : ∃ k, s.indexCapacity = 2 ^ k) (h : s.Counted) (m : Nat) :
    (s.reindex m).Counted ∧ (s.reindex m).tombstones ≤ s.tombstones := by
  induction m with
  | zero => exact ⟨h, Nat.le_refl _⟩
  | succ m ih =>
    obtain ⟨-, hicap, -⟩ := reindex_fields s m
    rw [reindex_succ]
    refine ⟨indexInsert_counted (by rw [hicap]; exact hpow) ih.1 _ _, ?_⟩
    exact Nat.le_trans (indexInsert_tombstones_le _ _ _) ih.2

theorem rehash_counted {s : OmsState} (hpow : ∃ k, s.indexCapacity = 2 ^ k) :
    s.rehash.Counted ∧ s.rehash.tombstones = 0 := by
  have hcleared : Counted { s with index := fun _ => .empty, tombstones := 0 } := by
    unfold Counted tombstoneMarkers tally
    dsimp only
    exact (List.countP_eq_zero.mpr fun q _ hq => Bool.noConfusion hq).symm
  rw [rehash_eq]
  obtain ⟨hcounted, hle⟩ := reindex_counted (s := { s with index := fun _ => .empty, tombstones := 0 }) hpow
    hcleared s.count
  exact ⟨hcounted, Nat.le_zero.mp hle⟩

/-! ## One call -/

/-- What every call keeps: a table whose tombstones are counted and, after the rehash, not more than the
capacity. -/
structure Accounted (s : OmsState) : Prop where
  inv : s.Inv
  counted : s.Counted
  few : s.tombstones ≤ s.capacity

/-- A call that inserts nothing brings the table no closer to full. -/
structure Settles (s t : OmsState) : Prop where
  accounted : t.Accounted
  size : t.indexCapacity = s.indexCapacity
  used : t.count + t.tombstones ≤ s.count + s.tombstones

theorem Accounted.settles {s : OmsState} (h : s.Accounted) : Settles s s := ⟨h, rfl, Nat.le_refl _⟩

theorem Settles.trans {s t u : OmsState} (h : Settles s t) (h' : Settles t u) : Settles s u :=
  ⟨h'.accounted, h'.size.trans h.size, Nat.le_trans h'.used h.used⟩

/-- A write to the orders leaves the index alone. -/
theorem Accounted.of_index {s t : OmsState} (h : s.Accounted) (hinv : t.Inv) (hcap : t.capacity = s.capacity)
    (hicap : t.indexCapacity = s.indexCapacity) (hindex : t.index = s.index)
    (htombs : t.tombstones = s.tombstones) (hcount : t.count = s.count) : Settles s t where
  accounted := by
    refine ⟨hinv, ?_, ?_⟩
    · have hcounted := h.counted
      unfold Counted tombstoneMarkers at hcounted ⊢
      rw [htombs, hicap, hindex]
      exact hcounted
    · rw [htombs, hcap]
      exact h.few
  size := hicap
  used := by rw [hcount, htombs]

theorem Accounted.modify {s : OmsState} (h : s.Accounted) (ref : BrokerOrderRef) {f : Order → Order}
    (href : ∀ o, (f o).ref = o.ref) : Settles s (s.modify ref f) := by
  apply h.of_index (h.inv.modify_inv ref href) <;>
  · unfold OmsState.modify
    dsimp only
    split <;> rfl

theorem fillHole_tombstones (s : OmsState) (slot : Nat) : (s.fillHole slot).tombstones = s.tombstones := by
  unfold fillHole
  dsimp only
  split <;> rfl

/-- The hole is filled in place: of the cells only the erased one becomes a tombstone. -/
theorem fillHole_markers {s : OmsState} (h : s.Inv) {slot : Nat} (hslot : slot < s.count) :
    ((s.eraseEntry slot).fillHole slot).tombstoneMarkers = s.tombstoneMarkers + 1 := by
  obtain ⟨-, hicap, -⟩ := fillHole_fields (s.eraseEntry slot) slot
  have hicap' : ((s.eraseEntry slot).fillHole slot).indexCapacity = s.indexCapacity := hicap
  obtain ⟨p, hp, hc, herased⟩ := h.eraseEntry_index hslot
  have herase := tally_update s.index hp .tombstone Cell.isTombstone
  rw [hc, ← herased] at herase
  unfold tombstoneMarkers
  rw [hicap']
  by_cases hlast : slot = s.count - 1
  · rw [fillHole_index_last hlast]
    exact herase
  · obtain ⟨q, hq, hcq, hmoved⟩ := h.fillHole_index_moved hslot hlast
    have hrelabel := tally_update (s.eraseEntry slot).index hq (.occupied slot) Cell.isTombstone
    rw [hcq, ← hmoved] at hrelabel
    exact hrelabel.trans herase

theorem Accounted.reclaim {s : OmsState} (h : s.Accounted) {slot : Nat} (hslot : slot < s.count) :
    Settles s (s.reclaim slot) := by
  obtain ⟨hcap, hicap, hcount, -, -⟩ := fillHole_fields (s.eraseEntry slot) slot
  have htombs : ((s.eraseEntry slot).fillHole slot).tombstones = s.tombstones + 1 := fillHole_tombstones _ slot
  have hmarkers := fillHole_markers h.inv hslot
  have hinv := h.inv.reclaim_inv hslot
  have hcount' : ((s.eraseEntry slot).fillHole slot).count = s.count - 1 := hcount
  unfold OmsState.reclaim at hinv ⊢
  dsimp only at hinv ⊢
  split at hinv
  · rename_i hmany
    obtain ⟨-, hicap', -, hcount'', -⟩ := rehash_fields ((s.eraseEntry slot).fillHole slot)
    have hpow : ∃ k, ((s.eraseEntry slot).fillHole slot).indexCapacity = 2 ^ k := by
      rw [hicap]
      exact h.inv.pow
    obtain ⟨hcounted, hzero⟩ := rehash_counted hpow
    rw [if_pos hmany]
    refine ⟨⟨hinv, hcounted, by rw [hzero]; exact Nat.zero_le _⟩, hicap'.trans hicap, ?_⟩
    rw [hzero, hcount'', hcount']
    omega
  · rename_i hfew
    rw [if_neg hfew]
    refine ⟨⟨hinv, ?_, Nat.le_of_not_lt hfew⟩, hicap, ?_⟩
    · unfold Counted
      rw [htombs, hmarkers, h.counted]
    · rw [htombs, hcount']
      omega

theorem Accounted.transition {s : OmsState} (h : s.Accounted) (ref : BrokerOrderRef) (next : OrderState) :
    Settles s (s.transition ref next).2 := by
  cases hf : s.find ref with
  | none =>
    rw [h.inv.transition_of_none hf]
    exact h.settles
  | some o =>
    obtain ⟨i, hi, rfl, rfl⟩ := h.inv.find_eq_some_iff.mp hf
    have hset : Settles s (s.setState i next) := h.of_index (h.inv.setState_inv hi next).1 rfl rfl rfl rfl rfl
    have hslot := h.inv.transition_slot hi next
    unfold slotRef at hslot
    rw [hslot]
    split
    · exact h.settles
    · dsimp only
      split
      · exact hset.trans (hset.accounted.reclaim hi)
      · exact hset

/-! ## Insertion -/

section Insertion
variable {s : OmsState} {ref : BrokerOrderRef} {p : Nat}

theorem meetsTombstone_iff (hpow : ∃ k, s.indexCapacity = 2 ^ k)
    (hf : freeCell s.indexCapacity (s.home ref) s.index = some p) :
    s.MeetsTombstone ref ↔ s.index p = .tombstone := by
  obtain ⟨-, hfree, k, hk, rfl, hbefore⟩ := freeCell_sound hf
  unfold MeetsTombstone
  simp only [probePos_eq hpow]
  constructor
  · rintro ⟨step, -, htomb, hocc⟩
    rcases Nat.lt_trichotomy step k with hlt | rfl | hgt
    · have hfull := hbefore step hlt
      rw [htomb] at hfull
      cases hfull
    · exact htomb
    · rw [hocc k hgt] at hfree
      cases hfree
  · intro htomb
    exact ⟨k, hk, htomb, hbefore⟩

/-- Among the cells a tombstone was met, the counter is not 0. -/
theorem Counted.pos (h : s.Counted) (hp : p < s.indexCapacity) (htomb : s.index p = .tombstone) :
    0 < s.tombstones := by
  rw [h]
  exact List.countP_pos_iff.mpr ⟨p, List.mem_range.mpr hp, by rw [htomb]; rfl⟩

end Insertion

/-- An accepted insertion uses one cell more, unless it takes the place of a tombstone. -/
structure Inserts (s t : OmsState) (ref : BrokerOrderRef) : Prop where
  accounted : t.Accounted
  size : t.indexCapacity = s.indexCapacity
  reused : s.MeetsTombstone ref → t.count + t.tombstones = s.count + s.tombstones
  filled : ¬ s.MeetsTombstone ref → t.count + t.tombstones = s.count + s.tombstones + 1

theorem Accounted.insert {s t u : OmsState} {ref : BrokerOrderRef} (h : s.Accounted)
    (hroom : s.count < s.capacity) (hinv : t.Inv) (hcap : t.capacity = s.capacity)
    (hcount : t.count = s.count + 1)
    (hbefore : u.indexCapacity = s.indexCapacity ∧ u.index = s.index ∧ u.tombstones = s.tombstones)
    (hafter : t.indexCapacity = u.indexCapacity ∧ t.index = (u.indexInsert ref s.count).index ∧
      t.tombstones = (u.indexInsert ref s.count).tombstones) : Inserts s t ref := by
  obtain ⟨hicapu, hindexu, htombsu⟩ := hbefore
  obtain ⟨hicap, hindex, htombs⟩ := hafter
  have hpow : ∃ k, u.indexCapacity = 2 ^ k := by
    rw [hicapu]
    exact h.inv.pow
  have hcounted : u.Counted := by
    have hs := h.counted
    unfold Counted tombstoneMarkers at hs ⊢
    rw [hicapu, hindexu, htombsu]
    exact hs
  have hcounted' := indexInsert_counted hpow hcounted ref s.count
  have hle := indexInsert_tombstones_le u ref s.count
  have hfew := h.few
  have hspare := h.inv.room
  have haccounted : t.Accounted := by
    refine ⟨hinv, ?_, by omega⟩
    unfold Counted tombstoneMarkers at hcounted' ⊢
    rw [indexInsert_indexCapacity] at hcounted'
    rw [hicap, hindex, htombs]
    exact hcounted'
  cases hf : freeCell s.indexCapacity (s.home ref) s.index with
  | none => exact absurd hf (h.inv.indexed.freeCell_ne_none (fun _ hi => hi) (by omega) _)
  | some p =>
    obtain ⟨hp, -, -⟩ := freeCell_sound hf
    have hf' := hf
    rw [← hicapu, ← hindexu, ← home_congr hicapu] at hf'
    rw [indexInsert_eq hpow ref s.count hf', hindexu] at htombs
    dsimp only at htombs
    refine ⟨haccounted, hicap.trans hicapu, ?_, ?_⟩
    · rw [meetsTombstone_iff h.inv.pow hf]
      intro htomb
      have hpos := h.counted.pos hp htomb
      rw [if_pos htomb] at htombs
      omega
    · rw [meetsTombstone_iff h.inv.pow hf]
      intro hempty
      rw [if_neg hempty] at htombs
      omega

/-- What a call does to the number of cells in use. -/
theorem Accounted.call {s : OmsState} (h : s.Accounted) (op : OmsOp) :
    (s.inserting op = none ∧ Settles s (s.call op)) ∨
      ∃ ref, s.inserting op = some ref ∧ Inserts s (s.call op) ref := by
  have hinv : (s.call op).Inv := h.inv.apply_inv op
  have hcap : (s.call op).capacity = s.capacity := s.apply_capacity op
  cases op with
  | create ref symbol volume =>
    by_cases hg : (s.find ref).isSome ∨ s.count ≥ s.capacity
    · left
      have hsame : s.call (.create ref symbol volume) = s := by
        unfold OmsState.call apply create
        dsimp only
        rw [if_pos hg]
      rw [hsame]
      exact ⟨if_pos hg, h.settles⟩
    · right
      refine ⟨ref, if_neg hg, ?_⟩
      simp only [not_or, Bool.not_eq_true, Option.isSome_eq_false_iff, Option.isNone_iff_eq_none] at hg
      obtain ⟨hnew, hroom⟩ := hg
      have hcall : s.call (.create ref symbol volume) = (s.create ref symbol volume).2 := rfl
      rw [hcall, create_push hnew (by omega)] at hinv hcap ⊢
      exact h.insert (by omega) hinv hcap (indexInsert_count _ _ _)
        (u := { s with
          count := s.count + 1
          orders := Function.update s.orders s.count
            { ref := ref, symbolId := symbol, requestedVolume := volume, state := .pendingSend } })
        ⟨rfl, rfl, rfl⟩ ⟨indexInsert_indexCapacity _ _ _, rfl, rfl⟩
  | restore o =>
    by_cases hg : (s.find o.ref).isSome ∨ s.count ≥ s.capacity ∨ o.requestedVolume ≤ 0 ∨
        o.filledVolume < 0 ∨ o.filledVolume > o.requestedVolume
    · left
      have hsame : s.call (.restore o) = s := by
        unfold OmsState.call apply restore
        dsimp only
        rw [if_pos hg]
      rw [hsame]
      exact ⟨if_pos hg, h.settles⟩
    · right
      refine ⟨o.ref, if_neg hg, ?_⟩
      simp only [not_or, Bool.not_eq_true, Option.isSome_eq_false_iff, Option.isNone_iff_eq_none] at hg
      obtain ⟨hnew, hroom, hreq, hfill, hle⟩ := hg
      have hcall : s.call (.restore o) = (s.restore o).2 := rfl
      rw [hcall, restore_push hnew (by omega) (by omega) (by omega) (by omega)] at hinv hcap ⊢
      exact h.insert (by omega) hinv hcap rfl
        (u := { s with orders := Function.update s.orders s.count o })
        ⟨rfl, rfl, rfl⟩ ⟨indexInsert_indexCapacity _ _ _, rfl, rfl⟩
  | transition ref next => exact .inl ⟨rfl, h.transition ref next⟩
  | fill ref volume =>
    refine .inl ⟨rfl, ?_⟩
    unfold OmsState.call apply fill
    dsimp only
    split
    · exact h.settles
    · split
      · exact h.settles
      · have hmodify := h.modify ref
          (f := fun o => { o with filledVolume := o.filledVolume + volume }) fun _ => rfl
        exact hmodify.trans (hmodify.accounted.transition ref _)
  | recoverFill ref volume =>
    refine .inl ⟨rfl, ?_⟩
    unfold OmsState.call apply recoverFill
    dsimp only
    split
    · exact h.settles
    · split
      · exact h.settles
      · exact h.modify ref (f := fun o => { o with filledVolume := o.filledVolume + volume }) fun _ => rfl
  | markUnknownOnRestart ref =>
    refine .inl ⟨rfl, ?_⟩
    unfold OmsState.call apply markUnknownOnRestart
    dsimp only
    split
    · exact h.settles
    · split
      · exact h.settles
      · exact h.modify ref (f := fun o => { o with state := .unknown }) fun _ => rfl
  | resolveUnknown ref terminal =>
    refine .inl ⟨rfl, ?_⟩
    unfold OmsState.call apply resolveUnknown
    dsimp only
    split
    · exact h.settles
    · split
      · exact h.transition ref terminal
      · exact h.settles

theorem Accounted.call_accounted {s : OmsState} (h : s.Accounted) (op : OmsOp) : (s.call op).Accounted := by
  rcases h.call op with ⟨-, hs⟩ | ⟨ref, -, hi⟩
  · exact hs.accounted
  · exact hi.accounted

/-! ## Runs -/

theorem new_accounted (capacity : Nat) : (new capacity).Accounted where
  inv := inv_new capacity
  counted := (List.countP_eq_zero.mpr fun _ _ hq => Bool.noConfusion hq).symm
  few := Nat.zero_le _

theorem new_room (capacity : Nat) :
    (new capacity).count + (new capacity).tombstones < (new capacity).indexCapacity := by
  obtain ⟨k, hk⟩ := (inv_new capacity).pow
  rw [hk]
  exact Nat.two_pow_pos k

theorem Accounted.keepsEmpty_iff {s : OmsState} (h : s.Accounted) :
    s.KeepsEmpty ↔ s.count + s.tombstones < s.indexCapacity := by
  constructor
  · intro hkeeps
    rw [← occupiedEntries_eq h.inv]
    exact hkeeps.room
  · intro hroom
    have htally : s.occupiedEntries + s.tombstoneMarkers < s.indexCapacity := by
      rw [occupiedEntries_eq h.inv, ← h.counted]
      exact hroom
    refine ⟨by rw [occupiedEntries_eq h.inv]; exact hroom, ?_, h.counted⟩
    intro ref hnone
    have habsent := h.inv.indexed.lookup_eq_none_iff.mpr (h.inv.find_eq_none_iff.mp hnone)
    obtain ⟨step, hstep, hempty, hbefore⟩ := lookup_ends_at_empty habsent htally
    unfold EndsAtEmpty
    simp only [probePos_eq h.inv.pow, probeStep_eq]
    refine ⟨step, hstep, hempty, fun earlier hearlier => ?_⟩
    rw [hbefore earlier hearlier, Option.map_none]

/-- With room before a call there is room after it exactly when its insertion leaves some. -/
theorem Accounted.room_call_iff {s : OmsState} (h : s.Accounted)
    (hroom : s.count + s.tombstones < s.indexCapacity) (op : OmsOp) :
    (s.call op).count + (s.call op).tombstones < (s.call op).indexCapacity ↔ s.LeavesEmpty op := by
  unfold LeavesEmpty
  rcases h.call op with ⟨hnone, hs⟩ | ⟨ref, hsome, hi⟩
  · have hused := hs.used
    rw [hnone, hs.size]
    refine ⟨fun _ ref => ?_, fun _ => by omega⟩
    rintro ⟨⟩
  · have hreused := hi.reused
    have hfilled := hi.filled
    rw [hsome, hi.size]
    constructor
    · rintro hlt ref' ⟨⟩
      by_cases hmeets : s.MeetsTombstone ref
      · exact .inr hmeets
      · have hmore := hfilled hmeets
        exact .inl (by omega)
    · intro hleaves
      rcases hleaves ref rfl with hspare | hmeets
      · by_cases hmeets : s.MeetsTombstone ref
        · have hsame := hreused hmeets
          omega
        · have hmore := hfilled hmeets
          omega
      · have hsame := hreused hmeets
        omega

/-- Over any run from an empty store, a cell stays empty in every state if and only if every insertion of
the run leaves one. -/
theorem index_keeps_empty (capacity : Nat) (ops : List OmsOp) :
    Runs.Throughout call KeepsEmpty (new capacity) ops ↔ Runs.Along call LeavesEmpty (new capacity) ops := by
  apply Runs.throughout_iff_along_of_invariant
    (I := fun s => s.Accounted ∧ s.count + s.tombstones < s.indexCapacity)
  · rintro s ⟨h, hroom⟩
    exact h.keepsEmpty_iff.mpr hroom
  · rintro s op ⟨h, hroom⟩ hleaves
    exact ⟨h.call_accounted op, (h.room_call_iff hroom op).mpr hleaves⟩
  · rintro s op ⟨h, hroom⟩ hfull hkeeps
    exact hfull ((h.room_call_iff hroom op).mp ((h.call_accounted op).keepsEmpty_iff.mp hkeeps))
  · exact ⟨new_accounted capacity, new_room capacity⟩

/-- Orders and tombstones never fill an index of more than twice the capacity, whatever the calls. -/
theorem spare_cells_keep_empty {capacity : Nat} (hspare : 2 * capacity < (new capacity).indexCapacity)
    (ops : List OmsOp) : Runs.Throughout call KeepsEmpty (new capacity) ops := by
  have hstep : ∀ (s : OmsState) (op : OmsOp), s.Accounted ∧ 2 * s.capacity < s.indexCapacity →
      (s.call op).Accounted ∧ 2 * (s.call op).capacity < (s.call op).indexCapacity := by
    rintro s op ⟨h, hs⟩
    have hcap : (s.call op).capacity = s.capacity := s.apply_capacity op
    have hicap : (s.call op).indexCapacity = s.indexCapacity := by
      rcases h.call op with ⟨-, hsettles⟩ | ⟨ref, -, hinserts⟩
      · exact hsettles.size
      · exact hinserts.size
    exact ⟨h.call_accounted op, by omega⟩
  intro before _
  obtain ⟨h, hs⟩ := Runs.invariant_of_step hstep ⟨new_accounted capacity, hspare⟩ before
  have hcount := h.inv.count_le
  have hfew := h.few
  exact h.keepsEmpty_iff.mpr (by omega)

/-- With room for one order: the first one is rejected and leaves its tombstone in cell 0, the second one
goes to cell 1. -/
def secondOrder : List OmsOp :=
  [.create ⟨1, 1⟩ 0 10, .transition ⟨1, 1⟩ .sent, .transition ⟨1, 1⟩ .rejected, .create ⟨1, 3⟩ 0 10]

/-- The index of two cells is full: a search for a third reference scans all of it. -/
theorem index_fills_up : (Runs.run call (new 1) secondOrder).indexCapacity = 2 ∧
    (Runs.run call (new 1) secondOrder).occupiedEntries + (Runs.run call (new 1) secondOrder).tombstones = 2 ∧
    (Runs.run call (new 1) secondOrder).find ⟨1, 5⟩ = none ∧
    ¬ (Runs.run call (new 1) secondOrder).EndsAtEmpty ⟨1, 5⟩ ∧
    ¬ (Runs.run call (new 1) secondOrder).KeepsEmpty := by
  have hcells : (Runs.run call (new 1) secondOrder).indexCapacity = 2 := by decide +kernel
  have hfull : (Runs.run call (new 1) secondOrder).occupiedEntries +
      (Runs.run call (new 1) secondOrder).tombstones = 2 := by decide +kernel
  refine ⟨hcells, hfull, by decide +kernel, ?_, ?_⟩
  · rintro ⟨step, hstep, hempty, -⟩
    rw [hcells] at hstep
    have hnone : ∀ step < 2, (Runs.run call (new 1) secondOrder).index
        ((Runs.run call (new 1) secondOrder).probePos ⟨1, 5⟩ step) ≠ .empty := by decide +kernel
    exact hnone step hstep hempty
  · intro hkeeps
    have hroom := hkeeps.room
    omega

end MicrostructureEngine.OmsState
