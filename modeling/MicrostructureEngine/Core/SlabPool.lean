import Mathlib.Algebra.Ring.Nat
import Mathlib.Data.List.Infix
import Mathlib.Data.List.Nodup
import Mathlib.Data.List.Perm.Subperm
import Mathlib.Logic.Function.Basic
import MicrostructureEngine.Lib.Runs

/-!
# Slabs

A pool of slabs with its stack of free indices, its flags of used ones and the generation of each slab.
A handle names a slab and the generation it was acquired in. What a slab holds is left out: `get` gives
the index of the slab it points to.
-/

namespace MicrostructureEngine

set_option autoImplicit false

structure SlabHandle where
  index : UInt32
  generation : UInt32
  deriving DecidableEq, Repr

namespace SlabHandle

def slab (handle : SlabHandle) : Nat := handle.index.toNat

theorem eq_of_slab {a b : SlabHandle} (hslab : a.slab = b.slab)
    (hgeneration : a.generation.toNat = b.generation.toNat) : a = b := by
  obtain ⟨i, g⟩ := a
  obtain ⟨i', g'⟩ := b
  obtain rfl : i = i' := UInt32.toNat_inj.mp hslab
  obtain rfl : g = g' := UInt32.toNat_inj.mp hgeneration
  rfl

end SlabHandle

structure SlabPool (capacity : Nat) where
  generation : Nat → UInt32
  free : Nat → Nat
  used : Nat → Bool
  freeCount : Nat

namespace SlabPool
variable {capacity : Nat}

def new (capacity : Nat) : SlabPool capacity where
  generation := fun _ => 0
  free := fun i => capacity - 1 - i
  used := fun _ => false
  freeCount := capacity

def acquire (p : SlabPool capacity) : Option SlabHandle × SlabPool capacity :=
  if p.freeCount = 0 then (none, p)
  else
    let index := UInt32.ofNat (p.free (p.freeCount - 1))
    (some ⟨index, p.generation index.toNat⟩,
      { p with freeCount := p.freeCount - 1, used := Function.update p.used index.toNat true })

def valid (p : SlabPool capacity) (handle : SlabHandle) : Bool :=
  decide (handle.slab < capacity) && p.used handle.slab && p.generation handle.slab == handle.generation

def release (p : SlabPool capacity) (handle : SlabHandle) : Bool × SlabPool capacity :=
  if p.valid handle then
    (true,
      { p with
        used := Function.update p.used handle.slab false
        generation := Function.update p.generation handle.slab (p.generation handle.slab + 1)
        free := Function.update p.free p.freeCount handle.slab
        freeCount := p.freeCount + 1 })
  else (false, p)

def get (p : SlabPool capacity) (handle : SlabHandle) : Option Nat :=
  if p.valid handle then some handle.slab else none

/-- The stack, from the bottom. -/
def freeList (p : SlabPool capacity) : List Nat := (List.range p.freeCount).map p.free

def usedSlabs (p : SlabPool capacity) : List Nat := (List.range capacity).filter p.used

def unusedSlabs (p : SlabPool capacity) : List Nat := (List.range capacity).filter fun slab => !p.used slab

theorem length_freeList (p : SlabPool capacity) : p.freeList.length = p.freeCount := by
  simp [freeList]

/-- The stack with a slab put on top. -/
theorem freeList_push {p q : SlabPool capacity} {slab : Nat}
    (hfree : q.free = Function.update p.free p.freeCount slab) (hcount : q.freeCount = p.freeCount + 1) :
    q.freeList = p.freeList ++ [slab] := by
  rw [freeList, hcount, List.range_succ, List.map_append, List.map_singleton, hfree, Function.update_self]
  congr 1
  apply List.map_congr_left
  intro i hi
  exact Function.update_of_ne (Nat.ne_of_lt (List.mem_range.mp hi)) _ _

theorem mem_unusedSlabs {p : SlabPool capacity} {slab : Nat} :
    slab ∈ p.unusedSlabs ↔ slab < capacity ∧ p.used slab = false := by
  rw [unusedSlabs, List.mem_filter, List.mem_range, Bool.not_eq_true']

theorem nodup_unusedSlabs (p : SlabPool capacity) : p.unusedSlabs.Nodup := List.nodup_range.filter _

theorem length_slabs (p : SlabPool capacity) : p.unusedSlabs.length + p.usedSlabs.length = capacity := by
  have h := List.length_eq_length_filter_add (l := List.range capacity) p.used
  rw [List.length_range] at h
  rw [unusedSlabs, usedSlabs]
  omega

/-- The unused slabs when one more is taken into use. -/
theorem unusedSlabs_take {p q : SlabPool capacity} {slab : Nat} (hslab : slab < capacity)
    (hfree : p.used slab = false) (hq : q.used = Function.update p.used slab true) :
    p.unusedSlabs.Perm (slab :: q.unusedSlabs) := by
  have hnew : slab ∉ q.unusedSlabs := by
    rw [mem_unusedSlabs, hq, Function.update_self]
    exact fun h => Bool.noConfusion h.2
  apply (List.perm_ext_iff_of_nodup p.nodup_unusedSlabs (List.nodup_cons.mpr ⟨hnew, q.nodup_unusedSlabs⟩)).mpr
  intro other
  rw [List.mem_cons, mem_unusedSlabs, mem_unusedSlabs, hq]
  rcases eq_or_ne other slab with rfl | hne
  · exact ⟨fun _ => .inl rfl, fun _ => ⟨hslab, hfree⟩⟩
  · rw [Function.update_of_ne hne]
    exact ⟨.inr, fun h => h.resolve_left hne⟩

/-- What `acquire` does when a slab is free: it takes the top of the stack. -/
theorem acquire_of_free {p : SlabPool capacity} {k : Nat} (hcount : p.freeCount = k + 1) :
    p.acquire = (some ⟨UInt32.ofNat (p.free k), p.generation (UInt32.ofNat (p.free k)).toNat⟩,
      { p with freeCount := k, used := Function.update p.used (UInt32.ofNat (p.free k)).toNat true }) := by
  unfold acquire
  rw [if_neg (by omega), hcount, Nat.add_sub_cancel]

theorem freeList_of_free {p : SlabPool capacity} {k : Nat} (hcount : p.freeCount = k + 1) :
    p.freeList = (List.range k).map p.free ++ [p.free k] := by
  rw [freeList, hcount, List.range_succ, List.map_append, List.map_singleton]

theorem valid_iff (p : SlabPool capacity) (handle : SlabHandle) : p.valid handle = true ↔
    handle.slab < capacity ∧ p.used handle.slab = true ∧ p.generation handle.slab = handle.generation := by
  simp only [valid, Bool.and_eq_true, decide_eq_true_iff, beq_iff_eq, and_assoc]

section Validity
variable {p q : SlabPool capacity} {handle : SlabHandle}

/-- A slab that is taken into use gives exactly one valid handle more. -/
theorem valid_taken (hslab : handle.slab < capacity) (hunused : p.used handle.slab = false)
    (hhandle : p.generation handle.slab = handle.generation)
    (hused : q.used = Function.update p.used handle.slab true) (hgeneration : q.generation = p.generation)
    (other : SlabHandle) : q.valid other = true ↔ p.valid other = true ∨ other = handle := by
  rw [valid_iff, valid_iff, hused, hgeneration]
  rcases eq_or_ne other.slab handle.slab with heq | hne
  · rw [heq, Function.update_self, hunused, hhandle]
    constructor
    · rintro ⟨-, -, hsame⟩
      exact .inr (SlabHandle.eq_of_slab heq (by rw [hsame]))
    · rintro (⟨-, hfalse, -⟩ | rfl)
      · cases hfalse
      · exact ⟨hslab, rfl, rfl⟩
  · rw [Function.update_of_ne hne]
    refine ⟨.inl, fun h => h.resolve_right ?_⟩
    rintro rfl
    exact hne rfl

/-- A slab that is given back takes exactly its own handle with it. -/
theorem valid_returned (hvalid : p.valid handle = true)
    (hused : q.used = Function.update p.used handle.slab false)
    (hgeneration : q.generation = Function.update p.generation handle.slab (p.generation handle.slab + 1))
    (other : SlabHandle) : q.valid other = true ↔ p.valid other = true ∧ other ≠ handle := by
  obtain ⟨-, -, hhandle⟩ := p.valid_iff handle |>.mp hvalid
  rw [valid_iff, valid_iff, hused, hgeneration]
  rcases eq_or_ne other.slab handle.slab with heq | hne
  · rw [heq, Function.update_self, hhandle]
    constructor
    · rintro ⟨-, hfalse, -⟩
      cases hfalse
    · rintro ⟨⟨-, -, hsame⟩, hother⟩
      exact absurd (SlabHandle.eq_of_slab heq (by rw [hsame])) hother
  · rw [Function.update_of_ne hne, Function.update_of_ne hne]
    refine ⟨fun h => ⟨h, ?_⟩, fun h => h.1⟩
    rintro rfl
    exact hne rfl

end Validity
end SlabPool

/-- A pool with the handles it has handed out and taken back so far. -/
structure SlabHistory (capacity : Nat) where
  pool : SlabPool capacity
  acquired : List SlabHandle
  released : List SlabHandle

namespace SlabHistory
variable {capacity : Nat}

inductive Op where
  | acquire
  | release (handle : SlabHandle)
  deriving DecidableEq, Repr

def new (capacity : Nat) : SlabHistory capacity := ⟨SlabPool.new capacity, [], []⟩

def step (s : SlabHistory capacity) : Op → SlabHistory capacity
  | .acquire => { s with pool := s.pool.acquire.2, acquired := s.acquired ++ s.pool.acquire.1.toList }
  | .release handle =>
    { s with
      pool := (s.pool.release handle).2
      released := if (s.pool.release handle).1 then s.released ++ [handle] else s.released }

/-- Releases of one slab. -/
def releases (s : SlabHistory capacity) (slab : Nat) : Nat := s.released.countP fun handle => handle.slab == slab

/-- No generation has come back to where it started. -/
def Fresh (s : SlabHistory capacity) : Prop := ∀ slab, s.releases slab < 2 ^ 32

def outstanding (s : SlabHistory capacity) : List SlabHandle := s.acquired.filter fun handle => handle ∉ s.released

/-! ## The invariant -/

structure Inv (s : SlabHistory capacity) : Prop where
  free : s.pool.freeList.Perm s.pool.unusedSlabs
  generation : ∀ slab, s.pool.generation slab = UInt32.ofNat (s.releases slab)
  acquired : ∀ handle, handle ∈ s.acquired ↔ handle.slab < capacity ∧
    (handle.generation.toNat < s.releases handle.slab ∨ s.pool.valid handle = true)
  released : ∀ handle, handle ∈ s.released ↔
    handle.slab < capacity ∧ handle.generation.toNat < s.releases handle.slab
  acquired_once : s.acquired.Nodup
  released_once : s.released.Nodup

theorem new_inv (capacity : Nat) : Inv (new capacity) where
  free := by
    have hnodup : (SlabPool.new capacity).freeList.Nodup := by
      apply List.Nodup.map_on _ List.nodup_range
      intro i hi j hj heq
      rw [List.mem_range] at hi hj
      simp only [SlabPool.new] at hi hj heq
      omega
    apply (List.perm_ext_iff_of_nodup hnodup (SlabPool.nodup_unusedSlabs _)).mpr
    intro slab
    rw [SlabPool.mem_unusedSlabs, SlabPool.freeList, List.mem_map]
    constructor
    · rintro ⟨i, hi, rfl⟩
      rw [List.mem_range] at hi
      exact ⟨Nat.lt_of_le_of_lt (Nat.sub_le _ _) (by simp only [SlabPool.new] at hi; omega), rfl⟩
    · rintro ⟨hslab, -⟩
      exact ⟨capacity - 1 - slab, List.mem_range.mpr (by simp only [SlabPool.new]; omega),
        by simp only [SlabPool.new]; omega⟩
  generation := fun _ => rfl
  acquired := by
    intro handle
    simp [new, releases, SlabPool.valid, SlabPool.new]
  released := by
    intro handle
    simp [new, releases]
  acquired_once := List.nodup_nil
  released_once := List.nodup_nil

theorem releases_le (s : SlabHistory capacity) (op : Op) (slab : Nat) :
    s.releases slab ≤ (s.step op).releases slab := by
  cases op with
  | acquire => exact Nat.le_refl _
  | release handle =>
    unfold releases step
    dsimp only
    split
    · rw [List.countP_append]
      exact Nat.le_add_right _ _
    · exact Nat.le_refl _

theorem Fresh.before {s : SlabHistory capacity} {op : Op} (h : (s.step op).Fresh) : s.Fresh :=
  fun slab => Nat.lt_of_le_of_lt (s.releases_le op slab) (h slab)

namespace Inv
variable {s : SlabHistory capacity}

theorem toNat_generation (h : Inv s) (hfresh : s.Fresh) (slab : Nat) :
    (s.pool.generation slab).toNat = s.releases slab := by
  rw [h.generation, UInt32.toNat_ofNat']
  exact Nat.mod_eq_of_lt (hfresh slab)

theorem valid_iff (h : Inv s) (hfresh : s.Fresh) (handle : SlabHandle) : s.pool.valid handle = true ↔
    handle.slab < capacity ∧ s.pool.used handle.slab = true ∧
      handle.generation.toNat = s.releases handle.slab := by
  rw [s.pool.valid_iff, ← h.toNat_generation hfresh, UInt32.toNat_inj]
  exact and_congr_right fun _ => and_congr_right fun _ => eq_comm

/-- The invariant when a slab is taken into use under a new handle. -/
theorem taken (h : Inv s) (hfresh : s.Fresh) {q : SlabPool capacity} {handle : SlabHandle}
    (hslab : handle.slab < capacity) (hunused : s.pool.used handle.slab = false)
    (hhandle : s.pool.generation handle.slab = handle.generation)
    (hused : q.used = Function.update s.pool.used handle.slab true)
    (hgeneration : q.generation = s.pool.generation) (hfree : q.freeList.Perm q.unusedSlabs) :
    Inv ⟨q, s.acquired ++ [handle], s.released⟩ where
  free := hfree
  generation := by
    intro slab
    dsimp only
    rw [hgeneration]
    exact h.generation slab
  acquired := by
    intro other
    dsimp only
    rw [List.mem_append, List.mem_singleton, h.acquired,
      SlabPool.valid_taken hslab hunused hhandle hused hgeneration]
    constructor
    · rintro (⟨hlt, hold⟩ | rfl)
      · exact ⟨hlt, hold.imp_right .inl⟩
      · exact ⟨hslab, .inr (.inr rfl)⟩
    · rintro ⟨hlt, hold | hvalid | rfl⟩
      · exact .inl ⟨hlt, .inl hold⟩
      · exact .inl ⟨hlt, .inr hvalid⟩
      · exact .inr rfl
  released := h.released
  acquired_once := by
    refine (List.perm_append_singleton _ _).nodup_iff.mpr (List.nodup_cons.mpr ⟨?_, h.acquired_once⟩)
    rw [h.acquired, h.valid_iff hfresh, hunused, ← hhandle, h.toNat_generation hfresh]
    rintro ⟨-, hlt | ⟨-, hfalse, -⟩⟩
    · exact absurd hlt (Nat.lt_irrefl _)
    · cases hfalse
  released_once := h.released_once

/-- The invariant when a slab is given back. -/
theorem returned (h : Inv s) (hfresh : s.Fresh) {q : SlabPool capacity} {handle : SlabHandle}
    (hvalid : s.pool.valid handle = true) (hused : q.used = Function.update s.pool.used handle.slab false)
    (hgeneration : q.generation =
      Function.update s.pool.generation handle.slab (s.pool.generation handle.slab + 1))
    (hfree : q.freeList.Perm q.unusedSlabs) : Inv ⟨q, s.acquired, s.released ++ [handle]⟩ := by
  obtain ⟨hslab, -, hhandle⟩ := (h.valid_iff hfresh handle).mp hvalid
  have hreleases : ∀ slab, releases ⟨q, s.acquired, s.released ++ [handle]⟩ slab =
      s.releases slab + if handle.slab = slab then 1 else 0 := by
    intro slab
    unfold releases
    rw [List.countP_append, List.countP_singleton]
    simp only [beq_iff_eq]
  have hearlier : ∀ other : SlabHandle,
      other.generation.toNat < releases ⟨q, s.acquired, s.released ++ [handle]⟩ other.slab ↔
        other.generation.toNat < s.releases other.slab ∨ other = handle := by
    intro other
    rw [hreleases]
    split
    · rename_i heq
      rw [← heq, ← hhandle, Nat.lt_succ_iff_lt_or_eq]
      exact or_congr_right ⟨fun hsame => SlabHandle.eq_of_slab heq.symm hsame, fun hsame => by rw [hsame]⟩
    · rename_i hne
      refine ⟨.inl, fun hor => hor.resolve_right ?_⟩
      rintro rfl
      exact hne rfl
  exact {
    free := hfree
    generation := by
      intro slab
      dsimp only
      rw [hgeneration, hreleases]
      rcases eq_or_ne slab handle.slab with rfl | hne
      · rw [Function.update_self, if_pos rfl, h.generation, UInt32.ofNat_add]
        rfl
      · rw [Function.update_of_ne hne, if_neg (Ne.symm hne), h.generation, Nat.add_zero]
    acquired := by
      intro other
      dsimp only
      rw [h.acquired, hearlier, SlabPool.valid_returned hvalid hused hgeneration]
      constructor
      · rintro ⟨hlt, hold | hother⟩
        · exact ⟨hlt, .inl (.inl hold)⟩
        · by_cases hsame : other = handle
          · exact ⟨hlt, .inl (.inr hsame)⟩
          · exact ⟨hlt, .inr ⟨hother, hsame⟩⟩
      · rintro ⟨hlt, (hold | rfl) | ⟨hother, -⟩⟩
        · exact ⟨hlt, .inl hold⟩
        · exact ⟨hlt, .inr hvalid⟩
        · exact ⟨hlt, .inr hother⟩
    released := by
      intro other
      dsimp only
      rw [List.mem_append, List.mem_singleton, h.released, hearlier]
      constructor
      · rintro (⟨hlt, hold⟩ | rfl)
        · exact ⟨hlt, .inl hold⟩
        · exact ⟨hslab, .inr rfl⟩
      · rintro ⟨hlt, hold | rfl⟩
        · exact .inl ⟨hlt, hold⟩
        · exact .inr rfl
    acquired_once := h.acquired_once
    released_once := by
      refine (List.perm_append_singleton _ _).nodup_iff.mpr (List.nodup_cons.mpr ⟨?_, h.released_once⟩)
      rw [h.released, hhandle]
      exact fun hlt => absurd hlt.2 (Nat.lt_irrefl _) }

theorem acquire (h : Inv s) (hcap : capacity ≤ 2 ^ 32) (hfresh : s.Fresh) : Inv (s.step .acquire) := by
  unfold step
  dsimp only
  cases hcount : s.pool.freeCount with
  | zero =>
    have hnone : s.pool.acquire = (none, s.pool) := by
      unfold SlabPool.acquire
      rw [if_pos hcount]
    rw [hnone, Option.toList_none, List.append_nil]
    exact h
  | succ k =>
    have hlist := h.free
    rw [SlabPool.freeList_of_free hcount] at hlist
    have htop : s.pool.free k ∈ s.pool.unusedSlabs :=
      hlist.mem_iff.mp (List.mem_append_right _ List.mem_cons_self)
    obtain ⟨hslab, hunused⟩ := SlabPool.mem_unusedSlabs.mp htop
    have hcast : (UInt32.ofNat (s.pool.free k)).toNat = s.pool.free k := by
      rw [UInt32.toNat_ofNat']
      exact Nat.mod_eq_of_lt (by omega)
    have hacquire := SlabPool.acquire_of_free hcount
    rw [hcast] at hacquire
    rw [hacquire, Option.toList_some]
    have hindex : (SlabHandle.mk (UInt32.ofNat (s.pool.free k)) (s.pool.generation (s.pool.free k))).slab =
        s.pool.free k := hcast
    refine h.taken hfresh ?_ ?_ ?_ ?_ rfl ?_
    · rwa [hindex]
    · rwa [hindex]
    · rw [hindex]
    · rw [hindex]
    · have htaken := SlabPool.unusedSlabs_take hslab hunused
        (q := { s.pool with freeCount := k, used := Function.update s.pool.used (s.pool.free k) true }) rfl
      exact ((List.perm_append_singleton _ _).symm.trans (hlist.trans htaken)).cons_inv

theorem release (h : Inv s) (hfresh : s.Fresh) (handle : SlabHandle) : Inv (s.step (.release handle)) := by
  unfold step SlabPool.release
  dsimp only
  by_cases hvalid : s.pool.valid handle = true
  · obtain ⟨hslab, hused, -⟩ := (s.pool.valid_iff handle).mp hvalid
    have hperm : ∀ q : SlabPool capacity, q.used = Function.update s.pool.used handle.slab false →
        q.freeList = s.pool.freeList ++ [handle.slab] → q.freeList.Perm q.unusedSlabs := by
      intro q hq hlist
      have hback : s.pool.used = Function.update q.used handle.slab true := by
        rw [hq, Function.update_idem, ← hused, Function.update_eq_self]
      have hunused : q.used handle.slab = false := by rw [hq, Function.update_self]
      have htaken := SlabPool.unusedSlabs_take hslab hunused hback
      rw [hlist]
      exact (List.perm_append_singleton _ _).trans ((h.free.cons _).trans htaken.symm)
    rw [if_pos hvalid]
    exact h.returned hfresh hvalid rfl rfl (hperm _ rfl (SlabPool.freeList_push rfl rfl))
  · rw [if_neg hvalid]
    exact h

theorem step (h : Inv s) (hcap : capacity ≤ 2 ^ 32) (hfresh : s.Fresh) (op : Op) : Inv (s.step op) := by
  cases op with
  | acquire => exact h.acquire hcap hfresh
  | release handle => exact h.release hfresh handle

end Inv

/-! ## Handles -/

structure Sound (s : SlabHistory capacity) : Prop where
  free_once : s.pool.freeList.Nodup
  free_unused : ∀ slab ∈ s.pool.freeList, slab < capacity ∧ s.pool.used slab = false
  total : s.pool.freeCount + s.pool.usedSlabs.length = capacity
  distinct : (s.outstanding.map SlabHandle.slab).Nodup
  released_acquired : s.released ⊆ s.acquired
  released_once : s.released.Nodup
  release_iff : ∀ handle, (s.pool.release handle).1 = true ↔ handle ∈ s.outstanding
  stale : ∀ handle ∈ s.released, s.pool.get handle = none

namespace Inv
variable {s : SlabHistory capacity}

/-- The handles that are out are the valid ones. -/
theorem mem_outstanding (h : Inv s) (hfresh : s.Fresh) (handle : SlabHandle) :
    handle ∈ s.outstanding ↔ s.pool.valid handle = true := by
  rw [outstanding, List.mem_filter, decide_eq_true_iff, h.acquired, h.released]
  constructor
  · rintro ⟨⟨hlt, hold | hvalid⟩, hnot⟩
    · exact absurd ⟨hlt, hold⟩ hnot
    · exact hvalid
  · intro hvalid
    obtain ⟨hlt, -, hcurrent⟩ := (h.valid_iff hfresh handle).mp hvalid
    exact ⟨⟨hlt, .inr hvalid⟩, fun hold => absurd hold.2 (by omega)⟩

theorem sound (h : Inv s) (hfresh : s.Fresh) : Sound s where
  free_once := h.free.nodup_iff.mpr s.pool.nodup_unusedSlabs
  free_unused := fun _ hmem => SlabPool.mem_unusedSlabs.mp (h.free.mem_iff.mp hmem)
  total := by
    rw [← s.pool.length_freeList, h.free.length_eq]
    exact s.pool.length_slabs
  distinct := by
    apply List.Nodup.map_on _ (h.acquired_once.filter _)
    intro a ha b hb heq
    obtain ⟨-, -, hgen⟩ := (h.valid_iff hfresh a).mp ((h.mem_outstanding hfresh a).mp ha)
    obtain ⟨-, -, hgen'⟩ := (h.valid_iff hfresh b).mp ((h.mem_outstanding hfresh b).mp hb)
    exact SlabHandle.eq_of_slab heq (by rw [hgen, hgen', heq])
  released_acquired := by
    intro handle hmem
    obtain ⟨hlt, hold⟩ := (h.released handle).mp hmem
    exact (h.acquired handle).mpr ⟨hlt, .inl hold⟩
  released_once := h.released_once
  release_iff := by
    intro handle
    rw [h.mem_outstanding hfresh]
    unfold SlabPool.release
    split
    · rename_i hvalid
      exact ⟨fun _ => hvalid, fun _ => rfl⟩
    · rename_i hvalid
      exact ⟨fun hfalse => Bool.noConfusion hfalse, fun hvalid' => absurd hvalid' hvalid⟩
  stale := by
    intro handle hmem
    have hinvalid : ¬ s.pool.valid handle = true := by
      rw [← h.mem_outstanding hfresh, outstanding, List.mem_filter, decide_eq_true_iff]
      exact fun hout => hout.2 hmem
    exact if_neg hinvalid

end Inv

/-- Over any history: as long as no slab was released 2^32 times, the stack, the flags and the generations
are one partition of the slabs, and a handle is good from its `acquire` to its `release` and never again. -/
theorem slab_handles_sound (hcap : capacity ≤ 2 ^ 32) (ops : List Op) :
    Runs.Throughout step (fun s => s.Fresh → s.Sound) (new capacity) ops := by
  intro before _ hfresh
  have hinv : (Runs.run step (new capacity) before).Fresh → Inv (Runs.run step (new capacity) before) :=
    Runs.invariant_of_step (I := fun s => s.Fresh → Inv s)
      (fun s op h hafter => (h hafter.before).step hcap hafter.before op) (fun _ => new_inv capacity) before
  exact (hinv hfresh).sound hfresh

/-- Both slabs of a pool of two are taken, the first is given back, once more in vain, and taken again. -/
def reuse : List Op := [.acquire, .acquire, .release ⟨0, 0⟩, .release ⟨0, 0⟩, .acquire]

theorem slab_handles_sound_reuse : (Runs.run step (new 2) reuse).outstanding = [⟨1, 0⟩, ⟨0, 1⟩] ∧
    (Runs.run step (new 2) reuse).Sound := by
  refine ⟨by decide +kernel, ?_⟩
  apply slab_handles_sound (by decide) reuse reuse (List.prefix_refl _)
  exact fun slab => Nat.lt_of_le_of_lt List.countP_le_length (by decide +kernel)

end SlabHistory
end MicrostructureEngine
