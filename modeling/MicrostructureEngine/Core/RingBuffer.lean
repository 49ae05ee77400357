import Mathlib.Algebra.Ring.Nat
import Mathlib.Data.List.Infix
import Mathlib.Logic.Function.Basic
import MicrostructureEngine.Lib.Runs

/-!
# The single-producer single-consumer ring

`try_push` and `try_pop` as one thread each runs them: every load and store of an index and every access to
a slot is one step, and the two threads take steps in any order. The indices run freely and wrap at 64
bits. Beside the ring a state keeps what the calls have done so far: the values pushed and popped, and
every write and read of a slot.
-/

namespace MicrostructureEngine.RingBuffer

set_option autoImplicit false

universe u
variable {α : Type u}

/-- The template argument, with what its `static_assert` checks. -/
structure Capacity where
  slots : UInt64
  two_le : 2 ≤ slots
  pow_two : slots &&& (slots - 1) = 0

namespace Capacity
variable (c : Capacity)

def size : Nat := c.slots.toNat

def mask : UInt64 := c.slots - 1

theorem mask_toNat : c.mask.toNat = c.size - 1 := by
  have h := UInt64.le_iff_toNat_le.mp c.two_le
  unfold mask size
  rw [UInt64.toNat_sub_of_le _ _ (UInt64.le_iff_toNat_le.mpr (Nat.le_trans (by decide) h))]
  rfl

theorem two_le_size : 2 ≤ c.size := UInt64.le_iff_toNat_le.mp c.two_le

theorem size_lt : c.size < 2 ^ 64 := UInt64.toNat_lt _

theorem size_pow_two : ∃ k, c.size = 2 ^ k := by
  have hzero : c.size &&& (c.size - 1) = 0 := by
    rw [← mask_toNat]
    unfold size mask
    rw [← UInt64.toNat_and, c.pow_two]
    rfl
  have hne : c.size ≠ 0 := Nat.ne_of_gt (Nat.lt_of_lt_of_le (by decide) c.two_le_size)
  exact (Nat.and_sub_one_eq_zero_iff_isPowerOfTwo hne).mp hzero

theorem size_dvd : c.size ∣ 2 ^ 64 := by
  obtain ⟨k, hk⟩ := c.size_pow_two
  have hlt := c.size_lt
  rw [hk] at hlt ⊢
  exact Nat.pow_dvd_pow 2 (Nat.le_of_lt ((Nat.pow_lt_pow_iff_right (by decide)).mp hlt))

theorem masked (index : UInt64) : (index &&& c.mask).toNat = index.toNat % c.size := by
  obtain ⟨k, hk⟩ := c.size_pow_two
  rw [UInt64.toNat_and, mask_toNat, hk, Nat.and_two_pow_sub_one_eq_mod]

/-- `index & mask_`. -/
def slot (index : UInt64) : Fin c.size :=
  ⟨(index &&& c.mask).toNat, by
    rw [masked]
    exact Nat.mod_lt _ (Nat.lt_of_lt_of_le (by decide) c.two_le_size)⟩

end Capacity

/-- Between two steps of `try_push`: what the call has in its registers. -/
inductive Producer (α : Type u) where
  | idle
  | loadedHead (value : α) (head : UInt64)
  | admitted (value : α) (head : UInt64)
  | written (value : α) (head : UInt64)

/-- Between two steps of `try_pop`. -/
inductive Consumer (α : Type u) where
  | idle
  | loadedTail (tail : UInt64)
  | admitted (tail : UInt64)
  | read (value : α) (tail : UInt64)

structure State (c : Capacity) (α : Type u) where
  storage : Fin c.size → α
  head : UInt64
  tail : UInt64
  producer : Producer α
  consumer : Consumer α
  pushed : List α
  popped : List α
  writes : List (Fin c.size × α)
  reads : List (Fin c.size × α)

/-- `push` and `pop` are the first step of a call, the load of the caller's own index. -/
inductive Step (α : Type u) where
  | push (value : α)
  | produce
  | pop
  | consume

variable {c : Capacity}

namespace State

def new (c : Capacity) [Inhabited α] : State c α where
  storage := fun _ => default
  head := 0
  tail := 0
  producer := .idle
  consumer := .idle
  pushed := []
  popped := []
  writes := []
  reads := []

def size (s : State c α) : UInt64 := s.head - s.tail

/-- `head - tail_ == Capacity`, with the tail as it is now. -/
def Full (s : State c α) (head : UInt64) : Prop := head - s.tail = c.slots

instance (s : State c α) (head : UInt64) : Decidable (s.Full head) := inferInstanceAs (Decidable (_ = _))

/-- `tail == head_`, with the head as it is now. -/
def Empty (s : State c α) (tail : UInt64) : Prop := tail = s.head

instance (s : State c α) (tail : UInt64) : Decidable (s.Empty tail) := inferInstanceAs (Decidable (_ = _))

/-- The next step of `try_push`. -/
def produce (s : State c α) : State c α :=
  match s.producer with
  | .idle => s
  | .loadedHead value head =>
    if s.Full head then { s with producer := .idle }
    else { s with producer := .admitted value head }
  | .admitted value head =>
    { s with
      storage := Function.update s.storage (c.slot head) value
      writes := s.writes ++ [(c.slot head, value)]
      producer := .written value head }
  | .written value head =>
    { s with head := head + 1, pushed := s.pushed ++ [value], producer := .idle }

/-- The next step of `try_pop`. -/
def consume (s : State c α) : State c α :=
  match s.consumer with
  | .idle => s
  | .loadedTail tail =>
    if s.Empty tail then { s with consumer := .idle }
    else { s with consumer := .admitted tail }
  | .admitted tail =>
    { s with
      reads := s.reads ++ [(c.slot tail, s.storage (c.slot tail))]
      consumer := .read (s.storage (c.slot tail)) tail }
  | .read value tail =>
    { s with tail := tail + 1, popped := s.popped ++ [value], consumer := .idle }

def push (s : State c α) (value : α) : State c α :=
  match s.producer with
  | .idle => { s with producer := .loadedHead value s.head }
  | _ => s

def pop (s : State c α) : State c α :=
  match s.consumer with
  | .idle => { s with consumer := .loadedTail s.tail }
  | _ => s

end State

def step (s : State c α) : Step α → State c α
  | .push value => s.push value
  | .produce => s.produce
  | .pop => s.pop
  | .consume => s.consume

/-! ## Free-running indices -/

section Indices
variable {m n : Nat}

theorem toNat_distance (hle : m ≤ n) (hlt : n - m < 2 ^ 64) :
    (UInt64.ofNat n - UInt64.ofNat m).toNat = n - m := by
  rw [UInt64.toNat_sub, UInt64.toNat_ofNat', UInt64.toNat_ofNat']
  omega

theorem ofNat_add_one (n : Nat) : UInt64.ofNat n + 1 = UInt64.ofNat (n + 1) := by
  apply UInt64.toNat_inj.mp
  rw [UInt64.toNat_add, UInt64.toNat_ofNat', UInt64.toNat_ofNat', UInt64.toNat_one]
  omega

theorem slot_ofNat (c : Capacity) (n : Nat) : (c.slot (UInt64.ofNat n)).val = n % c.size := by
  unfold Capacity.slot
  dsimp only
  rw [c.masked, UInt64.toNat_ofNat', Nat.mod_mod_of_dvd _ c.size_dvd]

/-- Less than one round apart, two indices are kept in different slots. -/
theorem slot_ne (hlt : m < n) (hround : n < m + c.size) : c.slot (UInt64.ofNat m) ≠ c.slot (UInt64.ofNat n) := by
  intro h
  have hmod : m % c.size = n % c.size := by
    rw [← slot_ofNat, ← slot_ofNat, h]
  have hdvd : c.size ∣ n - m := Nat.dvd_of_mod_eq_zero (Nat.sub_mod_eq_zero_of_mod_eq hmod.symm)
  exact absurd (Nat.le_of_dvd (by omega) hdvd) (by omega)

end Indices

/-! ## The invariant -/

namespace Producer

/-- Written and not yet published. -/
def inSlot : Producer α → List α
  | written value _ => [value]
  | _ => []

/-- The index in the registers is the published one, and a call past the check has room. -/
def Agrees (head : UInt64) (room : Prop) : Producer α → Prop
  | idle => True
  | loadedHead _ index => index = head
  | admitted _ index | written _ index => index = head ∧ room

theorem Agrees.imp {head : UInt64} {room room' : Prop} (hroom : room → room') {p : Producer α}
    (h : p.Agrees head room) : p.Agrees head room' := by
  cases p with
  | idle => trivial
  | loadedHead value index => exact h
  | admitted value index => exact ⟨h.1, hroom h.2⟩
  | written value index => exact ⟨h.1, hroom h.2⟩

end Producer

namespace Consumer

/-- Read and not yet returned. -/
def taken : Consumer α → List α
  | read value _ => [value]
  | _ => []

def Agrees (tail : UInt64) (some : Prop) : Consumer α → Prop
  | idle => True
  | loadedTail index => index = tail
  | admitted index | read _ index => index = tail ∧ some

theorem Agrees.imp {tail : UInt64} {some some' : Prop} (hsome : some → some') {p : Consumer α}
    (h : p.Agrees tail some) : p.Agrees tail some' := by
  cases p with
  | idle => trivial
  | loadedTail index => exact h
  | admitted index => exact ⟨h.1, hsome h.2⟩
  | read value index => exact ⟨h.1, hsome h.2⟩

end Consumer

/-- Values with the slots they go to when the first of them has index 0. -/
def placed (c : Capacity) (values : List α) : List (Fin c.size × α) :=
  values.mapIdx fun index value => (c.slot (UInt64.ofNat index), value)

theorem placed_concat (c : Capacity) (values : List α) (value : α) :
    placed c (values ++ [value]) = placed c values ++ [(c.slot (UInt64.ofNat values.length), value)] :=
  List.mapIdx_concat

theorem placed_prefix (c : Capacity) {values values' : List α} (h : values <+: values') :
    placed c values <+: placed c values' := by
  obtain ⟨rest, rfl⟩ := h
  unfold placed
  rw [List.mapIdx_append]
  exact List.prefix_append _ _

/-- What holds between any two steps. -/
structure Inv (s : State c α) : Prop where
  head : s.head = UInt64.ofNat s.pushed.length
  tail : s.tail = UInt64.ofNat s.popped.length
  order : s.popped ++ s.consumer.taken <+: s.pushed
  room : s.pushed.length ≤ s.popped.length + c.size
  producer : s.producer.Agrees s.head (s.pushed.length < s.popped.length + c.size)
  consumer : s.consumer.Agrees s.tail (s.popped.length < s.pushed.length)
  writes : s.writes = placed c (s.pushed ++ s.producer.inSlot)
  reads : s.reads = placed c (s.popped ++ s.consumer.taken)
  stored : ∀ index value, s.popped.length ≤ index → (s.pushed ++ s.producer.inSlot)[index]? = some value →
    s.storage (c.slot (UInt64.ofNat index)) = value

theorem new_inv (c : Capacity) [Inhabited α] : Inv (State.new c : State c α) where
  head := rfl
  tail := rfl
  order := List.prefix_refl _
  room := Nat.zero_le _
  producer := trivial
  consumer := trivial
  writes := rfl
  reads := rfl
  stored := by
    intro index value _ hget
    cases hget

namespace Inv
variable {s : State c α}

theorem popped_le (h : Inv s) : s.popped.length ≤ s.pushed.length :=
  ((List.prefix_append _ _).trans h.order).length_le

theorem distance (h : Inv s) : (s.head - s.tail).toNat = s.pushed.length - s.popped.length := by
  have hroom := h.room
  have hlt := c.size_lt
  rw [h.head, h.tail]
  exact toNat_distance h.popped_le (by omega)

theorem full_iff (h : Inv s) : s.Full s.head ↔ s.pushed.length = s.popped.length + c.size := by
  have hle := h.popped_le
  have htwo := c.two_le_size
  unfold State.Full
  rw [← UInt64.toNat_inj, h.distance]
  unfold Capacity.size at *
  omega

theorem empty_iff (h : Inv s) : s.Empty s.tail ↔ s.popped.length = s.pushed.length := by
  have hle := h.popped_le
  have hdist := h.distance
  unfold State.Empty
  constructor
  · intro heq
    rw [heq, UInt64.sub_self] at hdist
    have hzero : s.pushed.length - s.popped.length = 0 := hdist.symm
    omega
  · intro heq
    rw [h.head, h.tail, heq]

/-- The slot of the next write holds no value that is still to be popped. -/
theorem next_slot_free (h : Inv s) (hroom : s.pushed.length < s.popped.length + c.size) {index : Nat}
    (hpopped : s.popped.length ≤ index) (hpushed : index < s.pushed.length) :
    c.slot (UInt64.ofNat index) ≠ c.slot s.head := by
  rw [h.head]
  exact slot_ne hpushed (by omega)

theorem push (h : Inv s) (value : α) : Inv (s.push value) := by
  unfold State.push
  cases hp : s.producer with
  | idle =>
    have hwrites := h.writes
    have hstored := h.stored
    rw [hp] at hwrites hstored
    exact { h with producer := rfl, writes := hwrites, stored := hstored }
  | loadedHead value' head => exact h
  | admitted value' head => exact h
  | written value' head => exact h

theorem pop (h : Inv s) : Inv s.pop := by
  unfold State.pop
  cases hc : s.consumer with
  | idle =>
    have horder := h.order
    have hreads := h.reads
    rw [hc] at horder hreads
    exact { h with order := horder, consumer := rfl, reads := hreads }
  | loadedTail tail => exact h
  | admitted tail => exact h
  | read value tail => exact h

theorem produce (h : Inv s) : Inv s.produce := by
  have hagrees := h.producer
  have hwrites := h.writes
  have hstored := h.stored
  unfold State.produce
  cases hp : s.producer with
  | idle => exact h
  | loadedHead value head =>
    rw [hp] at hagrees hwrites hstored
    have hhead : head = s.head := hagrees
    dsimp only
    split
    · exact { h with producer := trivial, writes := hwrites, stored := hstored }
    · rename_i hfull
      have hroom : s.pushed.length < s.popped.length + c.size := by
        rw [hhead, h.full_iff] at hfull
        exact Nat.lt_of_le_of_ne h.room hfull
      exact { h with producer := ⟨hhead, hroom⟩, writes := hwrites, stored := hstored }
  | admitted value head =>
    rw [hp] at hagrees hwrites hstored
    obtain ⟨hhead, hroom⟩ := hagrees
    simp only [Producer.inSlot, List.append_nil] at hwrites hstored
    refine { h with producer := ⟨hhead, hroom⟩, writes := ?_, stored := ?_ }
    · dsimp only [Producer.inSlot]
      rw [hwrites, hhead, h.head, placed_concat]
    · intro index value' hpopped hget
      dsimp only [Producer.inSlot] at hpopped hget ⊢
      rcases Nat.lt_trichotomy index s.pushed.length with hlt | heq | hgt
      · rw [Function.update_of_ne (by rw [hhead]; exact h.next_slot_free hroom hpopped hlt)]
        rw [List.getElem?_append_left hlt] at hget
        exact hstored index value' hpopped hget
      · rw [heq, List.getElem?_concat_length] at hget
        cases hget
        rw [heq, hhead, h.head, Function.update_self]
      · rw [List.getElem?_eq_none (by rw [List.length_append]; exact hgt)] at hget
        cases hget
  | written value head =>
    rw [hp] at hagrees hwrites hstored
    obtain ⟨hhead, hroom⟩ := hagrees
    exact {
      head := by
        dsimp only
        rw [hhead, h.head, ofNat_add_one, List.length_append]
        rfl
      tail := h.tail
      order := h.order.trans (List.prefix_append _ _)
      room := by
        dsimp only
        rw [List.length_append]
        exact hroom
      producer := trivial
      consumer := h.consumer.imp fun hlt => by
        dsimp only
        rw [List.length_append]
        exact Nat.lt_of_lt_of_le hlt (Nat.le_add_right _ _)
      writes := by
        dsimp only [Producer.inSlot]
        rw [List.append_nil]
        exact hwrites
      reads := h.reads
      stored := by
        dsimp only [Producer.inSlot]
        rw [List.append_nil]
        exact hstored }

theorem consume (h : Inv s) : Inv s.consume := by
  have hagrees := h.consumer
  have horder := h.order
  have hreads := h.reads
  unfold State.consume
  cases hc : s.consumer with
  | idle => exact h
  | loadedTail tail =>
    rw [hc] at hagrees horder hreads
    have htail : tail = s.tail := hagrees
    dsimp only
    split
    · exact { h with order := horder, consumer := trivial, reads := hreads }
    · rename_i hempty
      have hsome : s.popped.length < s.pushed.length := by
        rw [htail, h.empty_iff] at hempty
        exact Nat.lt_of_le_of_ne h.popped_le hempty
      exact { h with order := horder, consumer := ⟨htail, hsome⟩, reads := hreads }
  | admitted tail =>
    rw [hc] at hagrees horder hreads
    obtain ⟨htail, hsome⟩ := hagrees
    simp only [Consumer.taken, List.append_nil] at horder hreads
    have hread : s.storage (c.slot tail) = s.pushed[s.popped.length] := by
      rw [htail, h.tail]
      apply h.stored _ _ (Nat.le_refl _)
      rw [List.getElem?_append_left hsome, List.getElem?_eq_getElem hsome]
    refine { h with order := ?_, consumer := ⟨htail, hsome⟩, reads := ?_ }
    · dsimp only [Consumer.taken]
      rw [hread]
      exact List.concat_get_prefix horder hsome
    · dsimp only [Consumer.taken]
      rw [hreads, htail, h.tail, placed_concat]
  | read value tail =>
    rw [hc] at hagrees horder hreads
    obtain ⟨htail, hsome⟩ := hagrees
    exact {
      head := h.head
      tail := by
        dsimp only
        rw [htail, h.tail, ofNat_add_one, List.length_append]
        rfl
      order := by
        dsimp only [Consumer.taken]
        rw [List.append_nil]
        exact horder
      room := by
        have hroom := h.room
        dsimp only
        rw [List.length_append]
        omega
      producer := h.producer.imp fun hlt => by
        dsimp only
        rw [List.length_append]
        omega
      consumer := trivial
      writes := h.writes
      reads := by
        dsimp only [Consumer.taken]
        rw [List.append_nil]
        exact hreads
      stored := by
        intro index value' hpopped hget
        dsimp only at hpopped
        rw [List.length_append] at hpopped
        exact h.stored index value' (by omega) hget }

theorem step (h : Inv s) (e : Step α) : Inv (RingBuffer.step s e) := by
  cases e with
  | push value => exact h.push value
  | produce => exact h.produce
  | pop => exact h.pop
  | consume => exact h.consume

end Inv

/-! ## A bounded queue -/

namespace State

/-- Pushed and not yet popped. -/
def stored (s : State c α) : List α := s.pushed.drop s.popped.length

/-- Writes of slots that no read has followed yet. -/
def unread (s : State c α) : List (Fin c.size × α) := s.writes.drop s.reads.length

end State

/-- The step writes to the slot of a value that was not read. -/
def Overwrites (s : State c α) (e : Step α) : Prop :=
  ∃ w ∈ s.unread, ∃ value, (step s e).writes = s.writes ++ [(w.1, value)]

/-- The call of `try_push` ends at its load of `tail_`. -/
def PushRefused (s : State c α) : Step α → Prop
  | .produce => (∃ value head, s.producer = .loadedHead value head) ∧ s.produce.producer = .idle
  | _ => False

/-- The call of `try_pop` ends at its load of `head_`. -/
def PopRefused (s : State c α) : Step α → Prop
  | .consume => (∃ tail, s.consumer = .loadedTail tail) ∧ s.consume.consumer = .idle
  | _ => False

/-- A slot is written in one place only: behind the check of a push. -/
theorem writes_step (s : State c α) (e : Step α) : (step s e).writes = s.writes ∨
    ∃ value head, s.producer = .admitted value head ∧
      (step s e).writes = s.writes ++ [(c.slot head, value)] := by
  cases e with
  | push value =>
    left
    unfold step State.push
    dsimp only
    split <;> rfl
  | pop =>
    left
    unfold step State.pop
    dsimp only
    split <;> rfl
  | consume =>
    left
    unfold step State.consume
    dsimp only
    split
    · rfl
    · split <;> rfl
    · rfl
    · rfl
  | produce =>
    unfold step State.produce
    dsimp only
    split
    · exact .inl rfl
    · split <;> exact .inl rfl
    · rename_i value head hp
      exact .inr ⟨value, head, hp, rfl⟩
    · exact .inl rfl

structure Fifo (s : State c α) : Prop where
  popped : s.popped <+: s.pushed
  reads : s.reads <+: s.writes
  stored_le : s.stored.length ≤ c.size
  size : s.size.toNat = s.stored.length

structure Careful (s : State c α) (e : Step α) : Prop where
  unread : ¬ Overwrites s e
  full : PushRefused s e → s.stored.length = c.size
  empty : PopRefused s e → s.stored = []

namespace Inv
variable {s : State c α}

theorem fifo (h : Inv s) : Fifo s where
  popped := (List.prefix_append _ _).trans h.order
  reads := by
    rw [h.reads, h.writes]
    exact placed_prefix c (h.order.trans (List.prefix_append _ _))
  stored_le := by
    have hroom := h.room
    unfold State.stored
    rw [List.length_drop]
    omega
  size := by
    unfold State.stored State.size
    rw [h.distance, List.length_drop]

theorem length_reads (h : Inv s) : s.popped.length ≤ s.reads.length := by
  rw [h.reads]
  unfold placed
  rw [List.length_mapIdx, List.length_append]
  exact Nat.le_add_right _ _

/-- An unread write is one of a value still to be popped, in that value's slot. -/
theorem unread_slot (h : Inv s) (hslot : s.producer.inSlot = []) {w : Fin c.size × α} (hw : w ∈ s.unread) :
    ∃ index, s.popped.length ≤ index ∧ index < s.pushed.length ∧ w.1 = c.slot (UInt64.ofNat index) := by
  have hreads := h.length_reads
  unfold State.unread at hw
  obtain ⟨k, hk, hget⟩ := List.mem_drop_iff_getElem.mp hw
  have hwrites := h.writes
  rw [hslot, List.append_nil] at hwrites
  have hlen : s.writes.length = s.pushed.length := by
    rw [hwrites]
    exact List.length_mapIdx
  refine ⟨s.reads.length + k, by omega, by omega, ?_⟩
  rw [← hget]
  simp only [hwrites, placed, List.getElem_mapIdx]

theorem not_overwrites (h : Inv s) (e : Step α) : ¬ Overwrites s e := by
  rintro ⟨w, hw, value, hadded⟩
  rcases writes_step s e with hsame | ⟨value', head, hp, hwrites⟩
  · have hlength := congrArg List.length (hsame.symm.trans hadded)
    rw [List.length_append, List.length_singleton] at hlength
    omega
  · have hagrees := h.producer
    rw [hp] at hagrees
    obtain ⟨hhead, hroom⟩ := hagrees
    obtain ⟨index, hpopped, hpushed, hslot⟩ := h.unread_slot (by rw [hp]; rfl) hw
    have hone := List.append_cancel_left (hwrites.symm.trans hadded)
    have hslot' : c.slot head = w.1 := congrArg Prod.fst (List.singleton_injective hone)
    rw [hhead, hslot] at hslot'
    exact h.next_slot_free hroom hpopped hpushed hslot'.symm

theorem careful (h : Inv s) (e : Step α) : Careful s e where
  unread := h.not_overwrites e
  full := by
    intro hrefused
    cases e with
    | produce =>
      obtain ⟨⟨value, head, hp⟩, hidle⟩ := hrefused
      have hhead := h.producer
      rw [hp] at hhead
      have hfull : s.Full s.head := by
        by_contra hnot
        simp only [State.produce, hp, show head = s.head from hhead, if_neg hnot] at hidle
        cases hidle
      unfold State.stored
      rw [List.length_drop, h.full_iff.mp hfull, Nat.add_sub_cancel_left]
    | push value => exact hrefused.elim
    | pop => exact hrefused.elim
    | consume => exact hrefused.elim
  empty := by
    intro hrefused
    cases e with
    | consume =>
      obtain ⟨⟨tail, hc⟩, hidle⟩ := hrefused
      have htail := h.consumer
      rw [hc] at htail
      have hempty : s.Empty s.tail := by
        by_contra hnot
        simp only [State.consume, hc, show tail = s.tail from htail, if_neg hnot] at hidle
        cases hidle
      unfold State.stored
      rw [h.empty_iff.mp hempty, List.drop_length]
    | push value => exact hrefused.elim
    | pop => exact hrefused.elim
    | produce => exact hrefused.elim

end Inv

/-- Whatever the order of the two threads' steps: the queue is first in first out and never over its
capacity, a slot is written only after its last value was read, and a call is refused only at a full or an
empty ring. -/
theorem ring_is_bounded_fifo [Inhabited α] (c : Capacity) (steps : List (Step α)) :
    Runs.Throughout step Fifo (State.new c) steps ∧ Runs.Along step Careful (State.new c) steps := by
  have hall : Runs.Along step (fun _ _ => True) (State.new c : State c α) steps :=
    Runs.along_of_forall fun _ _ _ => trivial
  constructor
  · intro before _
    exact (Runs.invariant_of_step (fun s e h => h.step e) (new_inv c) before).fifo
  · exact Runs.Along.of_invariant (fun s e h _ => h.step e) (fun s e h _ => h.careful e) (new_inv c) hall

/-- A full ring of two: the third value has to wait for the first to be popped. -/
example : (Runs.run step (State.new ⟨2, by decide, by decide⟩) [.push 7, .produce, .produce, .produce,
    .push 8, .produce, .pop, .produce, .produce, .push 9, .produce, .consume, .consume, .consume]).popped = [7] := by
  decide +kernel

end MicrostructureEngine.RingBuffer
