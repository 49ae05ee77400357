import MicrostructureEngine.Exec.BrokerSteps

/-!
# What a refused submit leaves behind

`submit` takes the slot of the order between two groups of checks. A request refused by the
first group, or for want of a slot, costs a journal record and nothing else. A request that the
market or the margin refuses has taken its slot by then: a reused slot keeps the ended order
that was in it, but a fresh slot stays behind with an order that no event ever ends.
-/

namespace MicrostructureEngine.Exec.PaperBroker

set_option autoImplicit false

open Books

def withJournal (b : PaperBroker) (j : Journal) : PaperBroker :=
  { b with books := { b.books with journal := j } }

/-- Two brokers that differ in the journal only. -/
def SameButJournal (b b' : PaperBroker) : Prop := b' = b.withJournal b'.books.journal

/-- The request passes the checks before the allocation, no used slot is vacant, and there is
an unused one. -/
structure TakesFreshSlot (b : PaperBroker) (q : OrderRequest) (nowNs : Nat) : Prop where
  admitted : b.entryRefusal q nowNs = none
  occupied : ∀ x ∈ b.slots, x.order.state.isTerminal = false
  room : b.slots.length < maxLiveOrders

theorem sameButJournal_reject (b : PaperBroker) (q : OrderRequest) (nowNs : Nat)
    (reason : RejectReason) : SameButJournal b (b.reject q nowNs reason).2 := rfl

theorem SameButJournal.slots {b b' : PaperBroker} (h : SameButJournal b b') : b'.slots = b.slots := by
  rw [h]
  rfl

theorem SameButJournal.trans {b b' b'' : PaperBroker} (h : SameButJournal b b')
    (h' : SameButJournal b' b'') : SameButJournal b b'' := by
  calc b'' = b'.withJournal b''.books.journal := h'
    _ = (b.withJournal b'.books.journal).withJournal b''.books.journal := by rw [← h]
    _ = b.withJournal b''.books.journal := rfl

theorem allocate_same_or_fresh {slots : List OrderSlot} {s : Nat × List OrderSlot}
    (h : SlotTable.allocate reusable maxLiveOrders {} slots = some s) :
    s.2 = slots ∨
    (s.2 = slots ++ [({} : OrderSlot)] ∧ (∀ x ∈ slots, x.order.state.isTerminal = false) ∧
      slots.length < maxLiveOrders) := by
  rcases SlotTable.allocate_eq_some h with ⟨l, x, r, -, rfl, -⟩ | ⟨hfull, hroom, rfl⟩
  · exact Or.inl rfl
  · exact Or.inr ⟨rfl, hfull, hroom⟩

theorem TakesFreshSlot.allocate {b : PaperBroker} {q : OrderRequest} {nowNs : Nat}
    (h : b.TakesFreshSlot q nowNs) :
    SlotTable.allocate reusable maxLiveOrders {} b.slots = some (b.slots.length, b.slots ++ [({} : OrderSlot)]) := by
  have hnone : SlotTable.locate reusable b.slots = none := SlotTable.locate_eq_none_iff.mpr h.occupied
  unfold SlotTable.allocate
  rw [hnone]
  dsimp only
  rw [if_neg (Nat.not_le.mpr h.room)]

/-- The journal apart, a refused submit changes nothing exactly when it does not take a fresh
slot. -/
theorem sameButJournal_submit_iff {b : PaperBroker} {q : OrderRequest} {nowNs : Nat}
    (hrefused : (b.submit q nowNs).1.accepted = false) :
    SameButJournal b (b.submit q nowNs).2 ↔ ¬ b.TakesFreshSlot q nowNs := by
  rcases submit_cases b q nowNs with ⟨reason, hentry, heq⟩ | ⟨-, hfull, heq⟩ |
    ⟨s, reason, hentry, halloc, -, heq⟩ | ⟨s, -, -, -, heq⟩
  · rw [heq]
    refine ⟨fun _ hfresh => ?_, fun _ => sameButJournal_reject b q nowNs reason⟩
    rw [hfresh.admitted] at hentry
    cases hentry
  · rw [heq]
    refine ⟨fun _ hfresh => ?_, fun _ => sameButJournal_reject b q nowNs .corruptedState⟩
    rw [hfresh.allocate] at hfull
    cases hfull
  · rw [heq]
    constructor
    · intro hsame hfresh
      have hslots : s.2 = b.slots := hsame.slots
      rw [hfresh.allocate] at halloc
      cases halloc
      have hlength := congrArg List.length hslots
      rw [List.length_append] at hlength
      exact absurd hlength (by simp)
    · intro hfresh
      rcases allocate_same_or_fresh halloc with hsame | ⟨-, hoccupied, hroom⟩
      · rw [hsame]
        exact sameButJournal_reject b q nowNs reason
      · exact absurd ⟨hentry, hoccupied, hroom⟩ hfresh
  · rw [heq] at hrefused
    cases hrefused

/-- No check of `submit` reads the journal. -/
theorem submit_withJournal (b : PaperBroker) (j : Journal) (q : OrderRequest) (nowNs : Nat) :
    ((b.withJournal j).submit q nowNs).1 = (b.submit q nowNs).1 := by
  have hentry : (b.withJournal j).entryRefusal q nowNs = b.entryRefusal q nowNs := rfl
  unfold submit
  rw [hentry]
  cases b.entryRefusal q nowNs with
  | some reason => rfl
  | none =>
    dsimp only
    have hslots : (b.withJournal j).slots = b.slots := rfl
    rw [hslots]
    cases SlotTable.allocate reusable maxLiveOrders {} b.slots with
    | none => rfl
    | some s =>
      have hmarket : marketRefusal (b.withJournal j).books q nowNs = marketRefusal b.books q nowNs := rfl
      dsimp only
      rw [hmarket]
      cases marketRefusal b.books q nowNs <;> rfl

def submitStep (b : PaperBroker) (r : OrderRequest × Nat) : PaperBroker := (b.submit r.1 r.2).2

def RefusedFree (b : PaperBroker) (r : OrderRequest × Nat) : Prop :=
  (b.submit r.1 r.2).1.accepted = false ∧ ¬ b.TakesFreshSlot r.1 r.2

theorem sameButJournal_run {b : PaperBroker} {requests : List (OrderRequest × Nat)}
    (h : Runs.Along submitStep RefusedFree b requests) :
    SameButJournal b (Runs.run submitStep b requests) := by
  refine Runs.run_invariant (I := SameButJournal b) ?_ rfl h
  intro c r hc hr
  exact hc.trans ((sameButJournal_submit_iff hr.1).mpr hr.2)

/-- A refused submit leaves everything but the journal as it was exactly when it does not take a
fresh slot, and after any number of such refusals every submit is answered as before them. -/
theorem refusal_free_iff (b : PaperBroker) :
    (∀ q nowNs, (b.submit q nowNs).1.accepted = false →
      (SameButJournal b (b.submit q nowNs).2 ↔ ¬ b.TakesFreshSlot q nowNs)) ∧
    ∀ requests, Runs.Along submitStep RefusedFree b requests →
      ∀ q nowNs, ((Runs.run submitStep b requests).submit q nowNs).1 = (b.submit q nowNs).1 := by
  refine ⟨fun q nowNs hrefused => sameButJournal_submit_iff hrefused, ?_⟩
  intro requests hfree q nowNs
  rw [sameButJournal_run hfree]
  exact submit_withJournal b _ q nowNs

/-- A quote, and an order that waits for its fill. -/
def waiting : PaperBroker :=
  after { initialBalanceMinor := 1000000 } [.onQuote 0 100 102 0 0 1, .submit { volume := 3 } 1]

/-- The waiting order once more, and a `reduce_only` order without a position. -/
def refusedTwice : List (OrderRequest × Nat) :=
  [({ volume := 3 }, 2), ({ volume := 2, side := .sell, reduceOnly := true, seqGlobal := 1 }, 3)]

theorem refusedFree_of_entry {b : PaperBroker} {r : OrderRequest × Nat} (reason : RejectReason)
    (hentry : b.entryRefusal r.1 r.2 = some reason) : b.RefusedFree r := by
  refine ⟨?_, fun h => ?_⟩
  · rcases submit_cases b r.1 r.2 with ⟨_, -, heq⟩ | ⟨hnone, -, -⟩ | ⟨_, _, hnone, -⟩ | ⟨_, hnone, -⟩
    · rw [heq]
      rfl
    all_goals
      rw [hentry] at hnone
      cases hnone
  · rw [h.admitted] at hentry
    cases hentry

theorem refusal_free_twice :
    SameButJournal waiting (waiting.submit { volume := 3 } 2).2 ∧
    ((Runs.run submitStep waiting refusedTwice).submit { volume := 1, seqGlobal := 2 } 4).1 =
      (waiting.submit { volume := 1, seqGlobal := 2 } 4).1 ∧
    (waiting.submit { volume := 1, seqGlobal := 2 } 4).1.accepted = true := by
  have hduplicate : waiting.RefusedFree ({ volume := 3 }, 2) :=
    refusedFree_of_entry .duplicateOrderId (by decide +kernel)
  have hfree : Runs.Along submitStep RefusedFree waiting refusedTwice :=
    ⟨hduplicate, refusedFree_of_entry .reduceOnlyNoPosition (by decide +kernel), trivial⟩
  obtain ⟨hsame, hanswers⟩ := refusal_free_iff waiting
  exact ⟨(hsame { volume := 3 } 2 hduplicate.1).mpr hduplicate.2,
    hanswers refusedTwice hfree { volume := 1, seqGlobal := 2 } 4, by decide +kernel⟩

/-- Before the first quote a submit is refused for its stale quote, and a slot is gone. -/
theorem refusal_takes_slot :
    ((new {}).submit { volume := 1 } 0).1 =
      ⟨false, ⟨1, makeLogicalOrderId 0 0 0⟩, .staleQuote⟩ ∧
    ¬ SameButJournal (new {}) ((new {}).submit { volume := 1 } 0).2 := by
  refine ⟨by decide +kernel, fun hsame => ?_⟩
  have hslots := congrArg List.length hsame.slots
  revert hslots
  decide +kernel

end MicrostructureEngine.Exec.PaperBroker
