import MicrostructureEngine.Oms.JournalReplay

/-!
# Why the broker does not repeat itself

The reader refuses a record whose payload is in the journal already, and a payload carries its time.
Most records of the broker come with a refresh of the account at the same time, so they are new if
the account was not refreshed at that time before. An acknowledgement is new as long as the order is
still in flight. What remains, replaces and refusals, can be repeated at will.
-/

namespace MicrostructureEngine

set_option autoImplicit false

open Recovery

def Journal.refreshedAt (j : Journal) (tsNs : Nat) : Bool :=
  j.records.any fun r => r.type == JournalRecordType.pnlUpdate.code && r.tsNs == tsNs

def isAck (r : JournalRecord) : Bool :=
  r.type == JournalRecordType.acknowledgement.code ||
    r.type == JournalRecordType.orderState.code && r.b == OrderState.acknowledged.code

/-- The records that come without a refresh of the account. -/
def isLoose (r : JournalRecord) : Bool :=
  isAck r || r.type == JournalRecordType.replace.code ||
    r.type == JournalRecordType.rejection.code && r.a != RejectReason.probabilisticReject.code

theorem payload_eq_of_same {r q : JournalRecord} (h : samePayload r q = true) : r.payload = q.payload := by
  unfold samePayload at h
  simp only [Bool.and_eq_true, beq_iff_eq] at h
  obtain ⟨⟨⟨⟨⟨⟨⟨⟨⟨⟨hts, htype⟩, hreserved⟩, hsymbol⟩, hrun⟩, hid⟩, hticket⟩, ha⟩, hb⟩, hc⟩, hd⟩ := h
  unfold JournalRecord.payload
  rw [hts, htype, hreserved, hsymbol, hrun, hid, hticket, ha, hb, hc, hd]

theorem agree_of_payload {r q : JournalRecord} (h : r.payload = q.payload) :
    r.tsNs = q.tsNs ∧ r.ref = q.ref ∧ isAck r = isAck q ∧ isLoose r = isLoose q := by
  have hts := congrArg JournalRecord.tsNs h
  have href := congrArg JournalRecord.ref h
  have hack := congrArg isAck h
  have hloose := congrArg isLoose h
  exact ⟨hts, href, hack, hloose⟩

namespace Journal

variable {j : Journal} {rs : List JournalRecord} {nowNs : Nat}

theorem mem_emits (hflow : (j.emits rs).overflowed = false) {r : JournalRecord}
    (hr : r ∈ (j.emits rs).records) : ∃ q, (q ∈ j.records ∨ q ∈ rs) ∧ q.payload = r.payload := by
  have hpayload := List.mem_map_of_mem (f := JournalRecord.payload) hr
  rw [(emits_records hflow).2, ← List.map_append] at hpayload
  obtain ⟨q, hq, heq⟩ := List.mem_map.mp hpayload
  exact ⟨q, List.mem_append.mp hq, heq⟩

theorem refreshedAt_emits (hflow : (j.emits rs).overflowed = false) (tsNs : Nat) :
    (j.emits rs).refreshedAt tsNs = (j.refreshedAt tsNs ||
      rs.any fun r => r.type == JournalRecordType.pnlUpdate.code && r.tsNs == tsNs) := by
  have hany : ∀ l : List JournalRecord,
      (l.any fun r => r.type == JournalRecordType.pnlUpdate.code && r.tsNs == tsNs) =
        (l.map JournalRecord.payload).any
          fun r => r.type == JournalRecordType.pnlUpdate.code && r.tsNs == tsNs := by
    intro l
    rw [List.any_map]
    rfl
  unfold refreshedAt
  rw [hany, (emits_records hflow).2, List.any_append, ← hany, ← hany]

theorem lastTs_emits {r : JournalRecord} (hflow : (j.emits (r :: rs)).overflowed = false)
    (htime : ∀ q ∈ r :: rs, q.tsNs = nowNs) : (j.emits (r :: rs)).lastTs = nowNs := by
  induction rs generalizing j r with
  | nil => exact (lastTs_append hflow).trans (htime r List.mem_cons_self)
  | cons q rs ih => exact ih hflow fun q' hq' => htime q' (List.mem_cons_of_mem r hq')

end Journal

/-- The order was acknowledged and stayed so, or it has ended and the account was refreshed. -/
def Rested (j : Journal) (orders : BrokerOrderRef → Option OrderEntry) (tsNs : Nat)
    (ref : BrokerOrderRef) : Prop :=
  (orders ref).elim (j.refreshedAt tsNs = true) fun v => v.state = .acknowledged

/-- What makes the next record a new one. -/
structure Orderly (j : Journal) (orders : BrokerOrderRef → Option OrderEntry) : Prop where
  bounded : ∀ r ∈ j.records, r.tsNs ≤ j.lastTs
  settled : ∀ r ∈ j.records, isLoose r = false → j.refreshedAt r.tsNs = true
  acked : ∀ r ∈ j.records, isAck r = true → r.tsNs = j.lastTs → Rested j orders j.lastTs r.ref

namespace Orderly

variable {j : Journal} {orders orders' : BrokerOrderRef → Option OrderEntry} {r : JournalRecord}
  {rs : List JournalRecord} {nowNs : Nat}

theorem start (orders : BrokerOrderRef → Option OrderEntry) : Orderly {} orders where
  bounded := fun _ hr => absurd hr List.not_mem_nil
  settled := fun _ hr => absurd hr List.not_mem_nil
  acked := fun _ hr => absurd hr List.not_mem_nil

theorem fresh_settled (h : Orderly j orders) (hr : isLoose r = false)
    (hnone : j.refreshedAt r.tsNs = false) : j.Fresh r := by
  intro q hq
  by_contra hsame
  obtain ⟨hts, -, -, hloose⟩ := agree_of_payload (payload_eq_of_same (Bool.not_eq_false _ ▸ hsame))
  have hrefreshed := h.settled q hq (hloose ▸ hr)
  rw [← hts, hnone] at hrefreshed
  cases hrefreshed

theorem fresh_ack (h : Orderly j orders) (hr : isAck r = true) (hlast : j.lastTs ≤ r.tsNs)
    {v : OrderEntry} (hv : orders r.ref = some v) (hstate : v.state ≠ .acknowledged) : j.Fresh r := by
  intro q hq
  by_contra hsame
  obtain ⟨hts, href, hack, -⟩ := agree_of_payload (payload_eq_of_same (Bool.not_eq_false _ ▸ hsame))
  have hbound := h.bounded q hq
  have hrested := h.acked q hq (hack ▸ hr) (by omega)
  unfold Rested at hrested
  rw [← href, hv] at hrested
  exact hstate hrested

theorem emits (h : Orderly j orders) (hflow : (j.emits (r :: rs)).overflowed = false)
    (hlast : j.lastTs ≤ nowNs) (htime : ∀ q ∈ r :: rs, q.tsNs = nowNs)
    (hsettled : ∀ q ∈ r :: rs, isLoose q = false → (j.emits (r :: rs)).refreshedAt nowNs = true)
    (hacked : ∀ q ∈ r :: rs, isAck q = true → Rested (j.emits (r :: rs)) orders' nowNs q.ref)
    (hkept : ∀ ref, Rested j orders nowNs ref → Rested (j.emits (r :: rs)) orders' nowNs ref) :
    Orderly (j.emits (r :: rs)) orders' := by
  have hnow : (j.emits (r :: rs)).lastTs = nowNs := Journal.lastTs_emits hflow htime
  refine ⟨?_, ?_, ?_⟩
  · intro q hq
    obtain ⟨q', hq', hpayload⟩ := Journal.mem_emits hflow hq
    obtain ⟨hts, -, -, -⟩ := agree_of_payload hpayload
    rcases hq' with hold | hnew
    · have hbound := h.bounded q' hold
      omega
    · have hts' := htime q' hnew
      omega
  · intro q hq hloose
    obtain ⟨q', hq', hpayload⟩ := Journal.mem_emits hflow hq
    obtain ⟨hts, -, -, hsame⟩ := agree_of_payload hpayload
    have hloose' : isLoose q' = false := hsame.trans hloose
    rw [← hts]
    rcases hq' with hold | hnew
    · rw [Journal.refreshedAt_emits hflow, h.settled q' hold hloose', Bool.true_or]
    · rw [htime q' hnew]
      exact hsettled q' hnew hloose'
  · intro q hq hack hts
    obtain ⟨q', hq', hpayload⟩ := Journal.mem_emits hflow hq
    obtain ⟨hts', href, hsame, -⟩ := agree_of_payload hpayload
    have hack' : isAck q' = true := hsame.trans hack
    rw [← href]
    rw [hnow] at hts ⊢
    rcases hq' with hold | hnew
    · -- An acknowledgement of this very time was the last word of the journal before.
      have hbound := h.bounded q' hold
      have hlast' : j.lastTs = nowNs := by omega
      have hrested := h.acked q' hold hack' (by omega)
      rw [hlast'] at hrested
      exact hkept q'.ref hrested
    · exact hacked q' hnew hack'

end Orderly

/-- The reader has read the journal, and the journal is in order. -/
structure Replayed (mode : MarginMode) (j : Journal) (σ : Reading) : Prop where
  recovered : Recovered mode j σ
  orderly : Orderly j σ.orders

namespace Replayed

variable {mode : MarginMode} {j : Journal} {σ τ : Reading} {r : JournalRecord} {rs : List JournalRecord}
  {nowNs : Nat}

theorem start (mode : MarginMode) : Replayed mode {} .start := ⟨Recovered.start mode, Orderly.start _⟩

theorem settled (h : Replayed mode j σ) (haccepts : σ.AcceptsAll (r :: rs) τ)
    (hflow : (j.emits (r :: rs)).overflowed = false) (hlast : j.lastTs ≤ nowNs)
    (hnone : j.refreshedAt nowNs = false)
    (htime : ∀ q ∈ r :: rs, q.tsNs = nowNs ∧ headerOk q nowNs = true)
    (hdistinct : (r :: rs).Pairwise fun r q => samePayload q r = false)
    (hloose : ∀ q ∈ r :: rs, isLoose q = false)
    (hrefresh : ∃ q ∈ r :: rs, q.type = JournalRecordType.pnlUpdate.code) {ref : BrokerOrderRef}
    {t : Option OrderEntry} (horders : τ.orders = Function.update σ.orders ref t)
    (ht : t = none ∨ σ.orders ref = none) : Replayed mode (j.emits (r :: rs)) τ := by
  have hts : ∀ q ∈ r :: rs, q.tsNs = nowNs := fun q hq => (htime q hq).1
  have hrefreshed : (j.emits (r :: rs)).refreshedAt nowNs = true := by
    obtain ⟨q, hq, htype⟩ := hrefresh
    rw [Journal.refreshedAt_emits hflow, Bool.or_eq_true]
    refine Or.inr (List.any_eq_true.mpr ⟨q, hq, ?_⟩)
    rw [htype, hts q hq, beq_self_eq_true, beq_self_eq_true]
    rfl
  constructor
  · refine h.recovered.emits haccepts hflow hlast htime ?_ hdistinct
    intro q hq
    refine h.orderly.fresh_settled (hloose q hq) ?_
    rw [hts q hq]
    exact hnone
  · refine h.orderly.emits hflow hlast hts (fun _ _ _ => hrefreshed) ?_ ?_
    · intro q hq hack
      have hq' := hloose q hq
      unfold isLoose at hq'
      rw [hack] at hq'
      cases hq'
    · intro ref' hrested
      unfold Rested at hrested ⊢
      rw [horders]
      by_cases href : ref' = ref
      · subst href
        rw [Function.update_self]
        rcases ht with rfl | hnew
        · exact hrefreshed
        · rw [hnew, hnone] at hrested
          cases hrested
      · rw [Function.update_of_ne href]
        cases hv : σ.orders ref' with
        | none => exact hrefreshed
        | some v =>
          rw [hv] at hrested
          exact hrested

/-- Records that come without a refresh leave every order that rests at rest. -/
theorem loose (h : Replayed mode j σ) (haccepts : σ.AcceptsAll (r :: rs) τ)
    (hflow : (j.emits (r :: rs)).overflowed = false) (hlast : j.lastTs ≤ nowNs)
    (htime : ∀ q ∈ r :: rs, q.tsNs = nowNs ∧ headerOk q nowNs = true)
    (hfresh : ∀ q ∈ r :: rs, j.Fresh q)
    (hdistinct : (r :: rs).Pairwise fun r q => samePayload q r = false)
    (hloose : ∀ q ∈ r :: rs, isLoose q = true) {ref : BrokerOrderRef} {t : Option OrderEntry}
    (horders : τ.orders = Function.update σ.orders ref t)
    (ht : t = σ.orders ref ∨ ∃ v, t = some v ∧ v.state = .acknowledged)
    (hacked : ∀ q ∈ r :: rs, isAck q = true → q.ref = ref ∧ ∃ v, t = some v ∧ v.state = .acknowledged) :
    Replayed mode (j.emits (r :: rs)) τ := by
  refine ⟨h.recovered.emits haccepts hflow hlast htime hfresh hdistinct, ?_⟩
  have hrested : ∀ v : OrderEntry, t = some v → v.state = .acknowledged →
      Rested (j.emits (r :: rs)) τ.orders nowNs ref := by
    intro v hv hstate
    unfold Rested
    rw [horders, Function.update_self, hv]
    exact hstate
  refine h.orderly.emits hflow hlast (fun q hq => (htime q hq).1) ?_ ?_ ?_
  · intro q hq hsettled
    rw [hloose q hq] at hsettled
    cases hsettled
  · intro q hq hack
    obtain ⟨href, v, hv, hstate⟩ := hacked q hq hack
    rw [href]
    exact hrested v hv hstate
  · intro ref' hold
    have hsame : σ.orders ref' = τ.orders ref' → Rested (j.emits (r :: rs)) τ.orders nowNs ref' := by
      intro heq
      unfold Rested at hold ⊢
      rw [← heq]
      cases hv : σ.orders ref' with
      | none =>
        rw [hv] at hold
        have hold' : j.refreshedAt nowNs = true := hold
        show (j.emits (r :: rs)).refreshedAt nowNs = true
        rw [Journal.refreshedAt_emits hflow, hold', Bool.true_or]
      | some v =>
        rw [hv] at hold
        exact hold
    by_cases href : ref' = ref
    · subst href
      rcases ht with ht | ⟨v, hv, hstate⟩
      · apply hsame
        rw [horders, Function.update_self, ht]
      · exact hrested v hv hstate
    · apply hsame
      rw [horders, Function.update_of_ne href]

end Replayed

end MicrostructureEngine
