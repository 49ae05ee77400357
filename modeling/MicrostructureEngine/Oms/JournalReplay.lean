import MicrostructureEngine.Exec.Journalling
import MicrostructureEngine.Oms.Replay

/-!
# Reading a journal back, record by record

What the loop of `recover` has read of a journal is a `Reading`: an entry for each order, the
positions, the account and its two flags. Whether the next record is accepted, and what is read
then, depends on the reading only, once the header is in order and the payload is not a repetition.
-/

namespace MicrostructureEngine

set_option autoImplicit false

open Recovery

/-- What a journal has on an order. -/
structure OrderEntry where
  ref : BrokerOrderRef
  state : OrderState
  requestedVolume : Int
  filledVolume : Int
  limitPriceTicks : Int
  deriving DecidableEq, Repr

def entry (x : Order) : OrderEntry :=
  ⟨x.ref, x.state, x.requestedVolume, x.filledVolume, x.limitPriceTicks⟩

/-- The figures of an account that its journal records carry. -/
def AccountState.figures (a : AccountState) : AccountState :=
  { balanceMinor := a.balanceMinor, equityMinor := a.equityMinor, marginUsedMinor := a.marginUsedMinor,
    freeMarginMinor := a.freeMarginMinor, realizedPnlMinor := a.realizedPnlMinor,
    unrealizedPnlMinor := a.unrealizedPnlMinor, commissionPaidMinor := a.commissionPaidMinor }

structure Reading where
  orders : BrokerOrderRef → Option OrderEntry
  positions : List Position
  account : AccountState
  haveAccount : Bool
  havePnl : Bool

namespace Reading

def start : Reading := ⟨fun _ => none, [], {}, false, false⟩

def of (s : Replay) : Reading where
  orders := fun ref => (s.next.orders.find ref).map entry
  positions := s.next.positions.positions
  account := s.next.account.figures
  haveAccount := s.haveAccount
  havePnl := s.havePnl

def setOrder (σ : Reading) (ref : BrokerOrderRef) (t : Option OrderEntry) : Reading :=
  { σ with orders := Function.update σ.orders ref t }

@[simp] theorem setOrder_self (σ : Reading) (ref : BrokerOrderRef) (t : Option OrderEntry) :
    (σ.setOrder ref t).orders ref = t := Function.update_self ..

@[simp] theorem setOrder_setOrder (σ : Reading) (ref : BrokerOrderRef) (t u : Option OrderEntry) :
    (σ.setOrder ref t).setOrder ref u = σ.setOrder ref u := by
  unfold setOrder
  rw [Function.update_idem]

theorem setOrder_same {σ : Reading} {ref : BrokerOrderRef} {t : Option OrderEntry}
    (h : σ.orders ref = t) : σ.setOrder ref t = σ := by
  unfold setOrder
  rw [← h, Function.update_eq_self]

/-- The record is accepted after `σ`, if there is room for one more order, and leaves `τ`. -/
def Accepts (σ : Reading) (r : JournalRecord) (τ : Reading) : Prop :=
  ∀ s, of s = σ → s.next.orders.size < s.next.orders.capacity →
    ∃ s', applyRecord s r = some s' ∧ of s' = τ

/-- The records are accepted one after the other. -/
inductive AcceptsAll : Reading → List JournalRecord → Reading → Prop
  | nil {σ : Reading} : AcceptsAll σ [] σ
  | cons {σ τ υ : Reading} {r : JournalRecord} {rs : List JournalRecord} (first : Accepts σ r τ)
      (rest : AcceptsAll τ rs υ) : AcceptsAll σ (r :: rs) υ

theorem AcceptsAll.append {σ τ υ : Reading} {rs rs' : List JournalRecord} (h : AcceptsAll σ rs τ)
    (h' : AcceptsAll τ rs' υ) : AcceptsAll σ (rs ++ rs') υ := by
  induction h with
  | nil => exact h'
  | cons first _ ih => exact AcceptsAll.cons first (ih h')

/-! ## Order records -/

/-- A record about an order is accepted as `decode` says. -/
theorem accepts_order {σ : Reading} {r : JournalRecord} {t : Option OrderEntry}
    (horder : orderRecord r = true)
    (hdecode : ∀ x : Option Order, x.map entry = σ.orders r.ref →
      ∃ y delta, decode x r = some (y, delta) ∧ y.map entry = t) :
    Accepts σ r (σ.setOrder r.ref t) := by
  rintro s rfl hroom
  obtain ⟨y, delta, hd, hy⟩ := hdecode (s.next.orders.find r.ref) rfl
  obtain ⟨s', hs'⟩ := Option.isSome_iff_exists.mp
    (applyRecord_isSome horder (by rw [hd]; rfl) fun _ => hroom)
  obtain ⟨y', delta', hd', heffect⟩ := applyRecord_rewrites hs'
  have hframe := applyRecord_frame horder hs'
  rw [hd] at hd'
  cases hd'
  refine ⟨s', hs', ?_⟩
  have horders : (of s').orders = Function.update (of s).orders r.ref t := by
    funext ref
    by_cases href : ref = r.ref
    · subst href
      rw [Function.update_self, ← hy]
      exact congrArg (Option.map entry) heffect.find_self
    · rw [Function.update_of_ne href]
      exact congrArg (Option.map entry) (heffect.find_of_ne href)
  unfold setOrder
  rw [← horders]
  unfold of
  rw [hframe.positions, hframe.account, hframe.haveAccount, hframe.havePnl]

/-- The same for an order that has been read. -/
theorem accepts_live {σ : Reading} {r : JournalRecord} {v : OrderEntry} {t : Option OrderEntry}
    (horder : orderRecord r = true) (hv : σ.orders r.ref = some v)
    (hdecode : ∀ x : Order, entry x = v →
      ∃ y delta, decodeLive x r = some (y, delta) ∧ y.map entry = t) :
    Accepts σ r (σ.setOrder r.ref t) := by
  apply accepts_order horder
  intro x hx
  rw [hv] at hx
  obtain ⟨y, rfl, hy⟩ := Option.map_eq_some_iff.mp hx
  exact hdecode y hy

/-- The same for an order that has not. -/
theorem accepts_absent {σ : Reading} {r : JournalRecord} {t : Option OrderEntry}
    (horder : orderRecord r = true) (hnone : σ.orders r.ref = none)
    (hdecode : ∃ y delta, decodeAbsent r = some (y, delta) ∧ y.map entry = t) :
    Accepts σ r (σ.setOrder r.ref t) := by
  apply accepts_order horder
  intro x hx
  rw [hnone, Option.map_eq_none_iff] at hx
  subst hx
  exact hdecode

/-- A record that leaves the order it names as it was read. -/
theorem accepts_kept {σ : Reading} {r : JournalRecord} (horder : orderRecord r = true)
    (hdecode : ∀ x : Option Order, x.map entry = σ.orders r.ref →
      ∃ y delta, decode x r = some (y, delta) ∧ y.map entry = σ.orders r.ref) : Accepts σ r σ := by
  have haccepts := accepts_order horder hdecode
  rwa [setOrder_same rfl] at haccepts

theorem accepts_kept_live {σ : Reading} {r : JournalRecord} {v : OrderEntry}
    (horder : orderRecord r = true) (hv : σ.orders r.ref = some v)
    (hdecode : ∀ x : Order, entry x = v → decodeLive x r = some (some x, 0)) : Accepts σ r σ := by
  have haccepts := accepts_live (t := some v) horder hv fun x hx =>
    ⟨some x, 0, hdecode x hx, congrArg some hx⟩
  rwa [setOrder_same hv] at haccepts

theorem validOrderState_code (s : OrderState) : validOrderState s.code = true := by
  unfold validOrderState
  rw [Bool.and_eq_true_iff, decide_eq_true_eq, decide_eq_true_eq]
  exact ⟨s.code_nonneg, s.code_le_expired⟩

section Entries

variable {σ : Reading} (tsNs : Nat) (runId id : UInt64) (symbolId : Nat)

/-- A move to a legal state. Of the requested volume the record has to give all. -/
theorem accepts_transition {v : OrderEntry} (next : OrderState) (hv : σ.orders ⟨runId, id⟩ = some v)
    (hfilled : 0 ≤ v.filledVolume) (hrequested : 0 ≤ v.requestedVolume)
    (hlegal : legal v.state next = true) :
    Accepts σ (journalEntry .orderState tsNs runId id symbolId 0 v.state.code next.code v.filledVolume
        v.requestedVolume)
      (σ.setOrder ⟨runId, id⟩ (if next.isTerminal then none else some { v with state := next })) := by
  refine accepts_live rfl hv ?_
  rintro x rfl
  have hto : OrderState.ofCode next.code = next := OrderState.ofCode_code next
  have hdecode : decodeLive x (journalEntry .orderState tsNs runId id symbolId 0 (entry x).state.code
      next.code (entry x).filledVolume (entry x).requestedVolume) =
      some ((Verdict.transition x (OrderState.ofCode next.code)).after,
        (Verdict.transition x (OrderState.ofCode next.code)).delta) := by
    refine if_pos ⟨?_, ?_, ?_⟩
    · exact ⟨validOrderState_code _, validOrderState_code _, rfl, hfilled, hrequested⟩
    · exact ⟨(OrderState.ofCode_code _).symm, rfl, rfl⟩
    · exact hto.symm ▸ hlegal
  refine ⟨_, _, hdecode, ?_⟩
  have hlegal' : legal x.state next = true := hlegal
  rw [hto]
  unfold Verdict.transition
  rw [if_pos hlegal']
  cases next.isTerminal with
  | true => rfl
  | false => rfl

/-- The move to `sent` that stands before a command. -/
theorem accepts_sent {c d : Int} (hnone : σ.orders ⟨runId, id⟩ = none) (hc : 0 ≤ c) (hd : 0 ≤ d) :
    Accepts σ (journalEntry .orderState tsNs runId id symbolId 0 OrderState.pendingSend.code
      OrderState.sent.code c d) σ := by
  refine accepts_kept rfl ?_
  intro x hx
  have hx' : x = none := Option.map_eq_none_iff.mp (hx.trans hnone)
  subst hx'
  exact ⟨none, 0, if_pos ⟨⟨rfl, rfl, rfl, hc, hd⟩, rfl, rfl⟩, hx⟩

theorem accepts_command (side : Side) {type : OrderType} {requested limit : Int}
    (hnone : σ.orders ⟨runId, id⟩ = none) (hrun : runId ≠ 0) (hid : id ≠ 0) (hrequested : 0 < requested)
    (hlimit : 0 ≤ limit) (htype : type = .market ∨ type = .limit) :
    Accepts σ (journalEntry .command tsNs runId id symbolId 0 side.code requested limit type.code)
      (σ.setOrder ⟨runId, id⟩ (some ⟨⟨runId, id⟩, .sent, requested, 0, limit⟩)) := by
  have hside : 0 ≤ side.code ∧ side.code ≤ 1 := by
    cases side with
    | buy => exact ⟨by decide, by decide⟩
    | sell => exact ⟨by decide, by decide⟩
  have htype' : 0 ≤ type.code ∧ type.code ≤ 1 := by
    rcases htype with rfl | rfl
    · exact ⟨by decide, by decide⟩
    · exact ⟨by decide, by decide⟩
  refine accepts_absent rfl hnone ⟨_, _, if_pos ?_, rfl⟩
  exact ⟨hrun, hid, rfl, hside.1, hside.2, hrequested, hlimit, htype'.1, htype'.2⟩

/-- The confirmation of a state that the order has reached. -/
theorem accepts_acknowledgement {v : OrderEntry} {a b c d : Int} (hv : σ.orders ⟨runId, id⟩ = some v)
    (hstate : v.state = .acknowledged) (ha : 0 ≤ a) :
    Accepts σ (journalEntry .acknowledgement tsNs runId id symbolId 0 a b c d) σ := by
  refine accepts_kept_live rfl hv ?_
  rintro x rfl
  exact if_pos ⟨hstate, ha, rfl⟩

theorem accepts_cancel {v : OrderEntry} {a b c d : Int} (hv : σ.orders ⟨runId, id⟩ = some v)
    (hstate : v.state = .cancelPending) (ha : 0 ≤ a) :
    Accepts σ (journalEntry .cancel tsNs runId id symbolId 0 a b c d) σ := by
  refine accepts_kept_live rfl hv ?_
  rintro x rfl
  exact if_pos ⟨hstate, ha, rfl⟩

/-- A rejection of an order in flight. -/
theorem accepts_rejection {v : OrderEntry} {a b c d : Int} (hv : σ.orders ⟨runId, id⟩ = some v)
    (hstate : v.state = .sent) (ha : 0 < a) :
    Accepts σ (journalEntry .rejection tsNs runId id symbolId 0 a b c d) σ := by
  refine accepts_kept_live rfl hv ?_
  rintro x rfl
  exact if_pos ⟨ha, Or.inr hstate⟩

/-- A rejection that names no order. -/
theorem accepts_rejection_unnamed {a b c d : Int} (ha : 0 < a) :
    Accepts σ (journalEntry .rejection tsNs runId 0 symbolId 0 a b c d) σ := by
  refine accepts_kept rfl ?_
  intro x hx
  cases x with
  | none => exact ⟨none, 0, if_pos ⟨ha, rfl⟩, hx⟩
  | some x => exact ⟨some x, 0, if_pos ⟨ha, Or.inl rfl⟩, hx⟩

theorem accepts_replace {v : OrderEntry} {price volume : Int} (hv : σ.orders ⟨runId, id⟩ = some v)
    (hstate : v.state = .acknowledged) (hold : 0 < v.limitPriceTicks) (hprice : 0 < price)
    (hrequested : 0 < v.requestedVolume) (hvolume : 0 < volume) (hfilled : v.filledVolume ≤ volume) :
    Accepts σ (journalEntry .replace tsNs runId id symbolId 0 v.limitPriceTicks price v.requestedVolume
        volume)
      (σ.setOrder ⟨runId, id⟩ (some { v with limitPriceTicks := price, requestedVolume := volume })) := by
  refine accepts_live rfl hv ?_
  rintro x rfl
  exact ⟨_, 0, if_pos ⟨hstate, hold, hprice, hrequested, hvolume, hfilled, rfl, rfl⟩, rfl⟩

end Entries

/-! ## The account -/

/-- The two records of `refresh_account`. -/
def accountRecords (tsNs : Nat) (runId : UInt64) (account : AccountState) : List JournalRecord :=
  [journalEntry .accountUpdate tsNs runId 0 0 0 account.balanceMinor account.equityMinor
      account.marginUsedMinor account.freeMarginMinor,
    journalEntry .pnlUpdate tsNs runId 0 0 0 account.realizedPnlMinor account.unrealizedPnlMinor
      account.commissionPaidMinor 0]

/-- The identities that the reader checks of an account. -/
structure Accountable (account : AccountState) : Prop where
  margin : 0 ≤ account.marginUsedMinor
  free : 0 ≤ account.freeMarginMinor
  split : account.equityMinor - account.marginUsedMinor = account.freeMarginMinor
  equity : account.equityMinor = account.balanceMinor + account.unrealizedPnlMinor

def settle (σ : Reading) (account : AccountState) : Reading :=
  { σ with account := account.figures, haveAccount := true, havePnl := true }

theorem acceptsAll_account {σ : Reading} (tsNs : Nat) (runId : UInt64) {account : AccountState}
    (h : Accountable account) : AcceptsAll σ (accountRecords tsNs runId account) (σ.settle account) := by
  let τ : Reading := { σ with
    account :=
      { balanceMinor := account.balanceMinor, equityMinor := account.equityMinor,
        marginUsedMinor := account.marginUsedMinor, freeMarginMinor := account.freeMarginMinor,
        realizedPnlMinor := σ.account.realizedPnlMinor,
        unrealizedPnlMinor := σ.account.unrealizedPnlMinor,
        commissionPaidMinor := σ.account.commissionPaidMinor }
    haveAccount := true
    havePnl := false }
  apply AcceptsAll.cons (τ := τ)
  · rintro s rfl -
    refine ⟨_, if_neg ?_, rfl⟩
    rintro (hid | hticket | hmargin | hfree | hsplit)
    · exact hid rfl
    · exact hticket rfl
    · exact absurd h.margin (Int.not_le.mpr hmargin)
    · exact absurd h.free (Int.not_le.mpr hfree)
    · exact hsplit h.split
  · refine AcceptsAll.cons ?_ AcceptsAll.nil
    intro s hs _
    have hhave : s.haveAccount = true := congrArg Reading.haveAccount hs
    have hpnl : s.havePnl = false := congrArg Reading.havePnl hs
    have hequity : s.next.account.equityMinor = account.equityMinor :=
      congrArg (fun ρ => ρ.account.equityMinor) hs
    have hbalance : s.next.account.balanceMinor = account.balanceMinor :=
      congrArg (fun ρ => ρ.account.balanceMinor) hs
    refine ⟨_, if_neg ?_, congrArg (fun ρ : Reading => { ρ with
      account := { ρ.account with
        realizedPnlMinor := account.realizedPnlMinor
        unrealizedPnlMinor := account.unrealizedPnlMinor
        commissionPaidMinor := account.commissionPaidMinor }
      havePnl := true }) hs⟩
    rw [hhave, hpnl, hequity, hbalance]
    rintro (hid | hticket | hd | hflag | hflag | hmarked)
    · exact hid rfl
    · exact hticket rfl
    · exact hd rfl
    · cases hflag
    · cases hflag
    · exact hmarked h.equity

end Reading

/-! ## The loop -/

/-- The time of the last record. -/
def Journal.lastTs (j : Journal) : Nat := j.records.getLast?.elim 0 JournalRecord.tsNs

theorem Journal.lastTs_append {j : Journal} {r : JournalRecord} (h : (j.append r).2.overflowed = false) :
    (j.append r).2.lastTs = r.tsNs := by
  unfold lastTs
  rw [(append_overflowed h).2, List.getLast?_concat]
  rfl

/-- No record of the journal repeats the payload. -/
def Journal.Fresh (j : Journal) (r : JournalRecord) : Prop := ∀ q ∈ j.records, samePayload r q = false

instance (j : Journal) (r : JournalRecord) : Decidable (j.Fresh r) :=
  inferInstanceAs (Decidable (∀ q ∈ j.records, _))

theorem Journal.Fresh.append {j : Journal} {r q : JournalRecord} (h : j.Fresh r)
    (hflow : (j.append q).2.overflowed = false) (hq : samePayload r q = false) : (j.append q).2.Fresh r := by
  unfold Fresh
  rw [(append_overflowed hflow).2, List.forall_mem_append]
  refine ⟨h, fun q' hq' => ?_⟩
  rw [List.mem_singleton.mp hq']
  exact hq

/-- One more record at the end of the journal. -/
theorem recoverLoop_snoc {s s' s'' : Replay} {lastTs : Nat} {seen rs : List JournalRecord}
    {r : JournalRecord} (h : recoverLoop s lastTs seen rs = some s')
    (hseq : r.seq = seen.length + rs.length)
    (hheader : headerOk r (rs.getLast?.elim lastTs JournalRecord.tsNs) = true)
    (hfresh : (seen ++ rs).any (samePayload r) = false) (happly : applyRecord s' r = some s'') :
    recoverLoop s lastTs seen (rs ++ [r]) = some s'' := by
  induction rs generalizing s lastTs seen with
  | nil =>
    cases h
    have hguard : ¬ (r.seq ≠ seen.length ∨ !headerOk r lastTs ∨ seen.any (samePayload r)) := by
      rw [List.append_nil] at hfresh
      have hheader' : headerOk r lastTs = true := hheader
      rw [hheader', hfresh, hseq]
      simp
    rw [List.nil_append, recoverLoop, if_neg hguard, happly]
    rfl
  | cons q rs ih =>
    rw [List.cons_append, recoverLoop]
    rw [recoverLoop] at h
    split at h
    · cases h
    · rename_i hguard
      rw [if_neg hguard]
      cases hq : applyRecord s q with
      | none =>
        rw [hq] at h
        cases h
      | some s₁ =>
        rw [hq] at h
        apply ih h
        · rw [hseq, List.length_append, List.length_cons, List.length_singleton]
          omega
        · rw [List.getLast?_cons] at hheader
          cases hlast : rs.getLast? with
          | none =>
            rw [hlast] at hheader
            exact hheader
          | some q' =>
            rw [hlast] at hheader
            exact hheader
        · rw [List.append_assoc]
          exact hfresh

/-- The loop of `recover` accepts the journal and has read `σ` then. -/
def Recovered (mode : MarginMode) (j : Journal) (σ : Reading) : Prop :=
  ∃ s, recoverLoop { next := .new mode defaultCapacity } 0 [] j.records = some s ∧ Reading.of s = σ ∧
    s.next.orders.capacity = defaultCapacity ∧ s.next.orders.size ≤ j.records.length

namespace Recovered

variable {mode : MarginMode} {j : Journal} {σ τ : Reading}

theorem start (mode : MarginMode) : Recovered mode {} .start := by
  have hnone : (fun ref => ((Oms.new defaultCapacity).find ref).map entry) = fun _ => none := by
    rw [Oms.find_new]
    rfl
  refine ⟨{ next := .new mode defaultCapacity }, rfl, ?_, rfl, Nat.le_refl 0⟩
  exact congrArg (fun orders => Reading.mk orders [] {} false false) hnone

theorem append {r : JournalRecord} (h : Recovered mode j σ) (haccepts : σ.Accepts r τ)
    (hflow : (j.append r).2.overflowed = false) (hheader : headerOk r j.lastTs = true)
    (hfresh : j.Fresh r) : Recovered mode (j.append r).2 τ := by
  obtain ⟨s, hloop, hof, hcapacity, hsize⟩ := h
  have hrecords := (Journal.append_overflowed hflow).2
  have hlength : j.records.length < maxJournalRecords := by
    unfold Journal.append at hflow
    split at hflow
    · cases hflow
    · omega
  have hroom : s.next.orders.size < s.next.orders.capacity := by
    rw [hcapacity]
    exact Nat.lt_of_le_of_lt hsize hlength
  obtain ⟨s', happly, hof'⟩ := haccepts s hof hroom
  obtain ⟨hgrow, hcapacity'⟩ := applyRecord_size happly
  refine ⟨s', ?_, hof', hcapacity'.trans hcapacity, ?_⟩
  · rw [hrecords]
    refine recoverLoop_snoc hloop ?_ hheader ?_ happly
    · exact (Nat.zero_add _).symm
    · rw [List.nil_append, List.any_eq_false]
      intro q hq
      rw [Bool.not_eq_true]
      exact hfresh q hq
  · rw [hrecords, List.length_append, List.length_singleton]
    split at hgrow <;> omega

/-- A block of records of one time. -/
theorem emits {rs : List JournalRecord} {nowNs : Nat} (h : Recovered mode j σ)
    (haccepts : σ.AcceptsAll rs τ) (hflow : (j.emits rs).overflowed = false) (hlast : j.lastTs ≤ nowNs)
    (htime : ∀ r ∈ rs, r.tsNs = nowNs ∧ headerOk r nowNs = true) (hfresh : ∀ r ∈ rs, j.Fresh r)
    (hdistinct : rs.Pairwise fun r q => samePayload q r = false) : Recovered mode (j.emits rs) τ := by
  induction haccepts generalizing j with
  | nil => exact h
  | @cons σ τ υ r rs first rest ih =>
    have hrest : ((j.append r).2.emits rs).overflowed = false := hflow
    have hnext : (j.append r).2.overflowed = false := (Journal.emits_records hrest).1
    rw [List.forall_mem_cons] at htime hfresh
    rw [List.pairwise_cons] at hdistinct
    have hheader : headerOk r j.lastTs = true := by
      obtain ⟨hts, hok⟩ := htime.1
      unfold headerOk at hok ⊢
      simp only [Bool.and_eq_true, decide_eq_true_eq] at hok ⊢
      exact ⟨⟨⟨⟨hok.1.1.1.1, by omega⟩, hok.1.1.2⟩, hok.1.2⟩, hok.2⟩
    refine ih (h.append first hnext hheader hfresh.1) hflow ?_ htime.2 ?_ hdistinct.2
    · rw [Journal.lastTs_append hnext]
      exact Nat.le_of_eq htime.1.1
    · intro q hq
      exact (hfresh.2 q hq).append hnext (hdistinct.1 q hq)

end Recovered

/-! ## The end of the journal -/

/-- What the final loop makes of an order that has not ended. -/
def OrderEntry.marked (v : OrderEntry) : OrderEntry := { v with state := .unknown }

theorem entry_finalMark {x : Order} (h : x.state.isTerminal = false) :
    entry (finalMark x) = (entry x).marked := by
  unfold finalMark
  split
  · rfl
  · rename_i hguard
    have hunknown : x.state = .unknown := by
      by_contra hne
      exact hguard ⟨by rw [h]; rfl, hne⟩
    unfold entry OrderEntry.marked
    rw [hunknown]

/-- After the last record the positions and the figures of the account are as they were read. -/
theorem finish_frame {s : Replay} {killPresent : Bool} {persistedHalt : Risk.HaltReason}
    {state : RecoveryState} (h : finish s killPresent persistedHalt = some state) :
    state.positions = s.next.positions ∧ state.account.figures = s.next.account.figures := by
  unfold finish at h
  split at h
  · cases h
  · obtain ⟨o, -, rfl⟩ := Option.map_eq_some_iff.mp h
    exact ⟨rfl, rfl⟩

theorem Recovered.answers {j : Journal} {out : RecoveryState} {σ : Reading}
    (h : Recovered out.portfolio.mode j σ) (hflow : j.overflowed = false)
    (hflags : σ.haveAccount = σ.havePnl)
    (hlive : ∀ ref v, σ.orders ref = some v → v.state.isTerminal = false) (killPresent : Bool)
    (persistedHalt : Risk.HaltReason) :
    ∃ state, recover j out killPresent persistedHalt = (true, state) ∧
      (∀ ref, (state.orders.find ref).map entry = (σ.orders ref).map OrderEntry.marked) ∧
      state.positions.positions = σ.positions ∧ state.account.figures = σ.account := by
  obtain ⟨s, hloop, rfl, -, -⟩ := h
  obtain ⟨state, hfinish⟩ := Option.isSome_iff_exists.mp
    (finish_isSome hflags killPresent persistedHalt)
  obtain ⟨hpositions, hfigures⟩ := finish_frame hfinish
  refine ⟨state, ?_, fun ref => ?_, congrArg Pms.positions hpositions, hfigures⟩
  · unfold recover
    rw [if_neg (Bool.eq_false_iff.mp hflow), hloop]
    dsimp only
    rw [hfinish]
  · rw [(finish_spec hfinish).2 ref]
    have hread : (Reading.of s).orders ref = (s.next.orders.find ref).map entry := rfl
    rw [hread]
    cases hfind : s.next.orders.find ref with
    | none => rfl
    | some x =>
      rw [hfind] at hread
      exact congrArg some (entry_finalMark (hlive ref _ hread))

end MicrostructureEngine
