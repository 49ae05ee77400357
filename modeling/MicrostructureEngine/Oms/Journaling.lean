import MicrostructureEngine.Oms.Atomicity
import MicrostructureEngine.Oms.Cascade
import MicrostructureEngine.Oms.Sharded
import MicrostructureEngine.Oms.Replay

/-!
# The journal of one request

`emit_wal` writes what a request did to its order, recovery reads it back. `Mirrors` relates
a live order to the order that the journal so far decodes to; the two differ in the step
from `pending_send` to `sent`, which is not journaled, and in the price, which starts at a
synthetic value. A request that is `Journalable` keeps the relation: its records decode from
the mirror of the order before it to the mirror of the order after it.
-/

namespace MicrostructureEngine

open scoped List
set_option autoImplicit false

namespace Verdict

theorem transition_ok {x : Order} {next : OrderState} :
    (transition x next).ok = true ↔ legal x.state next = true := by
  unfold transition
  split <;> simp_all [refuse]

theorem fill_ok {x : Order} {volume : Int} : (fill x volume).ok = true ↔
    Oms.fillable x volume ∧ legal x.state (OmsState.fillTarget x volume) = true := by
  unfold fill
  by_cases hv : Oms.fillable x volume
  · rw [if_pos hv, transition_ok, and_iff_right hv]
    rfl
  · rw [if_neg hv]
    simp [refuse, hv]

theorem replace_ok {x : Order} {price volume : Int} :
    (replace x price volume).ok = true ↔ replaceable x volume = true := by
  unfold replace
  split <;> simp_all [refuse]

end Verdict

/-- What every live order satisfies when all orders come from well-formed creates. -/
structure LiveOk (x : Order) : Prop where
  requested : 0 < x.requestedVolume
  filled : 0 ≤ x.filledVolume
  symbol : x.symbolId < maxSymbols
  started : x.state ≠ .newOrder
  live : x.state.isTerminal = false

/-- The state of an order as far as the journal tells it. -/
def journaledState : OrderState → OrderState
  | .pendingSend => .sent
  | s => s

theorem journaledState_of_ne {s : OrderState} (h : s ≠ .pendingSend) : journaledState s = s := by
  cases s <;> first | rfl | exact absurd rfl h

/-- `y` is what the journal of the live order `x` decodes to. -/
structure Mirrors (x y : Order) : Prop where
  liveOk : LiveOk x
  requested : y.requestedVolume = x.requestedVolume
  filled : y.filledVolume = x.filledVolume
  state : y.state = journaledState x.state
  price : y.limitPriceTicks = Wal.oldPrice x

theorem LiveOk.moved {x : Order} (h : LiveOk x) {next : OrderState} (hl : legal x.state next = true)
    (hn : next.isTerminal = false) : LiveOk { x with state := next } := by
  refine ⟨h.requested, h.filled, h.symbol, ?_, hn⟩
  intro heq
  dsimp only at heq
  rw [heq] at hl
  cases hs : x.state <;> rw [hs] at hl <;> simp [legal, OrderState.isTerminal] at hl

theorem Mirrors.setSeq {x y : Order} (h : Mirrors x y) (seq : Nat) : Mirrors (setSeq seq x) y :=
  ⟨⟨h.liveOk.requested, h.liveOk.filled, h.liveOk.symbol, h.liveOk.started, h.liveOk.live⟩,
    h.requested, h.filled, h.state, h.price⟩

theorem Mirrors.addFill {x y : Order} (h : Mirrors x y) {volume : Int} (hv : 0 < volume) :
    Mirrors (Oms.addFill x volume) (Oms.addFill y volume) := by
  refine ⟨⟨h.liveOk.requested, ?_, h.liveOk.symbol, h.liveOk.started, h.liveOk.live⟩, h.requested,
    ?_, h.state, h.price⟩
  · have hfilled := h.liveOk.filled
    simp only [Oms.addFill]
    omega
  · simp only [Oms.addFill, h.filled]

/-- Mirrors move together. -/
theorem Mirrors.transition {x y : Order} (h : Mirrors x y) (hs : x.state ≠ .pendingSend)
    {next : OrderState} (hl : legal x.state next = true) :
    Option.Rel Mirrors (Verdict.transition x next).after (Verdict.transition y next).after := by
  have hy : y.state = x.state := h.state.trans (journaledState_of_ne hs)
  have hne : next ≠ .pendingSend := by
    intro heq
    rw [heq] at hl
    have hstarted := h.liveOk.started
    cases hx : x.state <;> rw [hx] at hl hstarted <;>
      simp [legal, OrderState.isTerminal] at hl hstarted
  unfold Verdict.transition
  rw [hy, if_pos hl, if_pos hl]
  cases hn : next.isTerminal with
  | true => exact .none
  | false =>
    exact .some ⟨h.liveOk.moved hl hn, h.requested, h.filled, (journaledState_of_ne hne).symm, h.price⟩

namespace Recovery

/-! ## Decoding the records of one call -/

section Decoding
variable {x y : Order} (ref : BrokerOrderRef) (tsNs symbol : Nat)

theorem decode_orderState (h : Mirrors x y) (hs : x.state ≠ .pendingSend) {next : OrderState}
    (hl : legal x.state next = true) :
    (decode (some y)
      (Wal.orderState ref tsNs symbol x.state next x.filledVolume x.requestedVolume)).map Prod.fst =
        some (Verdict.transition y next).after := by
  have hy : y.state = x.state := h.state.trans (journaledState_of_ne hs)
  have hvalid : ∀ s : OrderState, validOrderState s.code = true := by
    intro s
    simp [validOrderState, s.code_nonneg, s.code_le_expired]
  have hreq := h.liveOk.requested
  have hok : orderStateOk
      (Wal.orderState ref tsNs symbol x.state next x.filledVolume x.requestedVolume) :=
    ⟨hvalid x.state, hvalid next, rfl, h.liveOk.filled, by simp only [Wal.orderState, Wal.record]; omega⟩
  have hagree : orderStateAgrees y
      (Wal.orderState ref tsNs symbol x.state next x.filledVolume x.requestedVolume) :=
    ⟨hy.trans (OrderState.ofCode_code x.state).symm, h.filled, h.requested⟩
  have hnext : OrderState.ofCode (Wal.orderState ref tsNs symbol x.state next x.filledVolume
      x.requestedVolume).b = next := OrderState.ofCode_code next
  have hlegal : legal y.state next = true := by rw [hy]; exact hl
  simp only [decode, decodeLive]
  have htype : JournalRecordType.ofCode (Wal.orderState ref tsNs symbol x.state next x.filledVolume
      x.requestedVolume).type = .orderState := rfl
  rw [htype]
  dsimp only
  rw [hnext, if_pos ⟨hok, hagree, hlegal⟩]
  rfl

theorem decodeAll_orderState (h : Mirrors x y) (hs : x.state ≠ .pendingSend) {next : OrderState}
    (hl : legal x.state next = true) (rs : List JournalRecord) :
    decodeAll (some y)
      (Wal.orderState ref tsNs symbol x.state next x.filledVolume x.requestedVolume :: rs) =
        decodeAll (Verdict.transition y next).after rs := by
  rw [decodeAll_cons, decode_orderState ref tsNs symbol h hs hl]
  rfl

/-- A confirmation of the state that the order is in is passed over. -/
theorem decodeAll_confirmation (state : OrderState) (type : JournalRecordType)
    (htype : type = .acknowledgement ∧ state = .acknowledged ∨ type = .cancel ∧ state = .cancelPending)
    (hy : y.state = state) (rs : List JournalRecord) :
    decodeAll (some y) (Wal.record ref tsNs type symbol 0 0 0 0 0 :: rs) = decodeAll (some y) rs := by
  have hok : ∀ t : JournalRecordType, confirmationOk state y (Wal.record ref tsNs t symbol 0 0 0 0 0) :=
    fun _ => ⟨hy, Int.le_refl 0, rfl⟩
  have hdec : (decode (some y) (Wal.record ref tsNs type symbol 0 0 0 0 0)) = some (some y, 0) := by
    rcases htype with ⟨rfl, rfl⟩ | ⟨rfl, rfl⟩
    · exact if_pos (hok .acknowledgement)
    · exact if_pos (hok .cancel)
  rw [decodeAll_cons, hdec]
  rfl

theorem moved_mirror (h : Mirrors x y) (hs : x.state ≠ .pendingSend) {next : OrderState}
    (hl : legal x.state next = true) :
    ∃ z, decodeAll (some y)
        [Wal.orderState ref tsNs symbol x.state next x.filledVolume x.requestedVolume] = some z ∧
      Option.Rel Mirrors (Verdict.transition x next).after z :=
  ⟨_, decodeAll_orderState ref tsNs symbol h hs hl [], h.transition hs hl⟩

theorem acknowledged_mirror (h : Mirrors x y) (hs : x.state ≠ .pendingSend)
    (hl : legal x.state .acknowledged = true) :
    ∃ z, decodeAll (some y)
        [Wal.orderState ref tsNs symbol x.state .acknowledged x.filledVolume x.requestedVolume,
          Wal.record ref tsNs .acknowledgement symbol 0 0 0 0 0] = some z ∧
      Option.Rel Mirrors (Verdict.transition x .acknowledged).after z := by
  have hrel := h.transition hs hl
  have hafter : (Verdict.transition y .acknowledged).after =
      some { y with state := .acknowledged } := by
    have hy : legal y.state .acknowledged = true := by
      rw [h.state, journaledState_of_ne hs]
      exact hl
    unfold Verdict.transition
    rw [if_pos hy]
    rfl
  rw [hafter] at hrel
  refine ⟨_, ?_, hrel⟩
  rw [decodeAll_orderState ref tsNs symbol h hs hl, hafter]
  exact decodeAll_confirmation ref tsNs symbol .acknowledged .acknowledgement (Or.inl ⟨rfl, rfl⟩) rfl []

theorem transitionRecords_mirror (h : Mirrors x y) {req : Request} (c : Completion)
    (hl : legal x.state req.target = true) :
    ∃ z, decodeAll (some y) (Wal.transitionRecords req x c tsNs) = some z ∧
      Option.Rel Mirrors (Verdict.transition x req.target).after z := by
  unfold Wal.transitionRecords
  by_cases hs : x.state = .pendingSend
  · have htarget : req.target = .sent := by
      rw [hs] at hl
      simpa [legal] using hl
    rw [if_pos ⟨hs, htarget⟩]
    refine ⟨some y, rfl, ?_⟩
    have hsent : y.state = .sent := by
      rw [h.state, hs]
      rfl
    unfold Verdict.transition
    rw [if_pos hl, htarget]
    refine .some ⟨?_, h.requested, h.filled, hsent, h.price⟩
    rw [htarget] at hl
    exact h.liveOk.moved hl rfl
  · rw [if_neg fun hn => hs hn.1]
    by_cases hack : req.target = .acknowledged
    · rw [hack] at hl
      rw [if_pos hack, hack]
      exact acknowledged_mirror _ _ _ h hs hl
    · rw [if_neg hack]
      exact moved_mirror _ _ _ h hs hl

/-- The two records of a fill. The first moves the volume, the second the state. -/
theorem fillRecords_mirror (h : Mirrors x y) {req : Request} (hv : Oms.fillable x req.volume)
    (hl : legal x.state (OmsState.fillTarget x req.volume) = true) :
    ∃ z, decodeAll (some y) (Wal.fillRecords req x tsNs) = some z ∧
      Option.Rel Mirrors (Verdict.fill x req.volume).after z := by
  have hs : x.state ≠ .pendingSend := by
    intro hs
    rw [hs] at hl
    unfold OmsState.fillTarget at hl
    split at hl <;> cases hl
  have htarget : (if decide (x.filledVolume + req.volume ≥ x.requestedVolume) then
      OrderState.filled else .partiallyFilled) = OmsState.fillTarget x req.volume := by
    have hle := hv.2
    unfold Order.remaining at hle
    unfold OmsState.fillTarget Order.remaining
    by_cases hge : x.filledVolume + req.volume ≥ x.requestedVolume
    · rw [if_pos (decide_eq_true hge), if_neg (by omega)]
    · rw [if_neg (by simpa using hge), if_pos (by omega)]
  have hmirror := h.addFill hv.1
  have hdec : ∀ fully : Int, 0 ≤ fully → decode (some y)
      (Wal.record req.ref tsNs .fill x.symbolId (Wal.syntheticTicket req.ref) req.volume req.volume
        fully 0) = some (some (Oms.addFill y req.volume), 0) := by
    intro fully hfully
    have hticket : Wal.syntheticTicket req.ref ≠ 0 := by
      unfold Wal.syntheticTicket
      split
      · decide
      · assumption
    have hrem : Oms.fillable y req.volume := by
      refine ⟨hv.1, ?_⟩
      unfold Order.remaining
      rw [h.requested, h.filled]
      exact hv.2
    exact if_pos ⟨⟨hticket, hv.1, hv.1, hfully, Or.inl rfl⟩, hrem⟩
  unfold Wal.fillRecords
  dsimp only
  rw [htarget, decodeAll_cons, hdec _ (by split <;> decide)]
  refine ⟨_, decodeAll_orderState (x := Oms.addFill x req.volume) _ _ _ hmirror hs hl [], ?_⟩
  unfold Verdict.fill
  rw [if_pos hv]
  exact hmirror.transition hs hl

theorem replaceRecords_mirror (h : Mirrors x y) {req : Request} (hr : replaceable x req.volume = true)
    (hs : x.state = .acknowledged) (hprice : 0 < req.price) :
    ∃ z, decodeAll (some y) (Wal.replaceRecords req x tsNs) = some z ∧
      Option.Rel Mirrors (Verdict.replace x req.price req.volume).after z := by
  have hvolume : x.filledVolume < req.volume := by
    simp only [replaceable, Bool.and_eq_true, decide_eq_true_eq, gt_iff_lt] at hr
    exact hr.2
  have hfilled := h.liveOk.filled
  have hold : 0 < Wal.oldPrice x := by
    unfold Wal.oldPrice Wal.syntheticInitialPrice
    split <;> omega
  have hy : y.state = .acknowledged := by
    rw [h.state, hs]
    rfl
  have hok : replaceOk y (Wal.record req.ref tsNs .replace x.symbolId 0 (Wal.oldPrice x) req.price
      x.requestedVolume req.volume) :=
    ⟨hy, hold, hprice, h.liveOk.requested, Int.lt_of_le_of_lt hfilled hvolume,
      by rw [h.filled]; exact Int.le_of_lt hvolume, h.price.symm, h.requested.symm⟩
  have hdec : decode (some y) (Wal.record req.ref tsNs .replace x.symbolId 0 (Wal.oldPrice x) req.price
      x.requestedVolume req.volume) = some (some (replaceOrder req.price req.volume y), 0) := if_pos hok
  unfold Wal.replaceRecords
  rw [decodeAll_cons, hdec]
  refine ⟨_, rfl, ?_⟩
  unfold Verdict.replace
  rw [if_pos hr]
  refine .some ⟨⟨Int.lt_of_le_of_lt hfilled hvolume, hfilled, h.liveOk.symbol, h.liveOk.started,
    h.liveOk.live⟩, rfl, h.filled, h.state, ?_⟩
  simp only [replaceOrder, Wal.oldPrice, gt_iff_lt, hprice, if_true]

/-- The reports whose records recovery can take: a confirmed cancel or a reject of an order
that is not `unknown`, a replace of an acknowledged order at a positive price. -/
def ReportJournalable (x : Order) (req : Request) : Prop :=
  match req.reportKind with
  | .cancelled | .reject => x.state ≠ .unknown
  | .replaceAck => x.state = .acknowledged ∧ 0 < req.price
  | _ => True

theorem ne_pendingSend_of_legal {s next : OrderState} (hl : legal s next = true) (hn : next ≠ .sent) :
    s ≠ .pendingSend := by
  intro hs
  rw [hs] at hl
  exact hn (by simpa [legal] using hl)

theorem reportRecords_mirror (h : Mirrors x y) {req : Request}
    (hok : (Verdict.applyKind x req.execReport).ok = true) (hj : ReportJournalable x req) :
    ∃ z, decodeAll (some y) (Wal.reportRecords req x tsNs) = some z ∧
      Option.Rel Mirrors (Verdict.applyKind x req.execReport).after z := by
  have hkind : req.execReport.kind = req.reportKind := rfl
  unfold ReportJournalable at hj
  unfold Wal.reportRecords
  unfold Verdict.applyKind at hok ⊢
  rw [hkind] at hok ⊢
  cases hk : req.reportKind with
  | ack =>
    rw [hk] at hok
    have hl := Verdict.transition_ok.mp hok
    exact acknowledged_mirror _ _ _ h (ne_pendingSend_of_legal hl (by decide)) hl
  | fill =>
    rw [hk] at hok
    obtain ⟨hv, hl⟩ := Verdict.fill_ok.mp hok
    exact fillRecords_mirror tsNs h hv hl
  | cancelPending =>
    rw [hk] at hok
    have hl := Verdict.transition_ok.mp hok
    exact moved_mirror _ _ _ h (ne_pendingSend_of_legal hl (by decide)) hl
  | cancelled =>
    rw [hk] at hok hj
    have hl := Verdict.transition_ok.mp hok
    have hs : x.state = .cancelPending := by
      cases hx : x.state <;> rw [hx] at hl hj <;> simp [legal] at hl hj ⊢
    have hy : y.state = .cancelPending := by
      rw [h.state, hs]
      rfl
    obtain ⟨z, hz, hrel⟩ := moved_mirror req.ref tsNs x.symbolId h
      (ne_pendingSend_of_legal hl (by decide)) hl
    refine ⟨z, ?_, hrel⟩
    dsimp only
    rw [decodeAll_confirmation _ _ _ .cancelPending .cancel (Or.inr ⟨rfl, rfl⟩) hy]
    exact hz
  | reject =>
    rw [hk] at hok hj
    have hl := Verdict.transition_ok.mp hok
    have hs : x.state = .sent := by
      cases hx : x.state <;> rw [hx] at hl hj <;> simp [legal] at hl hj ⊢
    have hy : y.state = .sent := by
      rw [h.state, hs]
      rfl
    obtain ⟨z, hz, hrel⟩ := moved_mirror req.ref tsNs x.symbolId h
      (ne_pendingSend_of_legal hl (by decide)) hl
    have hdec : decode (some y) (Wal.record req.ref tsNs .rejection x.symbolId 0 1 0 0 0) =
        some (some y, 0) := if_pos ⟨Int.zero_lt_one, Or.inr hy⟩
    refine ⟨z, ?_, hrel⟩
    dsimp only
    rw [decodeAll_cons, hdec]
    exact hz
  | replaceAck =>
    rw [hk] at hok hj
    exact replaceRecords_mirror tsNs h (Verdict.replace_ok.mp hok) hj.1 hj.2

end Decoding

end Recovery

/-! ## The journal of a request -/

/-- The records that `emit_wal` is asked to write for an applied request. -/
def Applied.journal (a : Applied) (req : Request) (tsNs : Nat) : List JournalRecord :=
  if a.ok then Wal.records req a.before a.completion tsNs else []

namespace Shard

/-- A request touches at most the order that it names. -/
theorem apply_effect (sh : Shard) (approved : Bool) (req : Request) (c : Completion) :
    ∃ y delta, Oms.Effect sh.oms (sh.apply approved req c).oms req.ref y delta := by
  have hsame : ∃ y delta, Oms.Effect sh.oms sh.oms req.ref y delta := ⟨_, _, .refl _ _⟩
  unfold apply
  cases req.kind with
  | create =>
    simp only [applyCreate]
    split
    · exact hsame
    · rcases sh.oms.create_cases req.ref req.symbol req.volume with ⟨hf, hs⟩ | heq
      · exact ⟨_, _, (sh.oms.create_effect req.symbol req.volume hf hs).2⟩
      · rw [heq]
        exact hsame
  | find => exact hsame
  | transition =>
    simp only [applyTransition]
    cases hf : sh.oms.find req.ref with
    | none =>
      rw [sh.oms.transition_of_none hf]
      exact hsame
    | some x => exact ⟨_, _, (sh.oms.transition_follows hf req.target).2⟩
  | fill =>
    simp only [applyFill]
    cases hf : sh.oms.find req.ref with
    | none =>
      rw [sh.oms.fill_of_none hf]
      exact hsame
    | some x => exact ⟨_, _, (sh.oms.fill_follows hf req.volume).2⟩
  | replace =>
    simp only [applyReplace]
    cases hf : sh.oms.find req.ref with
    | none =>
      rw [sh.oms.replace_of_none hf]
      exact hsame
    | some x => exact ⟨_, _, (sh.oms.replace_follows hf req.price req.volume).2⟩
  | report =>
    simp only [applyReport]
    cases hf : sh.oms.find req.ref with
    | none =>
      have hf' : sh.oms.find req.execReport.ref = none := hf
      rw [sh.sequencer.process_of_none sh.oms hf']
      exact hsame
    | some x =>
      have hf' : sh.oms.find req.execReport.ref = some x := hf
      rcases Nat.lt_trichotomy req.venueSeq (x.lastAppliedSeq + 1) with hlt | heq | hgt
      · rw [sh.sequencer.process_of_le sh.oms hf' (Nat.le_of_lt_succ hlt)]
        exact hsame
      · exact ⟨_, _, (sh.sequencer.process_inSeq sh.oms hf' heq).2.effect⟩
      · rw [sh.sequencer.process_of_gap sh.oms hf' hgt]
        exact hsame
  | snapshot => exact hsame
  | restore =>
    simp only [applyRestore]
    rcases sh.oms.restore_cases req.restoredOrder with ⟨hf, hs, hx⟩ | heq
    · exact ⟨_, _, (sh.oms.restore_effect hf hs hx).2⟩
    · rw [heq]
      exact hsame

/-- What the command schema asks of a create. -/
def Commandable (req : Request) : Prop :=
  req.ref.runId ≠ 0 ∧ req.ref.logicalOrderId ≠ 0 ∧ req.symbol < maxSymbols ∧ 0 < req.volume

instance (req : Request) : Decidable (Commandable req) := inferInstanceAs (Decidable (_ ∧ _ ∧ _ ∧ _))

/-- The requests that the journal can tell: accepted creates that the command schema allows,
fills that the state machine does not refuse, replaces and in-sequence reports that recovery
accepts and that release no held report. -/
def Journalable (sh : Shard) (approved : Bool) (req : Request) : Prop :=
  match req.kind with
  | .create =>
    approved = true → sh.oms.find req.ref = none → sh.oms.size < sh.oms.capacity → Commandable req
  | .find | .snapshot | .transition => True
  | .fill => ¬ StuckFill sh.oms req.ref req.volume
  | .replace =>
    ∀ x, sh.oms.find req.ref = some x → replaceable x req.volume = true →
      x.state = .acknowledged ∧ 0 < req.price
  | .report =>
    ∀ x, sh.oms.find req.ref = some x → req.venueSeq = x.lastAppliedSeq + 1 →
      if (Verdict.applyOne x req.execReport).ok then
        Recovery.ReportJournalable x req ∧
          ∀ y, (Verdict.applyOne x req.execReport).after = some y →
            nextHeld sh.sequencer.gapPool.held y = none
      else (Verdict.applyOne x req.execReport).after = some x
  | .restore => False

section Mirror
variable {sh : Shard} {req : Request} {y : Option Order}

/-- The request kept the relation between the store and its journal. -/
def KeepsMirror (req : Request) (y : Option Order) (tsNs : Nat) (a : Applied) : Prop :=
  ∃ z, Recovery.decodeAll y (a.journal req tsNs) = some z ∧ Option.Rel Mirrors (a.oms.find req.ref) z

/-- Nothing happened and nothing was written. -/
theorem keepsMirror_of_refused {a : Applied} (hrel : Option.Rel Mirrors (sh.oms.find req.ref) y)
    (tsNs : Nat) (hok : a.ok = false) (hfind : a.oms.find req.ref = sh.oms.find req.ref) :
    KeepsMirror req y tsNs a := by
  refine ⟨y, ?_, by rw [hfind]; exact hrel⟩
  simp [Applied.journal, hok]

theorem keepsMirror_of_silent {a : Applied} (hrel : Option.Rel Mirrors (sh.oms.find req.ref) y)
    (tsNs : Nat) (hrecords : Wal.records req a.before a.completion tsNs = [])
    (hfind : a.oms.find req.ref = sh.oms.find req.ref) : KeepsMirror req y tsNs a := by
  refine ⟨y, ?_, by rw [hfind]; exact hrel⟩
  simp [Applied.journal, hrecords]

theorem applyCreate_keepsMirror (hrel : Option.Rel Mirrors (sh.oms.find req.ref) y) (approved : Bool)
    (c c' : Completion) (tsNs : Nat) (hk : req.kind = .create) (hj : sh.Journalable approved req) :
    KeepsMirror req y tsNs { sh.applyCreate approved req c with completion := c' } := by
  simp only [Journalable, hk] at hj
  unfold applyCreate
  split
  · exact keepsMirror_of_refused hrel tsNs rfl rfl
  · rename_i happroved
    rcases sh.oms.create_cases req.ref req.symbol req.volume with ⟨hf, hs⟩ | heq
    · obtain ⟨hrun, hlogical, hsymbol, hvolume⟩ := hj (by simpa using happroved) hf hs
      obtain ⟨hsome, he⟩ := sh.oms.create_effect req.symbol req.volume hf hs
      rw [hf] at hrel
      cases hrel
      have hone : (0 : Int) ≤ 1 := by decide
      have hok : Recovery.commandOk (Wal.record req.ref tsNs .command req.symbol 0 0 req.volume
          Wal.syntheticInitialPrice 0) :=
        ⟨hrun, hlogical, rfl, Int.le_refl 0, hone, hvolume, hone, Int.le_refl 0, hone⟩
      have hdec : Recovery.decode none (Wal.record req.ref tsNs .command req.symbol 0 0 req.volume
          Wal.syntheticInitialPrice 0) = some (some (Recovery.commandOrder _), req.volume) := if_pos hok
      refine ⟨some (Recovery.commandOrder (Wal.record req.ref tsNs .command req.symbol 0 0 req.volume
        Wal.syntheticInitialPrice 0)), ?_, ?_⟩
      · simp only [Applied.journal, hsome, Option.isSome_some, if_true, Wal.records, hk,
          Wal.createRecords]
        rw [Recovery.decodeAll_cons, hdec]
        rfl
      · rw [he.find_self]
        exact .some ⟨⟨hvolume, Int.le_refl 0, hsymbol, by simp [Oms.created], rfl⟩, rfl, rfl, rfl, rfl⟩
    · apply keepsMirror_of_refused hrel tsNs
      · simp only [heq]
        rfl
      · simp only [heq]

/-- A live order and the mirror that belongs to it. -/
theorem rel_some_left {x : Order} (h : Option.Rel Mirrors (some x) y) :
    ∃ z, y = some z ∧ Mirrors x z := by
  cases h with
  | some h => exact ⟨_, rfl, h⟩

theorem rel_map_setSeq {x : Option Order} (h : Option.Rel Mirrors x y) (seq : Nat) :
    Option.Rel Mirrors (x.map (setSeq seq)) y := by
  cases h with
  | none => exact .none
  | some h => exact .some (h.setSeq seq)

/-- A call on a live order, answered as its verdict says. Accepted, it writes records that
decode to what is left of the order; refused, it has left the order alone. -/
theorem keepsMirror_of_verdict {a : Applied} {x : Order} {v : Verdict} {tsNs : Nat}
    (hx : sh.oms.find req.ref = some x) (hrel : Option.Rel Mirrors (sh.oms.find req.ref) y)
    (hok : a.ok = v.ok) (hfind : a.oms.find req.ref = v.after)
    (hrefused : v.ok = false → v.after = some x)
    (hrecords : v.ok = true → ∀ z, Mirrors x z → ∃ w,
      Recovery.decodeAll (some z) (Wal.records req a.before a.completion tsNs) = some w ∧
        Option.Rel Mirrors v.after w) : KeepsMirror req y tsNs a := by
  cases hv : v.ok with
  | false =>
    apply keepsMirror_of_refused hrel tsNs (hok.trans hv)
    rw [hfind, hrefused hv, hx]
  | true =>
    rw [hx] at hrel
    obtain ⟨z, rfl, hmirror⟩ := rel_some_left hrel
    obtain ⟨w, hw, hafter⟩ := hrecords hv z hmirror
    refine ⟨w, ?_, by rw [hfind]; exact hafter⟩
    simp only [Applied.journal, hok.trans hv, if_true]
    exact hw

theorem applyTransition_keepsMirror (hrel : Option.Rel Mirrors (sh.oms.find req.ref) y)
    (c c' : Completion) (tsNs : Nat) (hk : req.kind = .transition) :
    KeepsMirror req y tsNs { sh.applyTransition req c with completion := c' } := by
  cases hf : sh.oms.find req.ref with
  | none =>
    have heq := sh.oms.transition_of_none hf req.target
    apply keepsMirror_of_refused hrel tsNs <;> simp only [applyTransition, heq]
  | some x =>
    obtain ⟨hok, he⟩ := sh.oms.transition_follows hf req.target
    refine keepsMirror_of_verdict hf hrel hok he.find_self ?_ ?_
    · intro hv
      unfold Verdict.transition at hv ⊢
      split at hv
      · cases hv
      · rename_i hl
        rw [if_neg hl]
        rfl
    · intro hv z hmirror
      simp only [Wal.records, hk, applyTransition, hf]
      exact Recovery.transitionRecords_mirror tsNs hmirror c' (Verdict.transition_ok.mp hv)

theorem applyFill_keepsMirror (hrel : Option.Rel Mirrors (sh.oms.find req.ref) y)
    (c c' : Completion) (tsNs : Nat) (hk : req.kind = .fill)
    (hj : ¬ StuckFill sh.oms req.ref req.volume) :
    KeepsMirror req y tsNs { sh.applyFill req c with completion := c' } := by
  cases hf : sh.oms.find req.ref with
  | none =>
    have heq := sh.oms.fill_of_none hf req.volume
    apply keepsMirror_of_refused hrel tsNs <;> simp only [applyFill, heq]
  | some x =>
    obtain ⟨hok, he⟩ := sh.oms.fill_follows hf req.volume
    refine keepsMirror_of_verdict hf hrel hok he.find_self ?_ ?_
    · intro hv
      rw [← he.find_self, fill_refused (hok.trans hv) hj, hf]
    · intro hv z hmirror
      obtain ⟨hfill, hl⟩ := Verdict.fill_ok.mp hv
      simp only [Wal.records, hk, applyFill, hf]
      exact Recovery.fillRecords_mirror tsNs hmirror hfill hl

theorem applyReplace_keepsMirror (hrel : Option.Rel Mirrors (sh.oms.find req.ref) y)
    (c c' : Completion) (tsNs : Nat) (hk : req.kind = .replace)
    {approved : Bool} (hj : sh.Journalable approved req) :
    KeepsMirror req y tsNs { sh.applyReplace req c with completion := c' } := by
  simp only [Journalable, hk] at hj
  cases hf : sh.oms.find req.ref with
  | none =>
    have heq := sh.oms.replace_of_none hf req.price req.volume
    apply keepsMirror_of_refused hrel tsNs <;> simp only [applyReplace, heq]
  | some x =>
    obtain ⟨hok, he⟩ := sh.oms.replace_follows hf req.price req.volume
    refine keepsMirror_of_verdict hf hrel hok he.find_self ?_ ?_
    · intro hv
      unfold Verdict.replace at hv ⊢
      split at hv
      · cases hv
      · rename_i hr
        rw [if_neg hr]
        rfl
    · intro hv z hmirror
      have hr := Verdict.replace_ok.mp hv
      obtain ⟨hstate, hprice⟩ := hj x hf hr
      simp only [Wal.records, hk, applyReplace, hok.trans hv, if_true, hf]
      exact Recovery.replaceRecords_mirror tsNs hmirror hr hstate hprice

theorem applyReport_keepsMirror (hrel : Option.Rel Mirrors (sh.oms.find req.ref) y)
    (c c' : Completion) (tsNs : Nat) (hk : req.kind = .report)
    {approved : Bool} (hj : sh.Journalable approved req) :
    KeepsMirror req y tsNs { sh.applyReport req c with completion := c' } := by
  simp only [Journalable, hk] at hj
  cases hf : sh.oms.find req.ref with
  | none =>
    have hf' : sh.oms.find req.execReport.ref = none := hf
    have heq := sh.sequencer.process_of_none sh.oms hf'
    apply keepsMirror_of_refused hrel tsNs
    · simp only [applyReport, heq]
      split <;> rfl
    · simp only [applyReport, heq]
  | some x =>
    have hf' : sh.oms.find req.execReport.ref = some x := hf
    rcases Nat.lt_trichotomy req.venueSeq (x.lastAppliedSeq + 1) with hlt | heq | hgt
    · have hle := sh.sequencer.process_of_le sh.oms hf' (Nat.le_of_lt_succ hlt)
      apply keepsMirror_of_refused hrel tsNs <;> simp only [applyReport, hle]
      rfl
    · -- In sequence: nothing is released, so the report is all that happened.
      obtain ⟨hout, hoc⟩ := sh.sequencer.process_inSeq sh.oms hf' heq
      have hcond := hj x hf heq
      have hok : (sh.applyReport req c).ok = (Verdict.applyOne x req.execReport).ok := by
        simp only [applyReport, hout]
        cases (Verdict.applyOne x req.execReport).ok <;> rfl
      have hafter : (arrive sh.sequencer.gapPool.held x req.execReport).after =
          (Verdict.applyOne x req.execReport).after := by
        unfold arrive consume
        dsimp only
        split
        · rename_i hv
          rw [if_pos hv] at hcond
          cases hafter : (Verdict.applyOne x req.execReport).after with
          | none => rfl
          | some w =>
            dsimp only
            rw [settle_of_none (hcond.2 w hafter)]
        · rfl
      refine keepsMirror_of_verdict hf hrel hok (hoc.effect.find_self.trans hafter) ?_ ?_
      · intro hv
        rw [if_neg (by simp [hv])] at hcond
        exact hcond
      · intro hv z hmirror
        rw [if_pos hv] at hcond
        have hkind : (Verdict.applyKind x req.execReport).ok = true := by
          rw [← Verdict.applyOne_ok]
          exact hv
        obtain ⟨w, hw, hrel'⟩ := Recovery.reportRecords_mirror tsNs hmirror hkind hcond.1
        simp only [Wal.records, hk, applyReport, hf]
        refine ⟨w, hw, ?_⟩
        have hone : (Verdict.applyOne x req.execReport).after =
            (Verdict.applyKind x req.execReport).after.map (setSeq req.venueSeq) := by
          unfold Verdict.applyOne
          dsimp only
          rw [if_pos hkind]
          rfl
        rw [hone]
        exact rel_map_setSeq hrel' req.venueSeq
    · have hgap := sh.sequencer.process_of_gap sh.oms hf' hgt
      apply keepsMirror_of_refused hrel tsNs
      · simp only [applyReport, hgap, ReportSequencer.holdReport]
        split <;> rfl
      · simp only [applyReport, hgap, ReportSequencer.holdReport]

/-- The journal of a journalable request keeps the relation. -/
theorem apply_keepsMirror (hrel : Option.Rel Mirrors (sh.oms.find req.ref) y) {approved : Bool}
    (hj : sh.Journalable approved req) (c : Completion) (tsNs : Nat) :
    KeepsMirror req y tsNs (sh.apply approved req c) := by
  unfold apply
  cases hk : req.kind with
  | create => exact applyCreate_keepsMirror hrel approved c _ tsNs hk hj
  | find => exact keepsMirror_of_silent hrel tsNs (by simp only [Wal.records, hk]) rfl
  | transition => exact applyTransition_keepsMirror hrel c _ tsNs hk
  | fill =>
    simp only [Journalable, hk] at hj
    exact applyFill_keepsMirror hrel c _ tsNs hk hj
  | replace => exact applyReplace_keepsMirror hrel c _ tsNs hk hj
  | report => exact applyReport_keepsMirror hrel c _ tsNs hk hj
  | snapshot => exact keepsMirror_of_silent hrel tsNs (by simp only [Wal.records, hk]) rfl
  | restore => simp only [Journalable, hk] at hj

end Mirror

/-! ## The shape of the records -/

/-- A record about the order `ref`, stamped `tsNs`, whose header recovery accepts. -/
structure Stamped (ref : BrokerOrderRef) (tsNs : Nat) (r : JournalRecord) : Prop where
  ref_eq : r.ref = ref
  tsNs_eq : r.tsNs = tsNs
  order : Recovery.orderRecord r = true
  reserved : r.reserved = 0
  symbol : r.symbolId < maxSymbols
  type_pos : 1 ≤ r.type
  type_le : r.type ≤ 10

theorem record_stamped (ref : BrokerOrderRef) (tsNs : Nat) {type : JournalRecordType} {symbol : Nat}
    (hsymbol : symbol < maxSymbols)
    (htype : type ≠ .positionUpdate ∧ type ≠ .accountUpdate ∧ type ≠ .pnlUpdate)
    (ticket : UInt64) (a b c d : Int) :
    Stamped ref tsNs (Wal.record ref tsNs type symbol ticket a b c d) := by
  refine ⟨rfl, rfl, ?_, rfl, hsymbol, type.code_pos, type.code_le⟩
  have hcode : JournalRecordType.ofCode (Wal.record ref tsNs type symbol ticket a b c d).type = type :=
    JournalRecordType.ofCode_code type
  unfold Recovery.orderRecord
  rw [hcode]
  obtain ⟨h₁, h₂, h₃⟩ := htype
  cases type <;> first | rfl | contradiction

theorem stamped_pair {ref : BrokerOrderRef} {tsNs : Nat} {r₁ r₂ : JournalRecord}
    (h₁ : Stamped ref tsNs r₁) (h₂ : Stamped ref tsNs r₂) : ∀ r ∈ [r₁, r₂], Stamped ref tsNs r :=
  List.forall_mem_cons.mpr ⟨h₁, List.forall_mem_singleton.mpr h₂⟩

theorem reportRecords_stamped {req : Request} {x : Order} {tsNs : Nat} (hx : x.symbolId < maxSymbols) :
    (∀ r ∈ Wal.fillRecords req x tsNs, Stamped req.ref tsNs r) ∧
      (∀ r ∈ Wal.replaceRecords req x tsNs, Stamped req.ref tsNs r) ∧
        ∀ r ∈ Wal.reportRecords req x tsNs, Stamped req.ref tsNs r := by
  have hfill : ∀ r ∈ Wal.fillRecords req x tsNs, Stamped req.ref tsNs r :=
    stamped_pair (record_stamped _ _ hx (by decide) _ _ _ _ _)
      (record_stamped _ _ hx (by decide) _ _ _ _ _)
  have hreplace : ∀ r ∈ Wal.replaceRecords req x tsNs, Stamped req.ref tsNs r :=
    List.forall_mem_singleton.mpr (record_stamped _ _ hx (by decide) _ _ _ _ _)
  refine ⟨hfill, hreplace, ?_⟩
  unfold Wal.reportRecords
  cases req.reportKind with
  | ack =>
    exact stamped_pair (record_stamped _ _ hx (by decide) _ _ _ _ _)
      (record_stamped _ _ hx (by decide) _ _ _ _ _)
  | fill => exact hfill
  | cancelPending =>
    exact List.forall_mem_singleton.mpr (record_stamped _ _ hx (by decide) _ _ _ _ _)
  | cancelled =>
    exact stamped_pair (record_stamped _ _ hx (by decide) _ _ _ _ _)
      (record_stamped _ _ hx (by decide) _ _ _ _ _)
  | reject =>
    exact stamped_pair (record_stamped _ _ hx (by decide) _ _ _ _ _)
      (record_stamped _ _ hx (by decide) _ _ _ _ _)
  | replaceAck => exact hreplace

/-- `emit_wal` stamps every record with its request, given that the three places it takes
a symbol from hold valid ones. -/
theorem records_stamped {req : Request} {before : Option Order} {c : Completion} (tsNs : Nat)
    (hreq : req.kind = .create → req.symbol < maxSymbols)
    (hbefore : ∀ x, before = some x → x.symbolId < maxSymbols) (hc : c.order.symbolId < maxSymbols) :
    ∀ r ∈ Wal.records req before c tsNs, Stamped req.ref tsNs r := by
  have hnil : ∀ r ∈ ([] : List JournalRecord), Stamped req.ref tsNs r :=
    fun r hr => absurd hr List.not_mem_nil
  unfold Wal.records
  split
  · rename_i hk
    exact List.forall_mem_singleton.mpr (record_stamped _ _ (hreq hk) (by decide) _ _ _ _ _)
  · unfold Wal.transitionRecords
    split
    · exact hnil
    · split
      · exact stamped_pair (record_stamped _ _ hc (by decide) _ _ _ _ _)
          (record_stamped _ _ hc (by decide) _ _ _ _ _)
      · exact List.forall_mem_singleton.mpr (record_stamped _ _ hc (by decide) _ _ _ _ _)
  · exact (reportRecords_stamped (hbefore _ rfl)).1
  · exact (reportRecords_stamped (hbefore _ rfl)).2.1
  · exact (reportRecords_stamped (hbefore _ rfl)).2.2
  · exact hnil

/-- The cell a request answers into holds a valid symbol again. -/
theorem apply_cell {sh : Shard} {req : Request} {approved : Bool} (hj : sh.Journalable approved req)
    {c : Completion} (hc : c.order.symbolId < maxSymbols)
    (hafter : ∀ x, (sh.apply approved req c).oms.find req.ref = some x → x.symbolId < maxSymbols) :
    (sh.apply approved req c).completion.order.symbolId < maxSymbols := by
  have hcopy : ∀ {o : Option Order} {c : Completion}, c.order.symbolId < maxSymbols →
      (∀ x, o = some x → x.symbolId < maxSymbols) → (copyOrder c o).order.symbolId < maxSymbols := by
    intro o c hc ho
    cases o with
    | none => exact hc
    | some x => exact ho x rfl
  unfold apply at hafter ⊢
  cases hk : req.kind with
  | create =>
    simp only [Journalable, hk] at hj
    simp only [hk, applyCreate] at hafter ⊢
    split
    · exact hc
    · rename_i happroved
      rcases sh.oms.create_cases req.ref req.symbol req.volume with ⟨hf, hs⟩ | heq
      · rw [(sh.oms.create_effect req.symbol req.volume hf hs).1]
        exact (hj (by simpa using happroved) hf hs).2.2.1
      · rw [heq]
        exact hc
  | find =>
    simp only [hk, applyFind] at hafter ⊢
    exact hcopy hc hafter
  | transition =>
    simp only [hk, applyTransition] at hafter ⊢
    split
    · split
      · exact hafter _ ‹_›
      · exact hc
    · exact hc
  | fill =>
    simp only [hk, applyFill] at hafter ⊢
    split
    · exact hcopy hc hafter
    · exact hc
  | replace =>
    simp only [hk, applyReplace] at hafter ⊢
    split
    · exact hcopy hc hafter
    · exact hc
  | report =>
    simp only [hk, applyReport] at hafter ⊢
    exact hcopy hc hafter
  | snapshot => exact hc
  | restore => simp only [Journalable, hk] at hj

theorem apply_before {sh : Shard} {approved : Bool} {req : Request} {c : Completion} {x : Order}
    (h : (sh.apply approved req c).before = some x) : sh.oms.find req.ref = some x := by
  unfold apply at h
  cases hk : req.kind <;> rw [hk] at h <;> dsimp only at h
  case create =>
    unfold applyCreate at h
    split at h <;> cases h
  case find => cases h
  case transition => exact h
  case fill => exact h
  case replace =>
    unfold applyReplace at h
    dsimp only at h
    split at h
    · exact h
    · cases h
  case report => exact h
  case snapshot => cases h
  case restore => cases h

/-- A create that went through fits the command schema. -/
theorem create_commandable {sh : Shard} {req : Request} {approved : Bool}
    (hj : sh.Journalable approved req) (hk : req.kind = .create) {c : Completion}
    (hok : (sh.apply approved req c).ok = true) : Commandable req := by
  simp only [Journalable, hk] at hj
  simp only [apply, hk, applyCreate] at hok
  split at hok
  · cases hok
  · rename_i happroved
    rcases sh.oms.create_cases req.ref req.symbol req.volume with ⟨hf, hs⟩ | heq
    · exact hj (by simpa using happroved) hf hs
    · rw [heq] at hok
      cases hok

/-- Everything that a journalable request writes is stamped with it. -/
theorem journal_stamped {sh : Shard} {req : Request} {approved : Bool}
    (hj : sh.Journalable approved req) {c : Completion} (tsNs : Nat) (hc : c.order.symbolId < maxSymbols)
    (hbefore : ∀ x, sh.oms.find req.ref = some x → x.symbolId < maxSymbols)
    (hafter : ∀ x, (sh.apply approved req c).oms.find req.ref = some x → x.symbolId < maxSymbols) :
    ∀ r ∈ (sh.apply approved req c).journal req tsNs, Stamped req.ref tsNs r := by
  unfold Applied.journal
  split
  · rename_i hok
    apply records_stamped tsNs
    · intro hk
      exact (create_commandable hj hk hok).2.2.1
    · intro x hx
      exact hbefore x (apply_before hx)
    · exact apply_cell hj hc hafter
  · intro r hr
    cases hr

end Shard

end MicrostructureEngine
