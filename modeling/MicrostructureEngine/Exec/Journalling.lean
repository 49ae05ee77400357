import MicrostructureEngine.Exec.OrderSlots

/-!
# What the broker journals

Most records of the journal are of no interest to a reader that follows orders: marks, position
updates, intermediate states. `Tells j j' es` says that `j'` continues `j` and that the report
records among the new ones are `es`, in this order; a full journal continues without growing.
-/

namespace MicrostructureEngine

set_option autoImplicit false

/-- The record that `emit` hands to `append`. -/
def journalEntry (type : JournalRecordType) (tsNs : Nat) (runId logicalOrderId : UInt64)
    (symbolId : Nat) (positionTicket : UInt64) (a b c d : Int) : JournalRecord :=
  { tsNs := tsNs, type := type.code, symbolId := symbolId, runId := runId,
    logicalOrderId := logicalOrderId, positionTicket := positionTicket, a := a, b := b, c := c, d := d }

/-- Append the records in order, whatever the journal answers. -/
def Journal.emits (j : Journal) (rs : List JournalRecord) : Journal :=
  rs.foldl (fun j r => (j.append r).2) j

/-- Everything of a record but the sequence number that `append` gives it. -/
def JournalRecord.payload (r : JournalRecord) : JournalRecord := { r with seq := 0 }

namespace Journal

@[simp] theorem emits_nil (j : Journal) : j.emits [] = j := rfl

theorem emits_append (j : Journal) (rs ss : List JournalRecord) :
    j.emits (rs ++ ss) = (j.emits rs).emits ss := List.foldl_append

theorem append_overflowed {j : Journal} {r : JournalRecord}
    (h : (j.append r).2.overflowed = false) :
    j.overflowed = false ∧ (j.append r).2.records = j.records ++ [{ r with seq := j.records.length }] := by
  unfold append at h ⊢
  split
  · rename_i hfull
    rw [if_pos hfull] at h
    cases h
  · rename_i hroom
    rw [if_neg hroom] at h
    exact ⟨h, rfl⟩

/-- A journal that has not overflowed holds every record that was ever emitted. -/
theorem emits_records {j : Journal} {rs : List JournalRecord} (h : (j.emits rs).overflowed = false) :
    j.overflowed = false ∧
      (j.emits rs).records.map JournalRecord.payload =
        j.records.map JournalRecord.payload ++ rs.map JournalRecord.payload := by
  induction rs generalizing j with
  | nil => exact ⟨h, (List.append_nil _).symm⟩
  | cons r rs ih =>
    obtain ⟨hnext, hrecords⟩ := ih (j := (j.append r).2) h
    obtain ⟨hj, hone⟩ := append_overflowed hnext
    refine ⟨hj, hrecords.trans ?_⟩
    rw [hone, List.map_append, List.append_assoc]
    rfl

theorem append_length_le {j : Journal} (r : JournalRecord) (h : j.records.length ≤ maxJournalRecords) :
    (j.append r).2.records.length ≤ maxJournalRecords := by
  unfold append
  split
  · exact h
  · rename_i hroom
    simp only [List.length_append, List.length_singleton]
    omega

theorem emits_length_le {j : Journal} (rs : List JournalRecord)
    (h : j.records.length ≤ maxJournalRecords) : (j.emits rs).records.length ≤ maxJournalRecords := by
  induction rs generalizing j with
  | nil => exact h
  | cons r rs ih => exact ih (append_length_le r h)

end Journal

namespace Exec

/-- A record that the venue adapter turns into a report. -/
def isReport (r : JournalRecord) : Bool :=
  r.type == JournalRecordType.acknowledgement.code || r.type == JournalRecordType.fill.code ||
    r.type == JournalRecordType.cancel.code || r.type == JournalRecordType.replace.code ||
    r.type == JournalRecordType.orderState.code && r.b % 256 == OrderState.cancelled.code

/-- `j'` continues `j`; the report records among the new ones are `es`. -/
def Tells (j j' : Journal) (es : List JournalRecord) : Prop :=
  ∃ rs, j' = j.emits rs ∧ rs.filter isReport = es

namespace Tells

theorem refl (j : Journal) : Tells j j [] := ⟨[], rfl, rfl⟩

theorem trans {j j' j'' : Journal} {es es' : List JournalRecord} (h : Tells j j' es)
    (h' : Tells j' j'' es') : Tells j j'' (es ++ es') := by
  obtain ⟨rs, rfl, rfl⟩ := h
  obtain ⟨ss, rfl, rfl⟩ := h'
  exact ⟨rs ++ ss, (Journal.emits_append _ _ _).symm, List.filter_append _ _⟩

theorem quiet_trans {j j' j'' : Journal} {es : List JournalRecord} (h : Tells j j' [])
    (h' : Tells j' j'' es) : Tells j j'' es := by
  have := h.trans h'
  exact this

theorem trans_quiet {j j' j'' : Journal} {es : List JournalRecord} (h : Tells j j' es)
    (h' : Tells j' j'' []) : Tells j j'' es := by
  have hboth := h.trans h'
  rwa [List.append_nil] at hboth

section Emit

variable (j : Journal) {type : JournalRecordType} (tsNs : Nat) (runId logicalOrderId : UInt64)
  (symbolId : Nat) (positionTicket : UInt64) (a b c d : Int)

theorem emit (h : isReport
      (journalEntry type tsNs runId logicalOrderId symbolId positionTicket a b c d) = true) :
    Tells j (j.emit type tsNs runId logicalOrderId symbolId positionTicket a b c d)
      [journalEntry type tsNs runId logicalOrderId symbolId positionTicket a b c d] :=
  ⟨[_], rfl, List.filter_eq_self.mpr fun r hr => by rw [List.mem_singleton.mp hr]; exact h⟩

theorem emit_quiet (h : isReport
      (journalEntry type tsNs runId logicalOrderId symbolId positionTicket a b c d) = false) :
    Tells j (j.emit type tsNs runId logicalOrderId symbolId positionTicket a b c d) [] :=
  ⟨[_], rfl, List.filter_eq_nil_iff.mpr fun r hr => by
    rw [List.mem_singleton.mp hr, Bool.not_eq_true]
    exact h⟩

end Emit

end Tells

/-- A state record is a report only when the order was cancelled. -/
theorem not_isReport_transition {tsNs : Nat} {runId logicalOrderId : UInt64} {symbolId : Nat}
    {ticket : UInt64} {a c d : Int} {next : OrderState} (h : next ≠ .cancelled) :
    isReport (journalEntry .orderState tsNs runId logicalOrderId symbolId ticket a next.code c d) =
      false := by
  cases next <;> first | rfl | exact absurd rfl h

namespace Books

variable (b : Books) (x : OrderSlot) (nowNs : Nat)

theorem tells_recomputeAccount : Tells b.journal (b.recomputeAccount nowNs).journal [] := by
  unfold recomputeAccount
  dsimp only
  split
  · rw [halt_journal]
    exact Tells.emit_quiet _ _ _ _ _ _ _ _ _ _ rfl
  · exact Tells.refl _

theorem tells_refreshAccount : Tells b.journal (b.refreshAccount nowNs).journal [] := by
  unfold refreshAccount
  dsimp only
  refine Tells.quiet_trans (tells_recomputeAccount b nowNs) ?_
  refine Tells.quiet_trans ?_ (Tells.emit_quiet _ _ _ _ _ _ _ _ _ _ rfl)
  exact Tells.emit_quiet _ _ _ _ _ _ _ _ _ _ rfl

theorem tells_transition {next : OrderState} (h : next ≠ .cancelled) :
    Tells b.journal (b.transition x next nowNs).1.journal [] :=
  Tells.emit_quiet _ _ _ _ _ _ _ _ _ _ (not_isReport_transition h)

theorem tells_finish {terminal : OrderState} (h : terminal ≠ .cancelled) :
    Tells b.journal (b.finish x terminal nowNs).1.journal [] := by
  unfold finish
  dsimp only
  refine Tells.quiet_trans ?_ (tells_refreshAccount _ nowNs)
  exact tells_transition b x nowNs h

theorem tells_rejectSent : Tells b.journal (b.rejectSent x nowNs).1.journal [] := by
  unfold rejectSent
  refine Tells.quiet_trans ?_ (tells_finish _ x nowNs (by decide))
  exact Tells.emit_quiet _ _ _ _ _ _ _ _ _ _ rfl

/-- The record of an acknowledgement. -/
def ackRecord (b : Books) (x : OrderSlot) (nowNs : Nat) : JournalRecord :=
  journalEntry .acknowledgement nowNs b.config.runId x.order.ref.logicalOrderId x.order.symbolId 0
    (toInt64 x.order.tsEffectiveNs) 0 0 0

theorem tells_acknowledge :
    Tells b.journal (b.acknowledge x nowNs).1.journal [b.ackRecord x nowNs] :=
  (tells_transition b x nowNs (by decide)).quiet_trans (Tells.emit _ _ _ _ _ _ _ _ _ _ rfl)

section Fill

variable (priceTicks volume : Int)

theorem tells_journalPosition (p : Position) :
    Tells b.journal (b.journalPosition p nowNs).journal [] :=
  Tells.emit_quiet _ _ _ _ _ _ _ _ _ _ rfl

theorem openFor_journal (o : Order) :
    (b.openFor o priceTicks volume nowNs).1.journal = b.journal := by
  unfold openFor
  dsimp only
  split
  · rw [halt_journal]
  · rfl

theorem tells_openFor (o : Order) (c : Books) (hc : Tells b.journal c.journal []) :
    (∀ d, c.openFor o priceTicks volume nowNs = (d, none) → Tells b.journal d.journal []) ∧
    ∀ d p, c.openFor o priceTicks volume nowNs = (d, some p) →
      Tells b.journal (d.journalPosition p nowNs).journal [] := by
  have hjournal := openFor_journal c nowNs priceTicks volume o
  constructor
  · intro d hd
    rw [hd] at hjournal
    dsimp only at hjournal
    rw [hjournal]
    exact hc
  · intro d p hd
    rw [hd] at hjournal
    dsimp only at hjournal
    refine Tells.quiet_trans ?_ (tells_journalPosition d nowNs p)
    rw [hjournal]
    exact hc

theorem tells_reduceTicket :
    Tells b.journal (b.reduceTicket x priceTicks volume nowNs).journal [] := by
  unfold reduceTicket
  dsimp only
  split
  · rw [halt_journal]
    exact Tells.refl _
  · exact tells_journalPosition _ nowNs _

theorem tells_hedgeTicket :
    Tells b.journal (b.hedgeTicket x priceTicks volume nowNs).1.journal [] := by
  have hopen := tells_openFor b nowNs priceTicks volume x.order b (Tells.refl _)
  unfold hedgeTicket
  dsimp only
  split
  · split
    · rename_i heq
      exact hopen.1 _ heq
    · rename_i heq
      exact hopen.2 _ _ heq
  · exact tells_journalPosition _ nowNs _

theorem tells_netTicket : Tells b.journal (b.netTicket x priceTicks volume nowNs).journal [] := by
  unfold netTicket
  dsimp only
  split
  · have hopen := tells_openFor b nowNs priceTicks volume x.order b (Tells.refl _)
    split
    · rename_i heq
      exact hopen.1 _ heq
    · rename_i heq
      exact hopen.2 _ _ heq
  · split
    · exact tells_journalPosition _ nowNs _
    · rename_i slot p _ _
      generalize closeAgainst (b.specs x.order.symbolId) p priceTicks volume nowNs = c
      split
      · have hopen := tells_openFor b nowNs priceTicks (volume - c.1) x.order
          { b.realize c.2.1 with positions := b.positions.write slot c.2.2 } (Tells.refl _)
        split
        · rename_i heq
          exact hopen.1 _ heq
        · rename_i heq
          exact hopen.2 _ _ heq
      · exact tells_journalPosition _ nowNs _

theorem tells_applyToPosition :
    Tells b.journal (b.applyToPosition x priceTicks volume nowNs).1.journal [] := by
  unfold applyToPosition
  split
  · exact tells_reduceTicket b x nowNs priceTicks volume
  · split
    · exact tells_hedgeTicket b x nowNs priceTicks volume
    · exact tells_netTicket b x nowNs priceTicks volume

/-- The record of a fill. The ticket and the flag for the last fill are those of the outcome. -/
def fillRecord (b : Books) (x : OrderSlot) (priceTicks volume : Int) (nowNs : Nat) : JournalRecord :=
  let p := b.bookFill x priceTicks volume nowNs
  journalEntry .fill nowNs b.config.runId x.order.ref.logicalOrderId x.order.symbolId p.1.lastTicket
    priceTicks volume (CommissionModel.chargeMinor (b.specs x.order.symbolId) volume)
    (if p.2.order.remaining ≤ 0 then 1 else 0)

theorem tells_bookFill :
    Tells b.journal (b.bookFill x priceTicks volume nowNs).1.journal
      [b.fillRecord x priceTicks volume nowNs] := by
  have hslot := applyToPosition_slot
    (b.charge (CommissionModel.chargeMinor (b.specs x.order.symbolId) volume))
    (b.filledSlot x priceTicks volume) priceTicks volume nowNs
  have hconfig := (traded_applyToPosition
    (b.charge (CommissionModel.chargeMinor (b.specs x.order.symbolId) volume))
    (b.filledSlot x priceTicks volume) priceTicks volume nowNs).config
  have hquiet := tells_applyToPosition
    (b.charge (CommissionModel.chargeMinor (b.specs x.order.symbolId) volume))
    (b.filledSlot x priceTicks volume) nowNs priceTicks volume
  refine Tells.quiet_trans hquiet ?_
  unfold fillRecord bookFill recordFill
  dsimp only
  unfold filledSlot at hslot hconfig
  dsimp only at hslot hconfig
  rw [hslot, hconfig]
  exact Tells.emit _ _ _ _ _ _ _ _ _ _ rfl

theorem tells_applyFill :
    Tells b.journal (b.applyFill x priceTicks volume nowNs).1.journal
      [b.fillRecord x priceTicks volume nowNs] := by
  have hbook := tells_bookFill b x nowNs priceTicks volume
  rcases applyFill_cases b x priceTicks volume nowNs rfl with ⟨-, heq⟩ | ⟨-, -, heq⟩ | ⟨-, -, heq⟩
  · rw [heq]
    refine (hbook.trans_quiet ?_).trans_quiet (tells_refreshAccount _ nowNs)
    exact tells_finish _ _ nowNs (by decide)
  · rw [heq]
    refine (hbook.trans_quiet ?_).trans_quiet (tells_refreshAccount _ nowNs)
    exact tells_transition _ _ nowNs (by decide)
  · rw [heq]
    exact hbook.trans_quiet (tells_refreshAccount _ nowNs)

end Fill

end Books

namespace PaperBroker

open Books

theorem tells_finish_cancelled (b : Books) (x : OrderSlot) (nowNs : Nat) :
    Tells b.journal (b.finish x .cancelled nowNs).1.journal
      [journalEntry .orderState nowNs b.config.runId x.order.ref.logicalOrderId x.order.symbolId 0
        x.order.state.code OrderState.cancelled.code x.order.filledVolume x.order.remaining] := by
  unfold finish
  dsimp only
  refine Tells.trans_quiet ?_ (tells_refreshAccount _ nowNs)
  exact Tells.emit _ _ _ _ _ _ _ _ _ _ rfl

/-- The two report records of a cancel. -/
def cancelRecords (b : Books) (ref : BrokerOrderRef) (x : OrderSlot) (nowNs : Nat) :
    List JournalRecord :=
  [journalEntry .cancel nowNs b.config.runId ref.logicalOrderId x.order.symbolId 0 x.order.remaining 0 0 0,
    journalEntry .orderState nowNs b.config.runId x.order.ref.logicalOrderId x.order.symbolId 0
      OrderState.cancelPending.code OrderState.cancelled.code x.order.filledVolume x.order.remaining]

theorem tells_cancelled (b : Books) (ref : BrokerOrderRef) (x : OrderSlot) (nowNs : Nat) :
    Tells b.journal (cancelled b ref x nowNs).1.journal (cancelRecords b ref x nowNs) := by
  have hpending : Tells b.journal
      ((b.transition x .cancelPending nowNs).1.journal.emit .cancel nowNs b.config.runId
        ref.logicalOrderId x.order.symbolId 0 x.order.remaining 0 0 0)
      [journalEntry .cancel nowNs b.config.runId ref.logicalOrderId x.order.symbolId 0
        x.order.remaining 0 0 0] :=
    Tells.quiet_trans (tells_transition b x nowNs (by decide))
      (Tells.emit _ _ _ _ _ _ _ _ _ _ rfl)
  exact hpending.trans (tells_finish_cancelled _ (movedTo x .cancelPending) nowNs)

/-- The record of a replace. -/
def replaceRecord (b : Books) (ref : BrokerOrderRef) (x : OrderSlot) (newPriceTicks newVolume : Int)
    (nowNs : Nat) : JournalRecord :=
  journalEntry .replace nowNs b.config.runId ref.logicalOrderId x.order.symbolId 0 x.order.limitPriceTicks
    newPriceTicks x.order.requestedVolume newVolume

theorem tells_replaced (b : Books) (ref : BrokerOrderRef) (x : OrderSlot) (price volume : Int)
    (nowNs : Nat) :
    Tells b.journal (replaced b ref x price volume nowNs).1.journal
      [replaceRecord b ref x price volume nowNs] :=
  Tells.emit _ _ _ _ _ _ _ _ _ _ rfl

theorem tells_reject (b : PaperBroker) (q : OrderRequest) (nowNs : Nat) (reason : RejectReason) :
    Tells b.books.journal (b.reject q nowNs reason).2.books.journal [] :=
  Tells.emit_quiet _ _ _ _ _ _ _ _ _ _ rfl

theorem tells_accept (b : PaperBroker) (slot : Nat) (q : OrderRequest) (nowNs : Nat) :
    Tells b.books.journal (b.accept slot q nowNs).books.journal [] := by
  unfold accept
  dsimp only
  refine Tells.quiet_trans ?_ (tells_refreshAccount _ nowNs)
  refine Tells.quiet_trans ?_ (Tells.emit_quiet _ _ _ _ _ _ _ _ _ _ rfl)
  exact tells_transition _ _ nowNs (by decide)

end PaperBroker

end Exec

end MicrostructureEngine
