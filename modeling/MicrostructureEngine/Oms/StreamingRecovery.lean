import MicrostructureEngine.Oms.JournalReplay

/-!
# The streaming recovery, from its own text

`recovery_streaming.hpp` holds a second copy of the record validator of `recovery.hpp`, one chain of
branches in one loop. It is translated here on its own, and shown to do with every record, and with
the state behind the last one, what the copy of `recover` does.
-/

namespace MicrostructureEngine

set_option autoImplicit false

namespace StreamingRecovery

theorem replaceOrder_ref (price volume : Int) (x : Order) : (replaceOrder price volume x).ref = x.ref := rfl

def replaceAt (orders : Oms) (ref : BrokerOrderRef) (price volume : Int) : Oms :=
  orders.modify ref (replaceOrder price volume) (replaceOrder_ref price volume)

/-- The chain of branches behind the duplicate check; `none` is `return false`. -/
def applyRecord (s : Replay) (r : JournalRecord) : Option Replay :=
  let t := JournalRecordType.ofCode r.type
  let ref : BrokerOrderRef := ⟨r.runId, r.logicalOrderId⟩
  let o := s.next.orders.find ref
  let next := s.next
  let counters := s.next.counters
  if t = .command then
    if r.runId = 0 ∨ r.logicalOrderId = 0 ∨ r.positionTicket ≠ 0 ∨ r.a < 0 ∨ r.a > 1 ∨ r.b ≤ 0 ∨ r.c < 0 ∨
        r.d < 0 ∨ r.d > 1 then none
    else
      let v : Order :=
        { ref := ref, symbolId := r.symbolId, side := if r.a = 0 then .buy else .sell, requestedVolume := r.b
          limitPriceTicks := r.c, type := if r.d = 0 then .market else .limit, state := .sent }
      let restored := next.orders.restore v
      if !restored.1.isSome then none
      else
        some { s with next := { next with
          orders := restored.2
          counters := { counters with commands := counters.commands + 1 } } }
  else if t = .orderState then
    if !Recovery.validOrderState r.a ∨ !Recovery.validOrderState r.b ∨ r.positionTicket ≠ 0 ∨ r.c < 0 ∨
        r.d < 0 then none
    else
      let fromState := OrderState.ofCode r.a
      let toState := OrderState.ofCode r.b
      if o = none ∧ fromState = .pendingSend ∧ toState = .sent then some s
      else
        match o with
        | none => none
        | some o =>
          if o.state ≠ fromState ∨ o.filledVolume ≠ r.c ∨ o.requestedVolume ≠ r.d then none
          else
            let moved := next.orders.transition ref toState
            if !moved.1 then none else some { s with next := { next with orders := moved.2 } }
  else if t = .acknowledgement then
    match o with
    | none => none
    | some o =>
      if o.state ≠ .acknowledged ∨ r.a < 0 ∨ r.positionTicket ≠ 0 then none
      else some { s with next := { next with counters := { counters with acks := counters.acks + 1 } } }
  else if t = .rejection then
    if r.a ≤ 0 then none
    else if r.logicalOrderId ≠ 0 ∧ o.all (fun o => o.state != .sent) then none
    else some { s with next := { next with counters := { counters with rejections := counters.rejections + 1 } } }
  else if t = .fill then
    if o = none ∨ r.positionTicket = 0 ∨ r.a ≤ 0 ∨ r.b ≤ 0 ∨ r.c < 0 ∨ (r.d ≠ 0 ∧ r.d ≠ 1) then none
    else
      let filled := next.orders.recoverFill ref r.b
      if !filled.1 then none
      else
        some { s with next := { next with
          orders := filled.2
          counters := { counters with fills := counters.fills + 1 } } }
  else if t = .cancel then
    match o with
    | none => none
    | some o =>
      if o.state ≠ .cancelPending ∨ r.a < 0 ∨ r.positionTicket ≠ 0 then none
      else some { s with next := { next with counters := { counters with cancels := counters.cancels + 1 } } }
  else if t = .replace then
    match o with
    | none => none
    | some o =>
      if o.state ≠ .acknowledged ∨ r.a ≤ 0 ∨ r.b ≤ 0 ∨ r.c ≤ 0 ∨ r.d ≤ 0 ∨ r.d < o.filledVolume ∨
          r.a ≠ o.limitPriceTicks ∨ r.c ≠ o.requestedVolume then none
      else
        some { s with next := { next with
          orders := replaceAt next.orders ref r.b r.d
          counters := { counters with replaces := counters.replaces + 1 } } }
  else if t = .positionUpdate then
    if r.logicalOrderId ≠ 0 ∨ r.positionTicket = 0 ∨ r.a < 0 ∨ r.a > 1 ∨ r.b < 0 ∨ r.c < 0 then none
    else
      let side : Side := if r.a = 0 then .buy else .sell
      let old := next.positions.find r.positionTicket
      if old.any (fun old => old.symbolId != r.symbolId || old.side != side || old.state == .closed) then none
      else if old = none ∧ r.b = 0 then none
      else
        let p : Position :=
          { positionTicket := r.positionTicket, symbolId := r.symbolId, side := side
            state := if r.b ≠ 0 then .opened else .closed, volume := r.b, avgPriceTicks := r.c
            realizedPnlMinor := r.d }
        match if old.isSome then some (next.positions.overwrite p) else next.positions.restore p with
        | none => none
        | some positions =>
          match next.portfolio.upsert p.positionTicket p.symbolId p.side p.volume p.realizedPnlMinor with
          | none => none
          | some portfolio => some { s with next := { next with positions := positions, portfolio := portfolio } }
  else if t = .accountUpdate then
    if r.logicalOrderId ≠ 0 ∨ r.positionTicket ≠ 0 ∨ r.c < 0 ∨ r.d < 0 ∨ r.b - r.c ≠ r.d then none
    else
      some { s with
        next := { next with account := { next.account with
          balanceMinor := r.a, equityMinor := r.b, marginUsedMinor := r.c, freeMarginMinor := r.d } }
        haveAccount := true
        havePnl := false }
  else
    if r.logicalOrderId ≠ 0 ∨ r.positionTicket ≠ 0 ∨ r.d ≠ 0 ∨ !s.haveAccount ∨ s.havePnl ∨
        next.account.equityMinor ≠ next.account.balanceMinor + r.b then none
    else
      some { s with
        next := { next with account := { next.account with
          realizedPnlMinor := r.a, unrealizedPnlMinor := r.b, commissionPaidMinor := r.c } }
        havePnl := true }

/-- The loop. `i` is the stream position, which becomes the sequence number of the record. -/
def loop (corrupt : Bool) : Replay → Nat → DuplicateWindow → Nat → List JournalRecord → Option Replay
  | s, _, _, _, [] => if corrupt then none else some s
  | s, lastTs, dedup, i, record :: rest =>
    let r := { record with seq := i }
    if r.reserved ≠ 0 ∨ r.tsNs < lastTs ∨ r.symbolId ≥ maxSymbols ∨ r.type < 1 ∨ r.type > 10 then none
    else
      let checked := dedup.checkAndRecord r
      if checked.1 then none
      else
        match applyRecord s r with
        | none => none
        | some s => loop corrupt s r.tsNs checked.2 (i + 1) rest

/-- The loop behind the last record: the orders are `unknown` until the venue says otherwise. -/
def markLoop (orders : Oms) : Option Oms :=
  (List.range orders.size).foldlM
    (fun orders k =>
      let o := orders.atSlot k
      if !o.state.isTerminal ∧ o.state ≠ .unknown then
        let marked := orders.markUnknownOnRestart o.ref
        if !marked.1 then none else some marked.2
      else some orders)
    orders

def finish (s : Replay) (killPresent : Bool) (persistedHalt : Risk.HaltReason) : Option RecoveryState :=
  if s.haveAccount ≠ s.havePnl then none
  else
    match markLoop s.next.orders with
    | none => none
    | some orders =>
      some { s.next with
        orders := orders
        account := { s.next.account with
          openOrders := orders.size
          openPositions := (s.next.positions.positions.filter fun p => p.state != .closed).length }
        kill := killPresent
        halt := if killPresent then (if persistedHalt = .none then .manualKill else persistedHalt)
          else persistedHalt }

/-- `recover_streaming`: the answer and the output parameter. -/
def recoverStreaming (source : RecordSource) (out : RecoveryState) (dedupWindow : Nat) (killPresent : Bool)
    (persistedHalt : Risk.HaltReason) : Bool × RecoveryState :=
  let next := RecoveryState.new out.portfolio.mode out.orders.capacity
  match loop source.corrupt { next := next } 0 (.new dedupWindow) 0 source.records with
  | none => (false, out)
  | some s =>
    match finish s killPresent persistedHalt with
    | none => (false, out)
    | some next => (true, next)

/-! ## The two copies agree -/

theorem applyRecord_eq (s : Replay) (r : JournalRecord) : applyRecord s r = Recovery.applyRecord s r := by
  unfold applyRecord Recovery.applyRecord
  cases ht : JournalRecordType.ofCode r.type with
  | command =>
    simp only [if_true]
    unfold Recovery.applyCommand Recovery.commandOrder
    split
    · rfl
    · dsimp only [JournalRecord.ref]
      cases (s.next.orders.restore _).1 <;> rfl
  | orderState =>
    simp only [reduceCtorEq, if_false, if_true]
    unfold Recovery.applyOrderState JournalRecord.ref
    split
    · rfl
    · dsimp only
      cases hfind : s.next.orders.find ⟨r.runId, r.logicalOrderId⟩ with
      | none => simp only [true_and]
      | some o =>
        simp only [reduceCtorEq, false_and, if_false]
        rfl
  | acknowledgement =>
    simp only [reduceCtorEq, if_false, if_true]
    unfold Recovery.applyAcknowledgement Recovery.applyConfirmation JournalRecord.ref
    cases s.next.orders.find ⟨r.runId, r.logicalOrderId⟩ <;> rfl
  | rejection =>
    simp only [reduceCtorEq, if_false, if_true]
    rfl
  | fill =>
    simp only [reduceCtorEq, if_false, if_true]
    unfold Recovery.applyFill JournalRecord.ref
    simp only [Option.isNone_iff_eq_none]
    rfl
  | cancel =>
    simp only [reduceCtorEq, if_false, if_true]
    unfold Recovery.applyCancel Recovery.applyConfirmation JournalRecord.ref
    cases s.next.orders.find ⟨r.runId, r.logicalOrderId⟩ <;> rfl
  | replace =>
    simp only [reduceCtorEq, if_false, if_true]
    rfl
  | positionUpdate =>
    simp only [reduceCtorEq, if_false, if_true]
    unfold Recovery.applyPositionUpdate Recovery.recordPosition Recovery.recordSide
    split
    · rfl
    · generalize (if r.a = 0 then Side.buy else Side.sell) = side
      cases s.next.positions.find r.positionTicket with
      | none =>
        simp only [Option.any_none, Bool.false_eq_true, if_false, true_and, Option.isSome_none]
        by_cases hb : r.b = 0
        · rw [if_pos hb, if_pos hb]
        · rw [if_neg hb, if_neg hb]
          cases s.next.positions.restore _ with
          | none => rfl
          | some positions => cases s.next.portfolio.upsert _ _ _ _ _ <;> rfl
      | some old =>
        simp only [Option.any_some, Bool.or_eq_true, bne_iff_ne, beq_iff_eq, or_assoc]
        split
        · rfl
        · simp only [reduceCtorEq, false_and, if_false, Option.isSome_some, if_true]
          cases s.next.portfolio.upsert _ _ _ _ _ <;> rfl
  | accountUpdate =>
    simp only [reduceCtorEq, if_false, if_true]
    rfl
  | pnlUpdate =>
    simp only [reduceCtorEq, if_false]
    rfl

theorem headerOk_iff (r : JournalRecord) (lastTs : Nat) :
    Recovery.headerOk r lastTs = true ↔
      ¬ (r.reserved ≠ 0 ∨ r.tsNs < lastTs ∨ r.symbolId ≥ maxSymbols ∨ r.type < 1 ∨ r.type > 10) := by
  unfold Recovery.headerOk
  simp only [Bool.and_eq_true, beq_iff_eq, decide_eq_true_eq]
  omega

/-- Nothing that is done with a record reads its sequence number. -/
theorem loop_eq (corrupt : Bool) (s : Replay) (lastTs : Nat) (dedup : DuplicateWindow) (i : Nat)
    (rs : List JournalRecord) :
    loop corrupt s lastTs dedup i rs = if corrupt then none else Recovery.streamLoop s lastTs dedup rs := by
  induction rs generalizing s lastTs dedup i with
  | nil => rfl
  | cons r rs ih =>
    have hheader := headerOk_iff { r with seq := i } lastTs
    have hsame : Recovery.headerOk { r with seq := i } lastTs = Recovery.headerOk r lastTs := rfl
    have happly : applyRecord s { r with seq := i } = Recovery.applyRecord s r := applyRecord_eq s _
    have hdedup : dedup.checkAndRecord { r with seq := i } = dedup.checkAndRecord r := rfl
    unfold loop Recovery.streamLoop
    dsimp only at hheader ⊢
    rw [hsame] at hheader
    rw [happly, hdedup]
    by_cases hbad : r.reserved ≠ 0 ∨ r.tsNs < lastTs ∨ r.symbolId ≥ maxSymbols ∨ r.type < 1 ∨ r.type > 10
    · have hno : Recovery.headerOk r lastTs = false := by
        rw [← Bool.not_eq_true, hheader]
        exact fun h => h hbad
      rw [if_pos hbad, hno]
      simp
    · rw [if_neg hbad, hheader.mpr hbad]
      cases (dedup.checkAndRecord r).1 with
      | true => simp
      | false =>
        cases Recovery.applyRecord s r with
        | none => simp
        | some s' => simpa using ih s' r.tsNs (dedup.checkAndRecord r).2 (i + 1)

theorem markLoop_eq (orders : Oms) : markLoop orders = Recovery.markAll orders := by
  unfold markLoop Recovery.markAll Recovery.markSlot
  congr 1
  funext orders k
  dsimp only
  split
  · cases (orders.markUnknownOnRestart (orders.atSlot k).ref).1 <;> rfl
  · rfl

theorem finish_eq (s : Replay) (killPresent : Bool) (persistedHalt : Risk.HaltReason) :
    finish s killPresent persistedHalt = Recovery.finish s killPresent persistedHalt := by
  unfold finish Recovery.finish
  rw [markLoop_eq]
  split
  · rfl
  · cases Recovery.markAll s.next.orders <;> rfl

/-- The second copy is the loop of the first behind its own header and duplicate checks. -/
theorem recoverStreaming_eq (source : RecordSource) (out : RecoveryState) (dedupWindow : Nat)
    (killPresent : Bool) (persistedHalt : Risk.HaltReason) :
    recoverStreaming source out dedupWindow killPresent persistedHalt =
      Recovery.recoverStreaming source out dedupWindow killPresent persistedHalt := by
  unfold recoverStreaming Recovery.recoverStreaming
  dsimp only
  rw [loop_eq]
  generalize Recovery.streamLoop _ 0 _ source.records = read
  cases source.corrupt with
  | true => cases read <;> rfl
  | false =>
    cases read with
    | none => rfl
    | some s =>
      have hfinish := finish_eq s killPresent persistedHalt
      cases hresult : Recovery.finish s killPresent persistedHalt with
      | none =>
        rw [hresult] at hfinish
        simp only [Bool.false_eq_true, if_false, hfinish, hresult]
      | some next =>
        rw [hresult] at hfinish
        simp only [Bool.false_eq_true, if_false, hfinish, hresult]

end StreamingRecovery

/-! ## The two recoveries agree -/

namespace Recovery

def DistinctPayloads (rs : List JournalRecord) : Prop := rs.Pairwise fun q r => samePayload r q = false

instance (rs : List JournalRecord) : Decidable (DistinctPayloads rs) :=
  inferInstanceAs (Decidable (rs.Pairwise _))

def Numbered (start : Nat) (rs : List JournalRecord) : Prop :=
  ∀ (k : Nat) (r : JournalRecord), rs[k]? = some r → r.seq = start + k

/-- Where the records are numbered and differ, the loop of `recover` makes the header checks only. -/
theorem recoverLoop_eq {s : Replay} {lastTs : Nat} {seen rs : List JournalRecord}
    (hseq : Numbered seen.length rs)
    (hdistinct : DistinctPayloads rs) (hseen : ∀ r ∈ rs, seen.any (samePayload r) = false) :
    recoverLoop s lastTs seen rs = if headersOk lastTs rs then replayAll s rs else none := by
  induction rs generalizing s lastTs seen with
  | nil => rfl
  | cons r rs ih =>
    obtain ⟨hhead, htail⟩ := List.pairwise_cons.mp hdistinct
    have hfirst : r.seq = seen.length := hseq 0 r rfl
    have hnew : seen.any (samePayload r) = false := hseen r List.mem_cons_self
    have hnext : Numbered (seen ++ [r]).length rs := by
      intro k q hq
      have hq' := hseq (k + 1) q hq
      rw [List.length_append, List.length_singleton]
      omega
    have hold : ∀ q ∈ rs, (seen ++ [r]).any (samePayload q) = false := by
      intro q hq
      rw [List.any_append, hseen q (List.mem_cons_of_mem r hq)]
      simp [hhead q hq]
    unfold recoverLoop headersOk
    rw [replayAll_cons]
    cases hheader : headerOk r lastTs with
    | false => simp
    | true =>
      cases happly : applyRecord s r with
      | none => simp
      | some s' => simp [hfirst, hnew, ih hnext htail hold]

end Recovery

namespace Journal

theorem emits_numbered {rs : List JournalRecord} (hflow : (({} : Journal).emits rs).overflowed = false) :
    Recovery.Numbered 0 (({} : Journal).emits rs).records := by
  induction rs using List.reverseRecOn with
  | nil =>
    intro k r hr
    cases hr
  | append_singleton rs q ih =>
    rw [emits_append] at hflow ⊢
    obtain ⟨hbefore, hrecords⟩ := append_overflowed hflow
    have hcons : (({} : Journal).emits rs).emits [q] = ((({} : Journal).emits rs).append q).2 := rfl
    rw [hcons, hrecords]
    intro k r hr
    rw [List.getElem?_append] at hr
    split at hr
    · exact ih hbefore k r hr
    · rw [List.getElem?_singleton] at hr
      split at hr
      · cases hr
        dsimp only
        omega
      · cases hr

end Journal

namespace StreamingRecovery

/-- Both recoveries replay the journal behind the same header checks. -/
theorem recover_eq {j : Journal} (hflow : j.overflowed = false) (hseq : Recovery.Numbered 0 j.records)
    (hdistinct : Recovery.DistinctPayloads j.records) {dedupWindow : Nat}
    (hflags : (DuplicateWindow.new dedupWindow).flagsNone j.records = true) {out : RecoveryState}
    (hcapacity : out.orders.capacity = defaultCapacity) (killPresent : Bool) (persistedHalt : Risk.HaltReason) :
    Recovery.recover j out killPresent persistedHalt =
      recoverStreaming ⟨j.records, false⟩ out dedupWindow killPresent persistedHalt := by
  rw [recoverStreaming_eq]
  unfold Recovery.recover Recovery.recoverStreaming
  have hloop : Recovery.recoverLoop { next := .new out.portfolio.mode defaultCapacity } 0 [] j.records = _ :=
    Recovery.recoverLoop_eq hseq hdistinct fun _ _ => rfl
  rw [hloop, hcapacity, Recovery.streamLoop_eq]
  simp only [hflow, hflags, Bool.false_eq_true, if_false, and_true]

theorem recover_refused {j : Journal} {out : RecoveryState} {killPresent : Bool}
    {persistedHalt : Risk.HaltReason} (h : (Recovery.recover j out killPresent persistedHalt).1 = false) :
    (Recovery.recover j out killPresent persistedHalt).2 = out := by
  unfold Recovery.recover at h ⊢
  split
  · rfl
  · rename_i hflow
    rw [if_neg hflow] at h
    split
    · rfl
    · rename_i hloop
      rw [hloop] at h
      dsimp only at h
      split
      · rfl
      · rename_i hfinish
        rw [hfinish] at h
        cases h

/-- On a journal without repetitions the two recoveries return the same answer and leave the same
state, which is the old one where they refuse. -/
theorem streaming_agrees (appended : List JournalRecord) (dedupWindow : Nat) (out : RecoveryState) (killPresent : Bool)
    (persistedHalt : Risk.HaltReason) (hflow : (({} : Journal).emits appended).overflowed = false)
    (hdistinct : Recovery.DistinctPayloads (({} : Journal).emits appended).records)
    (hflags : (DuplicateWindow.new dedupWindow).flagsNone (({} : Journal).emits appended).records = true)
    (hcapacity : out.orders.capacity = defaultCapacity) :
    let batch := Recovery.recover (({} : Journal).emits appended) out killPresent persistedHalt
    let streamed := recoverStreaming ⟨(({} : Journal).emits appended).records, false⟩ out dedupWindow killPresent
      persistedHalt
    batch.1 = streamed.1 ∧ (batch.1 = true → batch.2 = streamed.2) ∧
      (batch.1 = false → batch.2 = out ∧ streamed.2 = out) := by
  dsimp only
  have heq := recover_eq hflow (Journal.emits_numbered hflow) hdistinct hflags hcapacity killPresent persistedHalt
  rw [← heq]
  exact ⟨rfl, fun _ => rfl, fun h => ⟨recover_refused h, recover_refused h⟩⟩

def oneOrder : List JournalRecord :=
  [{ tsNs := 1, type := 1, runId := 1, logicalOrderId := 1, b := 10, d := 1, c := 100 },
    { tsNs := 2, type := 7, runId := 1, logicalOrderId := 1, a := 3, b := 4, d := 10 },
    { tsNs := 2, type := 2, runId := 1, logicalOrderId := 1 },
    { tsNs := 3, type := 4, runId := 1, logicalOrderId := 1, positionTicket := 7, a := 100, b := 4 },
    { tsNs := 4, type := 8, positionTicket := 7, b := 4, c := 100 },
    { tsNs := 5, type := 10, a := 500, b := 480, c := 80, d := 400 },
    { tsNs := 5, type := 9, b := -20 }]

theorem streaming_agrees_one_order :
    let batch := Recovery.recover (({} : Journal).emits oneOrder) (.new .hedging defaultCapacity) true .none
    let streamed := recoverStreaming ⟨(({} : Journal).emits oneOrder).records, false⟩ (.new .hedging defaultCapacity)
      64 true .none
    batch.1 = true ∧ batch.1 = streamed.1 ∧ (batch.1 = true → batch.2 = streamed.2) ∧
      (batch.1 = false → batch.2 = .new .hedging defaultCapacity ∧ streamed.2 = .new .hedging defaultCapacity) :=
  ⟨by decide +kernel, streaming_agrees oneOrder 64 (.new .hedging defaultCapacity) true .none (by decide +kernel)
    (by decide +kernel) (by decide +kernel) rfl⟩

end StreamingRecovery

end MicrostructureEngine
