import MicrostructureEngine.Oms.Decode

/-!
# Replaying a journal

A journal is replayed record by record; seen by one reference, only the records of that
reference matter. `replayAll` succeeds exactly when every reference can decode its own
records, there is room for the commands, and nothing else is in the journal. The loops of
`recover` and `recover_streaming` are `replayAll` behind their header and duplicate checks,
followed by the pass that marks the survivors `unknown`.
-/

namespace MicrostructureEngine

open scoped List
set_option autoImplicit false

namespace Recovery

def replayAll (s : Replay) (rs : List JournalRecord) : Option Replay := rs.foldlM applyRecord s

theorem replayAll_cons (s : Replay) (r : JournalRecord) (rs : List JournalRecord) :
    replayAll s (r :: rs) = (applyRecord s r).bind fun s' => replayAll s' rs := rfl

/-- The records of one reference, in journal order. -/
def recordsOf (ref : BrokerOrderRef) (rs : List JournalRecord) : List JournalRecord :=
  rs.filter fun r => decide (r.ref = ref)

@[simp] theorem recordsOf_nil (ref : BrokerOrderRef) : recordsOf ref [] = [] := rfl

theorem recordsOf_cons_self (r : JournalRecord) (rs : List JournalRecord) :
    recordsOf r.ref (r :: rs) = r :: recordsOf r.ref rs := by
  simp [recordsOf]

theorem recordsOf_cons_of_ne {ref : BrokerOrderRef} {r : JournalRecord} (h : ref ≠ r.ref)
    (rs : List JournalRecord) : recordsOf ref (r :: rs) = recordsOf ref rs := by
  simp [recordsOf, Ne.symm h]

theorem recordsOf_append (ref : BrokerOrderRef) (rs rs' : List JournalRecord) :
    recordsOf ref (rs ++ rs') = recordsOf ref rs ++ recordsOf ref rs' := by
  simp [recordsOf]

/-- `decode` over a list, the reservation dropped. -/
def decodeAll (x : Option Order) (rs : List JournalRecord) : Option (Option Order) :=
  rs.foldlM (fun x r => (decode x r).map Prod.fst) x

@[simp] theorem decodeAll_nil (x : Option Order) : decodeAll x [] = some x := rfl

theorem decodeAll_cons (x : Option Order) (r : JournalRecord) (rs : List JournalRecord) :
    decodeAll x (r :: rs) = ((decode x r).map Prod.fst).bind fun y => decodeAll y rs := rfl

theorem decodeAll_append (x : Option Order) (rs rs' : List JournalRecord) :
    decodeAll x (rs ++ rs') = (decodeAll x rs).bind fun y => decodeAll y rs' := by
  unfold decodeAll
  rw [List.foldlM_append]
  rfl

def isCommand (r : JournalRecord) : Bool := JournalRecordType.ofCode r.type == .command

/-- What the orders of a replay state amount to, reference by reference. -/
theorem replayAll_decode {s s' : Replay} {rs : List JournalRecord} (h : replayAll s rs = some s')
    (ref : BrokerOrderRef) :
    decodeAll (s.next.orders.find ref) (recordsOf ref rs) = some (s'.next.orders.find ref) := by
  induction rs generalizing s with
  | nil =>
    cases h
    rfl
  | cons r rs ih =>
    rw [replayAll_cons] at h
    obtain ⟨s₁, hr, hrest⟩ := Option.bind_eq_some_iff.mp h
    obtain ⟨y, delta, hd, he⟩ := applyRecord_rewrites hr
    by_cases href : ref = r.ref
    · subst href
      rw [recordsOf_cons_self, decodeAll_cons, hd, Option.map_some, Option.bind_some, ← ih hrest,
        he.find_self]
    · rw [recordsOf_cons_of_ne href, ← ih hrest, he.find_of_ne href]

/-- A command opens an order where there was none; no other record adds one. -/
theorem decode_growth {x y : Option Order} {r : JournalRecord} {delta : Int}
    (h : decode x r = some (y, delta)) :
    if isCommand r then x = none ∧ y.isSome else y.isSome → x.isSome := by
  unfold isCommand
  cases x with
  | none =>
    simp only [decode, decodeAbsent] at h
    cases ht : JournalRecordType.ofCode r.type <;> rw [ht] at h <;> simp_all
    obtain ⟨_, rfl, _⟩ := h
    rfl
  | some x =>
    simp only [decode, decodeLive] at h
    cases ht : JournalRecordType.ofCode r.type <;> rw [ht] at h <;> simp_all

theorem applyRecord_size {s s' : Replay} {r : JournalRecord} (h : applyRecord s r = some s') :
    s'.next.orders.size ≤ s.next.orders.size + (if isCommand r then 1 else 0) ∧
      s'.next.orders.capacity = s.next.orders.capacity := by
  obtain ⟨y, delta, hd, he⟩ := applyRecord_rewrites h
  have hgrow := decode_growth hd
  have hsize := he.size
  refine ⟨?_, he.capacity⟩
  split at hgrow
  · obtain ⟨hx, hy⟩ := hgrow
    obtain ⟨z, rfl⟩ := Option.isSome_iff_exists.mp hy
    rw [hx] at hsize
    simp only [Option.elim_none, Option.elim_some] at hsize
    rw [if_pos ‹_›]
    omega
  · rw [if_neg ‹_›]
    cases y with
    | none =>
      cases hx : s.next.orders.find r.ref <;> rw [hx] at hsize <;> simp at hsize <;> omega
    | some z =>
      obtain ⟨x, hx⟩ := Option.isSome_iff_exists.mp (hgrow rfl)
      rw [hx] at hsize
      simp at hsize
      omega

/-- References that can all decode their own records replay together. -/
theorem replayAll_isSome {s : Replay} {rs : List JournalRecord}
    (horder : ∀ r ∈ rs, orderRecord r = true)
    (hd : ∀ ref, (decodeAll (s.next.orders.find ref) (recordsOf ref rs)).isSome)
    (hroom : s.next.orders.size + rs.countP isCommand ≤ s.next.orders.capacity) :
    (replayAll s rs).isSome := by
  induction rs generalizing s with
  | nil => rfl
  | cons r rs ih =>
    have hself := hd r.ref
    rw [recordsOf_cons_self, decodeAll_cons] at hself
    have hdr : (decode (s.next.orders.find r.ref) r).isSome := by
      cases hc : decode (s.next.orders.find r.ref) r with
      | none => simp [hc] at hself
      | some _ => rfl
    rw [List.countP_cons] at hroom
    have hsome : (applyRecord s r).isSome := by
      refine applyRecord_isSome (horder r List.mem_cons_self) hdr ?_
      intro ht
      have hcmd : isCommand r = true := by simp [isCommand, ht]
      rw [if_pos hcmd] at hroom
      omega
    obtain ⟨s₁, hs₁⟩ := Option.isSome_iff_exists.mp hsome
    obtain ⟨hsize, hcap⟩ := applyRecord_size hs₁
    obtain ⟨y, delta, hdec, he⟩ := applyRecord_rewrites hs₁
    rw [replayAll_cons, hs₁, Option.bind_some]
    apply ih
    · intro r' hr'
      exact horder r' (List.mem_cons_of_mem r hr')
    · intro ref
      by_cases href : ref = r.ref
      · subst href
        rw [hdec, Option.map_some, Option.bind_some] at hself
        rw [he.find_self]
        exact hself
      · have hother := hd ref
        rw [recordsOf_cons_of_ne href] at hother
        rw [he.find_of_ne href]
        exact hother
    · rw [hcap]
      omega

/-- The header checks along a stream. -/
def headersOk (lastTs : Nat) : List JournalRecord → Bool
  | [] => true
  | r :: rs => headerOk r lastTs && headersOk r.tsNs rs

theorem streamLoop_eq {s : Replay} {lastTs : Nat} {w : DuplicateWindow} {rs : List JournalRecord} :
    streamLoop s lastTs w rs =
      if headersOk lastTs rs ∧ w.flagsNone rs then replayAll s rs else none := by
  induction rs generalizing s lastTs w with
  | nil => rfl
  | cons r rs ih =>
    unfold streamLoop headersOk DuplicateWindow.flagsNone
    rw [replayAll_cons]
    cases hh : headerOk r lastTs with
    | false => simp
    | true =>
      cases hf : (w.checkAndRecord r).1 with
      | true => simp
      | false =>
        cases ha : applyRecord s r with
        | none => simp
        | some s' => simp [ih]

theorem recoverLoop_replayAll {s s' : Replay} {lastTs : Nat} {seen rs : List JournalRecord}
    (h : recoverLoop s lastTs seen rs = some s') : replayAll s rs = some s' := by
  induction rs generalizing s lastTs seen with
  | nil => exact h
  | cons r rs ih =>
    unfold recoverLoop at h
    split at h
    · cases h
    · cases ha : applyRecord s r with
      | none => simp [ha] at h
      | some s₁ =>
        rw [ha] at h
        rw [replayAll_cons, ha, Option.bind_some]
        exact ih h

/-! ## The final pass -/

/-- What the pass does to an order. -/
def finalMark (x : Order) : Order :=
  if !x.state.isTerminal ∧ x.state ≠ .unknown then Oms.markUnknown x else x

@[simp] theorem finalMark_ref (x : Order) : (finalMark x).ref = x.ref := by
  unfold finalMark
  split <;> rfl

/-- One iteration writes one slot. -/
theorem markSlot_spec {o : Oms} {k : Nat} (hk : k < o.size) :
    ∃ o', markSlot o k = some o' ∧ o'.size = o.size ∧ o'.capacity = o.capacity ∧
      o'.reservedExposure = o.reservedExposure ∧
      ∀ j < o.size, o'.atSlot j = if j = k then finalMark (o.atSlot k) else o.atSlot j := by
  unfold markSlot finalMark
  dsimp only
  split
  · rename_i hg
    have hfind : o.find (o.atSlot k).ref = some (o.atSlot k) := o.inv.find_slot hk
    have hterm : (o.atSlot k).state.isTerminal = false := by simpa using hg.1
    rw [o.markUnknownOnRestart_eq hfind hterm]
    refine ⟨_, rfl, ?_, ?_, ?_, ?_⟩
    · exact OmsState.modify_count _ _ _
    · exact OmsState.modify_capacity _ _ _
    · exact OmsState.modify_reserved _ _ _
    · intro j _
      have heq : (o.modify (o.atSlot k).ref Oms.markUnknown fun _ => rfl).orders =
          Function.update o.orders k (Oms.markUnknown (o.orders k)) :=
        congrArg OmsState.orders (o.inv.modify_eq hk Oms.markUnknown)
      refine (congrFun heq j).trans ?_
      by_cases hj : j = k
      · rw [hj, Function.update_self, if_pos rfl]
        rfl
      · rw [Function.update_of_ne hj, if_neg hj]
        rfl
  · refine ⟨o, rfl, rfl, rfl, rfl, ?_⟩
    intro j _
    split
    · rename_i hj
      rw [hj]
    · rfl

theorem markAll_slots (o : Oms) (n : Nat) (hn : n ≤ o.size) :
    ∃ o', (List.range n).foldlM markSlot o = some o' ∧ o'.size = o.size ∧
      o'.capacity = o.capacity ∧ o'.reservedExposure = o.reservedExposure ∧
      ∀ j < o.size, o'.atSlot j = if j < n then finalMark (o.atSlot j) else o.atSlot j := by
  induction n with
  | zero => exact ⟨o, rfl, rfl, rfl, rfl, fun j _ => by simp⟩
  | succ n ih =>
    obtain ⟨o₁, hrun, hsize, hcap, hres, hslot⟩ := ih (by omega)
    obtain ⟨o₂, hmark, hsize', hcap', hres', hslot'⟩ := markSlot_spec (o := o₁) (k := n) (by omega)
    refine ⟨o₂, ?_, hsize'.trans hsize, hcap'.trans hcap, hres'.trans hres, ?_⟩
    · rw [List.range_succ, List.foldlM_append, hrun]
      simpa using hmark
    · intro j hj
      rw [hslot' j (by omega), hslot j hj, hslot n (by omega)]
      by_cases hjn : j = n
      · subst hjn
        simp
      · rw [if_neg hjn]
        by_cases hlt : j < n
        · rw [if_pos hlt, if_pos (by omega)]
        · rw [if_neg hlt, if_neg (by omega)]

/-- The pass never fails and marks every order through the map. -/
theorem markAll_spec (o : Oms) :
    ∃ o', markAll o = some o' ∧ o'.size = o.size ∧ o'.capacity = o.capacity ∧
      o'.reservedExposure = o.reservedExposure ∧ ∀ ref, o'.find ref = (o.find ref).map finalMark := by
  obtain ⟨o', hrun, hsize, hcap, hres, hslot⟩ := markAll_slots o o.size (Nat.le_refl _)
  refine ⟨o', hrun, hsize, hcap, hres, ?_⟩
  have hslot' : ∀ j < o.count, o'.orders j = finalMark (o.orders j) := by
    intro j hj
    have := hslot j hj
    rwa [if_pos (show j < o.size from hj)] at this
  have hcount : o'.count = o.count := hsize
  intro ref
  apply Option.ext
  intro y
  have hfind' : o'.find ref = some y ↔ ∃ i < o'.count, o'.orders i = y ∧ y.ref = ref :=
    o'.inv.find_eq_some_iff
  rw [hfind', hcount, Option.map_eq_some_iff]
  constructor
  · rintro ⟨i, hi, rfl, hr⟩
    rw [hslot' i hi, finalMark_ref] at hr
    refine ⟨o.orders i, ?_, (hslot' i hi).symm⟩
    rw [← hr]
    exact o.inv.find_slot hi
  · rintro ⟨x, hx, rfl⟩
    have hx' : o.toOmsState.find ref = some x := hx
    obtain ⟨i, hi, rfl, hr⟩ := o.inv.find_eq_some_iff.mp hx'
    exact ⟨i, hi, hslot' i hi, by rw [finalMark_ref]; exact hr⟩

/-- `finish` on a journal without account records. -/
theorem finish_spec {s : Replay} {killPresent : Bool} {persistedHalt : Risk.HaltReason}
    {state : RecoveryState} (h : finish s killPresent persistedHalt = some state) :
    state.orders.reservedExposure = s.next.orders.reservedExposure ∧
      ∀ ref, state.orders.find ref = (s.next.orders.find ref).map finalMark := by
  unfold finish at h
  split at h
  · cases h
  · obtain ⟨o', hmark, rfl⟩ := Option.map_eq_some_iff.mp h
    obtain ⟨o'', hmark', _, _, hres, hfind⟩ := markAll_spec s.next.orders
    rw [hmark', Option.some.injEq] at hmark
    subst hmark
    exact ⟨hres, hfind⟩

theorem finish_isSome {s : Replay} (h : s.haveAccount = s.havePnl) (killPresent : Bool)
    (persistedHalt : Risk.HaltReason) : (finish s killPresent persistedHalt).isSome := by
  unfold finish
  obtain ⟨o', hmark, _⟩ := markAll_spec s.next.orders
  rw [if_neg (fun hne => hne h), hmark]
  rfl

/-- Two replay states that differ in the orders and the counters only. -/
structure SameButOrders (s s' : Replay) : Prop where
  positions : s'.next.positions = s.next.positions
  account : s'.next.account = s.next.account
  haveAccount : s'.haveAccount = s.haveAccount
  havePnl : s'.havePnl = s.havePnl

/-- Order records touch neither the positions nor the account. -/
theorem applyRecord_frame {s s' : Replay} {r : JournalRecord} (horder : orderRecord r = true)
    (h : applyRecord s r = some s') : SameButOrders s s' := by
  unfold applyRecord at h
  unfold orderRecord at horder
  cases ht : JournalRecordType.ofCode r.type <;> rw [ht] at h horder <;> dsimp only at h horder
  case command =>
    unfold applyCommand at h
    split at h
    · cases h
    · dsimp only at h
      split at h
      · cases h
      · cases h
        exact ⟨rfl, rfl, rfl, rfl⟩
  case orderState =>
    unfold applyOrderState at h
    split at h
    · cases h
    · dsimp only at h
      split at h
      · split at h
        · cases h
          exact ⟨rfl, rfl, rfl, rfl⟩
        · cases h
      · split at h
        · cases h
        · split at h
          · cases h
          · cases h
            exact ⟨rfl, rfl, rfl, rfl⟩
  case acknowledgement =>
    unfold applyAcknowledgement at h
    rw [applyConfirmation_eq] at h
    split at h
    · cases h
      exact ⟨rfl, rfl, rfl, rfl⟩
    · cases h
  case cancel =>
    unfold applyCancel at h
    rw [applyConfirmation_eq] at h
    split at h
    · cases h
      exact ⟨rfl, rfl, rfl, rfl⟩
    · cases h
  case rejection =>
    unfold applyRejection at h
    split at h
    · cases h
    · split at h
      · cases h
      · cases h
        exact ⟨rfl, rfl, rfl, rfl⟩
  case fill =>
    unfold applyFill at h
    split at h
    · cases h
    · dsimp only at h
      split at h
      · cases h
      · cases h
        exact ⟨rfl, rfl, rfl, rfl⟩
  case replace =>
    unfold applyReplace at h
    split at h
    · cases h
    · split at h
      · cases h
      · cases h
        exact ⟨rfl, rfl, rfl, rfl⟩
  all_goals cases horder

theorem replayAll_flags {s s' : Replay} {rs : List JournalRecord}
    (horder : ∀ r ∈ rs, orderRecord r = true) (h : replayAll s rs = some s') :
    s'.haveAccount = s.haveAccount ∧ s'.havePnl = s.havePnl := by
  induction rs generalizing s with
  | nil =>
    cases h
    exact ⟨rfl, rfl⟩
  | cons r rs ih =>
    rw [replayAll_cons] at h
    obtain ⟨s₁, hr, hrest⟩ := Option.bind_eq_some_iff.mp h
    have hframe := applyRecord_frame (horder r List.mem_cons_self) hr
    obtain ⟨hacc, hpnl⟩ := ih (fun r' hr' => horder r' (List.mem_cons_of_mem r hr')) hrest
    exact ⟨hacc.trans hframe.haveAccount, hpnl.trans hframe.havePnl⟩

end Recovery

end MicrostructureEngine
