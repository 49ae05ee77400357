import MicrostructureEngine.Oms.Recovery
import MicrostructureEngine.Oms.Settlement

/-!
# What a journal record says about one order

`decode` is recovery seen by a single reference: from the order recovered so far, or its
absence, to the order after the record, or a rejection. `applyRecord` accepts an order
record exactly when `decode` does (and there is room for a new order), and then rewrites
that one order. The final loop marks every order that is not terminal as `unknown`.
-/

namespace MicrostructureEngine

open scoped List
set_option autoImplicit false

namespace Recovery

/-- The checks on a command record that do not look at the store. -/
def commandOk (r : JournalRecord) : Prop :=
  r.runId ≠ 0 ∧ r.logicalOrderId ≠ 0 ∧ r.positionTicket = 0 ∧ 0 ≤ r.a ∧ r.a ≤ 1 ∧ 0 < r.b ∧
    0 ≤ r.c ∧ 0 ≤ r.d ∧ r.d ≤ 1

instance (r : JournalRecord) : Decidable (commandOk r) :=
  inferInstanceAs (Decidable (_ ∧ _ ∧ _ ∧ _ ∧ _ ∧ _ ∧ _ ∧ _ ∧ _))

def orderStateOk (r : JournalRecord) : Prop :=
  validOrderState r.a = true ∧ validOrderState r.b = true ∧ r.positionTicket = 0 ∧ 0 ≤ r.c ∧ 0 ≤ r.d

instance (r : JournalRecord) : Decidable (orderStateOk r) :=
  inferInstanceAs (Decidable (_ ∧ _ ∧ _ ∧ _ ∧ _))

/-- The record agrees with the order on its state and volumes. -/
def orderStateAgrees (x : Order) (r : JournalRecord) : Prop :=
  x.state = OrderState.ofCode r.a ∧ x.filledVolume = r.c ∧ x.requestedVolume = r.d

instance (x : Order) (r : JournalRecord) : Decidable (orderStateAgrees x r) :=
  inferInstanceAs (Decidable (_ ∧ _ ∧ _))

def fillOk (r : JournalRecord) : Prop :=
  r.positionTicket ≠ 0 ∧ 0 < r.a ∧ 0 < r.b ∧ 0 ≤ r.c ∧ (r.d = 0 ∨ r.d = 1)

instance (r : JournalRecord) : Decidable (fillOk r) :=
  inferInstanceAs (Decidable (_ ∧ _ ∧ _ ∧ _ ∧ _))

def replaceOk (x : Order) (r : JournalRecord) : Prop :=
  x.state = .acknowledged ∧ 0 < r.a ∧ 0 < r.b ∧ 0 < r.c ∧ 0 < r.d ∧ x.filledVolume ≤ r.d ∧
    r.a = x.limitPriceTicks ∧ r.c = x.requestedVolume

instance (x : Order) (r : JournalRecord) : Decidable (replaceOk x r) :=
  inferInstanceAs (Decidable (_ ∧ _ ∧ _ ∧ _ ∧ _ ∧ _ ∧ _ ∧ _))

def confirmationOk (state : OrderState) (x : Order) (r : JournalRecord) : Prop :=
  x.state = state ∧ 0 ≤ r.a ∧ r.positionTicket = 0

instance (state : OrderState) (x : Order) (r : JournalRecord) : Decidable (confirmationOk state x r) :=
  inferInstanceAs (Decidable (_ ∧ _ ∧ _))

/-- One live order and a record about it: the order after it and the move of the reservation. -/
def decodeLive (x : Order) (r : JournalRecord) : Option (Option Order × Int) :=
  match JournalRecordType.ofCode r.type with
  | .command => none
  | .orderState =>
    if orderStateOk r ∧ orderStateAgrees x r ∧ legal x.state (OrderState.ofCode r.b) then
      some ((Verdict.transition x (OrderState.ofCode r.b)).after,
        (Verdict.transition x (OrderState.ofCode r.b)).delta)
    else none
  | .acknowledgement => if confirmationOk .acknowledged x r then some (some x, 0) else none
  | .cancel => if confirmationOk .cancelPending x r then some (some x, 0) else none
  | .rejection =>
    if 0 < r.a ∧ (r.logicalOrderId = 0 ∨ x.state = .sent) then some (some x, 0) else none
  | .fill =>
    if fillOk r ∧ Oms.fillable x r.b then some (some (Oms.addFill x r.b), 0) else none
  | .replace => if replaceOk x r then some (some (replaceOrder r.b r.d x), 0) else none
  | _ => some (some x, 0)

/-- The same for a reference under which no order is known. -/
def decodeAbsent (r : JournalRecord) : Option (Option Order × Int) :=
  match JournalRecordType.ofCode r.type with
  | .command => if commandOk r then some (some (commandOrder r), r.b) else none
  | .orderState =>
    if orderStateOk r ∧ OrderState.ofCode r.a = .pendingSend ∧ OrderState.ofCode r.b = .sent then
      some (none, 0)
    else none
  | .acknowledgement | .cancel | .fill | .replace => none
  | .rejection => if 0 < r.a ∧ r.logicalOrderId = 0 then some (none, 0) else none
  | _ => some (none, 0)

def decode (x : Option Order) (r : JournalRecord) : Option (Option Order × Int) :=
  match x with
  | some x => decodeLive x r
  | none => decodeAbsent r

/-- Records about orders; the other types touch positions and account only. -/
def orderRecord (r : JournalRecord) : Bool :=
  match JournalRecordType.ofCode r.type with
  | .positionUpdate | .accountUpdate | .pnlUpdate => false
  | _ => true

/-- `s'` is `s` with the order of the record rewritten as `decode` says. -/
def Rewrites (s : Replay) (r : JournalRecord) (s' : Replay) : Prop :=
  ∃ y delta, decode (s.next.orders.find r.ref) r = some (y, delta) ∧
    Oms.Effect s.next.orders s'.next.orders r.ref y delta

theorem rewrites_self {s s' : Replay} {r : JournalRecord} (horders : s'.next.orders = s.next.orders)
    (hd : decode (s.next.orders.find r.ref) r = some (s.next.orders.find r.ref, 0)) :
    Rewrites s r s' := by
  refine ⟨_, _, hd, ?_⟩
  rw [horders]
  exact Oms.Effect.refl _ _

section Apply
variable {s s' : Replay} {r : JournalRecord}

theorem commandOrder_restorable (h : commandOk r) : Oms.restorable (commandOrder r) := by
  obtain ⟨_, _, _, _, _, hb, _⟩ := h
  refine ⟨hb, Int.le_refl 0, ?_⟩
  change (0 : Int) ≤ r.b
  omega

theorem commandOk_iff : commandOk r ↔ ¬ (r.runId = 0 ∨ r.logicalOrderId = 0 ∨ r.positionTicket ≠ 0 ∨
    r.a < 0 ∨ r.a > 1 ∨ r.b ≤ 0 ∨ r.c < 0 ∨ r.d < 0 ∨ r.d > 1) := by
  simp only [commandOk, not_or, not_not, Int.not_lt, Int.not_le, gt_iff_lt, ne_eq]

theorem applyCommand_rewrites (ht : JournalRecordType.ofCode r.type = .command)
    (h : applyCommand s r = some s') : Rewrites s r s' := by
  unfold applyCommand at h
  split at h
  · cases h
  · rename_i hok
    rw [← commandOk_iff] at hok
    dsimp only at h
    split at h
    · cases h
    · rename_i hsome
      cases h
      rcases s.next.orders.restore_cases (commandOrder r) with ⟨hf, hs, hx⟩ | heq
      · obtain ⟨_, he⟩ := Oms.restore_effect _ hf hs hx
        refine ⟨some (commandOrder r), r.b, ?_, he⟩
        have hf' : s.next.orders.find r.ref = none := hf
        rw [hf']
        simp only [decode, decodeAbsent, ht, if_pos hok]
      · rw [heq] at hsome
        exact absurd rfl hsome

theorem applyCommand_isSome (hok : commandOk r) (hf : s.next.orders.find r.ref = none)
    (hroom : s.next.orders.size < s.next.orders.capacity) : (applyCommand s r).isSome := by
  unfold applyCommand
  rw [if_neg (commandOk_iff.mp hok)]
  have hf' : s.next.orders.find (commandOrder r).ref = none := hf
  have hsome := (Oms.restore_effect _ hf' hroom (commandOrder_restorable hok)).1
  simp only [hsome]
  rfl

theorem orderStateOk_iff : orderStateOk r ↔ ¬ (!validOrderState r.a ∨ !validOrderState r.b ∨
    r.positionTicket ≠ 0 ∨ r.c < 0 ∨ r.d < 0) := by
  simp only [orderStateOk, not_or, not_not, Int.not_lt, ne_eq, Bool.not_eq_true',
    Bool.not_eq_false]

theorem applyOrderState_rewrites (ht : JournalRecordType.ofCode r.type = .orderState)
    (h : applyOrderState s r = some s') : Rewrites s r s' := by
  unfold applyOrderState at h
  split at h
  · cases h
  · rename_i hok
    rw [← orderStateOk_iff] at hok
    dsimp only at h
    cases hf : s.next.orders.find r.ref with
    | none =>
      rw [hf] at h
      dsimp only at h
      split at h
      · rename_i hpend
        cases h
        apply rewrites_self rfl
        rw [hf]
        simp only [decode, decodeAbsent, ht, hok, hpend, and_self, if_true]
      · cases h
    | some x =>
      rw [hf] at h
      dsimp only at h
      split at h
      · cases h
      · rename_i hagree
        split at h
        · cases h
        · rename_i hmoved
          cases h
          obtain ⟨hok', he⟩ := Oms.transition_follows _ hf (OrderState.ofCode r.b)
          have hlegal : legal x.state (OrderState.ofCode r.b) = true := by
            by_contra hl
            rw [Bool.not_eq_true] at hl
            rw [Oms.transition_of_illegal _ hf hl] at hmoved
            exact hmoved rfl
          have hagree' : orderStateAgrees x r := by
            simp only [not_or, not_not, ne_eq] at hagree
            exact hagree
          refine ⟨_, _, ?_, he⟩
          rw [hf]
          simp only [decode, decodeLive, ht]
          rw [if_pos ⟨hok, hagree', hlegal⟩]

theorem applyOrderState_isSome {x : Order} (hf : s.next.orders.find r.ref = some x)
    (hok : orderStateOk r) (hagree : orderStateAgrees x r)
    (hlegal : legal x.state (OrderState.ofCode r.b) = true) : (applyOrderState s r).isSome := by
  unfold applyOrderState
  rw [if_neg (orderStateOk_iff.mp hok)]
  have hmoved := (Oms.transition_effect _ hf hlegal).1
  have hagree' : ¬ (x.state ≠ OrderState.ofCode r.a ∨ x.filledVolume ≠ r.c ∨
      x.requestedVolume ≠ r.d) := by
    simp only [not_or, not_not, ne_eq]
    exact hagree
  simp only [hf, if_neg hagree', hmoved, Bool.not_true, Bool.false_eq_true, if_false]
  rfl

theorem applyConfirmation_eq {state : OrderState} {f : RiskCounters → RiskCounters} :
    applyConfirmation s r state f =
      if (s.next.orders.find r.ref).any (fun x => decide (confirmationOk state x r)) then
        some (count s f) else none := by
  unfold applyConfirmation
  cases hf : s.next.orders.find r.ref with
  | none => rfl
  | some x =>
    have hiff : (x.state ≠ state ∨ r.a < 0 ∨ r.positionTicket ≠ 0) ↔ ¬ confirmationOk state x r := by
      simp only [confirmationOk]
      constructor
      · rintro h ⟨h₁, h₂, h₃⟩
        rcases h with h | h | h
        · exact h h₁
        · omega
        · exact h h₃
      · intro h
        by_contra hn
        simp only [not_or, not_not, ne_eq, Int.not_lt] at hn
        exact h hn
    simp only [Option.any_some, decide_eq_true_eq]
    by_cases hc : confirmationOk state x r
    · rw [if_neg (by rw [hiff]; exact not_not.mpr hc), if_pos hc]
    · rw [if_pos (hiff.mpr hc), if_neg hc]

theorem fillOk_iff : ((s.next.orders.find r.ref).isNone ∨ r.positionTicket = 0 ∨ r.a ≤ 0 ∨ r.b ≤ 0 ∨
    r.c < 0 ∨ (r.d ≠ 0 ∧ r.d ≠ 1)) ↔ ¬ ((s.next.orders.find r.ref).isSome ∧ fillOk r) := by
  cases s.next.orders.find r.ref with
  | none => simp
  | some x =>
    simp only [Option.isNone_some, Bool.false_eq_true, false_or, Option.isSome_some, true_and,
      fillOk]
    constructor
    · rintro h ⟨h₁, h₂, h₃, h₄, h₅⟩
      rcases h with h | h
      · exact h₁ h
      · omega
    · intro h
      by_contra hn
      simp only [not_or] at hn
      exact h ⟨hn.1, by omega, by omega, by omega, by omega⟩

theorem applyFill_rewrites (ht : JournalRecordType.ofCode r.type = .fill)
    (h : applyFill s r = some s') : Rewrites s r s' := by
  unfold applyFill at h
  split at h
  · cases h
  · rename_i hg
    rw [fillOk_iff, not_not] at hg
    obtain ⟨x, hf⟩ := Option.isSome_iff_exists.mp hg.1
    dsimp only at h
    split at h
    · cases h
    · rename_i hrec
      cases h
      have hv : Oms.fillable x r.b := by
        by_contra hv
        rw [Oms.recoverFill_of_not_fillable _ hf hv] at hrec
        exact hrec rfl
      have he := s.next.orders.modify_effect r.ref (f := (Oms.addFill · r.b)) fun _ => rfl
      rw [hf, Option.map_some] at he
      refine ⟨some (Oms.addFill x r.b), 0, ?_, ?_⟩
      · rw [hf]
        simp only [decode, decodeLive, ht, hg.2, hv, and_self, if_true]
      · rw [Oms.recoverFill_eq _ hf hv]
        exact he

theorem applyFill_isSome {x : Order} (hf : s.next.orders.find r.ref = some x) (hok : fillOk r)
    (hv : Oms.fillable x r.b) : (applyFill s r).isSome := by
  unfold applyFill
  rw [if_neg (by rw [fillOk_iff, not_not, hf]; exact ⟨rfl, hok⟩)]
  rw [Oms.recoverFill_eq _ hf hv]
  rfl

theorem applyReplace_rewrites (ht : JournalRecordType.ofCode r.type = .replace)
    (h : applyReplace s r = some s') : Rewrites s r s' := by
  unfold applyReplace at h
  cases hf : s.next.orders.find r.ref with
  | none =>
    rw [hf] at h
    cases h
  | some x =>
    rw [hf] at h
    dsimp only at h
    split at h
    · cases h
    · rename_i hg
      cases h
      have hok : replaceOk x r := by
        simp only [not_or, not_not, ne_eq, Int.not_le, Int.not_lt] at hg
        exact hg
      have he := s.next.orders.modify_effect r.ref (f := replaceOrder r.b r.d) fun _ => rfl
      rw [hf, Option.map_some] at he
      refine ⟨some (replaceOrder r.b r.d x), 0, ?_, he⟩
      rw [hf]
      simp only [decode, decodeLive, ht, hok, if_true]

theorem applyReplace_isSome {x : Order} (hf : s.next.orders.find r.ref = some x)
    (hok : replaceOk x r) : (applyReplace s r).isSome := by
  have hg : ¬ (x.state ≠ .acknowledged ∨ r.a ≤ 0 ∨ r.b ≤ 0 ∨ r.c ≤ 0 ∨ r.d ≤ 0 ∨
      r.d < x.filledVolume ∨ r.a ≠ x.limitPriceTicks ∨ r.c ≠ x.requestedVolume) := by
    simp only [not_or, not_not, ne_eq, Int.not_le, Int.not_lt]
    exact hok
  unfold applyReplace
  simp only [hf, if_neg hg]
  rfl

theorem applyConfirmation_rewrites {state : OrderState} {f : RiskCounters → RiskCounters}
    (hd : ∀ x, decodeLive x r = if confirmationOk state x r then some (some x, 0) else none)
    (h : applyConfirmation s r state f = some s') : Rewrites s r s' := by
  rw [applyConfirmation_eq] at h
  split at h
  · rename_i hany
    cases h
    obtain ⟨x, hf, hok⟩ := (Option.any_eq_true _ _).mp hany
    apply rewrites_self rfl
    rw [hf]
    simp only [decode, hd]
    rw [if_pos (of_decide_eq_true hok)]
  · cases h

theorem applyConfirmation_isSome {state : OrderState} {f : RiskCounters → RiskCounters} {x : Order}
    (hf : s.next.orders.find r.ref = some x) (hok : confirmationOk state x r) :
    (applyConfirmation s r state f).isSome := by
  rw [applyConfirmation_eq, hf, if_pos (by simpa using hok)]
  rfl

theorem applyRejection_rewrites (ht : JournalRecordType.ofCode r.type = .rejection)
    (h : applyRejection s r = some s') : Rewrites s r s' := by
  unfold applyRejection at h
  split at h
  · cases h
  · rename_i ha
    split at h
    · cases h
    · rename_i hg
      cases h
      apply rewrites_self rfl
      cases hf : s.next.orders.find r.ref with
      | none =>
        rw [hf] at hg
        have hzero : r.logicalOrderId = 0 := by
          by_contra hne
          exact hg ⟨hne, rfl⟩
        simp only [decode, decodeAbsent, ht]
        rw [if_pos ⟨by omega, hzero⟩]
      | some x =>
        rw [hf] at hg
        have hsent : r.logicalOrderId = 0 ∨ x.state = .sent := by
          by_cases hzero : r.logicalOrderId = 0
          · exact Or.inl hzero
          · right
            by_contra hne
            exact hg ⟨hzero, by simp [hne]⟩
        simp only [decode, decodeLive, ht]
        rw [if_pos ⟨by omega, hsent⟩]

theorem applyRejection_isSome {x : Order} (hf : s.next.orders.find r.ref = some x) (ha : 0 < r.a)
    (hsent : r.logicalOrderId = 0 ∨ x.state = .sent) : (applyRejection s r).isSome := by
  unfold applyRejection
  rw [if_neg (by omega), if_neg]
  · rfl
  · rintro ⟨hne, hall⟩
    rw [hf] at hall
    rcases hsent with hzero | hs
    · exact hne hzero
    · simp [hs] at hall

/-- Positions, account and PnL leave the orders alone. -/
theorem applyPositionUpdate_orders (h : applyPositionUpdate s r = some s') :
    s'.next.orders = s.next.orders := by
  unfold applyPositionUpdate at h
  split at h
  · cases h
  · dsimp only at h
    split at h
    · cases h
    · obtain ⟨f, _, rfl⟩ := Option.map_eq_some_iff.mp h
      rfl

theorem applyAccountUpdate_orders (h : applyAccountUpdate s r = some s') :
    s'.next.orders = s.next.orders := by
  unfold applyAccountUpdate at h
  split at h
  · cases h
  · cases h
    rfl

theorem applyPnlUpdate_orders (h : applyPnlUpdate s r = some s') :
    s'.next.orders = s.next.orders := by
  unfold applyPnlUpdate at h
  split at h
  · cases h
  · cases h
    rfl

theorem decode_of_not_order (x : Option Order) (h : orderRecord r = false) :
    decode x r = some (x, 0) := by
  unfold orderRecord at h
  cases x with
  | none =>
    unfold decode decodeAbsent
    cases ht : JournalRecordType.ofCode r.type <;> simp_all
  | some x =>
    unfold decode decodeLive
    cases ht : JournalRecordType.ofCode r.type <;> simp_all

/-- Soundness of `decode` for the loop body. -/
theorem applyRecord_rewrites (h : applyRecord s r = some s') : Rewrites s r s' := by
  unfold applyRecord at h
  cases ht : JournalRecordType.ofCode r.type with
  | command =>
    rw [ht] at h
    exact applyCommand_rewrites ht h
  | orderState =>
    rw [ht] at h
    exact applyOrderState_rewrites ht h
  | acknowledgement =>
    rw [ht] at h
    exact applyConfirmation_rewrites (fun x => by simp only [decodeLive, ht]) h
  | rejection =>
    rw [ht] at h
    exact applyRejection_rewrites ht h
  | fill =>
    rw [ht] at h
    exact applyFill_rewrites ht h
  | cancel =>
    rw [ht] at h
    exact applyConfirmation_rewrites (fun x => by simp only [decodeLive, ht]) h
  | replace =>
    rw [ht] at h
    exact applyReplace_rewrites ht h
  | positionUpdate =>
    rw [ht] at h
    exact rewrites_self (applyPositionUpdate_orders h)
      (decode_of_not_order _ (by simp only [orderRecord, ht]))
  | accountUpdate =>
    rw [ht] at h
    exact rewrites_self (applyAccountUpdate_orders h)
      (decode_of_not_order _ (by simp only [orderRecord, ht]))
  | pnlUpdate =>
    rw [ht] at h
    exact rewrites_self (applyPnlUpdate_orders h)
      (decode_of_not_order _ (by simp only [orderRecord, ht]))

/-- Completeness: what `decode` accepts, the loop body accepts, given room for a command. -/
theorem applyRecord_isSome (horder : orderRecord r = true)
    (hd : (decode (s.next.orders.find r.ref) r).isSome)
    (hroom : JournalRecordType.ofCode r.type = .command →
      s.next.orders.size < s.next.orders.capacity) : (applyRecord s r).isSome := by
  unfold applyRecord
  cases hf : s.next.orders.find r.ref with
  | none =>
    rw [hf] at hd
    simp only [decode, decodeAbsent] at hd
    cases ht : JournalRecordType.ofCode r.type with
    | command =>
      rw [ht] at hd
      by_cases hok : commandOk r
      · exact applyCommand_isSome hok hf (hroom ht)
      · simp [hok] at hd
    | orderState =>
      rw [ht] at hd
      dsimp only at hd
      split at hd
      · rename_i hg
        unfold applyOrderState
        simp only [if_neg (orderStateOk_iff.mp hg.1), hf, hg.2, and_self, if_true]
        rfl
      · cases hd
    | rejection =>
      rw [ht] at hd
      dsimp only at hd
      split at hd
      · rename_i hg
        unfold applyRejection
        rw [if_neg (by omega), if_neg (fun hn => hn.1 hg.2)]
        rfl
      · cases hd
    | acknowledgement => simp [ht] at hd
    | fill => simp [ht] at hd
    | cancel => simp [ht] at hd
    | replace => simp [ht] at hd
    | positionUpdate => simp [orderRecord, ht] at horder
    | accountUpdate => simp [orderRecord, ht] at horder
    | pnlUpdate => simp [orderRecord, ht] at horder
  | some x =>
    rw [hf] at hd
    simp only [decode, decodeLive] at hd
    cases ht : JournalRecordType.ofCode r.type with
    | command => simp [ht] at hd
    | orderState =>
      rw [ht] at hd
      dsimp only at hd
      split at hd
      · rename_i hg
        exact applyOrderState_isSome hf hg.1 hg.2.1 hg.2.2
      · cases hd
    | acknowledgement =>
      rw [ht] at hd
      dsimp only at hd
      split at hd
      · rename_i hg
        exact applyConfirmation_isSome hf hg
      · cases hd
    | cancel =>
      rw [ht] at hd
      dsimp only at hd
      split at hd
      · rename_i hg
        exact applyConfirmation_isSome hf hg
      · cases hd
    | rejection =>
      rw [ht] at hd
      dsimp only at hd
      split at hd
      · rename_i hg
        exact applyRejection_isSome hf hg.1 hg.2
      · cases hd
    | fill =>
      rw [ht] at hd
      dsimp only at hd
      split at hd
      · rename_i hg
        exact applyFill_isSome hf hg.1 hg.2
      · cases hd
    | replace =>
      rw [ht] at hd
      dsimp only at hd
      split at hd
      · rename_i hg
        exact applyReplace_isSome hf hg
      · cases hd
    | positionUpdate => simp [orderRecord, ht] at horder
    | accountUpdate => simp [orderRecord, ht] at horder
    | pnlUpdate => simp [orderRecord, ht] at horder

end Apply

end Recovery

end MicrostructureEngine
