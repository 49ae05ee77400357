import MicrostructureEngine.Exec.BrokerSteps

/-!
# Which order a quote fills

The gates in front of `apply_fill`, as one function of the books and the order: it answers the
price and the volume of the fill that a turn of the loop books, and nothing when the turn books
none. A turn without a fill is clerical work.
-/

namespace MicrostructureEngine.Exec

set_option autoImplicit false

namespace Books

/-- The fill that `attempt_fill` books for an acknowledged or partially filled order. -/
def fillOf (b : Books) (o : Order) : Option (Int × Int) :=
  let market := b.market o.symbolId
  if !market.valid ∨ o.remaining ≤ 0 then none
  else
    match b.fillTerms o with
    | none => none
    | some (price, available) =>
      let volume := if available < o.remaining then available else o.remaining
      if price ≤ 0 then none
      else if volume ≤ 0 then none
      else if volume > o.remaining then none
      else if o.type = .market ∧ market.betterThanTouch o.side price then none
      else if market.spreadTicks ≥ 2 ∧ price * 2 = market.bidTicks + market.askTicks ∧
          o.type = .market then none
      else some (price, volume)

/-- The fill that a turn of the loop books. -/
def turnFill (b : Books) (x : OrderSlot) (nowNs : Nat) : Option (Int × Int) :=
  let o := x.order
  if o.state.isTerminal ∨ expiryDue o nowNs ∨ nowNs < o.tsEffectiveNs then none
  else if o.state = .sent then if b.rejects o then none else b.fillOf o
  else if o.state ≠ .acknowledged ∧ o.state ≠ .partiallyFilled then none
  else b.fillOf o

theorem attemptFill_of_none {b : Books} {x : OrderSlot} (h : b.fillOf x.order = none) (nowNs : Nat) :
    b.attemptFill x nowNs = (b, x) ∨ ∃ reason, b.attemptFill x nowNs = (b.halt reason, x) := by
  unfold fillOf at h
  unfold attemptFill
  dsimp only at h ⊢
  split
  · exact Or.inl rfl
  rename_i hopen
  rw [if_neg hopen] at h
  split
  · exact Or.inl rfl
  split
  · exact Or.inl rfl
  rename_i price available hterms
  rw [hterms] at h
  dsimp only at h
  generalize (if available < x.order.remaining then available else x.order.remaining) = volume at h ⊢
  split
  · exact Or.inr ⟨_, rfl⟩
  rename_i hprice
  rw [if_neg hprice] at h
  split
  · exact Or.inl rfl
  rename_i hpos
  rw [if_neg hpos] at h
  split
  · exact Or.inr ⟨_, rfl⟩
  rename_i hover
  rw [if_neg hover] at h
  split
  · exact Or.inr ⟨_, rfl⟩
  rename_i htouch
  rw [if_neg htouch] at h
  split
  · exact Or.inr ⟨_, rfl⟩
  rename_i hmid
  rw [if_neg hmid] at h
  cases h

theorem fillable_of_fillOf {b : Books} {o : Order} {price volume : Int}
    (hstate : o.state = .acknowledged ∨ o.state = .partiallyFilled)
    (h : b.fillOf o = some (price, volume)) : Fillable b o price volume := by
  unfold fillOf at h
  dsimp only at h
  split at h
  · cases h
  rename_i hopen
  split at h
  · cases h
  rename_i price' available hterms
  generalize hvolume : (if available < o.remaining then available else o.remaining) = volume' at h
  split at h
  · cases h
  split at h
  · cases h
  split at h
  · cases h
  split at h
  · cases h
  rename_i htouch
  split at h
  · cases h
  rw [Option.some.injEq, Prod.mk.injEq] at h
  obtain ⟨rfl, rfl⟩ := h
  refine ⟨?_, hstate, by omega, by omega, by omega, ⟨available, hterms, ?_⟩, ?_⟩
  · simp only [Bool.not_eq_true', not_or, Bool.not_eq_false] at hopen
    exact hopen.1
  · split at hvolume <;> omega
  · intro hmarket
    exact Bool.eq_false_iff.mpr fun hbetter => htouch ⟨hmarket, hbetter⟩

theorem attemptFill_of_some {b : Books} {x : OrderSlot} {price volume : Int}
    (hstate : x.order.state = .acknowledged ∨ x.order.state = .partiallyFilled)
    (h : b.fillOf x.order = some (price, volume)) (nowNs : Nat) :
    b.attemptFill x nowNs = b.applyFill x price volume nowNs := by
  have hgate : ¬ (x.order.state ≠ .acknowledged ∧ x.order.state ≠ .partiallyFilled) := by
    intro hn
    rcases hstate with hs | hs
    · exact hn.1 hs
    · exact hn.2 hs
  unfold fillOf at h
  unfold attemptFill
  dsimp only at h ⊢
  split at h
  · cases h
  rename_i hopen
  rw [if_neg hopen, if_neg hgate]
  cases hterms : b.fillTerms x.order with
  | none =>
    rw [hterms] at h
    cases h
  | some terms =>
    rw [hterms] at h
    dsimp only at h ⊢
    grind

/-! ## The turn -/

/-- A turn that books no fill does clerical work. -/
theorem clerical_of_turnFill_none {b : Books} {x : OrderSlot} {nowNs : Nat}
    (h : b.turnFill x nowNs = none) : Clerical b (b.processSlot x nowNs).1 := by
  have hattempt : ∀ c y, Clerical b c → c.fillOf y.order = none → Clerical b (c.attemptFill y nowNs).1 := by
    intro c y hc hnone
    rcases attemptFill_of_none hnone nowNs with heq | ⟨reason, heq⟩
    · rw [heq]
      exact hc
    · rw [heq]
      exact hc.trans (clerical_halt c reason)
  unfold turnFill at h
  unfold processSlot
  dsimp only at h
  split
  · exact Clerical.refl b
  rename_i hlive
  split
  · exact clerical_finish b x nowNs .expired
  rename_i hdue
  split
  · exact Clerical.refl b
  rename_i heffective
  rw [if_neg (by simp [hlive, hdue, heffective])] at h
  split
  · rename_i hsent
    rw [if_pos hsent] at h
    split
    · exact clerical_rejectSent b x nowNs
    · rename_i hdraw
      rw [if_neg hdraw] at h
      exact hattempt _ (movedTo x .acknowledged) (clerical_acknowledge b x nowNs) h
  · rename_i hsent
    rw [if_neg hsent] at h
    split at h
    · rename_i hstate
      unfold attemptFill
      dsimp only
      rw [if_pos hstate, ite_self]
      exact Clerical.refl b
    · exact hattempt b x (Clerical.refl b) h

/-- A turn that books a fill books it for the order as it is once it is ready. -/
theorem processSlot_of_turnFill {b : Books} {x : OrderSlot} {nowNs : Nat} {price volume : Int}
    (h : b.turnFill x nowNs = some (price, volume)) :
    ∃ c, Ready b x nowNs c ∧ Fillable c.1 c.2.order price volume ∧
      b.processSlot x nowNs = c.1.applyFill c.2 price volume nowNs := by
  unfold turnFill at h
  dsimp only at h
  split at h
  · cases h
  rename_i hgates
  rw [not_or, not_or, Bool.not_eq_true, Bool.not_eq_true] at hgates
  obtain ⟨hlive, hdue, heffective⟩ := hgates
  split at h
  · rename_i hsent
    split at h
    · cases h
    rename_i hdraw
    have hacknowledged : (b.acknowledge x nowNs).1.fillOf (b.acknowledge x nowNs).2.order =
        some (price, volume) := h
    refine ⟨_, Ready.acknowledged hsent (Bool.eq_false_iff.mpr hdraw) hdue (Nat.not_lt.mp heffective),
      fillable_of_fillOf (Or.inl rfl) hacknowledged, ?_⟩
    rw [← attemptFill_of_some (Or.inl rfl) hacknowledged]
    unfold processSlot
    rw [if_neg (Bool.eq_false_iff.mp hlive), if_neg (Bool.eq_false_iff.mp hdue), if_neg heffective,
      if_pos hsent, if_neg hdraw]
  · rename_i hsent
    split at h
    · cases h
    rename_i hstate
    have hstate' : x.order.state = .acknowledged ∨ x.order.state = .partiallyFilled := by
      by_contra hn
      exact hstate (not_or.mp hn)
    refine ⟨_, Ready.standing hlive hsent hdue (Nat.not_lt.mp heffective),
      fillable_of_fillOf hstate' h, ?_⟩
    rw [← attemptFill_of_some hstate' h]
    unfold processSlot
    rw [if_neg (Bool.eq_false_iff.mp hlive), if_neg (Bool.eq_false_iff.mp hdue), if_neg heffective,
      if_neg hsent]

end Books

end MicrostructureEngine.Exec
