import MicrostructureEngine.Exec.BrokerSteps

/-!
# The margin of a request in 64 bits

`required_minor` multiplies a volume, a price, the tick value and the margin rate in `int64`. The
volume of a request is bounded by its specification, the price of a limit order by nothing, and
the admission test compares whatever the product wrapped to with the free margin.
-/

namespace MicrostructureEngine

set_option autoImplicit false

def wrap64 (n : Int) : Int := n.bmod (2 ^ 64)

theorem wrap64_lt (n : Int) : wrap64 n < 2 ^ 63 := by
  have h := Int.bmod_lt (x := n) (Nat.two_pow_pos 64)
  unfold wrap64
  omega

theorem wrap64_of_lt {n : Int} (hpos : 0 ≤ n) (h : n < 2 ^ 63) : wrap64 n = n := by
  unfold wrap64
  apply Int.bmod_eq_of_le <;> omega

theorem wrap64_mul (a b : Int) : wrap64 (wrap64 a * b) = wrap64 (a * b) :=
  Int.bmod_mul_bmod

theorem wrap64_add (a b : Int) : wrap64 (wrap64 a + b) = wrap64 (a + b) :=
  Int.bmod_add_bmod

theorem wrap64_le_sub {n : Int} (h : 2 ^ 63 ≤ n) : wrap64 n ≤ n - 2 ^ 64 := by
  have hlt := wrap64_lt n
  have hturns := Int.bmod_add_bdiv n (2 ^ 64)
  unfold wrap64 at hlt ⊢
  generalize n.bmod (2 ^ 64) = w at hlt hturns ⊢
  generalize n.bdiv (2 ^ 64) = k at hturns
  have hk : 0 < k := by
    by_contra hk
    have hnonpos : ((2 ^ 64 : Nat) : Int) * k ≤ 0 := Int.mul_nonpos_of_nonneg_of_nonpos (by omega) (by omega)
    omega
  have hturn : ((2 ^ 64 : Nat) : Int) * 1 ≤ ((2 ^ 64 : Nat) : Int) * k :=
    Int.mul_le_mul_of_nonneg_left hk (by omega)
  omega

/-- Dividing by ten thousand does not hide a lost turn. -/
theorem wrap64_tdiv_eq_iff {n : Int} (hpos : 0 ≤ n) :
    (wrap64 n).tdiv 10000 = n.tdiv 10000 ↔ n < 2 ^ 63 := by
  constructor
  · intro heq
    by_contra hlarge
    have hle := wrap64_le_sub (Int.not_lt.mp hlarge)
    have hquotient : (wrap64 n).tdiv 10000 ≤ (n - 10000).tdiv 10000 :=
      Int.tdiv_le_tdiv (by decide) (by omega)
    have hstep : n.tdiv 10000 = (n - 10000).tdiv 10000 + 1 := by
      rw [Int.tdiv_eq_ediv_of_nonneg hpos, Int.tdiv_eq_ediv_of_nonneg (by omega)]
      omega
    omega
  · intro h
    rw [wrap64_of_lt hpos h]

namespace MarginModel

def requiredMinor64 (spec : SymbolSpec) (volume priceTicks : Int) : Int :=
  if volume ≤ 0 ∨ priceTicks ≤ 0 then 0
  else
    let notional := wrap64 (wrap64 (volume * priceTicks) * spec.tickValueMinor)
    (wrap64 (wrap64 (notional * spec.marginRateBp) + 9999)).tdiv 10000

/-- Only the wrap of the whole numerator is left of the four. -/
theorem requiredMinor64_eq {volume priceTicks : Int} (hvolume : 0 < volume) (hprice : 0 < priceTicks)
    (spec : SymbolSpec) :
    requiredMinor64 spec volume priceTicks =
      (wrap64 (volume * priceTicks * spec.tickValueMinor * spec.marginRateBp + 9999)).tdiv 10000 := by
  unfold requiredMinor64
  rw [if_neg (by omega)]
  dsimp only
  rw [wrap64_mul (volume * priceTicks), wrap64_mul _ spec.marginRateBp, wrap64_add]

/-- The machine's margin is the true one exactly when the rounded numerator fits. -/
theorem requiredMinor64_eq_iff {spec : SymbolSpec} {volume : Int} (hvolume : 0 < volume)
    (priceTicks : Int) (hvalue : 0 ≤ spec.tickValueMinor) (hrate : 0 ≤ spec.marginRateBp) :
    requiredMinor64 spec volume priceTicks = requiredMinor spec volume priceTicks ↔
      volume * priceTicks * spec.tickValueMinor * spec.marginRateBp + 9999 < 2 ^ 63 := by
  by_cases hprice : priceTicks ≤ 0
  · have hproduct : volume * priceTicks * (spec.tickValueMinor * spec.marginRateBp) ≤ 0 :=
      Int.mul_nonpos_of_nonpos_of_nonneg (Int.mul_nonpos_of_nonneg_of_nonpos hvolume.le hprice)
        (Int.mul_nonneg hvalue hrate)
    rw [← Int.mul_assoc] at hproduct
    unfold requiredMinor64 requiredMinor
    rw [if_pos (Or.inr hprice), if_pos (Or.inr hprice)]
    exact ⟨fun _ => by omega, fun _ => rfl⟩
  have hprice := Int.not_le.mp hprice
  have hnotional : 0 ≤ volume * priceTicks * spec.tickValueMinor :=
    Int.mul_nonneg (Int.mul_nonneg hvolume.le hprice.le) hvalue
  have hnumerator := Int.mul_nonneg hnotional hrate
  rw [requiredMinor64_eq hvolume hprice]
  unfold requiredMinor
  rw [if_neg (by omega)]
  exact wrap64_tdiv_eq_iff (by omega)

theorem requiredMinor_nonneg {spec : SymbolSpec} (volume priceTicks : Int)
    (hvalue : 0 ≤ spec.tickValueMinor) (hrate : 0 ≤ spec.marginRateBp) :
    0 ≤ requiredMinor spec volume priceTicks := by
  unfold requiredMinor
  split
  · exact Int.le_refl _
  · rename_i hpos
    rw [not_or, Int.not_le, Int.not_le] at hpos
    have hnotional : 0 ≤ volume * priceTicks * spec.tickValueMinor :=
      Int.mul_nonneg (Int.mul_nonneg hpos.1.le hpos.2.le) hvalue
    have hnumerator := Int.mul_nonneg hnotional hrate
    apply Int.tdiv_nonneg <;> omega

end MarginModel

namespace Exec.PaperBroker

open Books

/-- The price `submit` books a request at. -/
def requestReference (b : Books) (q : OrderRequest) : Int :=
  if q.type = .limit then q.limitPriceTicks else (b.market q.symbolId).touch q.side

def requestMargin64 (b : Books) (q : OrderRequest) : Int :=
  MarginModel.requiredMinor64 (b.specs q.symbolId) q.volume (requestReference b q)

/-- `submit` up to its answer, for a margin that has been computed. -/
def refusal (b : PaperBroker) (q : OrderRequest) (nowNs : Nat) (margin : Int) : Option RejectReason :=
  let market := b.books.market q.symbolId
  match b.entryRefusal q nowNs with
  | some reason => some reason
  | none =>
    if (SlotTable.allocate reusable maxLiveOrders {} b.slots).isNone then some .corruptedState
    else if !market.valid then some .staleQuote
    else if nowNs ≥ market.tsNs ∧ nowNs - market.tsNs > b.books.config.staleQuoteNs then some .staleQuote
    else if margin > b.books.account.freeMarginMinor then some .insufficientMargin
    else none

theorem refusal_eq_none_iff (b : PaperBroker) (q : OrderRequest) (nowNs : Nat) :
    b.refusal q nowNs (requestMargin b.books q) = none ↔ (b.submit q nowNs).1.accepted = true := by
  unfold refusal submit
  dsimp only
  cases b.entryRefusal q nowNs with
  | some reason => exact ⟨nofun, nofun⟩
  | none =>
    dsimp only
    cases SlotTable.allocate reusable maxLiveOrders {} b.slots with
    | none => exact ⟨nofun, nofun⟩
    | some s =>
      have hmarket : (if (some s).isNone = true then some RejectReason.corruptedState
          else if !(b.books.market q.symbolId).valid then some .staleQuote
          else if nowNs ≥ (b.books.market q.symbolId).tsNs ∧
            nowNs - (b.books.market q.symbolId).tsNs > b.books.config.staleQuoteNs then some .staleQuote
          else if requestMargin b.books q > b.books.account.freeMarginMinor then some .insufficientMargin
          else none) = marketRefusal b.books q nowNs := rfl
      rw [hmarket]
      dsimp only
      cases marketRefusal b.books q nowNs with
      | some reason => exact ⟨nofun, nofun⟩
      | none => exact ⟨fun _ => rfl, fun _ => rfl⟩

theorem admitted_volume {b : PaperBroker} {q : OrderRequest} {nowNs : Nat} {margin : Int}
    (h : b.refusal q nowNs margin = none) : 0 < q.volume := by
  have hentry : b.entryRefusal q nowNs = none := by
    unfold refusal at h
    dsimp only at h
    split at h
    · cases h
    · assumption
  unfold entryRefusal at hentry
  grind

/-- An admission by the machine is worth what one over unbounded integers is: the margin it
compared is the true one, and the order is admitted without the wrap too. -/
structure MarginExact (b : PaperBroker) (q : OrderRequest) (nowNs : Nat) : Prop where
  exact : requestMargin64 b.books q = requestMargin b.books q
  nonneg : 0 ≤ requestMargin64 b.books q
  admitted : (b.submit q nowNs).1.accepted = true

/-- A request the machine admits under the default specification is admitted on its true margin
exactly when volume times price, times the rate of a hundred, fits 63 bits with the rounding. -/
theorem margin_exact_iff {b : PaperBroker} {q : OrderRequest} {nowNs : Nat}
    (hspec : b.books.specs q.symbolId = { symbolId := q.symbolId })
    (haccept : b.refusal q nowNs (requestMargin64 b.books q) = none) :
    b.MarginExact q nowNs ↔ q.volume * requestReference b.books q * 100 + 9999 < 2 ^ 63 := by
  have hvolume := admitted_volume haccept
  have hvalue : 0 ≤ (b.books.specs q.symbolId).tickValueMinor := by
    rw [hspec]
    exact Int.one_nonneg
  have hrate : 0 ≤ (b.books.specs q.symbolId).marginRateBp := by
    rw [hspec]
    exact Int.natCast_nonneg 100
  have hiff := MarginModel.requiredMinor64_eq_iff hvolume (requestReference b.books q) hvalue hrate
  rw [hspec, Int.mul_one] at hiff
  rw [← hiff, ← hspec]
  constructor
  · intro h
    exact h.exact
  · intro hexact
    have hexact' : requestMargin64 b.books q = requestMargin b.books q := hexact
    refine ⟨hexact', ?_, ?_⟩
    · rw [hexact']
      exact MarginModel.requiredMinor_nonneg _ _ hvalue hrate
    · rw [hexact'] at haccept
      exact (refusal_eq_none_iff b q nowNs).mp haccept

def quotedOnce : PaperBroker :=
  after { initialBalanceMinor := 100000 } [.onQuote 0 100 102 5 5 0]

theorem margin_exact_small_order :
    quotedOnce.MarginExact { type := .limit, volume := 1, limitPriceTicks := 100 } 0 ↔
      (1 : Int) * 100 * 100 + 9999 < 2 ^ 63 :=
  margin_exact_iff (b := quotedOnce) (q := { type := .limit, volume := 1, limitPriceTicks := 100 })
    rfl (by decide +kernel)

/-- A buy limit at `2 ^ 62` needs a margin of `2 ^ 62 / 100`; the machine finds none. -/
theorem margin_wraps_to_zero :
    quotedOnce.books.specs 0 = { symbolId := 0 } ∧
    quotedOnce.refusal { type := .limit, volume := 1, limitPriceTicks := 2 ^ 62 } 0
      (requestMargin64 quotedOnce.books { type := .limit, volume := 1, limitPriceTicks := 2 ^ 62 }) = none ∧
    ¬ quotedOnce.MarginExact { type := .limit, volume := 1, limitPriceTicks := 2 ^ 62 } 0 := by
  refine ⟨rfl, by decide +kernel, ?_⟩
  intro h
  exact absurd h.exact (by decide +kernel)

end Exec.PaperBroker

end MicrostructureEngine
