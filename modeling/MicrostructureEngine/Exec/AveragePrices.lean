import MicrostructureEngine.Exec.FillHistory

/-!
# Average prices

Every fill rounds the average of an order, and of the ticket it adds to, anew. The rounding is half
up, so it never leaves the range that the average and the price of the fill span, however long the
sequence of fills. Which fills have made a ticket is read off the history of the position book.
-/

namespace MicrostructureEngine.Exec

set_option autoImplicit false

/-! ## The rounded mean -/

/-- Between the smallest and the largest of the values. -/
def Between (values : List Int) (a : Int) : Prop := (∃ lo ∈ values, lo ≤ a) ∧ ∃ hi ∈ values, a ≤ hi

/-- The weighted mean, rounded half up in truncating division. -/
def roundedMean (average weight value volume : Int) : Int :=
  ((average * weight + value * volume) + (weight + volume).tdiv 2).tdiv (weight + volume)

example : roundedMean 100 1 101 1 = 101 ∧ roundedMean 101 2 100 1 = 101 := by decide

section Mean
variable {average weight value volume lo hi : Int} {values : List Int}

theorem roundedMean_eq (hweight : 0 ≤ weight) (hvolume : 0 < volume) (haverage : 0 ≤ average * weight)
    (hvalue : 0 < value) : roundedMean average weight value volume =
      (average * weight + value * volume + (weight + volume) / 2) / (weight + volume) := by
  have hproduct : 0 < value * volume := Int.mul_pos hvalue hvolume
  have hhalf : (weight + volume).tdiv 2 = (weight + volume) / 2 := Int.tdiv_eq_ediv_of_nonneg (by omega)
  unfold roundedMean
  rw [hhalf, Int.tdiv_eq_ediv_of_nonneg (by omega)]

theorem le_roundedMean (hweight : 0 ≤ weight) (hvolume : 0 < volume) (haverage : 0 ≤ average * weight)
    (hvalue : 0 < value) (hlo : lo * weight ≤ average * weight) (hlo' : lo ≤ value) :
    lo ≤ roundedMean average weight value volume := by
  have hproduct : lo * volume ≤ value * volume := Int.mul_le_mul_of_nonneg_right hlo' (by omega)
  rw [roundedMean_eq hweight hvolume haverage hvalue, Int.le_ediv_iff_mul_le (by omega), Int.mul_add]
  omega

theorem roundedMean_le (hweight : 0 ≤ weight) (hvolume : 0 < volume) (haverage : 0 ≤ average * weight)
    (hvalue : 0 < value) (hhi : average * weight ≤ hi * weight) (hhi' : value ≤ hi) :
    roundedMean average weight value volume ≤ hi := by
  have hproduct : value * volume ≤ hi * volume := Int.mul_le_mul_of_nonneg_right hhi' (by omega)
  have hbelow : roundedMean average weight value volume < hi + 1 := by
    rw [roundedMean_eq hweight hvolume haverage hvalue, Int.ediv_lt_iff_lt_mul (by omega), Int.add_mul, Int.mul_add]
    omega
  omega

/-- The first value is its own mean. -/
theorem between_first (hvolume : 0 < volume) (hvalue : 0 < value) :
    Between [value] (roundedMean average 0 value volume) := by
  have hzero : 0 ≤ average * 0 := by omega
  refine ⟨⟨value, List.mem_singleton_self _, ?_⟩, ⟨value, List.mem_singleton_self _, ?_⟩⟩
  · exact le_roundedMean (Int.le_refl 0) hvolume hzero hvalue (by omega) (Int.le_refl _)
  · exact roundedMean_le (Int.le_refl 0) hvolume hzero hvalue (by omega) (Int.le_refl _)

/-- One more value widens the range by as much as the mean can move. -/
theorem Between.mean (h : Between values average) (hvalues : ∀ v ∈ values, 0 < v) (hweight : 0 ≤ weight)
    (hvolume : 0 < volume) (hvalue : 0 < value) :
    Between (values ++ [value]) (roundedMean average weight value volume) := by
  obtain ⟨⟨lo, hlo, hloAverage⟩, ⟨hi, hhi, hhiAverage⟩⟩ := h
  have hlast : value ∈ values ++ [value] := List.mem_append_right _ (List.mem_singleton_self _)
  have hpositive : 0 ≤ average * weight := Int.mul_nonneg (by have := hvalues lo hlo; omega) hweight
  have hbelow : ∀ {b : Int}, b ≤ average → b * weight ≤ average * weight := fun hb =>
    Int.mul_le_mul_of_nonneg_right hb hweight
  have habove : ∀ {b : Int}, average ≤ b → average * weight ≤ b * weight := fun hb =>
    Int.mul_le_mul_of_nonneg_right hb hweight
  constructor
  · by_cases hcase : lo ≤ value
    · exact ⟨lo, List.mem_append_left _ hlo, le_roundedMean hweight hvolume hpositive hvalue (hbelow hloAverage) hcase⟩
    · refine ⟨value, hlast, le_roundedMean hweight hvolume hpositive hvalue (hbelow ?_) (Int.le_refl _)⟩
      omega
  · by_cases hcase : value ≤ hi
    · exact ⟨hi, List.mem_append_left _ hhi, roundedMean_le hweight hvolume hpositive hvalue (habove hhiAverage) hcase⟩
    · refine ⟨value, hlast, roundedMean_le hweight hvolume hpositive hvalue (habove ?_) (Int.le_refl _)⟩
      omega

end Mean

/-! ## The average of an order -/

/-- One call of `apply_fill`, but for the broker and the order. -/
structure Fill where
  priceTicks : Int
  volume : Int
  nowNs : Nat
  deriving DecidableEq, Repr

def Fill.Positive (f : Fill) : Prop := 0 < f.priceTicks ∧ 0 < f.volume

/-- A fill of an order; the books are whatever the rest of the broker has made of them by then. -/
def fillOrder (x : OrderSlot) (call : Books × Fill) : OrderSlot :=
  (call.1.applyFill x call.2.priceTicks call.2.volume call.2.nowNs).2

/-- An order that fills at these prices have gone to. -/
structure FilledAt (prices : List Int) (o : Order) : Prop where
  positive : ∀ price ∈ prices, 0 < price
  average : (prices = [] ∧ o.filledVolume = 0) ∨ (0 < o.filledVolume ∧ Between prices o.avgFillPriceTicks)

theorem applyFill_average (b : Books) (x : OrderSlot) (price volume : Int) (nowNs : Nat) :
    (b.applyFill x price volume nowNs).2.order.filledVolume = x.order.filledVolume + volume ∧
      (b.applyFill x price volume nowNs).2.order.avgFillPriceTicks =
        roundedMean x.order.avgFillPriceTicks x.order.filledVolume price volume := by
  have hslot := Books.bookFill_slot b x price volume nowNs
  rcases Books.applyFill_cases b x price volume nowNs rfl with ⟨-, heq⟩ | ⟨-, -, heq⟩ | ⟨-, -, heq⟩
  all_goals
    rw [heq, hslot]
    exact ⟨rfl, rfl⟩

theorem FilledAt.fill {prices : List Int} {x : OrderSlot} (h : FilledAt prices x.order) (b : Books) {f : Fill}
    (hf : f.Positive) : FilledAt (prices ++ [f.priceTicks]) (fillOrder x (b, f)).order := by
  obtain ⟨hfilled, haverage⟩ := applyFill_average b x f.priceTicks f.volume f.nowNs
  have hpositive : ∀ price ∈ prices ++ [f.priceTicks], 0 < price := by
    rw [List.forall_mem_append, List.forall_mem_singleton]
    exact ⟨h.positive, hf.1⟩
  have hvolume := hf.2
  unfold fillOrder
  refine ⟨hpositive, .inr ?_⟩
  rw [hfilled, haverage]
  rcases h.average with ⟨hnone, hzero⟩ | ⟨hsome, hbetween⟩
  · rw [hnone, hzero, List.nil_append]
    exact ⟨by omega, between_first hvolume hf.1⟩
  · exact ⟨by omega, hbetween.mean h.positive (by omega) hvolume hf.1⟩

theorem FilledAt.fills {prices : List Int} {x : OrderSlot} (h : FilledAt prices x.order)
    {calls : List (Books × Fill)} (hcalls : ∀ call ∈ calls, call.2.Positive) :
    FilledAt (prices ++ calls.map fun call => call.2.priceTicks) (Runs.run fillOrder x calls).order := by
  induction calls generalizing prices x with
  | nil => rwa [List.map_nil, List.append_nil]
  | cons call calls ih =>
    have hnext := ih (h.fill call.1 (hcalls call List.mem_cons_self))
      fun other hother => hcalls other (List.mem_cons_of_mem call hother)
    rwa [List.append_assoc] at hnext

/-! ## The average of a ticket -/

/-- What a fill at a price makes of the prices that the open ticket in a slot is made of. -/
def entered (prices : List Int) (price : Int) : Option Position → Option Position → List Int
  | _, none => []
  | none, some _ => [price]
  | some p, some q =>
    -- A fresh ticket is in a vacant slot, or in that of the one it has just flipped.
    if isClosed p || p.side != q.side then [price]
    else if q.volume > p.volume then prices ++ [price]
    else prices

/-- The prices of the fills that the open ticket in a slot is made of. -/
def entryPrices (fills : List FillEvent) (slot : Nat) : List Int :=
  fills.foldl (fun prices f => entered prices f.priceTicks f.before.positions[slot]? f.after.positions[slot]?) []

/-- The ways of a slot through a fill. -/
inductive SlotMove (price volume : Int) : Option Position → Option Position → Prop
  | kept (o : Option Position) : SlotMove price volume o o
  | opened {o : Option Position} {q : Position} (vacant : ∀ p, o = some p → isClosed p = true ∨ p.side ≠ q.side)
      (size : 0 < q.volume) (average : q.avgPriceTicks = price) : SlotMove price volume o (some q)
  | added {p : Position} (working : isClosed p = false) :
      SlotMove price volume (some p) (some (PositionBook.add p volume price))
  | reduced {p q : Position} (working : isClosed p = false) (side : q.side = p.side)
      (size : isClosed q = false → 0 < q.volume ∧ q.volume ≤ p.volume)
      (average : q.avgPriceTicks = p.avgPriceTicks) : SlotMove price volume (some p) (some q)

section Moves
variable {price volume : Int}

theorem write_moves {positions : List Position} {slot : Nat} {p q : Position} (hp : positions[slot]? = some p)
    (hmove : SlotMove price volume (some p) (some q)) (i : Nat) :
    SlotMove price volume positions[i]? (positions.set slot q)[i]? := by
  by_cases hi : i = slot
  · have hlt : slot < positions.length := (List.getElem?_eq_some_iff.mp hp).1
    rw [hi, hp, List.getElem?_set_self hlt]
    exact hmove
  · rw [List.getElem?_set_ne (Ne.symm hi)]
    exact .kept _

theorem closeAgainst_move (price : Int) (nowNs : Nat) (spec : SymbolSpec) {p : Position} (hp : isClosed p = false)
    (hsize : 0 < p.volume) (hvolume : 0 < volume) :
    SlotMove price volume (some p) (some (Books.closeAgainst spec p price volume nowNs).2.2) := by
  have hresized := resized_closeAgainst spec price volume nowNs hp
  refine .reduced hp hresized.side ?_ ?_
  · intro hopen
    rw [hresized.working, decide_eq_false_iff_not] at hopen
    rw [hresized.volume]
    omega
  · unfold Books.closeAgainst
    exact (apply_ite Position.avgPriceTicks _ _ _).trans (ite_self _)

/-- A fresh ticket takes a vacant slot, and the others are as they were. -/
theorem Placed.getElem? {p : Position} {l l' : List Position} (h : Placed p l l') (i : Nat) :
    l'[i]? = l[i]? ∨ (l'[i]? = some p ∧ ∀ q, l[i]? = some q → isClosed q = true) := by
  cases h with
  | @reused l q r closed =>
    by_cases hi : i = l.length
    · refine .inr ⟨by rw [hi]; simp, ?_⟩
      intro q' hq'
      have hq : q' = q := by simpa [hi] using hq'.symm
      rw [hq]
      exact closed
    · left
      rcases Nat.lt_or_gt_of_ne hi with hlt | hgt
      · rw [List.getElem?_append_left hlt, List.getElem?_append_left hlt]
      · obtain ⟨n, rfl⟩ : ∃ n, i = l.length + (n + 1) := ⟨i - l.length - 1, by omega⟩
        rw [List.getElem?_append_right (by omega), List.getElem?_append_right (by omega), Nat.add_sub_cancel_left]
        rfl
  | appended =>
    by_cases hi : i = l.length
    · refine .inr ⟨by rw [hi]; simp, ?_⟩
      intro q hq
      rw [hi, List.getElem?_eq_none (Nat.le_refl _)] at hq
      cases hq
    · left
      rcases Nat.lt_or_gt_of_ne hi with hlt | hgt
      · exact List.getElem?_append_left hlt
      · rw [List.getElem?_eq_none (by simp; omega), List.getElem?_eq_none (by omega)]

theorem Placed.moves (volume : Int) {p : Position} {l l' : List Position} (h : Placed p l l') (hsize : 0 < p.volume)
    (i : Nat) : SlotMove p.avgPriceTicks volume l[i]? l'[i]? := by
  rcases h.getElem? i with hkept | ⟨hfresh, hclosed⟩
  · rw [hkept]
    exact .kept _
  · rw [hfresh]
    exact .opened (fun q hq => .inl (hclosed q hq)) hsize rfl

/-- A ticket that is flipped may leave its slot to the fresh one. -/
theorem Placed.flips {l l' : List Position} {p c q : Position} {slot : Nat} (hp : l[slot]? = some p)
    (hmove : SlotMove q.avgPriceTicks volume (some p) (some c)) (hside : p.side ≠ q.side) (hsize : 0 < q.volume)
    (h : Placed q (l.set slot c) l') (i : Nat) : SlotMove q.avgPriceTicks volume l[i]? l'[i]? := by
  rcases h.getElem? i with hkept | ⟨hfresh, hclosed⟩
  · rw [hkept]
    exact write_moves hp hmove i
  · rw [hfresh]
    refine .opened (fun r hr => ?_) hsize rfl
    by_cases hi : i = slot
    · rw [hi, hp] at hr
      cases hr
      exact .inr hside
    · rw [List.getElem?_set_ne (Ne.symm hi)] at hclosed
      exact .inl (hclosed r hr)

end Moves

namespace Books
variable (b : Books) (x : OrderSlot) (price : Int) {volume : Int} (nowNs : Nat)

/-- A fresh ticket has the price of the fill; a full book stays as it is. -/
theorem openFor_placed (o : Order) (size : Int) :
    (b.openFor o price size nowNs).1.positions = b.positions ∨
      ∃ q, Placed q b.positions.positions (b.openFor o price size nowNs).1.positions.positions ∧
        q.side = o.side ∧ q.volume = size ∧ q.avgPriceTicks = price := by
  unfold openFor PositionBook.openTicket
  dsimp only
  cases halloc : SlotTable.allocate isClosed maxPositions {} b.positions.positions with
  | none => exact .inl (clerical_halt _ .corruptedState).positions
  | some s => exact .inr ⟨_, (placed_allocate halloc _).1, rfl, rfl, rfl⟩

theorem openFor_moves (o : Order) (hvolume : 0 < volume) (i : Nat) :
    SlotMove price volume b.positions.positions[i]?
      (b.openFor o price volume nowNs).1.positions.positions[i]? := by
  rcases b.openFor_placed price nowNs o volume with hfull | ⟨q, hplaced, -, hsize, haverage⟩
  · rw [hfull]
    exact .kept _
  · have hmoves := hplaced.moves volume (by omega) i
    rwa [haverage] at hmoves

variable {b} (hvolume : 0 < volume)
include hvolume

theorem reduceTicket_moves (i : Nat) :
    SlotMove price volume b.positions.positions[i]?
      (b.reduceTicket x price volume nowNs).positions.positions[i]? := by
  unfold reduceTicket
  dsimp only
  cases hfind : b.findReducible x.order.symbolId x.order.side with
  | none =>
    dsimp only
    rw [(clerical_halt b .reduceOnlyNoPosition).positions]
    exact .kept _
  | some s =>
    obtain ⟨slot, p⟩ := s
    obtain ⟨hat, hp⟩ := SlotTable.getElem?_of_locate hfind
    simp only [Bool.and_eq_true, Bool.not_eq_true', decide_eq_true_eq] at hp
    exact write_moves hat (closeAgainst_move price nowNs _ hp.1.2 hp.2 hvolume) i

theorem hedgeTicket_moves (i : Nat) :
    SlotMove price volume b.positions.positions[i]?
      (b.hedgeTicket x price volume nowNs).1.positions.positions[i]? := by
  unfold hedgeTicket
  dsimp only
  cases hown : (if x.ticket ≠ 0 then b.positions.find x.ticket else none) with
  | none =>
    have hopen := b.openFor_moves price nowNs x.order hvolume i
    dsimp only
    split
    all_goals
      rename_i heq
      rw [heq] at hopen
      exact hopen
  | some s =>
    obtain ⟨slot, p⟩ := s
    have hfind : b.positions.find x.ticket = some (slot, p) := by
      split at hown
      · exact hown
      · cases hown
    obtain ⟨hat, hp⟩ := SlotTable.getElem?_of_locate hfind
    simp only [Bool.and_eq_true, Bool.not_eq_true'] at hp
    exact write_moves hat (.added hp.2) i

theorem netTicket_moves (hsound : SoundBook b.positions.positions) (i : Nat) :
    SlotMove price volume b.positions.positions[i]?
      (b.netTicket x price volume nowNs).positions.positions[i]? := by
  unfold netTicket
  dsimp only
  cases hfind : b.findSymbolPosition x.order.symbolId with
  | none =>
    have hopen := b.openFor_moves price nowNs x.order hvolume i
    dsimp only
    split
    all_goals
      rename_i heq
      rw [heq] at hopen
      exact hopen
  | some s =>
    obtain ⟨slot, p⟩ := s
    obtain ⟨hat, hp⟩ := SlotTable.getElem?_of_locate hfind
    simp only [Bool.and_eq_true, Bool.not_eq_true'] at hp
    dsimp only
    split
    · exact write_moves hat (.added hp.2) i
    · rename_i hside
      have hpsize : 0 < p.volume := hsound p (List.mem_of_getElem? hat) hp.2
      have hmove := closeAgainst_move price nowNs (b.specs x.order.symbolId) hp.2 hpsize hvolume
      split
      · rename_i hflip
        generalize closeAgainst (b.specs x.order.symbolId) p price volume nowNs = c at hmove hflip ⊢
        have hkept := write_moves hat hmove i
        rcases Books.openFor_placed { b.realize c.2.1 with positions := b.positions.write slot c.2.2 } price nowNs
          x.order (volume - c.1) with hfull | ⟨q, hplaced, hqside, hqsize, haverage⟩
        · split
          all_goals
            rename_i heq
            rw [heq] at hfull
          · exact hfull ▸ hkept
          · exact hfull ▸ hkept
        · have hside' : p.side ≠ q.side := hqside ▸ hside
          rw [← haverage] at hmove
          have hmoves := hplaced.flips hat hmove hside' (by omega) i
          rw [haverage] at hmoves
          split
          all_goals
            rename_i heq
            rw [heq] at hmoves
            exact hmoves
      · exact write_moves hat hmove i

theorem applyToPosition_moves (hsound : SoundBook b.positions.positions) (i : Nat) :
    SlotMove price volume b.positions.positions[i]?
      (b.applyToPosition x price volume nowNs).1.positions.positions[i]? := by
  unfold applyToPosition
  split_ifs
  · exact reduceTicket_moves x price nowNs hvolume i
  · exact hedgeTicket_moves x price nowNs hvolume i
  · exact netTicket_moves x price nowNs hvolume hsound i

theorem bookFill_moves (hsound : SoundBook b.positions.positions) (i : Nat) :
    SlotMove price volume b.positions.positions[i]?
      (b.bookFill x price volume nowNs).1.positions.positions[i]? :=
  applyToPosition_moves (b.filledSlot x price volume) price nowNs hvolume
    (b := b.charge (CommissionModel.chargeMinor (b.specs x.order.symbolId) volume)) hsound i

end Books

/-- A ticket that fills at these prices have made. -/
structure MadeOf (prices : List Int) (p : Position) : Prop where
  size : 0 < p.volume
  positive : ∀ price ∈ prices, 0 < price
  average : Between prices p.avgPriceTicks

theorem SlotMove.made {prices : List Int} {price volume : Int} {o o' : Option Position}
    (h : SlotMove price volume o o') (hprice : 0 < price) (hvolume : 0 < volume)
    (hmade : ∀ p, o = some p → isClosed p = false → MadeOf prices p) {q : Position} (hq : o' = some q)
    (hopen : isClosed q = false) : MadeOf (entered prices price o o') q := by
  cases h with
  | kept =>
    subst hq
    have hsame : entered prices price (some q) (some q) = prices := by simp [entered, hopen]
    rw [hsame]
    exact hmade q rfl hopen
  | @opened _ q' vacant size average =>
    cases hq
    have hfresh : entered prices price o (some q) = [price] := by
      cases o with
      | none => rfl
      | some p =>
        have hcase := vacant p rfl
        unfold entered
        exact if_pos (by simpa using hcase)
    rw [hfresh]
    refine ⟨size, List.forall_mem_singleton.mpr hprice, ?_⟩
    rw [average]
    exact ⟨⟨price, List.mem_singleton_self _, Int.le_refl _⟩, ⟨price, List.mem_singleton_self _, Int.le_refl _⟩⟩
  | @added p working =>
    have hp := hmade p rfl working
    have hsize := hp.size
    have hadd : PositionBook.add p volume price = { p with
        avgPriceTicks := roundedMean p.avgPriceTicks p.volume price volume, volume := p.volume + volume } := by
      unfold PositionBook.add roundedMean
      exact if_neg (by omega)
    rw [hadd] at hq ⊢
    cases hq
    have hmore : entered prices price (some p) (some { p with
        avgPriceTicks := roundedMean p.avgPriceTicks p.volume price volume, volume := p.volume + volume }) =
        prices ++ [price] := by
      unfold entered
      dsimp only
      rw [working, if_neg (by simp), if_pos (by omega)]
    rw [hmore]
    refine ⟨by dsimp only; omega, ?_, hp.average.mean hp.positive (by omega) hvolume hprice⟩
    rw [List.forall_mem_append, List.forall_mem_singleton]
    exact ⟨hp.positive, hprice⟩
  | @reduced p q' working side size average =>
    cases hq
    have hp := hmade p rfl working
    have hless : entered prices price (some p) (some q) = prices := by
      unfold entered
      dsimp only
      rw [working, side, if_neg (by simp), if_neg (by have := (size hopen).2; omega)]
    rw [hless]
    refine ⟨(size hopen).1, hp.positive, ?_⟩
    rw [average]
    exact hp.average

/-- The open tickets of the book are made of the fills that the history tells. -/
def BookMade (b : Books) : Prop :=
  ∀ i p, b.positions.positions[i]? = some p → isClosed p = false → MadeOf (entryPrices b.fills i) p

theorem BookMade.sound {b : Books} (h : BookMade b) : SoundBook b.positions.positions := by
  intro p hp hopen
  obtain ⟨i, hi⟩ := List.getElem?_of_mem hp
  exact (h i p hi hopen).size

/-- A fill of an order, in the books that the fills before have left. -/
def fillBooks (b : Books) (call : OrderSlot × Fill) : Books :=
  (b.applyFill call.1 call.2.priceTicks call.2.volume call.2.nowNs).1

theorem BookMade.fill {b : Books} (h : BookMade b) (x : OrderSlot) {f : Fill} (hf : f.Positive) :
    BookMade (fillBooks b (x, f)) := by
  have hframe := (Books.applyFill_frame b x f.priceTicks f.volume f.nowNs).1
  have hbooked := Books.booked_bookFill b x f.priceTicks f.volume f.nowNs
  unfold BookMade fillBooks
  dsimp only
  rw [hframe.positions, hframe.fills, hbooked.fills]
  intro i q hq hopen
  unfold entryPrices
  rw [List.foldl_append]
  have hmove := Books.bookFill_moves x f.priceTicks f.nowNs hf.2 h.sound i
  exact hmove.made hf.1 hf.2 (h i) hq hopen

/-- However many fills there are, the average of an order is between the prices of its fills, and that of
an open ticket between the prices of the fills that made it. -/
theorem averages_between :
    (∀ (x : OrderSlot) (calls : List (Books × Fill)), x.order.filledVolume = 0 → calls ≠ [] →
      (∀ call ∈ calls, call.2.Positive) →
        Between (calls.map fun call => call.2.priceTicks) (Runs.run fillOrder x calls).order.avgFillPriceTicks) ∧
    (∀ (b : Books) (calls : List (OrderSlot × Fill)), b.positions.positions = [] →
      (∀ call ∈ calls, call.2.Positive) → ∀ slot p,
        (Runs.run fillBooks b calls).positions.positions[slot]? = some p → isClosed p = false →
          Between (entryPrices (Runs.run fillBooks b calls).fills slot) p.avgPriceTicks) := by
  constructor
  · intro x calls hfresh hsome hpositive
    have hfilled : FilledAt [] x.order := ⟨nofun, .inl ⟨rfl, hfresh⟩⟩
    rcases (hfilled.fills hpositive).average with ⟨hnone, -⟩ | ⟨-, hbetween⟩
    · exact absurd (List.map_eq_nil_iff.mp hnone) hsome
    · exact hbetween
  · intro b calls hempty hpositive slot p hp hopen
    have hstart : BookMade b := by
      intro i q hq
      rw [hempty] at hq
      cases hq
    have hmade : BookMade (Runs.run fillBooks b calls) := by
      refine Runs.run_invariant (P := fun _ call => call.2.Positive) ?_ hstart ?_
      · intro c call hc hcall
        exact hc.fill call.1 hcall
      · exact Runs.along_of_forall fun call hcall _ => hpositive call hcall
    exact (hmade slot p hp hopen).average

def orderOf (side : Side) (volume : Int) : OrderSlot :=
  { order := { side := side, state := .sent, requestedVolume := volume } }

/-- A long bought in two fills, and a sale out of it. -/
def boughtTwice : List (OrderSlot × Fill) :=
  [(orderOf .buy 3, ⟨100, 2, 1⟩), (orderOf .buy 3, ⟨103, 1, 2⟩), (orderOf .sell 1, ⟨110, 1, 3⟩)]

theorem averages_between_bought_twice :
    let netted := (PaperBroker.new { hedging := false }).books
    let order := (Runs.run fillOrder (orderOf .buy 3) [(netted, ⟨100, 2, 1⟩), (netted, ⟨103, 1, 2⟩)]).order
    let books := Runs.run fillBooks netted boughtTwice
    order.avgFillPriceTicks = 101 ∧ Between [100, 103] order.avgFillPriceTicks ∧
    ∃ p ∈ books.positions.positions[0]?, p.avgPriceTicks = 101 ∧ entryPrices books.fills 0 = [100, 103] ∧
      Between (entryPrices books.fills 0) p.avgPriceTicks := by
  intro netted order books
  obtain ⟨horder, hbooks⟩ := averages_between
  refine ⟨by decide +kernel, ?_, ?_⟩
  · refine horder (orderOf .buy 3) [(netted, ⟨100, 2, 1⟩), (netted, ⟨103, 1, 2⟩)] rfl (List.cons_ne_nil _ _) ?_
    simp [Fill.Positive]
  · have hpositive : ∀ call ∈ boughtTwice, call.2.Positive := by simp [boughtTwice, Fill.Positive]
    cases hp : books.positions.positions[0]? with
    | none =>
      have hsome : books.positions.positions[0]?.isSome = true := by decide +kernel
      rw [hp] at hsome
      cases hsome
    | some p =>
      have hticket : ∀ q ∈ books.positions.positions, q.avgPriceTicks = 101 ∧ isClosed q = false := by
        decide +kernel
      obtain ⟨haverage, hopen⟩ := hticket p (List.mem_of_getElem? hp)
      exact ⟨p, rfl, haverage, by decide +kernel, hbooks netted boughtTwice rfl hpositive 0 p hp hopen⟩

end MicrostructureEngine.Exec
