import MicrostructureEngine.Exec.FillConservation

/-!
# Orders that only reduce

`submit` compares a `reduce_only` order with the position of that moment and nothing does so
again. With hedging the fill takes the path that only reduces. With netting it takes the path
of every other order: whatever happened to the position in between, it may add to the
position, turn it around or open one.
-/

namespace MicrostructureEngine.Exec

set_option autoImplicit false

/-- Every ticket open afterwards was open before under the same number and terms, with at least
its volume. -/
def NoneGrows (book book' : List Position) : Prop :=
  ∀ q ∈ book', isClosed q = false → ∃ p ∈ book, isClosed p = false ∧
    q.positionTicket = p.positionTicket ∧ q.symbolId = p.symbolId ∧ q.side = p.side ∧
    q.volume ≤ p.volume

theorem NoneGrows.refl (book : List Position) : NoneGrows book book :=
  fun q hq hopen => ⟨q, hq, hopen, rfl, rfl, rfl, Int.le_refl _⟩

theorem noneGrows_resized {l r : List Position} {p p' : Position} {size : Int}
    (hp : isClosed p = false) (h : Resized p p' size) (hle : size ≤ p.volume) :
    NoneGrows (l ++ p :: r) (l ++ p' :: r) := by
  intro q hq hopen
  rcases List.mem_append.mp hq with hq | hq
  · exact NoneGrows.refl _ q (List.mem_append_left _ hq) hopen
  · rcases List.mem_cons.mp hq with rfl | hq
    · exact ⟨p, by simp, hp, h.ticket, h.symbolId, h.side, h.volume ▸ hle⟩
    · exact NoneGrows.refl _ q (List.mem_append_right _ (List.mem_cons_of_mem _ hq)) hopen

namespace Intent

/-- An open position of the symbol goes against the order and is at least as large as the fill. -/
def Against (i : Intent) (book : List Position) : Prop :=
  ∃ p ∈ book, isClosed p = false ∧ p.symbolId = i.symbolId ∧ p.side ≠ i.side ∧ i.volume ≤ p.volume

/-- No position of the symbol is open, and no slot is left to open one in. -/
def Unbookable (i : Intent) (book : List Position) : Prop :=
  (∀ p ∈ book, isClosed p = false ∧ p.symbolId ≠ i.symbolId) ∧ maxPositions ≤ book.length

end Intent

def NetsKept (book book' : List Position) : Prop :=
  ∀ s, (netOf book' s).natAbs ≤ (netOf book s).natAbs

/-! ## One ticket a symbol -/

theorem OnePerSymbol.unique {l r : List Position} {p q : Position} (h : OnePerSymbol (l ++ p :: r))
    (hp : isClosed p = false) (hq : q ∈ l ++ p :: r) (hopen : isClosed q = false)
    (hs : q.symbolId = p.symbolId) : q = p := by
  by_contra hne
  have hmem : q ∈ l ++ r := by
    simp only [List.mem_append, List.mem_cons] at hq ⊢
    tauto
  exact h.only hp q hmem hopen hs

theorem netOf_eq_zero {book : List Position} {symbolId : Nat}
    (h : ∀ p ∈ book, isClosed p = false → p.symbolId ≠ symbolId) : netOf book symbolId = 0 := by
  unfold netOf
  apply List.sum_eq_zero
  intro v hv
  obtain ⟨p, hp, rfl⟩ := List.mem_map.mp hv
  unfold signedVolume
  rw [if_pos]
  cases hclosed : isClosed p with
  | true => exact Or.inr rfl
  | false => exact Or.inl (h p hp hclosed)

theorem netOf_single {l r : List Position} {p : Position} (h : OnePerSymbol (l ++ p :: r))
    (hp : isClosed p = false) :
    netOf (l ++ p :: r) p.symbolId = sidedVolume p.symbolId p p.volume := by
  rw [netOf_split, netOf_eq_zero (h.only hp), signedVolume_of_working hp, Int.zero_add]

theorem natAbs_sidedVolume (p : Position) (size : Int) :
    (sidedVolume p.symbolId p size).natAbs = size.natAbs := by
  unfold sidedVolume
  rw [if_pos rfl]
  split
  · rfl
  · exact Int.natAbs_neg size

/-! ## The two modes -/

namespace Booking

variable {i : Intent} {t t' : Tickets}

theorem noneGrows_of_reduces (h : Booking i t t') (hvolume : 0 < i.volume) (hmode : i.reduces = true) :
    NoneGrows t.book t'.book := by
  have hhedging : i.hedging = true := by
    unfold Intent.reduces at hmode
    exact (Bool.and_eq_true_iff.mp hmode).1
  cases h with
  | unreducible => exact NoneGrows.refl _
  | reduced mode found first resized =>
    apply noneGrows_resized found.working resized
    have hpositive := found.volume
    omega
  | full mode | opened mode | added mode =>
    rw [hmode] at mode
    cases mode
  | netted mode | flipped mode =>
    rw [hhedging] at mode
    cases mode

/-- With netting nothing grows exactly when the fill goes against a position that covers it, or
finds no position and no room for one. -/
theorem netting_iff (h : Booking i t t') (hvolume : 0 < i.volume) (hnetting : i.hedging = false)
    (hsound : SoundBook t.book) (hone : OnePerSymbol t.book) :
    NetsKept t.book t'.book ∧ NoneGrows t.book t'.book ↔ i.Against t.book ∨ i.Unbookable t.book := by
  have hentry : i.reduces = false := by simp [Intent.reduces, hnetting]
  have htargets : ∀ (own : UInt64) (p : Position), i.Targets own p ↔
      isClosed p = false ∧ p.symbolId = i.symbolId := by
    intro own p
    unfold Intent.Targets
    simp [hnetting]
  cases h with
  | unreducible mode | reduced mode =>
    rw [hentry] at mode
    cases mode
  | full mode untargeted occupied limit =>
    refine ⟨fun _ => Or.inr ⟨fun p hp => ⟨occupied p hp, fun hs => ?_⟩, limit⟩, fun _ => ?_⟩
    · exact untargeted p hp ((htargets _ p).mpr ⟨occupied p hp, hs⟩)
    · exact ⟨fun s => Nat.le_refl _, NoneGrows.refl _⟩
  | @opened t p book mode untargeted fresh placed =>
    have hnone : ∀ q ∈ t.book, isClosed q = false → q.symbolId ≠ i.symbolId :=
      fun q hq hopen hs => untargeted q hq ((htargets _ q).mpr ⟨hopen, hs⟩)
    constructor
    · intro hkept
      have hself := hkept.1 i.symbolId
      rw [netOf_placed placed, netOf_eq_zero hnone, signedVolume_fresh fresh, signed_self] at hself
      dsimp only at hself
      split at hself <;> omega
    · rintro (⟨q, hq, hopen, hs, -, -⟩ | ⟨hoccupied, hlimit⟩)
      · exact absurd hs (hnone q hq hopen)
      · rcases placed.room with ⟨q, hq, hclosed⟩ | hroom
        · rw [(hoccupied q hq).1] at hclosed
          cases hclosed
        · omega
  | @added l r p p' seq own mode found first side resized =>
    have hpositive := hsound p (by simp) found.1
    have hr := resized (Int.add_pos hpositive hvolume)
    obtain ⟨hopen, hs⟩ := (htargets own p).mp found
    constructor
    · intro hkept
      exfalso
      have hopen' : isClosed p' = false := by
        rw [hr.working]
        exact decide_eq_false (by omega)
      obtain ⟨q, hq, hqopen, -, hqs, -, hle⟩ := hkept.2 p' (by simp) hopen'
      rw [hone.unique hopen hq hqopen (hqs.symm.trans hr.symbolId), hr.volume] at hle
      omega
    · rintro (⟨q, hq, hqopen, hqs, hqside, -⟩ | ⟨hoccupied, -⟩)
      · rw [hone.unique hopen hq hqopen (hqs.trans hs.symm)] at hqside
        exact absurd (side hnetting) hqside
      · exact absurd hs (hoccupied p (by simp)).2
  | @netted l r p p' seq own mode found first side covered resized =>
    obtain ⟨hopen, hs⟩ := (htargets own p).mp found
    refine ⟨fun _ => Or.inl ⟨p, by simp, hopen, hs, side, covered⟩, fun _ => ⟨fun s => ?_, ?_⟩⟩
    · dsimp only
      rw [netOf_resized hopen resized]
      by_cases hsymbol : p.symbolId = s
      · rw [← hsymbol, netOf_single hone hopen, Int.sub_self, Int.zero_add, natAbs_sidedVolume,
          natAbs_sidedVolume]
        omega
      · have hzero : ∀ size, sidedVolume s p size = 0 := fun size => if_neg hsymbol
        rw [hzero, hzero, Int.sub_zero, Int.add_zero]
    · exact noneGrows_resized hopen resized (by omega)
  | @flipped l r book p p' q seq own mode found first side exceeded resized fresh placed =>
    obtain ⟨hopen, hs⟩ := (htargets own p).mp found
    constructor
    · intro hkept
      exfalso
      obtain ⟨p₀, hp₀, hopen₀, -, hs₀, hside₀, -⟩ := hkept.2 q placed.mem fresh.working
      have hsame := hone.unique hopen hp₀ hopen₀ (hs₀.symm.trans (fresh.symbolId.trans hs.symm))
      rw [hsame, fresh.side] at hside₀
      exact side hside₀.symm
    · rintro (⟨p₀, hp₀, hopen₀, hs₀, -, hle⟩ | ⟨hoccupied, -⟩)
      · rw [hone.unique hopen hp₀ hopen₀ (hs₀.trans hs.symm)] at hle
        omega
      · exact absurd hs (hoccupied p (by simp)).2

end Booking

/-! ## Runs -/

/-- The fill neither raises a net volume that is netted, nor opens a ticket or lets one grow. -/
structure FillEvent.NoIncrease (hedging : Bool) (f : FillEvent) : Prop where
  net : hedging = false → ∀ s, (f.after.netVolume s).natAbs ≤ (f.before.netVolume s).natAbs
  tickets : NoneGrows f.before.positions f.after.positions

theorem Genuine.noIncrease_iff {hedging : Bool} {f : FillEvent} (h : Genuine hedging f)
    (hreduce : f.slot.order.reduceOnly = true) :
    f.NoIncrease hedging ↔ hedging = true ∨
      (f.intent hedging).Against f.before.positions ∨ (f.intent hedging).Unbookable f.before.positions := by
  obtain ⟨seq, own, hbooking⟩ := h.booking
  cases hedging with
  | true =>
    have htickets := hbooking.noneGrows_of_reduces h.volume_pos hreduce
    exact ⟨fun _ => Or.inl rfl, fun _ => ⟨fun hnetting => absurd hnetting (by decide), htickets⟩⟩
  | false =>
    have hiff := hbooking.netting_iff h.volume_pos rfl h.sound (h.single rfl)
    constructor
    · intro hkept
      exact Or.inr (hiff.mp ⟨hkept.net rfl, hkept.tickets⟩)
    · intro hcondition
      obtain ⟨hnets, htickets⟩ := hiff.mpr (hcondition.resolve_left (by decide))
      exact ⟨fun _ => hnets, htickets⟩

namespace PaperBroker

/-- In every run a fill of a `reduce_only` order increases nothing exactly when the broker hedges,
or an open position of the symbol goes against the order and covers the fill, or there is no
position and no room for one. -/
theorem reduce_only_iff (config : BrokerConfig) (actions : List Action) (f : FillEvent)
    (hf : f ∈ (after config actions).books.fills) (hreduce : f.slot.order.reduceOnly = true) :
    f.NoIncrease config.hedging ↔ config.hedging = true ∨
      (f.intent config.hedging).Against f.before.positions ∨
      (f.intent config.hedging).Unbookable f.before.positions := by
  have hgenuine := (history_after config actions).genuine f hf
  rw [after_config] at hgenuine
  exact hgenuine.noIncrease_iff hreduce

/-- A long position of two lots, and a `reduce_only` order that sells them. -/
def closedLong : List Action :=
  [.onQuote 0 100 102 0 0 1, .submit { volume := 2 } 1, .onQuote 0 100 102 0 0 1000000000,
    .submit { volume := 2, side := .sell, reduceOnly := true, seqGlobal := 1 } 1000000000,
    .onQuote 0 100 102 0 0 2000000000]

theorem reduce_only_closed_long :
    ∃ f ∈ (after { hedging := false, initialBalanceMinor := 1000000 } closedLong).books.fills,
      f.slot.order.reduceOnly = true ∧ f.NoIncrease false := by
  have hfill : ∃ f ∈ (after { hedging := false, initialBalanceMinor := 1000000 } closedLong).books.fills,
      f.slot.order.reduceOnly = true ∧ ∃ p ∈ f.before.positions, isClosed p = false ∧
        p.symbolId = f.slot.order.symbolId ∧ p.side ≠ f.slot.order.side ∧ f.volume ≤ p.volume := by
    decide +kernel
  obtain ⟨f, hf, hreduce, hagainst⟩ := hfill
  refine ⟨f, hf, hreduce, ?_⟩
  exact (reduce_only_iff { hedging := false, initialBalanceMinor := 1000000 } closedLong f hf
    hreduce).mpr (Or.inr (Or.inl hagainst))

/-- Two `reduce_only` orders that were both admitted against the same long position. -/
def closedTwice : List Action :=
  [.onQuote 0 100 102 0 0 1, .submit { volume := 2 } 1, .onQuote 0 100 102 0 0 1000000000,
    .submit { volume := 2, side := .sell, reduceOnly := true, seqGlobal := 1 } 1000000000,
    .submit { volume := 2, side := .sell, reduceOnly := true, seqGlobal := 2 } 1000000000,
    .onQuote 0 100 102 0 0 2000000000]

theorem reduce_only_opens_short :
    ∃ f ∈ (after { hedging := false, initialBalanceMinor := 1000000 } closedTwice).books.fills,
      f.slot.order.reduceOnly = true ∧ ¬ f.NoIncrease false := by
  have hfill : ∃ f ∈ (after { hedging := false, initialBalanceMinor := 1000000 } closedTwice).books.fills,
      f.slot.order.reduceOnly = true ∧
        ¬ (f.after.netVolume 0).natAbs ≤ (f.before.netVolume 0).natAbs := by decide +kernel
  obtain ⟨f, hf, hreduce, hgrown⟩ := hfill
  exact ⟨f, hf, hreduce, fun hkept => hgrown (hkept.net rfl 0)⟩

end PaperBroker

end MicrostructureEngine.Exec
