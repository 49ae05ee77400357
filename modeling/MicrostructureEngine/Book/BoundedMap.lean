import MicrostructureEngine.Book.Ladders
import MicrostructureEngine.Lib.Runs

/-!
# The book as two bounded maps

A side of the book is a finite map from prices to levels, of which the best are kept. A delta sets
or removes one price there; a delta that is rejected changes nothing, and one that removes a price
that is not there clears the book.
-/

namespace MicrostructureEngine.Book

open Replay (SymbolLimits)
open Strategy (Level)

set_option autoImplicit false

/-- A side that is strictly best first, no deeper than allowed, and whose levels all have a size. -/
structure BoundedMap (side : Side) (levels : List Level) : Prop where
  sorted : BestFirstSide side levels
  sized : ∀ level ∈ levels, 0 < level.size
  bounded : levels.length ≤ maxBookDepth

theorem BoundedMap.nil (side : Side) : BoundedMap side [] := ⟨List.Pairwise.nil, nofun, Nat.zero_le _⟩

/-- The delta was applied, whatever the book then looks like. -/
def BookStatus.accepted (status : BookStatus) : Bool := status != .rejected && status != .rebaseRequired

namespace OrderBook
variable (b : OrderBook)

def levels (side : Side) : List Level := (b.ladder side).shown

def inRange (d : Delta) : Bool := b.limits.priceInRange d.price && b.limits.sizeInRange d.newSize

/-- The book after a delta, and after a list of them. -/
def applied (b : OrderBook) (d : Delta) : OrderBook := (b.applyDelta d).2

def run (b : OrderBook) (ds : List Delta) : OrderBook := Runs.run applied b ds

def Laddered (b : OrderBook) : Prop := ∀ side, BoundedMap side (b.levels side)

/-- What an accepted delta makes of its side. -/
def nextLevels (d : Delta) (levels : List Level) : List Level :=
  if d.effective = .remove then withoutLevel d.price levels
  else (putLevel d.side ⟨d.price, d.newSize⟩ levels).take maxBookDepth

/-! ## What one delta does -/

@[simp] theorem ladder_setLadder_self (side : Side) (l : Ladder) : (b.setLadder side l).ladder side = l := by
  cases side <;> rfl

theorem ladder_setLadder_of_ne {side other : Side} (h : other ≠ side) (l : Ladder) :
    (b.setLadder side l).ladder other = b.ladder other := by
  cases side <;> cases other <;> first | rfl | exact absurd rfl h

@[simp] theorem setLadder_limits (side : Side) (l : Ladder) : (b.setLadder side l).limits = b.limits := by
  cases side <;> rfl

@[simp] theorem setLadder_rebases (side : Side) (l : Ladder) : (b.setLadder side l).rebases = b.rebases := by
  cases side <;> rfl

/-- The book differs from another one in its counters only. -/
structure SameLevels (b c : OrderBook) : Prop where
  ladder : c.ladder = b.ladder
  limits : c.limits = b.limits
  rebases : c.rebases = b.rebases

theorem evaluateCrossed_keeps (tsNs : Nat) :
    (b.evaluateCrossed tsNs).1.accepted = true ∧ b.SameLevels (b.evaluateCrossed tsNs).2 := by
  unfold evaluateCrossed
  split
  · exact ⟨rfl, ⟨funext fun side => by cases side <;> rfl, rfl, rfl⟩⟩
  · dsimp only
    refine ⟨?_, ⟨funext fun side => ?_, ?_, ?_⟩⟩
    · exact (apply_ite BookStatus.accepted _ _ _).trans (ite_self _)
    · split <;> cases side <;> rfl
    · split <;> rfl
    · split <;> rfl

/-- The three things that can become of a delta. -/
inductive Applied (b : OrderBook) (d : Delta) : BookStatus → OrderBook → Prop
  | rejected {c : OrderBook} (range : b.inRange d = false) (same : b.SameLevels c) : Applied b d .rejected c
  | rebase {c : OrderBook} (range : b.inRange d = true) (removal : d.effective = .remove)
      (absent : levelAt (b.levels d.side) d.price = none) (cleared : ∀ side, c.levels side = [])
      (pending : c.rebasePending = true) (reference : c.rebaseNewRef = d.price)
      (rebases : c.rebases = b.rebases + 1) (limits : c.limits = b.limits) : Applied b d .rebaseRequired c
  | accepted {c : OrderBook} {status : BookStatus} (range : b.inRange d = true)
      (present : d.effective = .remove → levelAt (b.levels d.side) d.price ≠ none)
      (status_accepted : status.accepted = true) (side : c.levels d.side = nextLevels d (b.levels d.side))
      (other : ∀ side, side ≠ d.side → c.levels side = b.levels side) (rebases : c.rebases = b.rebases)
      (limits : c.limits = b.limits) : Applied b d status c

variable {b}

theorem applied_of_shown {d : Delta} {l : Ladder} {c : OrderBook} (range : b.inRange d = true)
    (present : d.effective = .remove → levelAt (b.levels d.side) d.price ≠ none)
    (hshown : l.shown = nextLevels d (b.levels d.side)) (hc : (b.setLadder d.side l).SameLevels c) :
    Applied b d (c.evaluateCrossed d.tsNs).1 (c.evaluateCrossed d.tsNs).2 := by
  obtain ⟨hstatus, hsame⟩ := c.evaluateCrossed_keeps d.tsNs
  have hladder : (c.evaluateCrossed d.tsNs).2.ladder = (b.setLadder d.side l).ladder := hsame.ladder.trans hc.ladder
  refine .accepted range present hstatus ?_ ?_ ?_ ?_
  · unfold levels
    rw [hladder, ladder_setLadder_self]
    exact hshown
  · intro side hside
    unfold levels
    rw [hladder, ladder_setLadder_of_ne b hside]
  · rw [hsame.rebases, hc.rebases, setLadder_rebases]
  · rw [hsame.limits, hc.limits, setLadder_limits]

/-- A level that is there is set in its place. -/
theorem Laddered.applied_resize (h : b.Laddered) {d : Delta} (range : b.inRange d = true)
    (hset : d.effective ≠ .remove) {index : Nat} (hfind : (b.ladder d.side).find d.price = some index) :
    let c := { b.setLadder d.side ((b.ladder d.side).resize index d.newSize) with updates := b.updates + 1 }
    Applied b d (c.evaluateCrossed d.tsNs).1 (c.evaluateCrossed d.tsNs).2 := by
  intro c
  have hs : BestFirstSide d.side (b.ladder d.side).shown := (h d.side).sorted
  have hfits : (putLevel d.side ⟨d.price, d.newSize⟩ (b.levels d.side)).length ≤ maxBookDepth := by
    have hlength := congrArg List.length (Ladder.resize_sets hs hfind d.newSize)
    have hbound := (h d.side).bounded
    unfold levels at hbound ⊢
    rw [Ladder.length_shown] at hlength hbound
    rw [← hlength]
    exact hbound
  refine applied_of_shown range (fun hremove => absurd hremove hset) ?_ ⟨funext fun side => ?_, rfl, rfl⟩
  · unfold nextLevels
    rw [if_neg hset, List.take_of_length_le hfits]
    exact Ladder.resize_sets hs hfind d.newSize
  · cases side <;> rfl

/-- A new level is inserted, or is worse than all that a full side has. -/
theorem Laddered.applied_insert (h : b.Laddered) {d : Delta} (range : b.inRange d = true)
    (hset : d.effective ≠ .remove) (hfind : (b.ladder d.side).find d.price = none) :
    let inserted := (b.ladder d.side).insertSorted d.side ⟨d.price, d.newSize⟩
    let kept := if inserted.1 then b.setLadder d.side inserted.2 else { b with outsideWindow := b.outsideWindow + 1 }
    let c := { kept with updates := kept.updates + 1 }
    Applied b d (c.evaluateCrossed d.tsNs).1 (c.evaluateCrossed d.tsNs).2 := by
  intro inserted kept c
  have hdepth : (b.ladder d.side).depth ≤ maxBookDepth := by
    rw [← Ladder.length_shown]
    exact (h d.side).bounded
  have hnew : levelAt (b.ladder d.side).shown (⟨d.price, d.newSize⟩ : Level).priceTicks = none :=
    Ladder.find_eq_none_iff.mp hfind
  obtain ⟨hin, hout⟩ := Ladder.insertSorted_puts d.side hnew hdepth
  have hnext : nextLevels d (b.levels d.side) =
      (putLevel d.side ⟨d.price, d.newSize⟩ (b.levels d.side)).take maxBookDepth := if_neg hset
  have hremove : d.effective = .remove → levelAt (b.levels d.side) d.price ≠ none := fun hremove => absurd hremove hset
  cases hinserted : inserted.1 with
  | true =>
    have hkept : kept = b.setLadder d.side inserted.2 := if_pos hinserted
    refine applied_of_shown range hremove ((hin hinserted).trans hnext.symm) ⟨?_, ?_, ?_⟩
    · rw [← hkept]
      funext side
      cases side <;> rfl
    · rw [← hkept]
    · rw [← hkept]
  | false =>
    -- The ladder is as it was, which is what the best of the levels would have been.
    have hkept : kept = { b with outsideWindow := b.outsideWindow + 1 } := if_neg (by simp [hinserted])
    refine applied_of_shown range hremove ((hout hinserted).2.2.trans hnext.symm) ⟨?_, ?_, ?_⟩
    · funext side
      show kept.ladder side = _
      rw [hkept]
      cases side <;> cases d.side <;> rfl
    · show kept.limits = _
      rw [hkept, setLadder_limits]
    · show kept.rebases = _
      rw [hkept, setLadder_rebases]

theorem Laddered.applies (h : b.Laddered) (d : Delta) : Applied b d (b.applyDelta d).1 (b.applyDelta d).2 := by
  have hs : BestFirstSide d.side (b.ladder d.side).shown := (h d.side).sorted
  unfold applyDelta
  by_cases hrange : b.inRange d = true
  · have hguard : ¬ (!b.limits.priceInRange d.price || !b.limits.sizeInRange d.newSize) = true := by
      unfold inRange at hrange
      rw [Bool.and_eq_true] at hrange
      rw [hrange.1, hrange.2]
      decide
    rw [if_neg hguard]
    dsimp only
    cases heffective : d.effective with
    | remove =>
      cases hfind : (b.ladder d.side).find d.price with
      | none =>
        refine .rebase hrange heffective (Ladder.find_eq_none_iff.mp hfind) ?_ rfl rfl rfl rfl
        intro side
        cases side <;> rfl
      | some index =>
        have hpresent : levelAt (b.levels d.side) d.price ≠ none := by
          intro habsent
          rw [Ladder.find_eq_none_iff.mpr habsent] at hfind
          cases hfind
        refine applied_of_shown hrange (fun _ => hpresent) ?_ ⟨funext fun side => ?_, rfl, rfl⟩
        · unfold nextLevels
          rw [if_pos heffective]
          exact Ladder.eraseAt_removes hs hfind
        · cases side <;> rfl
    | add =>
      have hset : d.effective ≠ .remove := by rw [heffective]; nofun
      cases hfind : (b.ladder d.side).find d.price with
      | none => exact h.applied_insert hrange hset hfind
      | some index => exact h.applied_resize hrange hset hfind
    | modify =>
      have hset : d.effective ≠ .remove := by rw [heffective]; nofun
      cases hfind : (b.ladder d.side).find d.price with
      | none => exact h.applied_insert hrange hset hfind
      | some index => exact h.applied_resize hrange hset hfind
  · have hguard : (!b.limits.priceInRange d.price || !b.limits.sizeInRange d.newSize) = true := by
      unfold inRange at hrange
      rw [Bool.not_eq_true] at hrange
      rw [← Bool.not_and, hrange]
      rfl
    rw [if_pos hguard]
    exact .rejected (by simpa using hrange) ⟨funext fun side => by cases side <;> rfl, rfl, rfl⟩

/-! ## Runs -/

theorem new_laddered (symbolId : Nat) (limits : SymbolLimits) (tolerance : CrossedTolerance) :
    (new symbolId limits tolerance).Laddered := by
  intro side
  cases side with
  | bid => exact BoundedMap.nil .bid
  | ask => exact BoundedMap.nil .ask

/-- A size that is in range and not a removal is positive. -/
theorem newSize_pos {d : Delta} (range : b.inRange d = true) (hset : d.effective ≠ .remove) : 0 < d.newSize := by
  unfold inRange SymbolLimits.sizeInRange at range
  simp only [Bool.and_eq_true, decide_eq_true_eq] at range
  have hzero : d.newSize ≠ 0 := by
    intro hzero
    exact hset (if_pos hzero)
  omega

theorem nextLevels_bounded {d : Delta} {levels : List Level} (h : BoundedMap d.side levels)
    (range : b.inRange d = true) : BoundedMap d.side (nextLevels d levels) := by
  unfold nextLevels
  split_ifs with hremove
  · refine ⟨h.sorted.without d.price, ?_, ?_⟩
    · intro level hlevel
      exact h.sized level (List.mem_of_mem_filter hlevel)
    · exact Nat.le_trans (List.length_filter_le _ _) h.bounded
  · refine ⟨(h.sorted.put (better_order d.side) _).take _, ?_, List.length_take_le _ _⟩
    intro level hlevel
    rcases BestFirst.mem_of_mem_put (List.mem_of_mem_take hlevel) with rfl | hold
    · exact newSize_pos range hremove
    · exact h.sized level hold

theorem Laddered.step (h : b.Laddered) (d : Delta) : (b.applied d).Laddered := by
  intro side
  unfold applied
  have happlied := h.applies d
  generalize (b.applyDelta d).1 = status, (b.applyDelta d).2 = c at happlied ⊢
  cases happlied with
  | rejected _ same =>
    unfold levels
    rw [same.ladder]
    exact h side
  | rebase _ _ _ cleared =>
    rw [cleared side]
    exact BoundedMap.nil side
  | accepted range _ _ own other =>
    by_cases hside : side = d.side
    · rw [hside, own]
      exact nextLevels_bounded (h d.side) range
    · rw [other side hside]
      exact h side

theorem run_laddered {b : OrderBook} (h : b.Laddered) (ds : List Delta) : (b.run ds).Laddered := by
  have hstep : ∀ (b : OrderBook) (d : Delta), b.Laddered → (applied b d).Laddered := fun _ d hb => hb.step d
  exact Runs.invariant_of_step hstep h ds

/-- Each side is a bounded map in every state. A delta that is out of range changes no level; a removal of
an absent price clears the book and asks for a rebase; any other removal leaves the side without the price,
and any other delta leaves the best of the map in which the price has the new size. -/
theorem applyDelta_refines (symbolId : Nat) (limits : SymbolLimits) (tolerance : CrossedTolerance)
    (ds : List Delta) (d : Delta) :
    let b := (new symbolId limits tolerance).run ds
    let result := b.applyDelta d
    let c := result.2
    (∀ side, BoundedMap side (c.levels side) ∧ ((c.levels side).map Level.priceTicks).Nodup) ∧
      (b.inRange d = false → result.1 = .rejected ∧ ∀ side, c.levels side = b.levels side) ∧
      (b.inRange d = true → d.effective = .remove → levelAt (b.levels d.side) d.price = none →
        result.1 = .rebaseRequired ∧ (∀ side, c.levels side = []) ∧ c.rebases = b.rebases + 1 ∧
          c.rebasePending = true ∧ c.rebaseNewRef = d.price) ∧
      (b.inRange d = true → ¬ (d.effective = .remove ∧ levelAt (b.levels d.side) d.price = none) →
        result.1.accepted = true ∧ (∀ side, side ≠ d.side → c.levels side = b.levels side) ∧
          (d.effective = .remove →
            c.levels d.side = (b.levels d.side).filter fun level => level.priceTicks != d.price) ∧
          (d.effective ≠ .remove →
            BestFirst.IsBest Level.priceTicks (Ladder.better d.side) maxBookDepth
              (Function.update (levelAt (b.levels d.side)) d.price (some ⟨d.price, d.newSize⟩))
              (c.levels d.side))) := by
  intro b result c
  have hb : b.Laddered := run_laddered (new_laddered symbolId limits tolerance) ds
  have hc : c.Laddered := hb.step d
  have happlied : Applied b d result.1 c := hb.applies d
  refine ⟨fun side => ⟨hc side, (hc side).sorted.nodup (better_order side)⟩, ?_⟩
  generalize result.1 = status at happlied ⊢
  generalize c = c at happlied ⊢
  cases happlied with
  | rejected range same =>
    refine ⟨fun _ => ⟨rfl, fun side => ?_⟩, ?_, ?_⟩
    · unfold levels
      rw [same.ladder]
    · intro htrue
      rw [range] at htrue
      cases htrue
    · intro htrue
      rw [range] at htrue
      cases htrue
  | rebase range removal absent cleared pending reference rebases =>
    refine ⟨?_, fun _ _ _ => ⟨rfl, cleared, rebases, pending, reference⟩, ?_⟩
    · intro hfalse
      rw [range] at hfalse
      cases hfalse
    · intro _ hnot
      exact absurd ⟨removal, absent⟩ hnot
  | accepted range present accepted own other =>
    refine ⟨?_, ?_, fun _ _ => ⟨accepted, other, ?_, ?_⟩⟩
    · intro hfalse
      rw [range] at hfalse
      cases hfalse
    · intro _ hremove habsent
      exact absurd habsent (present hremove)
    · intro hremove
      rw [own, nextLevels, if_pos hremove]
      rfl
    · intro hset
      rw [own, nextLevels, if_neg hset]
      exact BestFirst.isBest_put (better_order d.side) (hb d.side).sorted maxBookDepth ⟨d.price, d.newSize⟩

/-! ## Quotes

The replay loop keeps only the levels of its books, and a quote leaves one of them a side. -/

/-- The levels, as the strategies read them. -/
def view (b : OrderBook) : Strategy.OrderBook := ⟨b.levels .bid, b.levels .ask⟩

def quoted {α : Type} (b : OrderBook) (q : Replay.Quote α) : OrderBook :=
  (b.applyQuote q.bid q.ask q.bidSize q.askSize q.tsNs).2

/-- A quote shows the strategies what the replayed book shows them, whatever deltas came before. -/
theorem quoted_view {α : Type} (b : OrderBook) (q : Replay.Quote α) :
    (b.quoted q).view = Replay.applyQuote b.limits b.view q.bid q.ask q.bidSize q.askSize ∧
      (b.quoted q).limits = b.limits := by
  unfold quoted applyQuote Replay.applyQuote
  split_ifs
  · exact ⟨rfl, rfl⟩
  · exact ⟨rfl, rfl⟩
  · obtain ⟨-, hsame⟩ := evaluateCrossed_keeps
      { b with
        bids := ⟨Function.update b.bids.levels 0 ⟨q.bid, q.bidSize⟩, 1⟩
        asks := ⟨Function.update b.asks.levels 0 ⟨q.ask, q.askSize⟩, 1⟩
        updates := b.updates + 1 } q.tsNs
    refine ⟨?_, hsame.limits⟩
    unfold view levels
    rw [hsame.ladder]
    simp [ladder, Ladder.shown]

theorem quotes_view {α : Type} (b : OrderBook) (qs : List (Replay.Quote α)) :
    (Runs.run quoted b qs).view =
      Runs.run (fun v q => Replay.applyQuote b.limits v q.bid q.ask q.bidSize q.askSize) b.view qs := by
  induction qs generalizing b with
  | nil => rfl
  | cons q qs ih =>
    obtain ⟨hview, hlimits⟩ := b.quoted_view q
    rw [Runs.run_cons, Runs.run_cons, ih, hview, hlimits]

end OrderBook

end MicrostructureEngine.Book
