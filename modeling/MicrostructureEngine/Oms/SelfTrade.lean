import MicrostructureEngine.Lib.Probing
import MicrostructureEngine.Lib.Runs
import MicrostructureEngine.Risk.Engine

/-!
# Self-trade prevention

`SelfTradeTracker` keeps one net volume and one owner for each venue and symbol. Beside it
runs the position of every strategy. The two agree as long as a position that several
strategies have built is not traded against: the owner of an entry is only the last
strategy that traded, and the tracker lets it take the other side of all of them.
-/

namespace MicrostructureEngine

open Probing
set_option autoImplicit false

/-- The net volume is an int64 in the source, as the order volumes it sums; it is exact here. -/
structure SelfTradeEntry where
  used : Bool := false
  venue : UInt64 := 0
  symbol : Nat := 0
  owner : UInt32 := 0
  netVolume : Int := 0
  deriving DecidableEq, Repr, Inhabited

structure SelfTradeTracker where
  allowCrossStrategyOpposition : Bool
  capacity : Nat := 256
  entries : Nat → SelfTradeEntry := fun _ => {}

namespace SelfTradeTracker

/-- The entry of a venue and symbol. -/
def findEntry (t : SelfTradeTracker) (venue : UInt64) (symbol : Nat) : Option Nat :=
  scan t.capacity fun i =>
    let e := t.entries i
    if e.used = true ∧ e.venue = venue ∧ e.symbol = symbol then some i else none

def freeEntry (t : SelfTradeTracker) : Option Nat :=
  scan t.capacity fun i => if (t.entries i).used = false then some i else none

def setEntry (t : SelfTradeTracker) (i : Nat) (e : SelfTradeEntry) : SelfTradeTracker :=
  { t with entries := Function.update t.entries i e }

/-- `find_or_create`: a matching entry, else the first free slot, marked as used. -/
def findOrCreate (t : SelfTradeTracker) (venue : UInt64) (symbol : Nat) :
    Option Nat × SelfTradeTracker :=
  match t.findEntry venue symbol with
  | some i => (some i, t)
  | none =>
    match t.freeEntry with
    | some i =>
      (some i, t.setEntry i { t.entries i with used := true, venue := venue, symbol := symbol })
    | none => (none, t)

/-- With every slot taken the call is let through untracked. -/
def checkAndApply (t : SelfTradeTracker) (venue : UInt64) (symbol : Nat) (strategy : UInt32)
    (side : Side) (volume : Int) : Bool × SelfTradeTracker :=
  match t.findOrCreate venue symbol with
  | (none, t) => (true, t)
  | (some i, t) =>
    let e := t.entries i
    if Risk.selfTradeOk true t.allowCrossStrategyOpposition e.owner.toNat strategy.toNat
        e.netVolume side then
      (true, t.setEntry i { e with
        netVolume := e.netVolume + (if side = .buy then volume else -volume)
        owner := strategy })
    else (false, t)

/-- The tracked position of a venue and symbol; none tracked is a net of zero. -/
def tracked (t : SelfTradeTracker) (venue : UInt64) (symbol : Nat) : UInt32 × Int :=
  match t.findEntry venue symbol with
  | some i => ((t.entries i).owner, (t.entries i).netVolume)
  | none => (0, 0)

/-- Entries are found where they are, and free slots are blank. -/
structure Inv (t : SelfTradeTracker) : Prop where
  single : ∀ i < t.capacity, ∀ j < t.capacity, (t.entries i).used = true → (t.entries j).used = true →
    (t.entries i).venue = (t.entries j).venue → (t.entries i).symbol = (t.entries j).symbol → i = j
  blank : ∀ i < t.capacity, (t.entries i).used = false →
    (t.entries i).owner = 0 ∧ (t.entries i).netVolume = 0

theorem inv_fresh (allow : Bool) (capacity : Nat) :
    Inv { allowCrossStrategyOpposition := allow, capacity := capacity } := by
  refine ⟨?_, fun _ _ _ => ⟨rfl, rfl⟩⟩
  intro i _ j _ hu
  cases hu

theorem findEntry_eq_some {t : SelfTradeTracker} {venue : UInt64} {symbol i : Nat}
    (h : t.findEntry venue symbol = some i) :
    i < t.capacity ∧ (t.entries i).used = true ∧ (t.entries i).venue = venue ∧
      (t.entries i).symbol = symbol := by
  obtain ⟨k, hk, hhit, _⟩ := scan_eq_some_iff.mp h
  dsimp only at hhit
  split at hhit
  · rename_i he
    obtain rfl := Option.some.inj hhit
    exact ⟨hk, he⟩
  · cases hhit

theorem Inv.findEntry_eq {t : SelfTradeTracker} (h : t.Inv) {venue : UInt64} {symbol i : Nat}
    (hi : i < t.capacity) (hused : (t.entries i).used = true) (hv : (t.entries i).venue = venue)
    (hs : (t.entries i).symbol = symbol) : t.findEntry venue symbol = some i := by
  cases hf : t.findEntry venue symbol with
  | none =>
    have := scan_eq_none_iff.mp hf i hi
    simp [hused, hv, hs] at this
  | some j =>
    obtain ⟨hj, hjused, hjv, hjs⟩ := findEntry_eq_some hf
    rw [h.single j hj i hi hjused hused (hjv.trans hv.symm) (hjs.trans hs.symm)]

theorem freeEntry_eq_some {t : SelfTradeTracker} {i : Nat} (h : t.freeEntry = some i) :
    i < t.capacity ∧ (t.entries i).used = false := by
  obtain ⟨k, hk, hhit, _⟩ := scan_eq_some_iff.mp h
  split at hhit
  · rename_i he
    obtain rfl := Option.some.inj hhit
    exact ⟨hk, he⟩
  · cases hhit

/-- Writing an entry for a pair that no other slot is used for. -/
theorem Inv.setEntry {t : SelfTradeTracker} (h : t.Inv) {i : Nat} {e : SelfTradeEntry}
    (hused : e.used = true)
    (hother : ∀ j < t.capacity, j ≠ i → (t.entries j).used = true →
      ¬ ((t.entries j).venue = e.venue ∧ (t.entries j).symbol = e.symbol)) :
    (t.setEntry i e).Inv := by
  refine ⟨?_, ?_⟩
  · intro j hj k hk hju hku hv hs
    simp only [SelfTradeTracker.setEntry] at hj hk hju hku hv hs
    by_cases hji : j = i <;> by_cases hki : k = i
    · rw [hji, hki]
    · subst hji
      rw [Function.update_of_ne hki] at hku hv hs
      rw [Function.update_self] at hv hs
      exact absurd ⟨hv.symm, hs.symm⟩ (hother k hk hki hku)
    · subst hki
      rw [Function.update_of_ne hji] at hju hv hs
      rw [Function.update_self] at hv hs
      exact absurd ⟨hv, hs⟩ (hother j hj hji hju)
    · rw [Function.update_of_ne hji] at hju hv hs
      rw [Function.update_of_ne hki] at hku hv hs
      exact h.single j hj k hk hju hku hv hs
  · intro j hj hju
    simp only [SelfTradeTracker.setEntry] at hj hju ⊢
    by_cases hji : j = i
    · subst hji
      rw [Function.update_self, hused] at hju
      cases hju
    · rw [Function.update_of_ne hji] at hju ⊢
      exact h.blank j hj hju

/-- The slot is free or already belongs to the pair that is written into it. -/
def Free (t : SelfTradeTracker) (i : Nat) (venue : UInt64) (symbol : Nat) : Prop :=
  i < t.capacity ∧ ((t.entries i).used = true →
    (t.entries i).venue = venue ∧ (t.entries i).symbol = symbol)

theorem Inv.tracked_setEntry {t : SelfTradeTracker} {i : Nat} {e : SelfTradeEntry}
    (h : (t.setEntry i e).Inv) (hfree : t.Free i e.venue e.symbol) (hused : e.used = true)
    (venue : UInt64) (symbol : Nat) :
    (t.setEntry i e).tracked venue symbol =
      if venue = e.venue ∧ symbol = e.symbol then (e.owner, e.netVolume)
      else t.tracked venue symbol := by
  split
  · rename_i hpair
    have hat : (t.setEntry i e).entries i = e := by simp [SelfTradeTracker.setEntry]
    have hfind : (t.setEntry i e).findEntry venue symbol = some i := by
      refine h.findEntry_eq hfree.1 ?_ ?_ ?_ <;> rw [hat]
      · exact hused
      · exact hpair.1.symm
      · exact hpair.2.symm
    simp only [tracked, hfind, hat]
  · rename_i hpair
    -- no slot matches another pair before or after the write
    have hfind : (t.setEntry i e).findEntry venue symbol = t.findEntry venue symbol := by
      unfold findEntry SelfTradeTracker.setEntry
      congr 1
      funext j
      by_cases hj : j = i
      · subst hj
        have hold : ¬ ((t.entries j).used = true ∧ (t.entries j).venue = venue ∧
            (t.entries j).symbol = symbol) := by
          rintro ⟨hu, rfl, rfl⟩
          exact hpair (hfree.2 hu)
        have hnew : ¬ (e.used = true ∧ e.venue = venue ∧ e.symbol = symbol) := by
          rintro ⟨_, rfl, rfl⟩
          exact hpair ⟨rfl, rfl⟩
        simp [hold, hnew]
      · simp [Function.update_of_ne hj]
    unfold tracked
    rw [hfind]
    cases hf : t.findEntry venue symbol with
    | none => rfl
    | some j =>
      have hj : j ≠ i := by
        rintro rfl
        obtain ⟨_, hu, hv, hs⟩ := findEntry_eq_some hf
        obtain ⟨hv', hs'⟩ := hfree.2 hu
        exact hpair ⟨hv.symm.trans hv', hs.symm.trans hs'⟩
      simp only [SelfTradeTracker.setEntry, Function.update_of_ne hj]

/-- `find_or_create` keeps every tracked position and returns the slot of its pair. -/
theorem Inv.findOrCreate {t : SelfTradeTracker} (h : t.Inv) (venue : UInt64) (symbol : Nat) {i : Nat}
    (hi : (t.findOrCreate venue symbol).1 = some i) :
    let t' := (t.findOrCreate venue symbol).2
    t'.Inv ∧ i < t'.capacity ∧ (t'.entries i).used = true ∧ (t'.entries i).venue = venue ∧
      (t'.entries i).symbol = symbol ∧ t'.tracked = t.tracked ∧
      t'.allowCrossStrategyOpposition = t.allowCrossStrategyOpposition ∧ t'.capacity = t.capacity := by
  cases hf : t.findEntry venue symbol with
  | some j =>
    have heq : t.findOrCreate venue symbol = (some j, t) := by
      simp only [SelfTradeTracker.findOrCreate, hf]
    rw [heq] at hi ⊢
    obtain rfl := Option.some.inj hi
    obtain ⟨hlt, hu, hv, hs⟩ := findEntry_eq_some hf
    exact ⟨h, hlt, hu, hv, hs, rfl, rfl, rfl⟩
  | none =>
    have hnone : ∀ j < t.capacity, (t.entries j).used = true →
        ¬ ((t.entries j).venue = venue ∧ (t.entries j).symbol = symbol) := by
      rintro j hj hu ⟨hv, hs⟩
      rw [h.findEntry_eq hj hu hv hs] at hf
      cases hf
    cases hfree : t.freeEntry with
    | none =>
      have heq : t.findOrCreate venue symbol = (none, t) := by
        simp only [SelfTradeTracker.findOrCreate, hf, hfree]
      rw [heq] at hi
      cases hi
    | some j =>
      have heq : t.findOrCreate venue symbol = (some j, t.setEntry j
          { t.entries j with used := true, venue := venue, symbol := symbol }) := by
        simp only [SelfTradeTracker.findOrCreate, hf, hfree]
      rw [heq] at hi ⊢
      obtain rfl := Option.some.inj hi
      obtain ⟨hj, hju⟩ := freeEntry_eq_some hfree
      have hinv := h.setEntry (i := j)
        (e := { t.entries j with used := true, venue := venue, symbol := symbol }) rfl
        (fun k hk _ hku => hnone k hk hku)
      have hslot : t.Free j venue symbol := ⟨hj, fun hu => by rw [hju] at hu; cases hu⟩
      refine ⟨hinv, hj, ?_, ?_, ?_, ?_, rfl, rfl⟩
      · simp [SelfTradeTracker.setEntry]
      · simp [SelfTradeTracker.setEntry]
      · simp [SelfTradeTracker.setEntry]
      · funext v s
        rw [hinv.tracked_setEntry hslot rfl]
        split
        · rename_i hpair
          obtain ⟨rfl, rfl⟩ := hpair
          obtain ⟨howner, hnet⟩ := h.blank j hj hju
          simp only [tracked, hf, howner, hnet]
        · rfl

theorem findOrCreate_none {t : SelfTradeTracker} {venue : UInt64} {symbol : Nat}
    (h : (t.findOrCreate venue symbol).1 = none) : t.findOrCreate venue symbol = (none, t) := by
  unfold SelfTradeTracker.findOrCreate at h ⊢
  split at h
  · cases h
  · split at h
    · cases h
    · rfl

def signedVolume (side : Side) (volume : Int) : Int :=
  if side = .buy then volume else -volume

/-- A call on the side of the tracked net. -/
def WithNet (net : Int) (side : Side) : Prop :=
  (0 < net ∧ side = .buy) ∨ (net < 0 ∧ side = .sell)

/-- `self_trade_ok` where opposition is not permitted. -/
def Passes (position : UInt32 × Int) (strategy : UInt32) (side : Side) : Prop :=
  position.2 = 0 ∨ position.1 = strategy ∨ WithNet position.2 side

instance (net : Int) (side : Side) : Decidable (WithNet net side) :=
  inferInstanceAs (Decidable (_ ∨ _))

instance (position : UInt32 × Int) (strategy : UInt32) (side : Side) :
    Decidable (Passes position strategy side) :=
  inferInstanceAs (Decidable (_ ∨ _))

theorem selfTradeOk_eq_true_iff (owner strategy : UInt32) (net : Int) (side : Side) :
    Risk.selfTradeOk true false owner.toNat strategy.toNat net side = true ↔
      Passes (owner, net) strategy side := by
  have howner : owner.toNat = strategy.toNat ↔ owner = strategy := UInt32.toNat_inj
  simp only [Risk.selfTradeOk, Passes, WithNet]
  by_cases hzero : net = 0
  · simp [hzero]
  · by_cases heq : owner = strategy
    · simp [heq]
    · simp [hzero, heq, howner]

/-- Blocked or without a slot, a call leaves every tracked position; let through with a slot,
it moves the position of its pair and takes it over. -/
theorem Inv.checkAndApply_spec {t : SelfTradeTracker} (h : t.Inv) (venue : UInt64) (symbol : Nat)
    (strategy : UInt32) (side : Side) (volume : Int) :
    let r := t.checkAndApply venue symbol strategy side volume
    let ok := Risk.selfTradeOk true t.allowCrossStrategyOpposition
      (t.tracked venue symbol).1.toNat strategy.toNat (t.tracked venue symbol).2 side
    (r.2.Inv ∧ r.2.allowCrossStrategyOpposition = t.allowCrossStrategyOpposition) ∧
      ((r.1 = true ∧ (t.findOrCreate venue symbol).1 = none ∧ r.2.tracked = t.tracked) ∨
      (r.1 = true ∧ (t.findOrCreate venue symbol).1 ≠ none ∧ ok = true ∧
        ∀ v s, r.2.tracked v s = if v = venue ∧ s = symbol then
          (strategy, (t.tracked venue symbol).2 + signedVolume side volume) else t.tracked v s) ∨
      (r.1 = false ∧ ok = false ∧ r.2.tracked = t.tracked)) := by
  cases hi : (t.findOrCreate venue symbol).1 with
  | none =>
    have heq := findOrCreate_none hi
    simp only [checkAndApply, heq]
    exact ⟨⟨h, trivial⟩, .inl ⟨trivial, trivial, trivial⟩⟩
  | some i =>
    obtain ⟨hinv, hlt, hu, hv, hs, htracked, hopposed, -⟩ := h.findOrCreate venue symbol hi
    generalize hfound : t.findOrCreate venue symbol = found at hi hinv hlt hu hv hs htracked hopposed
    obtain ⟨slot, t'⟩ := found
    dsimp only at hi hinv hlt hu hv hs htracked hopposed
    subst hi
    have hposition : t.tracked venue symbol = ((t'.entries i).owner, (t'.entries i).netVolume) := by
      rw [← htracked]
      simp only [tracked, hinv.findEntry_eq hlt hu hv hs]
    rw [hposition]
    dsimp only
    simp only [checkAndApply, hfound, hopposed]
    cases hok : Risk.selfTradeOk true t.allowCrossStrategyOpposition (t'.entries i).owner.toNat
        strategy.toNat (t'.entries i).netVolume side with
    | true =>
      simp only [if_true]
      have hkept := hinv.setEntry (i := i)
        (e := { t'.entries i with
          netVolume := (t'.entries i).netVolume + signedVolume side volume
          owner := strategy }) hu (by
          rintro j hj hne hju ⟨hjv, hjs⟩
          exact hne (hinv.single j hj i hlt hju hu hjv hjs))
      refine ⟨⟨hkept, hopposed⟩, .inr (.inl ⟨trivial, nofun, trivial, ?_⟩)⟩
      intro v s
      rw [← htracked]
      have hwritten := hkept.tracked_setEntry ⟨hlt, fun _ => ⟨rfl, rfl⟩⟩ hu v s
      rw [hv, hs] at hwritten
      exact hwritten
    | false =>
      simp only [Bool.false_eq_true, if_false]
      exact ⟨⟨hinv, hopposed⟩, .inr (.inr ⟨trivial, trivial, htracked⟩)⟩

theorem Inv.checkAndApply_cases {t : SelfTradeTracker} (h : t.Inv)
    (hallow : t.allowCrossStrategyOpposition = false) {venue : UInt64} {symbol : Nat}
    (hroom : (t.findOrCreate venue symbol).1 ≠ none) (strategy : UInt32) (side : Side)
    (volume : Int) :
    let r := t.checkAndApply venue symbol strategy side volume
    (r.2.Inv ∧ r.2.allowCrossStrategyOpposition = false) ∧
      ((r.1 = true ∧ Passes (t.tracked venue symbol) strategy side ∧
        ∀ v s, r.2.tracked v s = if v = venue ∧ s = symbol then
          (strategy, (t.tracked venue symbol).2 + signedVolume side volume) else t.tracked v s) ∨
      (r.1 = false ∧ ¬ Passes (t.tracked venue symbol) strategy side ∧
        r.2.tracked = t.tracked)) := by
  have hspec := h.checkAndApply_spec venue symbol strategy side volume
  simp only [hallow] at hspec
  obtain ⟨hkept, ⟨_, hnone, _⟩ | ⟨hpassed, _, hok, hmoved⟩ | ⟨hblocked, hok, hsame⟩⟩ := hspec
  · exact absurd hnone hroom
  · exact ⟨hkept, .inl ⟨hpassed, (selfTradeOk_eq_true_iff _ _ _ _).mp hok, hmoved⟩⟩
  · refine ⟨hkept, .inr ⟨hblocked, ?_, hsame⟩⟩
    intro hpass
    have htrue := (selfTradeOk_eq_true_iff (t.tracked venue symbol).1 strategy
      (t.tracked venue symbol).2 side).mpr hpass
    rw [hok] at htrue
    cases htrue

structure Call where
  venue : UInt64
  symbol : Nat
  strategy : UInt32
  side : Side
  volume : Int
  deriving DecidableEq, Repr

/-- The strategies behind a net: those with an accepted volume since it was last zero. -/
def holdersAfter (net volume : Int) (strategy : UInt32) (holders : List UInt32) : List UInt32 :=
  if net + volume = 0 then [] else if volume = 0 then holders else strategy :: holders

/-- The tracker beside the accepted volume of each strategy. -/
structure Watched where
  tracker : SelfTradeTracker
  position : UInt64 → Nat → UInt32 → Int := fun _ _ _ => 0
  holders : UInt64 → Nat → List UInt32 := fun _ _ => []

namespace Watched

def new (capacity : Nat) : Watched :=
  { tracker := { allowCrossStrategyOpposition := false, capacity := capacity } }

def check (w : Watched) (c : Call) : Bool × SelfTradeTracker :=
  w.tracker.checkAndApply c.venue c.symbol c.strategy c.side c.volume

def step (w : Watched) (c : Call) : Watched :=
  let volume := signedVolume c.side c.volume
  if (w.check c).1 then
    { tracker := (w.check c).2
      position := fun v s => if v = c.venue ∧ s = c.symbol then
        Function.update (w.position v s) c.strategy (w.position v s c.strategy + volume)
        else w.position v s
      holders := fun v s => if v = c.venue ∧ s = c.symbol then
        holdersAfter (w.tracker.tracked v s).2 volume c.strategy (w.holders v s)
        else w.holders v s }
  else { w with tracker := (w.check c).2 }

/-- The table still has a slot for the call. -/
def Fits (w : Watched) (c : Call) : Prop := (w.tracker.findOrCreate c.venue c.symbol).1 ≠ none

instance (w : Watched) (c : Call) : Decidable (w.Fits c) :=
  inferInstanceAs (Decidable (_ ≠ none))

/-- An accepted call is not opposite to the position of another strategy. -/
def NoSelfTrade (w : Watched) (c : Call) : Prop :=
  (w.check c).1 = true → ∀ t ≠ c.strategy,
    (c.side = .buy → 0 ≤ w.position c.venue c.symbol t) ∧
    (c.side = .sell → w.position c.venue c.symbol t ≤ 0)

/-- A call that passes either adds to the net, or comes from the only strategy behind it. -/
def Clean (w : Watched) (c : Call) : Prop :=
  Passes (w.tracker.tracked c.venue c.symbol) c.strategy c.side →
    (∀ t ∈ w.holders c.venue c.symbol, t = c.strategy) ∨
    (WithNet (w.tracker.tracked c.venue c.symbol).2 c.side ∧ 0 ≤ c.volume)

instance (w : Watched) (c : Call) : Decidable (w.Clean c) :=
  have : Decidable (∀ t ∈ w.holders c.venue c.symbol, t = c.strategy) := List.decidableBAll _ _
  inferInstanceAs (Decidable (_ → _ ∨ _))

end Watched

/-- No strategy behind a net is on its other side. -/
structure Aligned (net : Int) (position : UInt32 → Int) (holders : List UInt32) : Prop where
  idle : net = 0 → holders = []
  outside : ∀ t ∉ holders, position t = 0
  longs : 0 ≤ net → ∀ t, 0 ≤ position t
  shorts : net ≤ 0 → ∀ t, position t ≤ 0
  alone : ∀ t, (∀ u ∈ holders, u = t) → position t = net
  held : ∀ t ∈ holders, position t ≠ 0

section Aligned
variable {net volume : Int} {position : UInt32 → Int} {holders : List UInt32} {strategy : UInt32}

theorem Aligned.others (h : Aligned net position holders) (hsole : ∀ t ∈ holders, t = strategy)
    {t : UInt32} (ht : t ≠ strategy) : position t = 0 :=
  h.outside t fun hmem => ht (hsole t hmem)

/-- The only strategy behind a net may trade either way. -/
theorem Aligned.trade_alone (h : Aligned net position holders)
    (hsole : ∀ t ∈ holders, t = strategy) :
    Aligned (net + volume) (Function.update position strategy (position strategy + volume))
      (holdersAfter net volume strategy holders) := by
  have hown := h.alone strategy hsole
  have hother : ∀ t, t ≠ strategy →
      Function.update position strategy (position strategy + volume) t = 0 := by
    intro t ht
    rw [Function.update_of_ne ht]
    exact h.others hsole ht
  have hself : Function.update position strategy (position strategy + volume) strategy =
      net + volume := by
    rw [Function.update_self, hown]
  have hall : ∀ t ∈ holdersAfter net volume strategy holders, t = strategy := by
    intro t ht
    unfold holdersAfter at ht
    split_ifs at ht
    · cases ht
    · exact hsole t ht
    · rcases List.mem_cons.mp ht with rfl | ht
      · rfl
      · exact hsole t ht
  have hmem : net + volume ≠ 0 → strategy ∈ holdersAfter net volume strategy holders := by
    intro hne
    unfold holdersAfter
    rw [if_neg hne]
    split_ifs with hzero
    · by_contra hnot
      have := h.outside strategy hnot
      omega
    · exact List.mem_cons_self
  refine ⟨fun hzero => if_pos hzero, ?_, ?_, ?_, ?_, ?_⟩
  · intro t ht
    by_cases hts : t = strategy
    · subst hts
      rw [hself]
      by_contra hne
      exact ht (hmem hne)
    · exact hother t hts
  · intro hpos t
    by_cases hts : t = strategy
    · rw [hts, hself]
      exact hpos
    · exact (hother t hts).ge
  · intro hneg t
    by_cases hts : t = strategy
    · rw [hts, hself]
      exact hneg
    · exact (hother t hts).le
  · intro t ht
    by_cases hts : t = strategy
    · rw [hts, hself]
    · rw [hother t hts]
      by_contra hne
      exact hts (ht strategy (hmem fun h0 => hne h0.symm)).symm
  · intro t ht
    rw [hall t ht, hself]
    intro hzero
    unfold holdersAfter at ht
    rw [if_pos hzero] at ht
    cases ht

/-- Any strategy may add to the net. -/
theorem Aligned.trade_with (h : Aligned net position holders)
    (hwith : (0 < net ∧ 0 ≤ volume) ∨ (net < 0 ∧ volume ≤ 0)) :
    Aligned (net + volume) (Function.update position strategy (position strategy + volume))
      (holdersAfter net volume strategy holders) := by
  have hne : net + volume ≠ 0 := by omega
  by_cases hzero : volume = 0
  · subst hzero
    have hafter : holdersAfter net 0 strategy holders = holders := by
      unfold holdersAfter
      rw [if_neg hne, if_pos rfl]
    rw [hafter, add_zero, add_zero, Function.update_eq_self]
    exact h
  · have hafter : holdersAfter net volume strategy holders = strategy :: holders := by
      unfold holdersAfter
      rw [if_neg hne, if_neg hzero]
    rw [hafter]
    have hat : ∀ t, Function.update position strategy (position strategy + volume) t =
        if t = strategy then position t + volume else position t := by
      intro t
      by_cases hts : t = strategy
      · rw [hts, Function.update_self, if_pos rfl]
      · rw [Function.update_of_ne hts, if_neg hts]
    refine ⟨fun h0 => absurd h0 hne, ?_, ?_, ?_, ?_, ?_⟩
    · intro t ht
      obtain ⟨hts, hmem⟩ := List.ne_and_not_mem_of_not_mem_cons ht
      rw [hat, if_neg hts]
      exact h.outside t hmem
    · intro hpos t
      have := h.longs (by omega) t
      rw [hat]
      split_ifs <;> omega
    · intro hneg t
      have := h.shorts (by omega) t
      rw [hat]
      split_ifs <;> omega
    · intro t ht
      have hts : strategy = t := ht strategy List.mem_cons_self
      rw [hat, if_pos hts.symm, h.alone t fun u hu => ht u (List.mem_cons_of_mem _ hu)]
    · intro t ht
      rw [hat]
      split_ifs with hts
      · -- a position on the side of the net only grows
        rcases hwith with ⟨hnet, hvolume⟩ | ⟨hnet, hvolume⟩
        · have := h.longs hnet.le t
          omega
        · have := h.shorts hnet.le t
          omega
      · rcases List.mem_cons.mp ht with rfl | hmem
        · exact absurd rfl hts
        · exact h.held t hmem

end Aligned

namespace Watched

structure Inv (w : Watched) : Prop where
  tracker : w.tracker.Inv
  strict : w.tracker.allowCrossStrategyOpposition = false
  aligned : ∀ v s, Aligned (w.tracker.tracked v s).2 (w.position v s) (w.holders v s)

theorem inv_new (capacity : Nat) : (new capacity).Inv := by
  have hblank : (new capacity).tracker.Inv := inv_fresh false capacity
  refine ⟨hblank, rfl, ?_⟩
  intro v s
  have hnone : (new capacity).tracker.tracked v s = (0, 0) := by
    unfold tracked
    split
    · rename_i i hi
      obtain ⟨_, hu, _⟩ := findEntry_eq_some hi
      cases hu
    · rfl
  rw [hnone]
  exact ⟨fun _ => rfl, fun _ _ => rfl, fun _ _ => le_rfl, fun _ _ => le_rfl, fun _ _ => rfl,
    fun _ ht => by cases ht⟩

variable {w : Watched} {c : Call}

theorem Inv.accepted_iff (h : w.Inv) (hfits : w.Fits c) :
    (w.check c).1 = true ↔ Passes (w.tracker.tracked c.venue c.symbol) c.strategy c.side := by
  obtain ⟨_, ⟨hok, hpass, _⟩ | ⟨hok, hblocked, _⟩⟩ :=
    h.tracker.checkAndApply_cases h.strict hfits c.strategy c.side c.volume
  · exact ⟨fun _ => hpass, fun _ => hok⟩
  · exact ⟨fun htrue => absurd (hok.symm.trans htrue) (by decide), fun hp => absurd hp hblocked⟩

theorem signed_with {net : Int} {side : Side} {volume : Int} (hwith : WithNet net side)
    (hvolume : 0 ≤ volume) :
    (0 < net ∧ 0 ≤ signedVolume side volume) ∨ (net < 0 ∧ signedVolume side volume ≤ 0) := by
  rcases hwith with ⟨hnet, rfl⟩ | ⟨hnet, rfl⟩
  · exact .inl ⟨hnet, by simpa [signedVolume] using hvolume⟩
  · exact .inr ⟨hnet, by simpa [signedVolume] using hvolume⟩

theorem Inv.step (h : w.Inv) (hfits : w.Fits c) (hclean : w.Clean c) : (w.step c).Inv := by
  obtain ⟨⟨hinv, hstrict⟩, hcases⟩ :=
    h.tracker.checkAndApply_cases h.strict hfits c.strategy c.side c.volume
  rcases hcases with ⟨hok, hpass, htracked⟩ | ⟨hok, _, htracked⟩
  · have hok' : (w.check c).1 = true := hok
    simp only [Watched.step, hok', if_true]
    refine ⟨hinv, hstrict, ?_⟩
    intro v s
    dsimp only [check]
    rw [htracked v s]
    by_cases hpair : v = c.venue ∧ s = c.symbol
    · simp only [if_pos hpair]
      obtain ⟨rfl, rfl⟩ := hpair
      rcases hclean hpass with hsole | ⟨hwith, hvolume⟩
      · exact (h.aligned _ _).trade_alone hsole
      · exact (h.aligned _ _).trade_with (signed_with hwith hvolume)
    · simp only [if_neg hpair]
      exact h.aligned v s
  · have hok' : ¬ (w.check c).1 = true := by
      intro htrue
      exact absurd (hok.symm.trans htrue) (by decide)
    simp only [Watched.step, if_neg hok']
    refine ⟨hinv, hstrict, ?_⟩
    intro v s
    dsimp only [check]
    rw [htracked]
    exact h.aligned v s

theorem Inv.noSelfTrade (h : w.Inv) (hfits : w.Fits c) (hclean : w.Clean c) :
    w.NoSelfTrade c := by
  intro hok t ht
  have haligned := h.aligned c.venue c.symbol
  rcases hclean ((h.accepted_iff hfits).mp hok) with hsole | ⟨hwith, _⟩
  · have hzero := haligned.others hsole ht
    exact ⟨fun _ => hzero.ge, fun _ => hzero.le⟩
  · rcases hwith with ⟨hnet, hside⟩ | ⟨hnet, hside⟩
    · rw [hside]
      exact ⟨fun _ => haligned.longs hnet.le t, nofun⟩
    · rw [hside]
      exact ⟨nofun, fun _ => haligned.shorts hnet.le t⟩

/-- With volumes that are not negative, an unclean call trades against another holder. -/
theorem Inv.clean (h : w.Inv) (hfits : w.Fits c) (hvolume : 0 ≤ c.volume)
    (hno : w.NoSelfTrade c) : w.Clean c := by
  intro hpass
  by_contra hunclean
  push Not at hunclean
  obtain ⟨⟨t, hmem, ht⟩, hagainst⟩ := hunclean
  have hwith : ¬ WithNet (w.tracker.tracked c.venue c.symbol).2 c.side := by
    intro hw
    exact absurd hvolume (not_le.mpr (hagainst hw))
  have haligned := h.aligned c.venue c.symbol
  have hheld := haligned.held t hmem
  obtain ⟨hbuy, hsell⟩ := hno ((h.accepted_iff hfits).mpr hpass) t ht
  have hnet : (w.tracker.tracked c.venue c.symbol).2 ≠ 0 := by
    intro hzero
    rw [haligned.idle hzero] at hmem
    cases hmem
  rcases lt_or_gt_of_ne hnet with hneg | hpos
  · have hside : c.side = .buy := by
      cases hs : c.side with
      | buy => rfl
      | sell => exact absurd (.inr ⟨hneg, hs⟩) hwith
    exact hheld (le_antisymm (haligned.shorts hneg.le t) (hbuy hside))
  · have hside : c.side = .sell := by
      cases hs : c.side with
      | buy => exact absurd (.inl ⟨hpos, hs⟩) hwith
      | sell => rfl
    exact hheld (le_antisymm (hsell hside) (haligned.longs hpos.le t))

/-- Self-trade prevention holds along every run in which a net that several strategies
have built is only added to; where no volume is negative, along no other run. -/
theorem self_trade_prevented (capacity : Nat) (calls : List Call)
    (hfits : Runs.Along step Fits (new capacity) calls) :
    (Runs.Along step Clean (new capacity) calls → Runs.Along step NoSelfTrade (new capacity) calls) ∧
    ((∀ c ∈ calls, 0 ≤ c.volume) →
      (Runs.Along step Clean (new capacity) calls ↔
        Runs.Along step NoSelfTrade (new capacity) calls)) := by
  refine ⟨?_, ?_⟩
  · intro hclean
    exact Runs.Along.of_invariant (fun _ _ h hc => Inv.step h hc.1 hc.2)
      (fun _ _ h hc => Inv.noSelfTrade h hc.1 hc.2) (inv_new capacity) (hfits.and hclean)
  · intro hvolumes
    have hdomain := hfits.and (Runs.along_of_forall fun c hc _ => hvolumes c hc)
    refine Runs.along_iff_along (fun _ _ h hd hc => Inv.step h hd.1 hc) ?_ (inv_new capacity) hdomain
    intro w c h hd
    exact ⟨h.noSelfTrade hd.1, h.clean hd.1 hd.2⟩

theorem self_trade_prevented_blocked_sell :
    Runs.Along step Fits (new 1) [⟨7, 0, 1, .buy, 10⟩, ⟨7, 0, 2, .buy, 5⟩, ⟨7, 0, 1, .sell, 3⟩] ∧
    Runs.Along step NoSelfTrade (new 1)
      [⟨7, 0, 1, .buy, 10⟩, ⟨7, 0, 2, .buy, 5⟩, ⟨7, 0, 1, .sell, 3⟩] := by
  refine ⟨by decide +kernel, ?_⟩
  exact (self_trade_prevented 1 _ (by decide +kernel)).1 (by decide +kernel)

/-- Strategy 2 adds to strategy 1's long position, becomes the owner of the entry, and then
sells against strategy 1. -/
theorem owner_trades_against_another_strategy :
    Runs.Along step Fits (new 1) [⟨7, 0, 1, .buy, 10⟩, ⟨7, 0, 2, .buy, 5⟩, ⟨7, 0, 2, .sell, 1⟩] ∧
    ¬ Runs.Along step NoSelfTrade (new 1)
      [⟨7, 0, 1, .buy, 10⟩, ⟨7, 0, 2, .buy, 5⟩, ⟨7, 0, 2, .sell, 1⟩] := by
  refine ⟨by decide +kernel, ?_⟩
  rintro ⟨_, _, hlast, _⟩
  obtain ⟨_, hsell⟩ := hlast (by decide +kernel) 1 (by decide)
  exact absurd (hsell rfl) (by decide +kernel)

end Watched

end SelfTradeTracker

end MicrostructureEngine
