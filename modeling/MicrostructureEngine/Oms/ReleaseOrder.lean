import MicrostructureEngine.Oms.RateBound

/-!
# The order of release

Requests are numbered as they arrive. The queue of deferred requests is first in, first
out, but a request whose own bucket has a token is admitted past it: the numbers are
released in order as long as nobody overtakes a waiting request.
-/

namespace MicrostructureEngine.VenueRateLimiter

set_option autoImplicit false

/-- A limiter with the arrival numbers of the requests that wait in it and of those it has
released, oldest first. -/
structure Numbered where
  limiter : VenueRateLimiter
  arrivals : Nat := 0
  waiting : List (Nat × PendingRequest) := []
  released : List (Nat × PendingRequest) := []

namespace Numbered

def start (l : VenueRateLimiter) (config : VenueRateLimitConfig) (nowNs : Nat) : Numbered :=
  { limiter := l.configure config nowNs }

def step (s : Numbered) : Call → Numbered
  | .admitRequest request nowNs =>
    let r := s.limiter.admitRequest request nowNs
    let entry := (s.arrivals, request)
    { limiter := r.2
      arrivals := s.arrivals + 1
      waiting := if r.1 = .deferred then s.waiting ++ [entry] else s.waiting
      released := if r.1 = .admitted then s.released ++ [entry] else s.released }
  | .tryDrainOne nowNs =>
    let r := s.limiter.tryDrainOne nowNs
    { s with
      limiter := r.2
      waiting := if r.1.isSome then s.waiting.drop 1 else s.waiting
      released := if r.1.isSome then s.released ++ s.waiting.take 1 else s.released }
  | .tokens kind nowNs => { s with limiter := (s.limiter.tokens kind nowNs).2 }

/-- Of two released requests the one that arrived first was released first. -/
def InOrder (s : Numbered) : Prop := (s.released.map Prod.fst).Pairwise (· < ·)

/-- A request finds a token of its kind only while nothing waits. -/
def NoOvertaking (s : Numbered) : Call → Prop
  | .admitRequest request nowNs =>
    s.limiter.pending = [] ∨ ((s.limiter.bucketFor request.kind).tryConsume nowNs).1 = false
  | _ => True

/-- The numbers released, then those waiting, then those to come. -/
structure Queued (s : Numbered) : Prop where
  pending : s.waiting.map Prod.snd = s.limiter.pending
  sorted : ((s.released ++ s.waiting).map Prod.fst).Pairwise (· < ·)
  arrived : ∀ e ∈ s.released ++ s.waiting, e.1 < s.arrivals

theorem Queued.start (l : VenueRateLimiter) (config : VenueRateLimitConfig) (nowNs : Nat) :
    (start l config nowNs).Queued := by
  refine ⟨rfl, ?_, ?_⟩
  · simp [Numbered.start]
  · simp [Numbered.start]

theorem Queued.inOrder {s : Numbered} (h : s.Queued) : s.InOrder := by
  have hsorted := h.sorted
  rw [List.map_append, List.pairwise_append] at hsorted
  exact hsorted.1

/-- A new arrival comes after everything seen so far. -/
theorem sorted_snoc {es : List (Nat × PendingRequest)} {n : Nat} (request : PendingRequest)
    (hsorted : (es.map Prod.fst).Pairwise (· < ·)) (harrived : ∀ e ∈ es, e.1 < n) :
    ((es ++ [(n, request)]).map Prod.fst).Pairwise (· < ·) ∧
      ∀ e ∈ es ++ [(n, request)], e.1 < n + 1 := by
  constructor
  · rw [List.map_append, List.pairwise_append]
    refine ⟨hsorted, List.pairwise_singleton _ _, ?_⟩
    intro i hi j hj
    obtain ⟨e, he, rfl⟩ := List.mem_map.mp hi
    obtain rfl := List.mem_singleton.mp hj
    exact harrived e he
  · intro e he
    rcases List.mem_append.mp he with hold | hnew
    · have := harrived e hold
      omega
    · obtain rfl := List.mem_singleton.mp hnew
      exact Nat.lt_succ_self n

theorem Queued.admitRequest {s : Numbered} (h : s.Queued) {request : PendingRequest} {nowNs : Nat}
    (hwait : s.NoOvertaking (.admitRequest request nowNs)) : (s.step (.admitRequest request nowNs)).Queued := by
  obtain ⟨hsorted, harrived⟩ := sorted_snoc request h.sorted h.arrived
  obtain ⟨_, hcases⟩ := s.limiter.admitRequest_cases request nowNs
  simp only [step]
  rcases hcases with ⟨hc, hd, hp⟩ | ⟨hc, hd, _, _, hp⟩ | ⟨hc, hd, hp⟩ <;>
    simp only [hd, reduceCtorEq, if_true, if_false]
  · -- Admitted at once: by assumption nothing is waiting.
    have hempty : s.limiter.pending = [] := by
      rcases hwait with hempty | hnone
      · exact hempty
      · rw [hc] at hnone
        cases hnone
    have hwaiting : s.waiting = [] := by
      have := h.pending
      rw [hempty, List.map_eq_nil_iff] at this
      exact this
    refine ⟨?_, ?_, ?_⟩
    · rw [hp]
      exact h.pending
    · simpa [hwaiting] using hsorted
    · simpa [hwaiting] using harrived
  · refine ⟨?_, ?_, ?_⟩
    · rw [List.map_append, h.pending, hp]
      rfl
    · simpa [List.append_assoc] using hsorted
    · simpa [List.append_assoc] using harrived
  · refine ⟨?_, h.sorted, ?_⟩
    · rw [hp]
      exact h.pending
    · intro e he
      exact Nat.lt_succ_of_lt (h.arrived e he)

theorem Queued.drain {s : Numbered} (h : s.Queued) (nowNs : Nat) :
    (s.step (.tryDrainOne nowNs)).Queued := by
  obtain ⟨_, ⟨_, hnone⟩ | ⟨front, rest, hpending, _, hcases⟩⟩ := s.limiter.tryDrainOne_cases nowNs
  · simp only [step, hnone]
    exact ⟨h.pending, h.sorted, h.arrived⟩
  · simp only [step]
    rcases hcases with ⟨_, hd, hp⟩ | ⟨_, hd, hp⟩ <;> simp only [hd]
    · -- The front of the queue carries the smallest number waiting.
      have hmap := h.pending
      rw [hpending] at hmap
      cases hw : s.waiting with
      | nil =>
        rw [hw] at hmap
        cases hmap
      | cons e es =>
        rw [hw, List.map_cons, List.cons.injEq] at hmap
        have hsorted := h.sorted
        have harrived := h.arrived
        rw [hw] at hsorted harrived
        refine ⟨?_, ?_, ?_⟩
        · simpa [hp] using hmap.2
        · simpa using hsorted
        · simpa using harrived
    · exact ⟨h.pending.trans hp.symm, h.sorted, h.arrived⟩

theorem step_queued (s : Numbered) (c : Call) (h : s.Queued) (hwait : s.NoOvertaking c) :
    (s.step c).Queued := by
  cases c with
  | admitRequest request nowNs => exact h.admitRequest hwait
  | tryDrainOne nowNs => exact h.drain nowNs
  | tokens kind nowNs => exact ⟨h.pending, h.sorted, h.arrived⟩

/-- Requests leave in the order of their arrival in every run in which none is admitted
while another one waits. -/
theorem released_in_order (l : VenueRateLimiter) (config : VenueRateLimitConfig) (nowNs : Nat)
    (calls : List Call) (hwait : Runs.Along step NoOvertaking (start l config nowNs) calls) :
    Runs.Throughout step InOrder (start l config nowNs) calls := by
  intro cs hcs
  obtain ⟨rest, rfl⟩ := hcs
  have hinv := Runs.run_invariant step_queued (Queued.start l config nowNs)
    (Runs.along_append.mp hwait).1
  exact hinv.inOrder

/-- One order a second with a burst of one, cancels without a limit to speak of, and a queue
for deferred requests. -/
def oneOrderASecond : VenueRateLimitConfig :=
  { ordersPerSec := 1, burstCapacity := 1, policy := .defer, pendingQueueCapacity := 4 }

/-- A create is deferred, waits its second, and the cancel of the same ref comes after it. -/
theorem released_in_order_deferred :
    ((Runs.run step (start .new oneOrderASecond 0)
        [.admitRequest { ref := ⟨1, 1⟩ } 0, .admitRequest { ref := ⟨1, 2⟩ } 0, .tryDrainOne (10 ^ 9),
          .admitRequest { kind := .cancel, ref := ⟨1, 2⟩ } (10 ^ 9)]).released.map Prod.fst = [0, 1, 2]) ∧
    Runs.Throughout step InOrder (start .new oneOrderASecond 0)
      [.admitRequest { ref := ⟨1, 1⟩ } 0, .admitRequest { ref := ⟨1, 2⟩ } 0, .tryDrainOne (10 ^ 9),
        .admitRequest { kind := .cancel, ref := ⟨1, 2⟩ } (10 ^ 9)] := by
  refine ⟨by decide +kernel, ?_⟩
  apply released_in_order
  exact ⟨Or.inl rfl, Or.inl rfl, trivial, Or.inl (by decide +kernel), trivial⟩

/-- The cancel arrives while the create of its ref waits, and overtakes it. -/
theorem cancel_released_before_create :
    (Runs.run step (start .new oneOrderASecond 0)
        [.admitRequest { ref := ⟨1, 1⟩ } 0, .admitRequest { ref := ⟨1, 2⟩ } 0,
          .admitRequest { kind := .cancel, ref := ⟨1, 2⟩ } 0, .tryDrainOne (10 ^ 9)]).released =
      [(0, { ref := ⟨1, 1⟩ }), (2, { kind := .cancel, ref := ⟨1, 2⟩ }), (1, { ref := ⟨1, 2⟩ })] ∧
    ¬ InOrder (Runs.run step (start .new oneOrderASecond 0)
        [.admitRequest { ref := ⟨1, 1⟩ } 0, .admitRequest { ref := ⟨1, 2⟩ } 0,
          .admitRequest { kind := .cancel, ref := ⟨1, 2⟩ } 0, .tryDrainOne (10 ^ 9)]) := by
  have hreleased : (Runs.run step (start .new oneOrderASecond 0)
      [.admitRequest { ref := ⟨1, 1⟩ } 0, .admitRequest { ref := ⟨1, 2⟩ } 0,
        .admitRequest { kind := .cancel, ref := ⟨1, 2⟩ } 0, .tryDrainOne (10 ^ 9)]).released =
      [(0, { ref := ⟨1, 1⟩ }), (2, { kind := .cancel, ref := ⟨1, 2⟩ }), (1, { ref := ⟨1, 2⟩ })] := by
    decide +kernel
  refine ⟨hreleased, ?_⟩
  unfold InOrder
  rw [hreleased]
  decide

end Numbered

end MicrostructureEngine.VenueRateLimiter
