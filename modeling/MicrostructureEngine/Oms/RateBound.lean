import Mathlib.Algebra.Order.Field.Basic
import Mathlib.Tactic.NormNum
import Mathlib.Tactic.Ring
import MicrostructureEngine.Oms.RateLimiter

/-!
# The rate bound

Over any stretch of calls a bucket hands out at most its burst plus what its rate yields
while the clock it sees moves forward. The clock a bucket sees is the largest value it was
ever consulted with: `lastRefillNs` never moves back.
-/

namespace MicrostructureEngine.VenueRateLimiter

set_option autoImplicit false

inductive Call where
  | admitRequest (request : PendingRequest) (nowNs : Nat)
  | tryDrainOne (nowNs : Nat)
  | tokens (kind : RateLimitKind) (nowNs : Nat)

def step (l : VenueRateLimiter) : Call → VenueRateLimiter
  | .admitRequest request nowNs => (l.admitRequest request nowNs).2
  | .tryDrainOne nowNs => (l.tryDrainOne nowNs).2
  | .tokens kind nowNs => (l.tokens kind nowNs).2

def released (l : VenueRateLimiter) : Call → Option PendingRequest
  | .admitRequest request nowNs => if (l.admitRequest request nowNs).1 = .admitted then some request else none
  | .tryDrainOne nowNs => (l.tryDrainOne nowNs).1
  | .tokens _ _ => none

/-- The bucket a call consults, and the clock value it shows it. -/
def consulted (l : VenueRateLimiter) : Call → Option (RateLimitKind × Nat)
  | .admitRequest request nowNs => some (request.kind, nowNs)
  | .tryDrainOne nowNs => l.pending.head?.map fun front => (front.kind, nowNs)
  | .tokens kind nowNs => some (kind, nowNs)

def releases (k : RateLimitKind) : VenueRateLimiter → List Call → Nat
  | _, [] => 0
  | l, c :: cs =>
    (if (l.released c).map PendingRequest.kind = some k then 1 else 0) + releases k (l.step c) cs

def later (k : RateLimitKind) (m : Nat) : Option (RateLimitKind × Nat) → Nat
  | some (kind, nowNs) => if kind = k then max m nowNs else m
  | none => m

/-- The largest clock value the bucket of kind `k` has seen after a run of calls, `m` before. -/
def latest (k : RateLimitKind) : Nat → VenueRateLimiter → List Call → Nat
  | m, _, [] => m
  | m, l, c :: cs => latest k (later k m (l.consulted c)) (l.step c) cs

theorem latest_append (k : RateLimitKind) (m : Nat) (l : VenueRateLimiter) (cs ds : List Call) :
    latest k m l (cs ++ ds) = latest k (latest k m l cs) (Runs.run step l cs) ds := by
  induction cs generalizing m l with
  | nil => rfl
  | cons c cs ih => exact ih _ _

/-- A bucket with rate `r` and burst `c` that has seen the clock up to `m`. -/
structure Level (r c : ℚ) (m : Nat) (b : TokenBucket) : Prop where
  rate : b.ratePerSec = r
  capacity : b.capacity = c
  nonneg : 0 ≤ b.tokens
  le : b.tokens ≤ c
  clock : b.lastRefillNs = m

section Bucket
variable {r c : ℚ} {m : Nat} {b : TokenBucket}

/-- What the rate yields while the clock moves from `m` to `n`. -/
def yielded (r : ℚ) (m n : Nat) : ℚ := r * ((n : ℚ) - (m : ℚ)) / 10 ^ 9

theorem yielded_self (r : ℚ) (m : Nat) : yielded r m m = 0 := by
  simp [yielded]

theorem yielded_add (r : ℚ) (m n p : Nat) : yielded r m n + yielded r n p = yielded r m p := by
  unfold yielded
  ring

theorem Level.refill (h : Level r c m b) (hr : 0 ≤ r) (nowNs : Nat) :
    Level r c (max m nowNs) (b.refill nowNs) ∧
      (b.refill nowNs).tokens ≤ b.tokens + yielded r m (max m nowNs) := by
  unfold TokenBucket.refill
  by_cases hle : nowNs ≤ b.lastRefillNs
  · have hmax : max m nowNs = m := by
      have := h.clock
      omega
    rw [if_pos hle, hmax, yielded_self]
    exact ⟨h, by linarith⟩
  · have hclock := h.clock
    have hmax : max m nowNs = nowNs := by omega
    rw [if_neg hle, hmax]
    have helapsed : ((nowNs - b.lastRefillNs : Nat) : ℚ) / 10 ^ 9 * b.ratePerSec =
        yielded r m nowNs := by
      rw [Nat.cast_sub (by omega), hclock, h.rate]
      unfold yielded
      ring
    have hyield : 0 ≤ yielded r m nowNs := by
      have hlt : (m : ℚ) ≤ nowNs := by exact_mod_cast (by omega : m ≤ nowNs)
      unfold yielded
      exact div_nonneg (mul_nonneg hr (by linarith)) (by norm_num)
    dsimp only
    rw [helapsed]
    have hnonneg := h.nonneg
    have hle := h.le
    have hcap := h.capacity
    refine ⟨⟨h.rate, h.capacity, ?_, ?_, rfl⟩, min_le_right _ _⟩
    · exact le_min (by linarith) (by linarith)
    · exact (min_le_left _ _).trans (le_of_eq hcap)

/-- A consultation: the bucket moves to the later clock, and a token handed out is paid for. -/
theorem Level.tryConsume (h : Level r c m b) (hr : 0 ≤ r) (nowNs : Nat) :
    Level r c (max m nowNs) (b.tryConsume nowNs).2 ∧
      (b.tryConsume nowNs).2.tokens + (if (b.tryConsume nowNs).1 then 1 else 0) ≤
        b.tokens + yielded r m (max m nowNs) := by
  obtain ⟨hrefill, hle⟩ := h.refill hr nowNs
  unfold TokenBucket.tryConsume
  dsimp only
  split
  · exact ⟨hrefill, by simpa using hle⟩
  · rename_i htokens
    have hcap := hrefill.le
    refine ⟨⟨hrefill.rate, hrefill.capacity, ?_, ?_, hrefill.clock⟩, ?_⟩
    · dsimp only
      linarith
    · dsimp only
      linarith
    · simp only [if_true]
      linarith

end Bucket

/-- The buckets of a limiter configured with `config` that have seen the clocks `m`. -/
def Levels (config : VenueRateLimitConfig) (m : RateLimitKind → Nat) (l : VenueRateLimiter) : Prop :=
  ∀ k, Level (config.rate k) (config.burst k) (m k) (l.bucketFor k)

section Step
variable {config : VenueRateLimitConfig} {m : RateLimitKind → Nat} {l : VenueRateLimiter}

theorem Levels.consult (h : Levels config m l) (hrate : ∀ k, 0 ≤ config.rate k)
    {l' : VenueRateLimiter} {kind : RateLimitKind} {nowNs : Nat}
    (hl' : l'.bucketFor = Function.update l.bucketFor kind
      ((l.bucketFor kind).tryConsume nowNs).2) (k : RateLimitKind) :
    Level (config.rate k) (config.burst k) (later k (m k) (some (kind, nowNs))) (l'.bucketFor k) ∧
      (l'.bucketFor k).tokens +
          (if kind = k ∧ ((l.bucketFor kind).tryConsume nowNs).1 = true then 1 else 0) ≤
        (l.bucketFor k).tokens + yielded (config.rate k) (m k) (later k (m k) (some (kind, nowNs))) := by
  rw [hl']
  by_cases hk : kind = k
  · subst hk
    have hconsume := (h kind).tryConsume (hrate kind) nowNs
    simpa [later] using hconsume
  · have hne : k ≠ kind := fun he => hk he.symm
    simp only [later, Function.update_of_ne hne, yielded_self, hk, false_and, if_false]
    exact ⟨h k, le_refl _⟩

theorem Levels.step (h : Levels config m l) (hrate : ∀ k, 0 ≤ config.rate k) (c : Call)
    (k : RateLimitKind) :
    Level (config.rate k) (config.burst k) (later k (m k) (l.consulted c)) ((l.step c).bucketFor k) ∧
      ((l.step c).bucketFor k).tokens +
          (if (l.released c).map PendingRequest.kind = some k then 1 else 0) ≤
        (l.bucketFor k).tokens +
          yielded (config.rate k) (m k) (later k (m k) (l.consulted c)) := by
  cases c with
  | admitRequest request nowNs =>
    obtain ⟨⟨_, _, hbucket⟩, hcases⟩ := l.admitRequest_cases request nowNs
    have hconsult := h.consult hrate hbucket k
    have hrel : (l.released (.admitRequest request nowNs)).map PendingRequest.kind = some k ↔
        request.kind = k ∧ ((l.bucketFor request.kind).tryConsume nowNs).1 = true := by
      rcases hcases with ⟨hc, hd, _⟩ | ⟨hc, hd, _⟩ | ⟨hc, hd, _⟩ <;> simp [released, hc, hd]
    simp only [hrel]
    exact hconsult
  | tryDrainOne nowNs =>
    obtain ⟨_, ⟨hempty, hnone⟩ | ⟨front, rest, hpending, hbucket, hcases⟩⟩ := l.tryDrainOne_cases nowNs
    · simp only [VenueRateLimiter.step, released, consulted, hempty, hnone, List.head?_nil,
        Option.map_none, later, yielded_self]
      exact ⟨h k, by simp⟩
    · have hconsult := h.consult hrate hbucket k
      have hrel : (l.released (.tryDrainOne nowNs)).map PendingRequest.kind = some k ↔
          front.kind = k ∧ ((l.bucketFor front.kind).tryConsume nowNs).1 = true := by
        rcases hcases with ⟨hc, hd, _⟩ | ⟨hc, hd, _⟩ <;> simp [released, hc, hd]
      simp only [hrel, consulted, hpending, List.head?_cons, Option.map_some]
      exact hconsult
  | tokens kind nowNs =>
    simp only [VenueRateLimiter.step, released, consulted, VenueRateLimiter.tokens, setBucket,
      Option.map_none, reduceCtorEq, if_false, add_zero]
    by_cases hk : kind = k
    · subst hk
      simpa [later] using (h kind).refill (hrate kind) nowNs
    · have hne : k ≠ kind := fun he => hk he.symm
      simp only [later, if_neg hk, Function.update_of_ne hne, yielded_self]
      exact ⟨h k, by simp⟩

/-- The amortised bound: tokens left over plus tokens handed out are paid for by the tokens
at the start and the yield of the rate. -/
theorem Levels.run (h : Levels config m l) (hrate : ∀ k, 0 ≤ config.rate k) (cs : List Call)
    (k : RateLimitKind) :
    Level (config.rate k) (config.burst k) (latest k (m k) l cs)
        ((Runs.run VenueRateLimiter.step l cs).bucketFor k) ∧
      ((Runs.run VenueRateLimiter.step l cs).bucketFor k).tokens + (releases k l cs : ℚ) ≤
        (l.bucketFor k).tokens + yielded (config.rate k) (m k) (latest k (m k) l cs) := by
  induction cs generalizing l m with
  | nil =>
    refine ⟨h k, ?_⟩
    simp [releases, latest, yielded_self]
  | cons c cs ih =>
    have hstep : Levels config (fun j => later j (m j) (l.consulted c)) (l.step c) :=
      fun j => (h.step hrate c j).1
    obtain ⟨hlevel, hbound⟩ := ih hstep
    refine ⟨hlevel, ?_⟩
    have hfirst := (h.step hrate c k).2
    have hsplit := yielded_add (config.rate k) (m k) (later k (m k) (l.consulted c))
      (latest k (later k (m k) (l.consulted c)) (l.step c) cs)
    simp only [Runs.run_cons, releases, latest, Nat.cast_add, Nat.cast_ite, Nat.cast_one,
      Nat.cast_zero]
    linarith

end Step

theorem levels_configure (l : VenueRateLimiter) {config : VenueRateLimitConfig}
    (hburst : ∀ k, 0 ≤ config.burst k) (nowNs : Nat) :
    Levels config (fun _ => nowNs) (l.configure config nowNs) :=
  fun k => ⟨rfl, rfl, hburst k, le_refl _, rfl⟩

/-- In any segment of any run of a configured limiter, the requests of one kind released are
at most the burst plus what the rate yields between the largest clock values its bucket had
seen before and by the end of the segment; and the level stays within the burst. -/
theorem rate_bound (l : VenueRateLimiter) (config : VenueRateLimitConfig) (nowNs : Nat)
    (hrate : ∀ k, 0 ≤ config.rate k) (hburst : ∀ k, 0 ≤ config.burst k) (before segment : List Call)
    (k : RateLimitKind) :
    (releases k (Runs.run step (l.configure config nowNs) before) segment : ℚ) ≤
        config.burst k + config.rate k *
          ((latest k nowNs (l.configure config nowNs) (before ++ segment) : ℚ) -
            (latest k nowNs (l.configure config nowNs) before : ℚ)) / 10 ^ 9 ∧
      0 ≤ ((Runs.run step (l.configure config nowNs) before).bucketFor k).tokens ∧
      ((Runs.run step (l.configure config nowNs) before).bucketFor k).tokens ≤ config.burst k := by
  have hstart := levels_configure l hburst nowNs
  have hbefore : Levels config (fun j => latest j nowNs (l.configure config nowNs) before)
      (Runs.run step (l.configure config nowNs) before) :=
    fun j => (hstart.run hrate before j).1
  obtain ⟨hlevel, hbound⟩ := hbefore.run hrate segment k
  have hfull := (hbefore k).le
  have hleft := hlevel.nonneg
  refine ⟨?_, (hbefore k).nonneg, hfull⟩
  rw [latest_append]
  unfold yielded at hbound
  linarith

/-- Two orders at one a second with a burst of one, and a clock that first jumps back. -/
theorem rate_bound_backwards_clock :
    (releases .order (configure .new { ordersPerSec := 1, burstCapacity := 1 } (10 ^ 9))
      [.admitRequest {} 0, .admitRequest {} 0, .admitRequest {} (2 * 10 ^ 9)] : ℚ) = 2 ∧
    (releases .order (configure .new { ordersPerSec := 1, burstCapacity := 1 } (10 ^ 9))
      [.admitRequest {} 0, .admitRequest {} 0, .admitRequest {} (2 * 10 ^ 9)] : ℚ) ≤
      1 + 1 * ((2 * 10 ^ 9 : Nat) - (10 ^ 9 : Nat) : ℚ) / 10 ^ 9 := by
  refine ⟨by norm_num; decide +kernel, ?_⟩
  exact (rate_bound .new { ordersPerSec := 1, burstCapacity := 1 } (10 ^ 9)
    (by intro k; cases k <;> norm_num [VenueRateLimitConfig.rate])
    (by intro k; cases k <;> norm_num [VenueRateLimitConfig.burst]) []
    [.admitRequest {} 0, .admitRequest {} 0, .admitRequest {} (2 * 10 ^ 9)] .order).1

end MicrostructureEngine.VenueRateLimiter
