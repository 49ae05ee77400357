import Mathlib.Algebra.Order.Ring.Rat
import Mathlib.Tactic.Linarith
import MicrostructureEngine.Exec.Types
import MicrostructureEngine.Lib.Runs

/-!
# Rate limiting

`TokenBucket` and `VenueRateLimiter`. The source keeps tokens in a `double`; here they are
exact rationals. The ring buffer of deferred requests is a list with its oldest entry first.
-/

namespace MicrostructureEngine

set_option autoImplicit false

inductive RateLimitKind where
  | order
  | cancel
  | replace
  deriving DecidableEq, Repr, Inhabited

inductive Decision where
  | admitted
  | deferred
  | rejected
  deriving DecidableEq, Repr, Inhabited

inductive QueuePolicy where
  | defer
  | rejectImmediately
  deriving DecidableEq, Repr, Inhabited

structure TokenBucket where
  ratePerSec : ℚ := 0
  capacity : ℚ := 0
  tokens : ℚ := 0
  lastRefillNs : Nat := 0

namespace TokenBucket

/-- `configure`: a bucket starts full. -/
def configured (ratePerSec burstCapacity : ℚ) (nowNs : Nat) : TokenBucket where
  ratePerSec := ratePerSec
  capacity := burstCapacity
  tokens := burstCapacity
  lastRefillNs := nowNs

/-- A clock that did not advance grants nothing. -/
def refill (b : TokenBucket) (nowNs : Nat) : TokenBucket :=
  if nowNs ≤ b.lastRefillNs then b
  else
    let elapsedS : ℚ := ((nowNs - b.lastRefillNs : Nat) : ℚ) / 10 ^ 9
    { b with tokens := min b.capacity (b.tokens + elapsedS * b.ratePerSec), lastRefillNs := nowNs }

def tryConsume (b : TokenBucket) (nowNs : Nat) : Bool × TokenBucket :=
  let r := b.refill nowNs
  if r.tokens < 1 then (false, r) else (true, { r with tokens := r.tokens - 1 })

end TokenBucket

structure PendingRequest where
  kind : RateLimitKind := .order
  ref : BrokerOrderRef := {}
  symbol : Nat := 0
  volume : Int := 0
  price : Int := 0
  deriving DecidableEq, Repr, Inhabited

structure VenueRateLimitConfig where
  ordersPerSec : ℚ := 10 ^ 18
  burstCapacity : ℚ := 10 ^ 18
  cancelsPerSec : ℚ := 10 ^ 18
  replacesPerSec : ℚ := 10 ^ 18
  cancelBurstCapacity : ℚ := 0
  replaceBurstCapacity : ℚ := 0
  policy : QueuePolicy := .rejectImmediately
  pendingQueueCapacity : Nat := 0

namespace VenueRateLimitConfig

def rate (config : VenueRateLimitConfig) : RateLimitKind → ℚ
  | .order => config.ordersPerSec
  | .cancel => config.cancelsPerSec
  | .replace => config.replacesPerSec

/-- The burst a bucket is configured with: for cancels and replaces 0 means one second's worth. -/
def burst (config : VenueRateLimitConfig) : RateLimitKind → ℚ
  | .order => config.burstCapacity
  | .cancel =>
    if config.cancelBurstCapacity > 0 then config.cancelBurstCapacity else config.cancelsPerSec
  | .replace =>
    if config.replaceBurstCapacity > 0 then config.replaceBurstCapacity else config.replacesPerSec

end VenueRateLimitConfig

structure RateCounters where
  admitted : Nat := 0
  deferred : Nat := 0
  rejected : Nat := 0
  deriving DecidableEq, Repr, Inhabited

structure VenueRateLimiter where
  config : VenueRateLimitConfig := {}
  bucketFor : RateLimitKind → TokenBucket
  countersFor : RateLimitKind → RateCounters := fun _ => {}
  pendingCapacity : Nat := 0
  pending : List PendingRequest := []
  highWater : Nat := 0
  queueFullRejections : Nat := 0

namespace VenueRateLimiter

def configure (l : VenueRateLimiter) (config : VenueRateLimitConfig) (nowNs : Nat) :
    VenueRateLimiter :=
  { l with
    config := config
    bucketFor := fun k => .configured (config.rate k) (config.burst k) nowNs
    pendingCapacity := config.pendingQueueCapacity
    pending := []
    highWater := 0 }

/-- A constructed limiter is configured with the permissive defaults. -/
def new : VenueRateLimiter := configure { bucketFor := fun _ => {} } {} 0

def setBucket (l : VenueRateLimiter) (k : RateLimitKind) (b : TokenBucket) : VenueRateLimiter :=
  { l with bucketFor := Function.update l.bucketFor k b }

def count (l : VenueRateLimiter) (k : RateLimitKind) (f : RateCounters → RateCounters) :
    VenueRateLimiter :=
  { l with countersFor := Function.update l.countersFor k (f (l.countersFor k)) }

def admitRequest (l : VenueRateLimiter) (request : PendingRequest) (nowNs : Nat) :
    Decision × VenueRateLimiter :=
  let r := (l.bucketFor request.kind).tryConsume nowNs
  let l := l.setBucket request.kind r.2
  if r.1 then (.admitted, l.count request.kind fun c => { c with admitted := c.admitted + 1 })
  else if l.config.policy = .defer ∧ l.pendingCapacity > 0 then
    if l.pending.length < l.pendingCapacity then
      let queued := { l with
        pending := l.pending ++ [request]
        highWater := max l.highWater (l.pending.length + 1) }
      (.deferred, queued.count request.kind fun c => { c with deferred := c.deferred + 1 })
    else
      let full := { l with queueFullRejections := l.queueFullRejections + 1 }
      (.rejected, full.count request.kind fun c => { c with rejected := c.rejected + 1 })
  else (.rejected, l.count request.kind fun c => { c with rejected := c.rejected + 1 })

/-- `try_drain_one`: the front entry, if its bucket has a token now. The queue is never
searched past its front. -/
def tryDrainOne (l : VenueRateLimiter) (nowNs : Nat) : Option PendingRequest × VenueRateLimiter :=
  match l.pending with
  | [] => (none, l)
  | front :: rest =>
    let r := (l.bucketFor front.kind).tryConsume nowNs
    let l := l.setBucket front.kind r.2
    if r.1 then
      (some front, { l with pending := rest }.count front.kind
        fun c => { c with admitted := c.admitted + 1 })
    else (none, l)

/-- `tokens`: a reading that refills the bucket it reads. -/
def tokens (l : VenueRateLimiter) (k : RateLimitKind) (nowNs : Nat) : ℚ × VenueRateLimiter :=
  let b := (l.bucketFor k).refill nowNs
  (b.tokens, l.setBucket k b)

/-- Everything an `admitRequest` does besides counting. -/
theorem admitRequest_cases (l : VenueRateLimiter) (request : PendingRequest) (nowNs : Nat) :
    ((l.admitRequest request nowNs).2.config = l.config ∧
      (l.admitRequest request nowNs).2.pendingCapacity = l.pendingCapacity ∧
      (l.admitRequest request nowNs).2.bucketFor = Function.update l.bucketFor request.kind
        ((l.bucketFor request.kind).tryConsume nowNs).2) ∧
    ((((l.bucketFor request.kind).tryConsume nowNs).1 = true ∧
        (l.admitRequest request nowNs).1 = .admitted ∧ (l.admitRequest request nowNs).2.pending = l.pending) ∨
      (((l.bucketFor request.kind).tryConsume nowNs).1 = false ∧
        (l.admitRequest request nowNs).1 = .deferred ∧ l.config.policy = .defer ∧
        l.pending.length < l.pendingCapacity ∧
        (l.admitRequest request nowNs).2.pending = l.pending ++ [request]) ∨
      (((l.bucketFor request.kind).tryConsume nowNs).1 = false ∧
        (l.admitRequest request nowNs).1 = .rejected ∧ (l.admitRequest request nowNs).2.pending = l.pending)) := by
  unfold admitRequest
  generalize (l.bucketFor request.kind).tryConsume nowNs = r
  obtain ⟨consumed, b⟩ := r
  dsimp only
  cases consumed with
  | true => exact ⟨⟨rfl, rfl, rfl⟩, Or.inl ⟨rfl, rfl, rfl⟩⟩
  | false =>
    rw [if_neg (by simp)]
    split
    · rename_i hdefer
      split
      · rename_i hroom
        exact ⟨⟨rfl, rfl, rfl⟩, Or.inr (Or.inl ⟨rfl, rfl, hdefer.1, hroom, rfl⟩)⟩
      · exact ⟨⟨rfl, rfl, rfl⟩, Or.inr (Or.inr ⟨rfl, rfl, rfl⟩)⟩
    · exact ⟨⟨rfl, rfl, rfl⟩, Or.inr (Or.inr ⟨rfl, rfl, rfl⟩)⟩

/-- Everything a drain does besides counting. -/
theorem tryDrainOne_cases (l : VenueRateLimiter) (nowNs : Nat) :
    ((l.tryDrainOne nowNs).2.config = l.config ∧
      (l.tryDrainOne nowNs).2.pendingCapacity = l.pendingCapacity) ∧
    ((l.pending = [] ∧ l.tryDrainOne nowNs = (none, l)) ∨
      ∃ front rest, l.pending = front :: rest ∧
        (l.tryDrainOne nowNs).2.bucketFor = Function.update l.bucketFor front.kind
          ((l.bucketFor front.kind).tryConsume nowNs).2 ∧
        ((((l.bucketFor front.kind).tryConsume nowNs).1 = true ∧
            (l.tryDrainOne nowNs).1 = some front ∧ (l.tryDrainOne nowNs).2.pending = rest) ∨
          (((l.bucketFor front.kind).tryConsume nowNs).1 = false ∧
            (l.tryDrainOne nowNs).1 = none ∧ (l.tryDrainOne nowNs).2.pending = l.pending))) := by
  unfold tryDrainOne
  cases hp : l.pending with
  | nil => exact ⟨⟨rfl, rfl⟩, Or.inl ⟨rfl, rfl⟩⟩
  | cons front rest =>
    dsimp only
    cases hr : (l.bucketFor front.kind).tryConsume nowNs with
    | mk consumed b =>
      cases consumed with
      | true => exact ⟨⟨rfl, rfl⟩, Or.inr ⟨front, rest, rfl, by rw [hr]; rfl, Or.inl ⟨by rw [hr], rfl, rfl⟩⟩⟩
      | false =>
        exact ⟨⟨rfl, rfl⟩, Or.inr ⟨front, rest, rfl, by rw [hr]; rfl, Or.inr ⟨by rw [hr], rfl, hp⟩⟩⟩

end VenueRateLimiter

end MicrostructureEngine
