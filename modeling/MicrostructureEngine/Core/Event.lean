import MicrostructureEngine.Persist.Framing

/-!
# Events

A `FixedEvent` is its 128-byte image, as the writer copies it into a frame and the reader
copies it back; the header fields that replay looks at are read from their offsets. Events
are ordered by `(ts_local_ns, source_priority, seq_source)`.
-/

namespace MicrostructureEngine

set_option autoImplicit false

structure FixedEvent where
  image : List UInt8
  size : image.length = fixedEventPayloadSize
  deriving DecidableEq

namespace FixedEvent

def seqGlobal (e : FixedEvent) : Nat := LittleEndian.decode (slice 0 8 e.image)

def tsLocalNs (e : FixedEvent) : Nat := LittleEndian.decode (slice 24 8 e.image)

def seqSource (e : FixedEvent) : Nat := LittleEndian.decode (slice 40 4 e.image)

def sourcePriority (e : FixedEvent) : Nat := LittleEndian.decode (slice 52 1 e.image)

end FixedEvent

def eventOrderLess (lhs rhs : FixedEvent) : Bool :=
  if lhs.tsLocalNs ≠ rhs.tsLocalNs then decide (lhs.tsLocalNs < rhs.tsLocalNs)
  else if lhs.sourcePriority ≠ rhs.sourcePriority then decide (lhs.sourcePriority < rhs.sourcePriority)
  else decide (lhs.seqSource < rhs.seqSource)

/-- The stream went backwards. -/
def eventOrderRegression (previous next : FixedEvent) : Bool := eventOrderLess next previous

/-- The total order of events, from the source's words on it. -/
def EventOrder (a b : FixedEvent) : Prop :=
  a.tsLocalNs < b.tsLocalNs ∨ (a.tsLocalNs = b.tsLocalNs ∧
    (a.sourcePriority < b.sourcePriority ∨ (a.sourcePriority = b.sourcePriority ∧
      a.seqSource ≤ b.seqSource)))

/-- An event that is no regression stands at or after its predecessor. -/
theorem eventOrderRegression_eq_false_iff {a b : FixedEvent} :
    eventOrderRegression a b = false ↔ EventOrder a b := by
  unfold eventOrderRegression eventOrderLess EventOrder
  split
  · rw [decide_eq_false_iff_not]
    omega
  · split
    · rw [decide_eq_false_iff_not]
      omega
    · rw [decide_eq_false_iff_not]
      omega

theorem EventOrder.trans {a b c : FixedEvent} (hab : EventOrder a b) (hbc : EventOrder b c) :
    EventOrder a c := by
  unfold EventOrder at *
  omega

end MicrostructureEngine
