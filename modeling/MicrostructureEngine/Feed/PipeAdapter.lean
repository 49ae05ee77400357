import MicrostructureEngine.Core.EventHeader
import MicrostructureEngine.Feed.PipeEndpoint
import MicrostructureEngine.Lib.Outputs

/-!
# The pipe adapter

The adapter turns records of one session into events. It checks the prefix, watches the
sequence numbers, estimates the offset of the terminal's clock by the least difference that it
has seen, and counts clean heartbeats. A rejected record leaves no event behind.
-/

namespace MicrostructureEngine.Mt5

set_option autoImplicit false

/-! ## Sequence numbers -/

inductive SequenceStatus where
  | synchronized
  | inOrder
  | gap
  | staleOrDuplicate
  deriving DecidableEq, Repr

structure SequenceResult where
  status : SequenceStatus
  expected : Nat
  received : Nat
  lost : Nat
  deriving DecidableEq, Repr

structure SequenceTracker where
  last : Nat := 0
  gaps : Nat := 0
  initialized : Bool := false
  deriving DecidableEq, Repr

namespace SequenceTracker

def observe (t : SequenceTracker) (sequence : Nat) : SequenceResult × SequenceTracker :=
  if !t.initialized then
    (⟨.synchronized, sequence, sequence, 0⟩, { t with initialized := true, last := sequence })
  else
    let expected := (t.last + 1) % 2 ^ 64
    if sequence = expected then (⟨.inOrder, expected, sequence, 0⟩, { t with last := sequence })
    else if sequence ≤ t.last then (⟨.staleOrDuplicate, expected, sequence, 0⟩, t)
    else
      let lost := sequence - expected
      (⟨.gap, expected, sequence, lost⟩, { t with last := sequence, gaps := (t.gaps + lost) % 2 ^ 64 })

end SequenceTracker

/-! ## Clocks -/

structure ClockOffsetEstimator where
  offsetNs : Int := 0
  initialized : Bool := false
  deriving DecidableEq, Repr

namespace ClockOffsetEstimator

/-- The difference of two 64-bit times, as a signed one. -/
def sample (terminalUtcNs localUtcNs : Nat) : Int := ((localUtcNs : Int) - terminalUtcNs).bmod (2 ^ 64)

def observe (c : ClockOffsetEstimator) (terminalUtcNs localUtcNs : Nat) : ClockOffsetEstimator where
  offsetNs :=
    if !c.initialized || decide (sample terminalUtcNs localUtcNs < c.offsetNs) then sample terminalUtcNs localUtcNs
    else c.offsetNs
  initialized := true

def correct (c : ClockOffsetEstimator) (terminalUtcNs : Nat) : Nat :=
  if !c.initialized then terminalUtcNs
  else if 0 ≤ c.offsetNs then (terminalUtcNs + c.offsetNs.toNat) % 2 ^ 64
  else (terminalUtcNs + (2 ^ 64 - (-c.offsetNs).toNat)) % 2 ^ 64

end ClockOffsetEstimator

/-! ## Heartbeats -/

inductive HeartbeatState where
  | stale
  | recovering
  | healthy
  deriving DecidableEq, Repr

structure HeartbeatMonitor where
  timeoutNs : Nat
  lastReceiveNs : Nat := 0
  cleanRequired : Nat := 3
  cleanCount : Nat := 0
  state : HeartbeatState := .stale
  deriving DecidableEq, Repr

namespace HeartbeatMonitor

def create (timeoutNs cleanRequired : Nat) : HeartbeatMonitor :=
  { timeoutNs := timeoutNs, cleanRequired := if cleanRequired = 0 then 1 else cleanRequired }

def observe (m : HeartbeatMonitor) (receiveNs : Nat) (connected : Bool) : HeartbeatMonitor :=
  let m := { m with lastReceiveNs := receiveNs }
  if !connected then { m with cleanCount := 0, state := .stale }
  else
    let cleanCount := if m.cleanCount < m.cleanRequired then m.cleanCount + 1 else m.cleanCount
    { m with
      cleanCount := cleanCount
      state := if m.cleanRequired ≤ cleanCount then .healthy else .recovering }

end HeartbeatMonitor

/-! ## The adapter -/

inductive IngressVerdict where
  | accepted
  | badMagic
  | badVersion
  | staleEpoch
  | wrongType
  | sequenceGap
  | staleSequence
  | disconnected
  deriving DecidableEq, Repr

structure IngressResult where
  verdict : IngressVerdict
  event : FixedEvent
  deriving DecidableEq

structure PipeAdapter where
  epoch : UInt64
  sourceId : UInt16
  seqGlobal : Nat := 0
  expired : Nat := 0
  sequence : SequenceTracker := {}
  heartbeat : HeartbeatMonitor
  clock : ClockOffsetEstimator := {}
  deriving DecidableEq

namespace PipeAdapter

def create (sessionEpoch : UInt64) (sourceId : UInt16) (heartbeatTimeoutNs : Nat) : PipeAdapter where
  epoch := sessionEpoch
  sourceId := sourceId
  heartbeat := .create heartbeatTimeoutNs 3

def validatePrefix (a : PipeAdapter) (p : RecordPrefix) (type : RecordType) : IngressVerdict × PipeAdapter :=
  if p.magic ≠ protocolMagic then (.badMagic, a)
  else if p.version ≠ protocolVersion then (.badVersion, a)
  else if p.sessionEpoch ≠ a.epoch then (.staleEpoch, { a with expired := (a.expired + 1) % 2 ^ 64 })
  else if p.type ≠ type.code then (.wrongType, a)
  else
    let observed := a.sequence.observe p.sequence.toNat
    let a := { a with sequence := observed.2 }
    match observed.1.status with
    | .gap => (.sequenceGap, a)
    | .staleOrDuplicate => (.staleSequence, a)
    | _ => (.accepted, a)

/-- `ts_terminal_ms * 1000000ULL`. -/
def nanoseconds (ms : UInt64) : Nat := ms.toNat * 1000000 % 2 ^ 64

/-- What both kinds of records do behind the check: the clock sees the record, and the event
gets the next number. -/
def stamp (a : PipeAdapter) (tsTerminalMs : UInt64) (localUtcNs : Nat) : PipeAdapter :=
  { a with
    clock := a.clock.observe (nanoseconds tsTerminalMs) localUtcNs
    seqGlobal := (a.seqGlobal + 1) % 2 ^ 64 }

/-- `ingest` of market data. -/
def ingestMd (a : PipeAdapter) (record : MdRecord) (localMonotonicNs localUtcNs : Nat) : IngressResult × PipeAdapter :=
  let checked := a.validatePrefix record.recordPrefix .marketData
  if checked.1 ≠ .accepted then (⟨checked.1, .zeroed⟩, checked.2)
  else
    let a := checked.2.stamp record.tsTerminalMs localUtcNs
    let header : EventHeader := {
      seqGlobal := UInt64.ofNat a.seqGlobal
      tsBrokerNs := UInt64.ofNat (nanoseconds record.tsBrokerMs)
      tsTerminalNs := UInt64.ofNat (a.clock.correct (nanoseconds record.tsTerminalMs))
      tsLocalNs := UInt64.ofNat localMonotonicNs
      seqSource := UInt32.ofNat record.recordPrefix.sequence.toNat
      symbolId := record.symbolId
      sourceId := a.sourceId
      type := EventType.quote.code }
    let payload : QuotePayload :=
      ⟨record.bidTicks, record.askTicks, record.bidVolume, record.askVolume, record.flags⟩
    (⟨.accepted, .build header (quoteLayout.write payload)⟩, a)

/-- `ingest` of a heartbeat. -/
def ingestHb (a : PipeAdapter) (record : HbRecord) (localMonotonicNs localUtcNs : Nat) : IngressResult × PipeAdapter :=
  let checked := a.validatePrefix record.recordPrefix .heartbeat
  if checked.1 ≠ .accepted then (⟨checked.1, .zeroed⟩, checked.2)
  else
    let a := checked.2.stamp record.tsTerminalMs localUtcNs
    let a := { a with heartbeat := a.heartbeat.observe localMonotonicNs (record.connected ≠ 0) }
    let verdict : IngressVerdict := if record.connected = 0 then .disconnected else .accepted
    let header : EventHeader := {
      seqGlobal := UInt64.ofNat a.seqGlobal
      tsTerminalNs := UInt64.ofNat (a.clock.correct (nanoseconds record.tsTerminalMs))
      tsLocalNs := UInt64.ofNat localMonotonicNs
      seqSource := UInt32.ofNat record.recordPrefix.sequence.toNat
      sourceId := a.sourceId
      type := EventType.heartbeat.code }
    let payload : HeartbeatPayload := ⟨a.sourceId, header.tsTerminalNs, record.connected, record.tradeAllowed,
      record.bookSource[0], Vector.replicate 7 0⟩
    (⟨verdict, .build header (heartbeatLayout.write payload)⟩, a)

/-- The overload that the type of the record selects. -/
def ingest (a : PipeAdapter) (record : WireRecord) (localMonotonicNs localUtcNs : Nat) : IngressResult × PipeAdapter :=
  match record with
  | .marketData record => a.ingestMd record localMonotonicNs localUtcNs
  | .heartbeat record => a.ingestHb record localMonotonicNs localUtcNs

end PipeAdapter

end MicrostructureEngine.Mt5
