import MicrostructureEngine.Core.Event
import MicrostructureEngine.Lib.Layout

/-!
# The parts of an event

The 128 bytes of a `FixedEvent` are a header of 56 bytes and 72 bytes for the payload, of which
a payload takes the front. The fields that order a stream are those of the header.
-/

namespace MicrostructureEngine

set_option autoImplicit false

inductive EventType where
  | quote
  | trade
  | bookDelta
  | timer
  | orderAck
  | orderReject
  | fill
  | partialFill
  | cancelAck
  | positionUpdate
  | accountUpdate
  | heartbeat
  | gap
  | backpressure
  | symbolMetaChange
  | bookRebase
  | clockStep
  deriving DecidableEq, Repr

def EventType.code : EventType → UInt16
  | .quote => 0
  | .trade => 1
  | .bookDelta => 2
  | .timer => 3
  | .orderAck => 4
  | .orderReject => 5
  | .fill => 6
  | .partialFill => 7
  | .cancelAck => 8
  | .positionUpdate => 9
  | .accountUpdate => 10
  | .heartbeat => 11
  | .gap => 12
  | .backpressure => 13
  | .symbolMetaChange => 14
  | .bookRebase => 15
  | .clockStep => 16

structure EventHeader where
  seqGlobal : UInt64 := 0
  tsBrokerNs : UInt64 := 0
  tsTerminalNs : UInt64 := 0
  tsLocalNs : UInt64 := 0
  corrId : UInt64 := 0
  seqSource : UInt32 := 0
  symbolId : UInt32 := 0
  sourceId : UInt16 := 0
  type : UInt16 := 0
  sourcePriority : UInt8 := 0
  flags : UInt8 := 0
  pad : UInt16 := 0
  deriving DecidableEq

open Layout

def headerLayout : Layout EventHeader :=
  (u64.pair (u64.pair (u64.pair (u64.pair (u64.pair (u32.pair (u32.pair (u16.pair (u16.pair
    (u8.pair (u8.pair u16))))))))))).map
    { toFun := fun (seqGlobal, broker, terminal, ts, corr, seqSource, symbol, source, type, priority, flags, pad) =>
        ⟨seqGlobal, broker, terminal, ts, corr, seqSource, symbol, source, type, priority, flags, pad⟩
      invFun := fun h => (h.seqGlobal, h.tsBrokerNs, h.tsTerminalNs, h.tsLocalNs, h.corrId, h.seqSource,
        h.symbolId, h.sourceId, h.type, h.sourcePriority, h.flags, h.pad)
      left_inv := fun _ => rfl
      right_inv := fun _ => rfl }

def eventPayloadSize : Nat := 72

structure QuotePayload where
  bid : Int64
  ask : Int64
  bidSize : Int64
  askSize : Int64
  flags : UInt32
  deriving DecidableEq

def quoteLayout : Layout QuotePayload :=
  (i64.pair (i64.pair (i64.pair (i64.pair u32)))).map
    { toFun := fun (bid, ask, bidSize, askSize, flags) => ⟨bid, ask, bidSize, askSize, flags⟩
      invFun := fun q => (q.bid, q.ask, q.bidSize, q.askSize, q.flags)
      left_inv := fun _ => rfl
      right_inv := fun _ => rfl }

structure HeartbeatPayload where
  sourceId : UInt16
  ts : UInt64
  connected : UInt8
  tradeAllowed : UInt8
  bookSource : UInt8
  reserved : Vector UInt8 7
  deriving DecidableEq

def heartbeatLayout : Layout HeartbeatPayload :=
  (u16.pair (u64.pair (u8.pair (u8.pair (u8.pair (bytes 7)))))).map
    { toFun := fun (source, ts, connected, allowed, book, reserved) =>
        ⟨source, ts, connected, allowed, book, reserved⟩
      invFun := fun p => (p.sourceId, p.ts, p.connected, p.tradeAllowed, p.bookSource, p.reserved)
      left_inv := fun _ => rfl
      right_inv := fun _ => rfl }

namespace FixedEvent

/-- An event with this header, and with the payload copied to the front of its zeroed payload
array. -/
def build (header : EventHeader) (payload : List UInt8) : FixedEvent where
  image := headerLayout.write header ++ (payload ++ List.replicate eventPayloadSize 0).take eventPayloadSize
  size := by
    have htake : ((payload ++ List.replicate eventPayloadSize (0 : UInt8)).take eventPayloadSize).length =
        eventPayloadSize := by
      rw [List.length_take, List.length_append, List.length_replicate]
      omega
    rw [List.length_append, headerLayout.length_write, htake]
    rfl

/-- A value-initialised event. -/
def zeroed : FixedEvent := build {} []

def header (e : FixedEvent) : EventHeader := headerLayout.read (e.image.take headerLayout.width)

def payload (e : FixedEvent) : List UInt8 := e.image.drop headerLayout.width

def quote (e : FixedEvent) : QuotePayload := quoteLayout.read (e.payload.take quoteLayout.width)

def heartbeat (e : FixedEvent) : HeartbeatPayload := heartbeatLayout.read (e.payload.take heartbeatLayout.width)

@[simp] theorem header_build (h : EventHeader) (bs : List UInt8) : (build h bs).header = h :=
  headerLayout.read_append h _

theorem payload_build {h : EventHeader} {bs : List UInt8} (hsize : bs.length ≤ eventPayloadSize) :
    (build h bs).payload = bs ++ List.replicate (eventPayloadSize - bs.length) 0 := by
  unfold payload build
  dsimp only
  rw [headerLayout.drop_append, List.take_append, List.take_of_length_le hsize, List.take_replicate]
  rw [Nat.min_eq_left (Nat.sub_le _ _)]

@[simp] theorem quote_build (h : EventHeader) (q : QuotePayload) : (build h (quoteLayout.write q)).quote = q := by
  have hsize : (quoteLayout.write q).length ≤ eventPayloadSize := by
    rw [quoteLayout.length_write]
    decide
  rw [quote, payload_build hsize, quoteLayout.read_append]

@[simp] theorem heartbeat_build (h : EventHeader) (p : HeartbeatPayload) :
    (build h (heartbeatLayout.write p)).heartbeat = p := by
  have hsize : (heartbeatLayout.write p).length ≤ eventPayloadSize := by
    rw [heartbeatLayout.length_write]
    decide
  rw [heartbeat, payload_build hsize, heartbeatLayout.read_append]

end FixedEvent

end MicrostructureEngine
