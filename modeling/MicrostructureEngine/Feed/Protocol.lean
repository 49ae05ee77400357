import MicrostructureEngine.Lib.Framing
import MicrostructureEngine.Lib.Layout

/-!
# The feed protocol

The terminal's expert adviser and the recorder exchange packed records over a pipe. A record
starts with a prefix of 24 bytes that names its type, its session and its place in the session.
The recorder greets with a `HelloRecord`, the adviser answers with a `HelloAckRecord`, and then
sends market data and heartbeats until one of them closes the pipe.
-/

namespace MicrostructureEngine.Mt5

set_option autoImplicit false

def protocolMagic : UInt32 := 0x31454D4D
def protocolVersion : UInt16 := 1
def symbolCount : Nat := 5

inductive RecordType where
  | hello
  | helloAck
  | marketData
  | heartbeat
  | spikeMessage
  deriving DecidableEq, Repr

def RecordType.code : RecordType → UInt16
  | .hello => 1
  | .helloAck => 2
  | .marketData => 3
  | .heartbeat => 4
  | .spikeMessage => 0x7fff

inductive MarginMode where
  | netting
  | exchange
  | hedging
  deriving DecidableEq, Repr

/-! ## Records -/

structure RecordPrefix where
  magic : UInt32
  version : UInt16
  type : UInt16
  sessionEpoch : UInt64
  sequence : UInt64
  deriving DecidableEq

structure HelloRecord where
  recordPrefix : RecordPrefix
  accountExpected : UInt64
  symbolSetHash : Vector UInt8 32
  deriving DecidableEq

structure HelloAckRecord where
  recordPrefix : RecordPrefix
  accountActual : UInt64
  serverHash : Vector UInt8 32
  accountMarginMode : UInt32
  bookSource : Vector UInt8 symbolCount
  reserved : Vector UInt8 3
  symbolMetaHash : Vector UInt8 32
  deriving DecidableEq

structure MdRecord where
  recordPrefix : RecordPrefix
  marketDataType : UInt16
  reserved0 : UInt16
  symbolId : UInt32
  tsBrokerMs : UInt64
  tsTerminalMs : UInt64
  bidTicks : Int64
  askTicks : Int64
  lastTicks : Int64
  bidVolume : Int64
  askVolume : Int64
  tickVolume : Int64
  flags : UInt32
  deriving DecidableEq

structure HbRecord where
  recordPrefix : RecordPrefix
  tsTerminalMs : UInt64
  account : UInt64
  serverHash : Vector UInt8 32
  tradeMode : UInt32
  marginMode : UInt32
  connected : UInt8
  tradeAllowed : UInt8
  bookSource : Vector UInt8 symbolCount
  reserved0 : UInt8
  equityMinor : Int64
  balanceMinor : Int64
  marginMinor : Int64
  freeMarginMinor : Int64
  accountCurrencyId : UInt32
  engineHbAgeMs : UInt32
  deriving DecidableEq

open Layout

def prefixLayout : Layout RecordPrefix :=
  (u32.pair (u16.pair (u16.pair (u64.pair u64)))).map
    { toFun := fun (magic, version, type, sessionEpoch, sequence) => ⟨magic, version, type, sessionEpoch, sequence⟩
      invFun := fun p => (p.magic, p.version, p.type, p.sessionEpoch, p.sequence)
      left_inv := fun _ => rfl
      right_inv := fun _ => rfl }

def helloLayout : Layout HelloRecord :=
  (prefixLayout.pair (u64.pair (bytes 32))).map
    { toFun := fun (head, accountExpected, symbolSetHash) => ⟨head, accountExpected, symbolSetHash⟩
      invFun := fun r => (r.recordPrefix, r.accountExpected, r.symbolSetHash)
      left_inv := fun _ => rfl
      right_inv := fun _ => rfl }

def helloAckLayout : Layout HelloAckRecord :=
  (prefixLayout.pair (u64.pair ((bytes 32).pair (u32.pair
    ((bytes symbolCount).pair ((bytes 3).pair (bytes 32))))))).map
    { toFun := fun (head, account, server, margin, book, reserved, symbols) =>
        ⟨head, account, server, margin, book, reserved, symbols⟩
      invFun := fun r => (r.recordPrefix, r.accountActual, r.serverHash, r.accountMarginMode, r.bookSource,
        r.reserved, r.symbolMetaHash)
      left_inv := fun _ => rfl
      right_inv := fun _ => rfl }

/-- What stands behind the prefix of a market data record. -/
abbrev MdBody :=
  UInt16 × UInt16 × UInt32 × UInt64 × UInt64 × Int64 × Int64 × Int64 × Int64 × Int64 × Int64 × UInt32

def mdBodyLayout : Layout MdBody :=
  u16.pair (u16.pair (u32.pair (u64.pair (u64.pair (i64.pair (i64.pair (i64.pair (i64.pair (i64.pair
    (i64.pair u32))))))))))

def mdLayout : Layout MdRecord :=
  (prefixLayout.pair mdBodyLayout).map
    { toFun := fun (head, type, reserved, symbol, broker, terminal, bid, ask, last, bidVolume, askVolume,
          tickVolume, flags) =>
        ⟨head, type, reserved, symbol, broker, terminal, bid, ask, last, bidVolume, askVolume, tickVolume, flags⟩
      invFun := fun r => (r.recordPrefix, r.marketDataType, r.reserved0, r.symbolId, r.tsBrokerMs,
        r.tsTerminalMs, r.bidTicks, r.askTicks, r.lastTicks, r.bidVolume, r.askVolume, r.tickVolume, r.flags)
      left_inv := fun _ => rfl
      right_inv := fun _ => rfl }

/-- What stands behind the prefix of a heartbeat. -/
abbrev HbBody :=
  UInt64 × UInt64 × Vector UInt8 32 × UInt32 × UInt32 × UInt8 × UInt8 × Vector UInt8 symbolCount × UInt8 ×
    Int64 × Int64 × Int64 × Int64 × UInt32 × UInt32

def hbBodyLayout : Layout HbBody :=
  u64.pair (u64.pair ((bytes 32).pair (u32.pair (u32.pair (u8.pair (u8.pair ((bytes symbolCount).pair
    (u8.pair (i64.pair (i64.pair (i64.pair (i64.pair (u32.pair u32)))))))))))))

def hbLayout : Layout HbRecord :=
  (prefixLayout.pair hbBodyLayout).map
    { toFun := fun (head, terminal, account, server, trade, margin, connected, allowed, book, reserved,
          equity, balance, marginMinor, free, currency, age) =>
        ⟨head, terminal, account, server, trade, margin, connected, allowed, book, reserved, equity, balance,
          marginMinor, free, currency, age⟩
      invFun := fun r => (r.recordPrefix, r.tsTerminalMs, r.account, r.serverHash, r.tradeMode, r.marginMode,
        r.connected, r.tradeAllowed, r.bookSource, r.reserved0, r.equityMinor, r.balanceMinor, r.marginMinor,
        r.freeMarginMinor, r.accountCurrencyId, r.engineHbAgeMs)
      left_inv := fun _ => rfl
      right_inv := fun _ => rfl }

-- the sizes that the protocol header asserts
example : prefixLayout.width = 24 ∧ helloLayout.width = 64 ∧ helloAckLayout.width = 108 ∧
    mdLayout.width = 100 ∧ hbLayout.width = 128 := by decide

end MicrostructureEngine.Mt5
