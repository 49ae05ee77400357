import MicrostructureEngine.Feed.PipeEndpoint
import MicrostructureEngine.Lib.Runs

/-!
# The feed bridge

`mme_feed.mq5` sends the ticks of five symbols and a heartbeat every second into the recorder's
pipe. A write that does not go through closes the pipe, and the bridge asks for a new session on
its timer. The watermark of a symbol moves only behind a write that went through, so that the ticks
of an outage are taken from the terminal's history afterwards.

What the terminal answers, and how much of each write the system takes, is left open: both are
functions of the number of the write.
-/

namespace MicrostructureEngine.Mt5

set_option autoImplicit false

abbrev Symbol := Fin symbolCount

/-- A tick of the terminal, its prices in ticks as `PriceTicks` gives them and its volume rounded. -/
structure MqlTick where
  timeMsc : UInt64
  bidTicks : Int64
  askTicks : Int64
  lastTicks : Int64
  volumeReal : Int64
  volume : Int64
  flags : UInt32
  deriving DecidableEq

/-- What the terminal answers while a record is put together. -/
structure TerminalAnswers where
  tradeServerMs : UInt64 := 0
  accountLogin : UInt64 := 0
  tradeMode : UInt32 := 0
  marginMode : UInt32 := 2
  connected : UInt8 := 1
  equityMinor : Int64 := 0
  balanceMinor : Int64 := 0
  marginMinor : Int64 := 0
  freeMarginMinor : Int64 := 0
  deriving DecidableEq

/-- The bridge's surroundings: by the number of the write, what the terminal answers and how many
bytes the system takes, and by the number of the call, how many ticks `CopyTicks` finds at most. -/
structure Surroundings where
  terminal : Nat → TerminalAnswers
  takes : Nat → Nat
  copies : Nat → Nat

structure Session where
  hello : HelloRecord
  bytes : List UInt8
  deriving DecidableEq

/-- The inputs of the expert adviser and its global variables. The sessions are listed from the
present one back. -/
structure FeedBridge where
  expectedAccount : UInt64
  expectedMarginMode : UInt32
  reconnectSeconds : Nat
  serverHash : Vector UInt8 32
  symbolHash : Vector UInt8 32
  handleOpen : Bool := false
  sessionEpoch : UInt64 := 0
  sequence : UInt64 := 0
  lastTickMsc : Symbol → UInt64 := fun _ => 0
  bookSources : Vector UInt8 symbolCount := Vector.replicate symbolCount 0
  connected : Bool := false
  nextReconnectAt : Nat := 0
  removed : Bool := false
  history : Symbol → List MqlTick := fun _ => []
  sessions : List Session := []
  writes : Nat := 0
  copyCalls : Nat := 0

namespace FeedBridge

def fillPrefix (b : FeedBridge) (type : RecordType) : RecordPrefix × FeedBridge :=
  let sequence := b.sequence + 1
  (⟨protocolMagic, protocolVersion, type.code, b.sessionEpoch, sequence⟩, { b with sequence := sequence })

/-- `FileWriteStruct`: as much as the system takes goes into the pipe. -/
def writeStruct (world : Surroundings) (b : FeedBridge) (image : List UInt8) : Bool × FeedBridge :=
  match b.handleOpen, b.sessions with
  | true, session :: earlier =>
    let taken := min image.length (world.takes b.writes)
    (taken == image.length,
      { b with sessions := { session with bytes := session.bytes ++ image.take taken } :: earlier,
               writes := b.writes + 1 })
  | _, _ => (false, b)

def disconnect (b : FeedBridge) (timeLocal : Nat) : FeedBridge :=
  if !b.connected then b
  else { b with connected := false, handleOpen := false, nextReconnectAt := timeLocal + b.reconnectSeconds }

def tickRecord (world : Surroundings) (b : FeedBridge) (symbol : Symbol) (tick : MqlTick) : MdRecord where
  recordPrefix := (b.fillPrefix .marketData).1
  marketDataType := 1
  reserved0 := 0
  symbolId := UInt32.ofNat symbol.val
  tsBrokerMs := tick.timeMsc
  tsTerminalMs := (world.terminal b.writes).tradeServerMs
  bidTicks := tick.bidTicks
  askTicks := tick.askTicks
  lastTicks := tick.lastTicks
  bidVolume := tick.volumeReal
  askVolume := tick.volumeReal
  tickVolume := tick.volume
  flags := tick.flags

def heartbeatRecord (world : Surroundings) (b : FeedBridge) : HbRecord where
  recordPrefix := (b.fillPrefix .heartbeat).1
  tsTerminalMs := (world.terminal b.writes).tradeServerMs
  account := (world.terminal b.writes).accountLogin
  serverHash := b.serverHash
  tradeMode := (world.terminal b.writes).tradeMode
  marginMode := (world.terminal b.writes).marginMode
  connected := (world.terminal b.writes).connected
  tradeAllowed := 0
  bookSource := b.bookSources
  reserved0 := 0
  equityMinor := (world.terminal b.writes).equityMinor
  balanceMinor := (world.terminal b.writes).balanceMinor
  marginMinor := (world.terminal b.writes).marginMinor
  freeMarginMinor := (world.terminal b.writes).freeMarginMinor
  accountCurrencyId := 0
  engineHbAgeMs := 0

def send (world : Surroundings) (timeLocal : Nat) (b : FeedBridge) (r : WireRecord) : Bool × FeedBridge :=
  let wrote := { b with sequence := b.sequence + 1 }.writeStruct world r.image
  if wrote.1 then (true, wrote.2) else (false, wrote.2.disconnect timeLocal)

def sendTick (world : Surroundings) (timeLocal : Nat) (b : FeedBridge) (symbol : Symbol) (tick : MqlTick) :
    Bool × FeedBridge :=
  b.send world timeLocal (.marketData (b.tickRecord world symbol tick))

def sendHeartbeat (world : Surroundings) (timeLocal : Nat) (b : FeedBridge) : FeedBridge :=
  (b.send world timeLocal (.heartbeat (b.heartbeatRecord world))).2

/-- `CopyTicks`: the last ticks where no time is given, and else the first ones from then on. -/
def copyTicks (history : List MqlTick) (start : UInt64) (count : Nat) : List MqlTick :=
  if start = 0 then history.drop (history.length - count)
  else (history.filter fun tick => start ≤ tick.timeMsc).take count

/-- The inner loop of `DrainTicks`; `false` where it returns. -/
def sendTicks (world : Surroundings) (timeLocal : Nat) (symbol : Symbol) :
    List MqlTick → FeedBridge → Bool × FeedBridge
  | [], b => (true, b)
  | tick :: ticks, b =>
    let sent := b.sendTick world timeLocal symbol tick
    if !sent.1 then (false, sent.2)
    else sendTicks world timeLocal symbol ticks
      { sent.2 with lastTickMsc := Function.update sent.2.lastTickMsc symbol tick.timeMsc }

def drainSymbols (world : Surroundings) (timeLocal : Nat) : List Symbol → FeedBridge → FeedBridge
  | [], b => b
  | symbol :: symbols, b =>
    let start := if b.lastTickMsc symbol = 0 then 0 else b.lastTickMsc symbol + 1
    let ticks := copyTicks (b.history symbol) start (min 256 (world.copies b.copyCalls))
    let drained := sendTicks world timeLocal symbol ticks { b with copyCalls := b.copyCalls + 1 }
    if !drained.1 then drained.2 else drainSymbols world timeLocal symbols drained.2

def drainTicks (world : Surroundings) (timeLocal : Nat) (b : FeedBridge) : FeedBridge :=
  if !b.connected then b else drainSymbols world timeLocal (List.finRange symbolCount) b

inductive ConnectVerdict where
  | connected
  | unavailable
  | refused
  deriving DecidableEq, Repr

def ackRecord (world : Surroundings) (b : FeedBridge) : HelloAckRecord where
  recordPrefix := (b.fillPrefix .helloAck).1
  accountActual := (world.terminal b.writes).accountLogin
  serverHash := b.serverHash
  accountMarginMode := (world.terminal b.writes).marginMode
  bookSource := b.bookSources
  reserved := Vector.replicate 3 0
  symbolMetaHash := Vector.replicate 32 0

/-- The end of `TryConnect`: the bridge takes over the epoch of the greeting and answers it. -/
def acknowledge (world : Surroundings) (b : FeedBridge) (hello : HelloRecord) : ConnectVerdict × FeedBridge :=
  let b := { b with
    handleOpen := true
    sessionEpoch := hello.recordPrefix.sessionEpoch
    sessions := ⟨hello, []⟩ :: b.sessions }
  let wrote := { b with sequence := b.sequence + 1 }.writeStruct world (helloAckLayout.write (b.ackRecord world))
  if wrote.1 then (.connected, wrote.2) else (.unavailable, { wrote.2 with handleOpen := false })

/-- `TryConnect`; the greeting is `none` where the pipe cannot be opened or nothing is read from
it. -/
def tryConnect (world : Surroundings) (b : FeedBridge) (greeting : Option HelloRecord) : ConnectVerdict × FeedBridge :=
  let b := { b with handleOpen := false }
  match greeting with
  | none => (.unavailable, b)
  | some hello =>
    if hello.recordPrefix.magic ≠ protocolMagic ∨ hello.recordPrefix.version ≠ protocolVersion then (.refused, b)
    else if hello.accountExpected ≠ b.expectedAccount then (.refused, b)
    else if hello.symbolSetHash ≠ b.symbolHash then (.refused, b)
    else b.acknowledge world hello

def maybeReconnect (world : Surroundings) (timeLocal : Nat) (b : FeedBridge) (greeting : Option HelloRecord) :
    FeedBridge :=
  if timeLocal < b.nextReconnectAt then b
  else
    let tried := b.tryConnect world greeting
    match tried.1 with
    | .connected => { tried.2 with connected := true }
    | .refused => { tried.2 with removed := true }
    | .unavailable => { tried.2 with nextReconnectAt := timeLocal + tried.2.reconnectSeconds }

/-! ## Callbacks -/

/-- What happens to the bridge: a tick comes into the history of the terminal, or the terminal
calls one of its functions. -/
inductive BridgeEvent where
  | tick (symbol : Symbol) (tick : MqlTick)
  | onTick (timeLocal : Nat)
  | onBookEvent (symbol : Symbol) (timeLocal : Nat)
  | onTimer (timeLocal : Nat) (greeting : Option HelloRecord)
  | onDeinit

def step (world : Surroundings) (b : FeedBridge) : BridgeEvent → FeedBridge
  | .tick symbol tick => { b with history := Function.update b.history symbol (b.history symbol ++ [tick]) }
  | .onTick timeLocal => if b.removed then b else b.drainTicks world timeLocal
  | .onBookEvent symbol timeLocal =>
    if b.removed then b
    else { b with bookSources := b.bookSources.set symbol 1 symbol.isLt }.drainTicks world timeLocal
  | .onTimer timeLocal greeting =>
    if b.removed then b
    else if !b.connected then b.maybeReconnect world timeLocal greeting
    else
      let drained := b.drainTicks world timeLocal
      if drained.connected then drained.sendHeartbeat world timeLocal else drained
  | .onDeinit => { b with handleOpen := false, connected := false, removed := true }

/-- `OnInit`; `none` for `INIT_FAILED`. -/
def onInit (world : Surroundings) (b : FeedBridge) (login : UInt64) (marginMode : UInt32) (timeLocal : Nat)
    (greeting : Option HelloRecord) : Option FeedBridge :=
  if b.expectedAccount = 0 ∨ login ≠ b.expectedAccount ∨ marginMode ≠ b.expectedMarginMode then none
  else if b.reconnectSeconds = 0 then none
  else
    let tried := b.tryConnect world greeting
    match tried.1 with
    | .connected => some { tried.2 with connected := true }
    | .refused => none
    | .unavailable => some { tried.2 with nextReconnectAt := timeLocal + tried.2.reconnectSeconds }

end FeedBridge

end MicrostructureEngine.Mt5
