import MicrostructureEngine.Exec.Types
import MicrostructureEngine.Lib.Runs
import Mathlib.Data.PNat.Defs

/-!
# The MT5 execution bridge

The expert advisor that turns the command file into orders. What the terminal, the broker and the
operator answer during one timer call is an argument of it; prices and lots are `double` in the
source and rationals here. A sequence number is processed when it becomes `g_last_seq`. `processed`
and `fired` are history and not in the source.
-/

namespace MicrostructureEngine.Bridge

set_option autoImplicit false

structure Inputs where
  slPoints : Int := 200
  tpPoints : Int := 200
  staleSeconds : Int := 60
  rejectBackoffSecs : Int := 5
  maxConsecRejects : Int := 5
  deriving DecidableEq, Repr

/-- The word of a command: `BUY`, `CLOSE`, and any other, which sells. -/
inductive Action where
  | enter (side : Side)
  | close
  deriving DecidableEq, Repr

/-- A line of the command file. -/
structure Command where
  seq : Int
  action : Action
  want : Rat := 1
  deriving DecidableEq, Repr

inductive AckStatus where
  | filled
  | closed
  | closeNoop
  | skipMaxPosition
  | rejectClose
  | rejectLot
  | rejectStops
  | rejectNoQuote
  | rejectStale
  | rejectNoProtection
  | rejectBroker
  | haltConsecRejects
  deriving DecidableEq, Repr

/-- A line of the acknowledgement file. -/
structure Ack where
  seq : Int
  status : AckStatus
  ticket : Option ℕ+ := none
  retcode : Nat := 0
  brokerMs : Nat := 0
  deriving DecidableEq, Repr

/-- A position of the account with the symbol and the magic number of the bridge. -/
structure OwnPosition where
  ticket : ℕ+
  side : Side
  volume : Rat
  deriving DecidableEq, Repr

structure Request where
  position : Option ℕ+ := none
  side : Side
  volume : Rat
  price : Rat
  sl : Rat := 0
  tp : Rat := 0
  deriving DecidableEq, Repr

structure Quote where
  bid : Rat
  ask : Rat
  time : Int
  deriving DecidableEq, Repr

def Quote.usable (q : Quote) : Bool := decide (q.bid > 0) && decide (q.ask > 0)

/-- `left` is the volume that `DONE_PARTIAL` leaves over; what is rejected is not executed later. -/
inductive OrderAnswer where
  | rejected (retcode : Nat)
  | done (ticket : ℕ+) (retcode : Nat) (left : Rat := 0)
  deriving DecidableEq, Repr

def OrderAnswer.left : OrderAnswer → Rat
  | .rejected _ => 0
  | .done _ _ left => left

structure SymbolInfo where
  volumeMin : Rat
  volumeStep : Rat
  digits : Nat
  point : Rat
  stopsLevel : Int
  deriving DecidableEq, Repr

/-- What a timer call finds. `command` is the line of the command file if the file can be read and
the line has its three fields; `closes` answers for the own positions by their index; `answeredAt`
is the server time once the broker has answered. -/
structure Terminal where
  kill : Bool
  command : Option Command
  now : Int
  answeredAt : Int
  info : SymbolInfo
  quote : Option Quote
  order : OrderAnswer
  brokerMs : Nat
  closes : Nat → Option Quote × OrderAnswer
  ackOpens : Bool

structure ExecBridge where
  lastSeq : Int := -1
  armed : Bool := true
  consecRejects : Nat := 0
  backoffUntil : Int := 0
  deriving DecidableEq, Repr

/-- What a timer call leaves, and what it did: the sequence number it processed, the requests it
sent and the acknowledgement it wrote. -/
structure Outcome where
  bridge : ExecBridge
  positions : List OwnPosition
  processed : Option Int := none
  requests : List Request := []
  ack : Option Ack := none

def writeAck (t : Terminal) (ack : Ack) : Option Ack := if t.ackOpens then some ack else none

/-! ## Closing -/

structure Closing where
  left : List OwnPosition := []
  lastTicket : Option ℕ+ := none
  retcode : Nat := 0
  requests : List Request := []
  deriving DecidableEq, Repr

/-- The loop goes from the last position to the first. A close that is filled in part counts as one,
and the rest stays open. -/
def closeOwnPositions (closes : Nat → Option Quote × OrderAnswer) : Nat → List OwnPosition → Closing
  | _, [] => {}
  | i, p :: ps =>
    let r := closeOwnPositions closes (i + 1) ps
    match (closes i).1.filter Quote.usable with
    | none => { r with left := p :: r.left }
    | some q =>
      let request : Request :=
        { position := some p.ticket
          side := if p.side = .buy then .sell else .buy
          volume := p.volume
          price := if p.side = .buy then q.bid else q.ask }
      match (closes i).2 with
      | .rejected retcode =>
        { r with left := p :: r.left, retcode := retcode, requests := r.requests ++ [request] }
      | .done _ retcode left =>
        { left := if left > 0 then { p with volume := left } :: r.left else r.left
          lastTicket := some p.ticket
          retcode := retcode
          requests := r.requests ++ [request] }

/-- The close is sent, and filled in part. -/
def partlyClosed (answer : Option Quote × OrderAnswer) : Bool :=
  (answer.1.filter Quote.usable).isSome && decide (answer.2.left > 0)

/-! ## Opening -/

/-- `MathRound`: halves away from zero. -/
def mathRound (x : Rat) : Rat := if x ≥ 0 then (x + 1 / 2).floor else -((-x + 1 / 2).floor : Rat)

def normalizeDouble (x : Rat) (digits : Nat) : Rat := mathRound (x * 10 ^ digits) / 10 ^ digits

/-- The broker's minimum, on its step. -/
def normalisedLots (info : SymbolInfo) : Rat :=
  let lots := info.volumeMin
  let lots := if info.volumeStep > 0 then mathRound (lots / info.volumeStep) * info.volumeStep else lots
  let lots := normalizeDouble lots 2
  if lots < info.volumeMin then info.volumeMin else lots

def entryRequest (inputs : Inputs) (info : SymbolInfo) (q : Quote) (side : Side) : Request :=
  let price := if side = .buy then q.ask else q.bid
  let sl := inputs.slPoints * info.point
  let tp := inputs.tpPoints * info.point
  { side := side
    volume := normalisedLots info
    price := price
    sl := normalizeDouble (if side = .buy then price - sl else price + sl) info.digits
    tp := normalizeDouble (if side = .buy then price + tp else price - tp) info.digits }

/-- The guards of an entry, before anything is asked of the broker. -/
def entryGuard (inputs : Inputs) (positions : List OwnPosition) (c : Command) (side : Side)
    (t : Terminal) : Except AckStatus Request :=
  if positions.length ≥ 1 then .error .skipMaxPosition
  else if c.want ≤ 0 then .error .rejectLot
  else if inputs.slPoints ≤ t.info.stopsLevel ∨ inputs.tpPoints ≤ t.info.stopsLevel then
    .error .rejectStops
  else
    match t.quote.filter Quote.usable with
    | none => .error .rejectNoQuote
    | some q =>
      if t.now - q.time > inputs.staleSeconds then .error .rejectStale
      else
        let request := entryRequest inputs t.info q side
        if request.sl ≤ 0 ∨ request.tp ≤ 0 then .error .rejectNoProtection else .ok request

/-! ## The timer -/

namespace ExecBridge

/-- One more broker rejection, and the pause that follows it. -/
def reject (s : ExecBridge) (inputs : Inputs) (t : Terminal) : ExecBridge :=
  { s with
    consecRejects := s.consecRejects + 1, backoffUntil := t.answeredAt + inputs.rejectBackoffSecs }

def succeed (s : ExecBridge) : ExecBridge := { s with consecRejects := 0, backoffUntil := 0 }

def onClose (inputs : Inputs) (s : ExecBridge) (positions : List OwnPosition) (seq : Int)
    (t : Terminal) : Outcome :=
  if positions.length = 0 then
    { bridge := s, positions := positions, processed := some seq
      ack := writeAck t { seq := seq, status := .closeNoop } }
  else
    let r := closeOwnPositions t.closes 0 positions
    match r.lastTicket with
    | none =>
      { bridge := s.reject inputs t, positions := r.left, processed := some seq, requests := r.requests
        ack := writeAck t { seq := seq, status := .rejectClose, retcode := r.retcode } }
    | some ticket =>
      { bridge := s.succeed, positions := r.left, processed := some seq, requests := r.requests
        ack := writeAck t { seq := seq, status := .closed, ticket := some ticket, retcode := r.retcode } }

def onEntry (inputs : Inputs) (s : ExecBridge) (positions : List OwnPosition) (c : Command) (side : Side)
    (t : Terminal) : Outcome :=
  match entryGuard inputs positions c side t with
  | .error status =>
    { bridge := s, positions := positions, processed := some c.seq
      ack := writeAck t { seq := c.seq, status := status } }
  | .ok request =>
    match t.order with
    | .rejected retcode =>
      { bridge := s.reject inputs t, positions := positions, processed := some c.seq, requests := [request]
        ack := writeAck t
          { seq := c.seq, status := .rejectBroker, retcode := retcode, brokerMs := t.brokerMs } }
    | .done ticket retcode left =>
      { bridge := s.succeed
        positions := positions ++ [{ ticket := ticket, side := side, volume := request.volume - left }]
        processed := some c.seq
        requests := [request]
        ack := writeAck t
          { seq := c.seq, status := .filled, ticket := some ticket, retcode := retcode
            brokerMs := t.brokerMs } }

/-- A command that is to wait is left in the file. -/
def deferred (s : ExecBridge) (t : Terminal) : Bool :=
  decide (s.backoffUntil ≠ 0) && decide (t.now < s.backoffUntil)

/-- Too many broker rejections in a row. -/
def exhausted (inputs : Inputs) (s : ExecBridge) : Bool :=
  decide (inputs.maxConsecRejects > 0) && decide ((s.consecRejects : Int) ≥ inputs.maxConsecRejects)

def execute (inputs : Inputs) (s : ExecBridge) (positions : List OwnPosition) (c : Command)
    (t : Terminal) : Outcome :=
  match c.action with
  | .close => onClose inputs s positions c.seq t
  | .enter side => onEntry inputs s positions c side t

def onTimer (inputs : Inputs) (s : ExecBridge) (positions : List OwnPosition) (t : Terminal) : Outcome :=
  if !s.armed then { bridge := s, positions := positions }
  else if t.kill then { bridge := { s with lastSeq := -999 }, positions := positions }
  else
    match t.command with
    | none => { bridge := s, positions := positions }
    | some c =>
      if c.seq ≤ s.lastSeq then { bridge := s, positions := positions }
      else if s.deferred t then { bridge := s, positions := positions }
      else if s.exhausted inputs then
        { bridge := { s with lastSeq := c.seq, armed := false }, positions := positions
          processed := some c.seq
          ack := writeAck t { seq := c.seq, status := .haltConsecRejects } }
      else execute inputs { s with lastSeq := c.seq } positions c t

/-- The command that a timer call gets to: armed, not killed, newer than the mark and not deferred. -/
def accepted (s : ExecBridge) (t : Terminal) : Option Command :=
  if s.armed = true ∧ t.kill = false then
    t.command.filter fun c => decide (s.lastSeq < c.seq) && !s.deferred t
  else none

theorem execute_bridge (inputs : Inputs) (s : ExecBridge) (positions : List OwnPosition) (c : Command)
    (t : Terminal) :
    (execute inputs s positions c t).processed = some c.seq ∧
      (execute inputs s positions c t).bridge.lastSeq = s.lastSeq := by
  unfold execute
  cases c.action with
  | close =>
    unfold onClose
    dsimp only
    split
    · exact ⟨rfl, rfl⟩
    · cases (closeOwnPositions t.closes 0 positions).lastTicket with
      | none => exact ⟨rfl, rfl⟩
      | some ticket => exact ⟨rfl, rfl⟩
  | enter side =>
    unfold onEntry
    dsimp only
    cases entryGuard inputs positions c side t with
    | error status => exact ⟨rfl, rfl⟩
    | ok request =>
      cases t.order with
      | rejected retcode => exact ⟨rfl, rfl⟩
      | done ticket retcode left => exact ⟨rfl, rfl⟩

/-- Everything a timer call can do. -/
inductive Timed (inputs : Inputs) (s : ExecBridge) (positions : List OwnPosition) (t : Terminal) :
    Outcome → Prop
  | idle (accepted : s.accepted t = none) : Timed inputs s positions t { bridge := s, positions := positions }
  | killed (accepted : s.accepted t = none) :
      Timed inputs s positions t { bridge := { s with lastSeq := -999 }, positions := positions }
  | halted {c : Command} (accepted : s.accepted t = some c) (exhausted : s.exhausted inputs = true) :
      Timed inputs s positions t
        { bridge := { s with lastSeq := c.seq, armed := false }, positions := positions
          processed := some c.seq
          ack := writeAck t { seq := c.seq, status := .haltConsecRejects } }
  | executed {c : Command} (accepted : s.accepted t = some c) :
      Timed inputs s positions t (execute inputs { s with lastSeq := c.seq } positions c t)

theorem timed (inputs : Inputs) (s : ExecBridge) (positions : List OwnPosition) (t : Terminal) :
    Timed inputs s positions t (onTimer inputs s positions t) := by
  unfold onTimer
  split
  · rename_i harmed
    refine Timed.idle ?_
    unfold accepted
    rw [if_neg]
    rintro ⟨ha, -⟩
    rw [ha] at harmed
    cases harmed
  rename_i harmed
  have ha : s.armed = true := by
    cases hs : s.armed with
    | false => exact absurd (by rw [hs]; rfl) harmed
    | true => rfl
  split
  · rename_i hkill
    refine Timed.killed ?_
    unfold accepted
    rw [if_neg]
    rintro ⟨-, hk⟩
    rw [hk] at hkill
    cases hkill
  rename_i hkill
  have hlive : s.armed = true ∧ t.kill = false := ⟨ha, Bool.eq_false_iff.mpr hkill⟩
  have hread : s.accepted t = t.command.filter fun c => decide (s.lastSeq < c.seq) && !s.deferred t :=
    if_pos hlive
  cases hcommand : t.command with
  | none =>
    refine Timed.idle ?_
    rw [hread, hcommand]
    rfl
  | some c =>
    rw [hcommand] at hread
    dsimp only
    split
    · rename_i hold
      have hskip : (decide (s.lastSeq < c.seq) && !s.deferred t) = false := by
        rw [decide_eq_false (by omega), Bool.false_and]
      refine Timed.idle (hread.trans ?_)
      exact Option.filter_some_neg hskip
    rename_i hnew
    split
    · rename_i hdeferred
      have hskip : (decide (s.lastSeq < c.seq) && !s.deferred t) = false := by
        rw [hdeferred, Bool.not_true, Bool.and_false]
      refine Timed.idle (hread.trans ?_)
      exact Option.filter_some_neg hskip
    rename_i hnow
    have haccepted : s.accepted t = some c := by
      rw [hread]
      apply Option.filter_some_pos
      rw [decide_eq_true (by omega), Bool.eq_false_iff.mpr hnow]
      rfl
    split
    · rename_i hexhausted
      exact Timed.halted haccepted hexhausted
    · exact Timed.executed haccepted

theorem lt_of_accepted {s : ExecBridge} {t : Terminal} {c : Command} (h : s.accepted t = some c) :
    s.lastSeq < c.seq := by
  unfold accepted at h
  split at h
  · have hnew := (Option.filter_eq_some_iff.mp h).2
    rw [Bool.and_eq_true, decide_eq_true_eq] at hnew
    exact hnew.1
  · cases h

/-- What the call gets to is what it processes. -/
theorem onTimer_accepted (inputs : Inputs) {s : ExecBridge} (positions : List OwnPosition) {t : Terminal}
    {c : Command} (h : s.accepted t = some c) :
    (s.onTimer inputs positions t).processed = some c.seq ∧
      (s.onTimer inputs positions t).bridge.lastSeq = c.seq := by
  have htimed := timed inputs s positions t
  generalize s.onTimer inputs positions t = r at htimed ⊢
  cases htimed with
  | idle accepted => exact absurd (accepted.symm.trans h) nofun
  | killed accepted => exact absurd (accepted.symm.trans h) nofun
  | halted accepted exhausted =>
    cases accepted.symm.trans h
    exact ⟨rfl, rfl⟩
  | executed accepted =>
    cases accepted.symm.trans h
    exact execute_bridge inputs { s with lastSeq := c.seq } positions c t

theorem onTimer_skipped (inputs : Inputs) {s : ExecBridge} (positions : List OwnPosition) {t : Terminal}
    (h : s.accepted t = none) :
    (s.onTimer inputs positions t).processed = none ∧ (s.onTimer inputs positions t).positions = positions ∧
      (s.onTimer inputs positions t).ack = none ∧
      (s.onTimer inputs positions t).bridge.consecRejects = s.consecRejects := by
  have htimed := timed inputs s positions t
  generalize s.onTimer inputs positions t = r at htimed ⊢
  cases htimed with
  | idle => exact ⟨rfl, rfl, rfl, rfl⟩
  | killed => exact ⟨rfl, rfl, rfl, rfl⟩
  | halted accepted => exact absurd (h.symm.trans accepted) nofun
  | executed accepted => exact absurd (h.symm.trans accepted) nofun

theorem command_of_accepted {s : ExecBridge} {t : Terminal} {c : Command} (h : s.accepted t = some c) :
    t.command = some c := by
  unfold accepted at h
  split at h
  · exact (Option.filter_eq_some_iff.mp h).1
  · cases h

end ExecBridge

/-! ## Runs -/

/-- One timer call, with the positions that the account then shows. -/
structure Tick where
  positions : List OwnPosition
  terminal : Terminal

/-- The bridge since it was attached, with the sequence numbers it has processed and those under
which it has sent requests. -/
structure BridgeRun where
  ea : ExecBridge := {}
  processed : List Int := []
  fired : List Int := []
  deriving DecidableEq, Repr

namespace BridgeRun

def record (s : BridgeRun) (r : Outcome) : BridgeRun :=
  { ea := r.bridge
    processed := s.processed ++ r.processed.toList
    fired := s.fired ++ if r.requests = [] then [] else r.processed.toList }

def step (inputs : Inputs) (s : BridgeRun) (tick : Tick) : BridgeRun :=
  s.record (s.ea.onTimer inputs tick.positions tick.terminal)

/-- No sequence number is processed after an equal or a greater one, and none is fired twice. -/
structure FiresOnce (s : BridgeRun) : Prop where
  increasing : s.processed.Pairwise (· < ·)
  once : s.fired.Nodup

/-- The first command that gets through after the kill switch reset the mark is numbered above
everything processed before. -/
def Renumbered (s : BridgeRun) (t : Terminal) : Prop :=
  s.ea.lastSeq = -999 → ∀ c ∈ s.ea.accepted t, ∀ p ∈ s.processed, p < c.seq

instance (s : BridgeRun) (t : Terminal) : Decidable (s.Renumbered t) :=
  inferInstanceAs (Decidable (s.ea.lastSeq = -999 → ∀ c ∈ s.ea.accepted t, ∀ p ∈ s.processed, p < c.seq))

/-- The mark covers what has been processed, unless the kill switch has reset it. -/
structure Marked (s : BridgeRun) : Prop where
  increasing : s.processed.Pairwise (· < ·)
  fired : s.fired.Sublist s.processed
  least : -999 ≤ s.ea.lastSeq
  mark : s.ea.lastSeq ≠ -999 → ∀ p ∈ s.processed, p ≤ s.ea.lastSeq

theorem Marked.firesOnce {s : BridgeRun} (h : s.Marked) : s.FiresOnce := by
  refine ⟨h.increasing, h.fired.nodup ?_⟩
  exact h.increasing.imp fun hlt => ne_of_lt hlt

theorem Marked.record {s : BridgeRun} (h : s.Marked) {r : Outcome} {seq : Int}
    (hprocessed : r.processed = some seq) (hlast : r.bridge.lastSeq = seq) (hnew : s.ea.lastSeq < seq)
    (hall : ∀ p ∈ s.processed, p < seq) : (s.record r).Marked := by
  refine ⟨?_, ?_, ?_, ?_⟩
  · unfold BridgeRun.record
    rw [hprocessed, List.pairwise_append]
    refine ⟨h.increasing, List.pairwise_singleton _ _, ?_⟩
    intro p hp q hq
    cases List.mem_singleton.mp hq
    exact hall p hp
  · unfold BridgeRun.record
    rw [hprocessed]
    refine h.fired.append ?_
    split
    · exact List.nil_sublist _
    · exact List.Sublist.refl _
  · show -999 ≤ r.bridge.lastSeq
    have hleast := h.least
    omega
  · intro _ p hp
    show p ≤ r.bridge.lastSeq
    unfold BridgeRun.record at hp
    rw [hprocessed] at hp
    rcases List.mem_append.mp hp with hold | hself
    · have hlt := hall p hold
      omega
    · cases List.mem_singleton.mp hself
      omega

/-- A call that gets to nothing, with the mark as it was or reset. -/
theorem Marked.idle {s : BridgeRun} (h : s.Marked) {ea : ExecBridge} (positions : List OwnPosition)
    (hlast : ea.lastSeq = s.ea.lastSeq ∨ ea.lastSeq = -999) :
    (s.record { bridge := ea, positions := positions }).Marked := by
  have hprocessed : (s.record { bridge := ea, positions := positions }).processed = s.processed :=
    List.append_nil _
  have hfired : (s.record { bridge := ea, positions := positions }).fired = s.fired := List.append_nil _
  have hleast := h.least
  refine ⟨hprocessed ▸ h.increasing, by rw [hprocessed, hfired]; exact h.fired, ?_, ?_⟩
  · show -999 ≤ ea.lastSeq
    rcases hlast with hsame | hreset
    · omega
    · omega
  · intro hkept p hp
    show p ≤ ea.lastSeq
    rw [hprocessed] at hp
    rcases hlast with hsame | hreset
    · rw [hsame]
      exact h.mark (fun hs => hkept (hsame.trans hs)) p hp
    · exact absurd hreset hkept

theorem Marked.step {s : BridgeRun} (h : s.Marked) (inputs : Inputs) (tick : Tick)
    (hnumbered : s.Renumbered tick.terminal) : (s.step inputs tick).Marked := by
  cases haccepted : s.ea.accepted tick.terminal with
  | some c =>
    obtain ⟨hprocessed, hlast⟩ := ExecBridge.onTimer_accepted inputs tick.positions haccepted
    have hnew := ExecBridge.lt_of_accepted haccepted
    refine h.record hprocessed hlast hnew ?_
    intro p hp
    by_cases hreset : s.ea.lastSeq = -999
    · exact hnumbered hreset c haccepted p hp
    · have hmark := h.mark hreset p hp
      omega
  | none =>
    unfold BridgeRun.step
    have htimed := ExecBridge.timed inputs s.ea tick.positions tick.terminal
    generalize s.ea.onTimer inputs tick.positions tick.terminal = r at htimed ⊢
    cases htimed with
    | idle => exact h.idle tick.positions (Or.inl rfl)
    | killed => exact h.idle tick.positions (Or.inr rfl)
    | halted accepted => exact absurd (haccepted.symm.trans accepted) nofun
    | executed accepted => exact absurd (haccepted.symm.trans accepted) nofun

/-- Otherwise the call processes a number at or below one processed before. -/
theorem not_firesOnce_step {s : BridgeRun} (inputs : Inputs) {tick : Tick}
    (h : ¬ s.Renumbered tick.terminal) : ¬ (s.step inputs tick).FiresOnce := by
  intro honce
  apply h
  intro _ c haccepted p hp
  have hprocessed := (ExecBridge.onTimer_accepted inputs tick.positions haccepted).1
  have hincreasing := honce.increasing
  unfold BridgeRun.step BridgeRun.record at hincreasing
  rw [hprocessed] at hincreasing
  exact (List.pairwise_append.mp hincreasing).2.2 p hp c.seq (List.mem_singleton_self _)

theorem marked_new : Marked {} :=
  ⟨List.Pairwise.nil, List.Sublist.refl _, by decide, fun _ _ hp => absurd hp List.not_mem_nil⟩

/-- In every run from its start the bridge fires once for a sequence number, and processes them in
increasing order, exactly when the operator's resets are followed by new numbers. -/
theorem fires_once_iff (inputs : Inputs) (ticks : List Tick) :
    Runs.Throughout (step inputs) FiresOnce {} ticks ↔
      Runs.Along (step inputs) (fun s tick => s.Renumbered tick.terminal) {} ticks := by
  apply Runs.throughout_iff_along_of_invariant (I := Marked) (J := FiresOnce)
  · intro s hs
    exact hs.firesOnce
  · intro s tick hs hnumbered
    exact hs.step inputs tick hnumbered
  · intro s tick _ hstale
    exact not_firesOnce_step inputs hstale
  · exact marked_new

/-- A quote, a broker that fills, and an entry left in the file. -/
def quiet : Terminal where
  kill := false
  command := some { seq := 1, action := .enter .buy }
  now := 1000
  answeredAt := 1000
  info := { volumeMin := 1 / 100, volumeStep := 1 / 100, digits := 5, point := 1 / 100000, stopsLevel := 0 }
  quote := some { bid := 110000 / 100000, ask := 110010 / 100000, time := 1000 }
  order := .done 7 10009
  brokerMs := 70
  closes := fun _ => (some { bid := 110000 / 100000, ask := 110010 / 100000, time := 1000 }, .done 8 10009)
  ackOpens := true

/-- The entry is filled and stopped out; the kill file appears and is removed. -/
theorem kill_file_fires_again :
    let run := Runs.run (step {}) {}
      [⟨[], quiet⟩, ⟨[], { quiet with kill := true }⟩, ⟨[], quiet⟩]
    run.processed = [1, 1] ∧ run.fired = [1, 1] := by
  decide +kernel

end BridgeRun

end MicrostructureEngine.Bridge
