import MicrostructureEngine.Bridge.ExecBridge

/-!
# The runtime and the bridge on the position

Two parties and two files: the runtime overwrites the command file and reads the acknowledgement
file, the bridge the other way round. A command that is not acknowledged in time is sent again under
the next number. What the two then believe about the position agrees as long as no entry is sent
again that the bridge has already filled, and no close is filled in part.
-/

namespace MicrostructureEngine.Bridge

set_option autoImplicit false

/-! ## The runtime -/

inductive BridgePosition where
  | flat
  | longSide
  | shortSide
  deriving DecidableEq, Repr

/-- The position that a side opens. -/
def BridgePosition.of (side : Side) : BridgePosition := if side = .buy then .longSide else .shortSide

def BridgePosition.sides : BridgePosition → List Side
  | .flat => []
  | .longSide => [.buy]
  | .shortSide => [.sell]

/-- The first action is the empty word, which sells. -/
structure BridgeState where
  inFlight : Bool := false
  pendingSeq : Nat := 0
  pendingIsEntry : Bool := false
  pendingSide : Side := .buy
  pendingAction : Action := .enter .sell
  sentWallNs : UInt64 := 0
  position : BridgePosition := .flat
  sent : Nat := 0
  filled : Nat := 0
  closed : Nat := 0
  rejected : Nat := 0
  mismatches : Nat := 0
  timeouts : Nat := 0
  deriving DecidableEq, Repr

/-- The broker's answer, folded into the position. -/
def BridgeState.answer (b : BridgeState) (status : AckStatus) : BridgeState :=
  let b := { b with inFlight := false }
  match status with
  | .filled => { b with filled := b.filled + 1, position := .of b.pendingSide }
  | .closed => { b with closed := b.closed + 1, position := .flat }
  | .closeNoop => { b with mismatches := b.mismatches + 1, position := .flat }
  | .skipMaxPosition =>
    -- the side is not in the answer: taken to be the one not asked for
    { b with
      mismatches := b.mismatches + 1
      position :=
        if b.position = .flat then (if b.pendingSide = .buy then .shortSide else .longSide)
        else b.position }
  | _ => { b with rejected := b.rejected + 1 }

/-- `strtoull` of a printed number: a negative one wraps. -/
def strtoull (n : Int) : Nat := if n < 0 then 2 ^ 64 - n.natAbs else n.toNat

/-! ## The system -/

structure System where
  bridge : BridgeState := {}
  seq : Nat := 0
  command : Option Command := none
  ack : Option Ack := none
  run : BridgeRun := {}
  positions : List OwnPosition := []

/-- `enter` and `close` are approved intents, `reconcile` is the close that the runtime sends when
it holds the strategy's position for wrong; `timer` is a timer call of the bridge, whose command is
the one in the file, if it can be opened. -/
inductive SystemStep where
  | enter (side : Side) (want : Rat) (nowNs : UInt64)
  | close (side : Side) (want : Rat) (nowNs : UInt64)
  | reconcile (nowNs : UInt64)
  | retry (nowNs : UInt64)
  | pollAck
  | timer (t : Terminal) (opens : Bool)

namespace System

/-- The next number, the file overwritten, and the command in flight. -/
def send (s : System) (action : Action) (isEntry : Bool) (side : Side) (want : Rat) (nowNs : UInt64) :
    System :=
  { s with
    seq := s.seq + 1
    command := some { seq := s.seq + 1, action := action, want := want }
    bridge :=
      { s.bridge with
        inFlight := true, pendingSeq := s.seq + 1, pendingIsEntry := isEntry, pendingSide := side
        pendingAction := action, sentWallNs := nowNs, sent := s.bridge.sent + 1 } }

def timedOut (s : System) (nowNs : UInt64) : Bool :=
  s.bridge.inFlight && !decide (nowNs - s.bridge.sentWallNs < 3000000000)

def retryIfTimedOut (s : System) (nowNs : UInt64) : System :=
  if s.timedOut nowNs then
    { s with
      seq := s.seq + 1
      command := some { seq := s.seq + 1, action := s.bridge.pendingAction, want := 1 }
      bridge :=
        { s.bridge with
          pendingSeq := s.seq + 1, sentWallNs := nowNs, timeouts := s.bridge.timeouts + 1 } }
  else s

def pollAck (s : System) : System :=
  if !s.bridge.inFlight then s
  else
    match s.ack with
    | none => s
    | some a =>
      if strtoull a.seq < s.bridge.pendingSeq then s else { s with bridge := s.bridge.answer a.status }

/-- What the timer call finds in the command file. -/
def found (s : System) (t : Terminal) (opens : Bool) : Terminal :=
  { t with command := if opens then s.command else none }

def timer (inputs : Inputs) (s : System) (t : Terminal) (opens : Bool) : System :=
  let r := s.run.ea.onTimer inputs s.positions (s.found t opens)
  { s with run := s.run.record r, positions := r.positions, ack := r.ack.or s.ack }

def step (inputs : Inputs) (s : System) : SystemStep → System
  | .enter side want nowNs =>
    if s.bridge.inFlight = false ∧ s.bridge.position = .flat then
      s.send (.enter side) true side want nowNs
    else s
  | .close side want nowNs =>
    if s.bridge.inFlight = false ∧ s.bridge.position ≠ .flat then s.send .close false side want nowNs else s
  | .reconcile nowNs =>
    if s.bridge.inFlight = false ∧ s.bridge.position ≠ .flat then
      s.send .close false s.bridge.pendingSide 1 nowNs
    else s
  | .retry nowNs => s.retryIfTimedOut nowNs
  | .pollAck => s.pollAck
  | .timer t opens => s.timer inputs t opens

/-- The runtime's position is the one that the bridge holds. -/
def Agrees (s : System) : Prop := s.positions.map OwnPosition.side = s.bridge.position.sides

instance (s : System) : Decidable s.Agrees :=
  inferInstanceAs (Decidable (s.positions.map OwnPosition.side = s.bridge.position.sides))

/-- A timer call that gets to a close is not left with the rest of a position. -/
def ClosesWhole (s : System) (t : Terminal) (opens : Bool) : Prop :=
  ∀ c ∈ s.run.ea.accepted (s.found t opens), c.action = .close →
    ∀ i < s.positions.length, partlyClosed (t.closes i) = false

instance (s : System) (t : Terminal) (opens : Bool) : Decidable (s.ClosesWhole t opens) :=
  inferInstanceAs (Decidable (∀ c ∈ s.run.ea.accepted (s.found t opens), c.action = .close →
    ∀ i < s.positions.length, partlyClosed (t.closes i) = false))

/-- No entry is sent again that the bridge has filled, no number is processed again, and no close is
filled in part. -/
def Timely (s : System) : SystemStep → Prop
  | .retry nowNs => s.timedOut nowNs = true → s.bridge.pendingIsEntry = true → s.positions.length = 0
  | .timer t opens => s.run.Renumbered (s.found t opens) ∧ s.ClosesWhole t opens
  | _ => True

/-- Flat on both sides, nothing in flight, and no file ahead of the runtime's numbers. -/
structure Matched (s : System) : Prop where
  marked : s.run.Marked
  processed : ∀ p ∈ s.run.processed, p ≤ s.seq
  ack : ∀ a ∈ s.ack, 0 ≤ a.seq ∧ a.seq ≤ s.seq
  command : ∀ c ∈ s.command, c.seq ∈ s.run.processed
  idle : s.bridge.inFlight = false
  flat : s.bridge.position = .flat
  empty : s.positions = []

/-! ## What holds while a command is in flight -/

/-- An entry waits on a flat position, and has been filled only by its own number. -/
structure Entering (s : System) (side : Side) : Prop where
  flat : s.bridge.position = .flat
  asked : s.bridge.pendingSide = side
  entry : s.bridge.pendingIsEntry = true
  held : s.positions = [] ∨
    s.positions.map OwnPosition.side = [side] ∧ (s.seq : Int) ∈ s.run.processed

/-- A close waits on the position it is to close, or on what an earlier number closed. -/
structure Leaving (s : System) : Prop where
  opened : s.bridge.position ≠ .flat
  held : s.Agrees ∨ s.positions = [] ∧ s.run.ea.consecRejects = 0

structure Sent (s : System) : Prop where
  pending : s.bridge.pendingSeq = s.seq
  command : ∃ want, s.command = some { seq := s.seq, action := s.bridge.pendingAction, want := want }
  answered : ∀ a ∈ s.ack, a.seq = s.seq → (s.seq : Int) ∈ s.run.processed ∧
    s.positions.map OwnPosition.side = (s.bridge.answer a.status).position.sides
  entering : ∀ side, s.bridge.pendingAction = .enter side → s.Entering side
  leaving : s.bridge.pendingAction = .close → s.Leaving

structure Agreed (s : System) : Prop where
  marked : s.run.Marked
  processed : ∀ p ∈ s.run.processed, p ≤ s.seq
  ack : ∀ a ∈ s.ack, 0 ≤ a.seq ∧ a.seq ≤ s.seq
  idle : s.bridge.inFlight = false → (∀ c ∈ s.command, c.seq ∈ s.run.processed) ∧ s.Agrees
  sent : s.bridge.inFlight = true → s.Sent

theorem Matched.agreed {s : System} (h : s.Matched) : s.Agreed := by
  refine ⟨h.marked, h.processed, h.ack, fun _ => ⟨h.command, ?_⟩, ?_⟩
  · unfold Agrees
    rw [h.empty, h.flat]
    rfl
  · intro hsent
    rw [h.idle] at hsent
    cases hsent

end System

/-! ## What the bridge answers -/

/-- The answers that leave the runtime's position as it was. -/
def AckStatus.refuses : AckStatus → Bool
  | .filled | .closed | .closeNoop | .skipMaxPosition => false
  | _ => true

theorem BridgeState.answer_of_refuses {status : AckStatus} (h : status.refuses = true) (b : BridgeState) :
    (b.answer status).position = b.position := by
  cases status with
  | filled | closed | closeNoop | skipMaxPosition => cases h
  | rejectClose | rejectLot | rejectStops | rejectNoQuote | rejectStale | rejectNoProtection
  | rejectBroker | haltConsecRejects => rfl

theorem of_mem_writeAck {t : Terminal} {ack a : Ack} (h : a ∈ writeAck t ack) : a = ack := by
  unfold writeAck at h
  split at h
  · exact (Option.some.inj h).symm
  · cases h

theorem entryGuard_refuses {inputs : Inputs} {c : Command} {side : Side} {t : Terminal}
    {status : AckStatus} (h : entryGuard inputs [] c side t = .error status) : status.refuses = true := by
  unfold entryGuard at h
  rw [if_neg (by decide)] at h
  split at h
  · cases h
    rfl
  split at h
  · cases h
    rfl
  cases hquote : t.quote.filter Quote.usable with
  | none =>
    rw [hquote] at h
    cases h
    rfl
  | some q =>
    rw [hquote] at h
    dsimp only at h
    split at h
    · cases h
      rfl
    split at h
    · cases h
      rfl
    · cases h

/-- A flat bridge refuses an entry, or fills it. -/
theorem onEntry_flat (inputs : Inputs) (ea : ExecBridge) (c : Command) (side : Side) (t : Terminal) :
    (∃ status, status.refuses = true ∧ (ea.onEntry inputs [] c side t).positions = [] ∧
        ∀ a ∈ (ea.onEntry inputs [] c side t).ack, a.seq = c.seq ∧ a.status = status) ∨
      (∃ p : OwnPosition, p.side = side ∧ (ea.onEntry inputs [] c side t).positions = [p] ∧
        ∀ a ∈ (ea.onEntry inputs [] c side t).ack, a.seq = c.seq ∧ a.status = .filled) := by
  unfold ExecBridge.onEntry
  cases hguard : entryGuard inputs [] c side t with
  | error status =>
    refine Or.inl ⟨status, entryGuard_refuses hguard, rfl, ?_⟩
    intro a ha
    cases of_mem_writeAck ha
    exact ⟨rfl, rfl⟩
  | ok request =>
    cases t.order with
    | rejected retcode =>
      refine Or.inl ⟨.rejectBroker, rfl, rfl, ?_⟩
      intro a ha
      cases of_mem_writeAck ha
      exact ⟨rfl, rfl⟩
    | done ticket retcode left =>
      refine Or.inr ⟨_, rfl, rfl, ?_⟩
      intro a ha
      cases of_mem_writeAck ha
      exact ⟨rfl, rfl⟩

theorem closeOwnPositions_singleton {closes : Nat → Option Quote × OrderAnswer}
    (hwhole : partlyClosed (closes 0) = false) (p : OwnPosition) :
    ((closeOwnPositions closes 0 [p]).lastTicket = none ∧ (closeOwnPositions closes 0 [p]).left = [p]) ∨
      (∃ ticket, (closeOwnPositions closes 0 [p]).lastTicket = some ticket ∧
        (closeOwnPositions closes 0 [p]).left = []) := by
  unfold partlyClosed at hwhole
  unfold closeOwnPositions closeOwnPositions
  dsimp only
  cases hquote : (closes 0).1.filter Quote.usable with
  | none => exact Or.inl ⟨rfl, rfl⟩
  | some q =>
    cases hanswer : (closes 0).2 with
    | rejected retcode => exact Or.inl ⟨rfl, rfl⟩
    | done ticket retcode left =>
      rw [hquote, hanswer] at hwhole
      have hnone : ¬ left > 0 := of_decide_eq_false hwhole
      exact Or.inr ⟨p.ticket, rfl, if_neg hnone⟩

/-- A bridge with one position closes it, or answers that it could not. -/
theorem onClose_single (inputs : Inputs) (ea : ExecBridge) (p : OwnPosition) (seq : Int) {t : Terminal}
    (hwhole : partlyClosed (t.closes 0) = false) :
    ((ea.onClose inputs [p] seq t).positions = [p] ∧
        ∀ a ∈ (ea.onClose inputs [p] seq t).ack, a.seq = seq ∧ a.status = .rejectClose) ∨
      ((ea.onClose inputs [p] seq t).positions = [] ∧
        (ea.onClose inputs [p] seq t).bridge.consecRejects = 0 ∧
        ∀ a ∈ (ea.onClose inputs [p] seq t).ack, a.seq = seq ∧ a.status = .closed) := by
  have hlength : [p].length ≠ 0 := Nat.one_ne_zero
  unfold ExecBridge.onClose
  rw [if_neg hlength]
  dsimp only
  rcases closeOwnPositions_singleton hwhole p with ⟨hnone, hleft⟩ | ⟨ticket, hsome, hleft⟩
  · rw [hnone, hleft]
    refine Or.inl ⟨rfl, ?_⟩
    intro a ha
    cases of_mem_writeAck ha
    exact ⟨rfl, rfl⟩
  · rw [hsome, hleft]
    refine Or.inr ⟨rfl, rfl, ?_⟩
    intro a ha
    cases of_mem_writeAck ha
    exact ⟨rfl, rfl⟩

theorem onClose_flat (inputs : Inputs) (ea : ExecBridge) (seq : Int) (t : Terminal) :
    (ea.onClose inputs [] seq t).positions = [] ∧ (ea.onClose inputs [] seq t).bridge = ea ∧
      ∀ a ∈ (ea.onClose inputs [] seq t).ack, a.seq = seq ∧ a.status = .closeNoop := by
  unfold ExecBridge.onClose
  rw [if_pos List.length_nil]
  refine ⟨rfl, rfl, ?_⟩
  intro a ha
  cases of_mem_writeAck ha
  exact ⟨rfl, rfl⟩

namespace System

/-! ## The bridge's step -/

theorem lt_of_accepted {s : System} (h : s.Agreed) {t : Terminal} {opens : Bool}
    (hnumbered : s.run.Renumbered (s.found t opens)) {c : Command}
    (haccepted : s.run.ea.accepted (s.found t opens) = some c) : ∀ p ∈ s.run.processed, p < c.seq := by
  intro p hp
  have hnew := ExecBridge.lt_of_accepted haccepted
  by_cases hreset : s.run.ea.lastSeq = -999
  · exact hnumbered hreset c haccepted p hp
  · have hmark := h.marked.mark hreset p hp
    omega

theorem command_of_accepted {s : System} {t : Terminal} {opens : Bool} {c : Command}
    (haccepted : s.run.ea.accepted (s.found t opens) = some c) : s.command = some c := by
  have hfound := ExecBridge.command_of_accepted haccepted
  unfold found at hfound
  cases opens with
  | true => exact hfound
  | false => cases hfound

/-- Only the mark of the bridge can differ. -/
theorem Agreed.timer_skipped {s : System} (h : s.Agreed) (inputs : Inputs) {t : Terminal} {opens : Bool}
    (hmarked : (s.timer inputs t opens).run.Marked)
    (hskipped : s.run.ea.accepted (s.found t opens) = none) : (s.timer inputs t opens).Agreed := by
  obtain ⟨hprocessed, hpositions, hack, hrejects⟩ :=
    ExecBridge.onTimer_skipped inputs s.positions hskipped
  unfold timer BridgeRun.record at hmarked ⊢
  dsimp only at hmarked ⊢
  generalize s.run.ea.onTimer inputs s.positions (s.found t opens) = r at *
  rw [hpositions, hack, hprocessed]
  rw [hprocessed] at hmarked
  dsimp only [Option.toList, Option.or] at hmarked ⊢
  rw [List.append_nil] at hmarked ⊢
  refine ⟨hmarked, h.processed, h.ack, h.idle, ?_⟩
  intro hsent
  have hs := h.sent hsent
  refine ⟨hs.pending, hs.command, hs.answered, ?_, ?_⟩
  · intro side haction
    have he := hs.entering side haction
    exact ⟨he.flat, he.asked, he.entry, he.held⟩
  · intro haction
    have hl := hs.leaving haction
    refine ⟨hl.opened, hl.held.imp id ?_⟩
    rintro ⟨hempty, hzero⟩
    exact ⟨hempty, hrejects.trans hzero⟩

/-- The bridge has processed the command in flight, and what it answered agrees with what it holds. -/
theorem Agreed.timer_answered {s : System} (h : s.Agreed) (hsent : s.bridge.inFlight = true)
    (hnew : (s.seq : Int) ∉ s.run.processed) (inputs : Inputs) {t : Terminal} {opens : Bool}
    (hmarked : (s.timer inputs t opens).run.Marked) {r : Outcome}
    (hr : s.run.ea.onTimer inputs s.positions (s.found t opens) = r)
    (hprocessed : r.processed = some (s.seq : Int)) {status : AckStatus}
    (hack : ∀ a ∈ r.ack, a.seq = s.seq ∧ a.status = status)
    (hagree : r.positions.map OwnPosition.side = (s.bridge.answer status).position.sides)
    (hentering : ∀ side, s.bridge.pendingAction = .enter side →
      r.positions = [] ∨ r.positions.map OwnPosition.side = [side])
    (hleaving : s.bridge.pendingAction = .close →
      r.positions.map OwnPosition.side = s.bridge.position.sides ∨
        r.positions = [] ∧ r.bridge.consecRejects = 0) : (s.timer inputs t opens).Agreed := by
  have hs := h.sent hsent
  have hself : (s.seq : Int) ∈ s.run.processed ++ [(s.seq : Int)] :=
    List.mem_append_right _ (List.mem_singleton_self _)
  have hacks : ∀ a ∈ r.ack.or s.ack, a ∈ r.ack ∨ a ∈ s.ack := by
    intro a ha
    cases hwritten : r.ack with
    | none =>
      rw [hwritten] at ha
      exact Or.inr ha
    | some b =>
      rw [hwritten] at ha
      exact Or.inl ha
  unfold timer BridgeRun.record at hmarked ⊢
  rw [hr] at hmarked ⊢
  dsimp only at hmarked ⊢
  rw [hprocessed] at hmarked ⊢
  refine ⟨hmarked, ?_, ?_, ?_, fun _ => ⟨hs.pending, hs.command, ?_, ?_, ?_⟩⟩
  · intro p hp
    rcases List.mem_append.mp hp with hold | hself
    · exact h.processed p hold
    · exact le_of_eq (List.mem_singleton.mp hself)
  · intro a ha
    rcases hacks a ha with hwritten | hold
    · have hseq := (hack a hwritten).1
      dsimp only
      omega
    · exact h.ack a hold
  · intro hidle
    rw [show s.bridge.inFlight = false from hidle] at hsent
    cases hsent
  · intro a ha hseq
    refine ⟨hself, ?_⟩
    rcases hacks a ha with hwritten | hold
    · rw [(hack a hwritten).2]
      exact hagree
    · exact absurd (hs.answered a hold hseq).1 hnew
  · intro side haction
    have he := hs.entering side haction
    exact ⟨he.flat, he.asked, he.entry, (hentering side haction).imp id fun hheld => ⟨hheld, hself⟩⟩
  · intro haction
    exact ⟨(hs.leaving haction).opened, hleaving haction⟩

theorem Agreed.timer_entry {s : System} (h : s.Agreed) (hsent : s.bridge.inFlight = true)
    (hnew : (s.seq : Int) ∉ s.run.processed) (inputs : Inputs) {t : Terminal} {opens : Bool}
    (hmarked : (s.timer inputs t opens).run.Marked) {c : Command} (hseq : c.seq = s.seq) {side : Side}
    (haction : c.action = .enter side) (hpending : s.bridge.pendingAction = .enter side) {ea : ExecBridge}
    (hr : s.run.ea.onTimer inputs s.positions (s.found t opens) =
      ea.execute inputs s.positions c (s.found t opens)) :
    (s.timer inputs t opens).Agreed := by
  have he := (h.sent hsent).entering side hpending
  have hempty : s.positions = [] := he.held.elim id fun hheld => absurd hheld.2 hnew
  have hprocessed := (ExecBridge.execute_bridge inputs ea s.positions c (s.found t opens)).1
  rw [hseq] at hprocessed
  have hentry : ea.execute inputs s.positions c (s.found t opens) =
      ea.onEntry inputs [] c side (s.found t opens) := by
    unfold ExecBridge.execute
    rw [haction, hempty]
  have hnot : s.bridge.pendingAction ≠ .close := by
    rw [hpending]
    exact nofun
  rw [hentry] at hr hprocessed
  rcases onEntry_flat inputs ea c side (s.found t opens) with
    ⟨status, hrefuses, hpositions, hack⟩ | ⟨p, hside, hpositions, hack⟩
  · rw [hseq] at hack
    refine h.timer_answered hsent hnew inputs hmarked hr hprocessed hack ?_ ?_ (fun hc => absurd hc hnot)
    · rw [hpositions, BridgeState.answer_of_refuses hrefuses, he.flat]
      rfl
    · exact fun _ _ => Or.inl hpositions
  · rw [hseq] at hack
    refine h.timer_answered hsent hnew inputs hmarked hr hprocessed hack ?_ ?_ (fun hc => absurd hc hnot)
    · rw [hpositions]
      show [p.side] = (BridgePosition.of s.bridge.pendingSide).sides
      rw [hside, he.asked]
      cases side with
      | buy => rfl
      | sell => rfl
    · intro side' hpending'
      rw [hpositions]
      cases hpending.symm.trans hpending'
      exact Or.inr (congrArg (fun x => [x]) hside)

theorem Agreed.timer_close {s : System} (h : s.Agreed) (hsent : s.bridge.inFlight = true)
    (hnew : (s.seq : Int) ∉ s.run.processed) (inputs : Inputs) {t : Terminal} {opens : Bool}
    (hmarked : (s.timer inputs t opens).run.Marked) {c : Command} (hseq : c.seq = s.seq)
    (haction : c.action = .close) (hpending : s.bridge.pendingAction = .close)
    (hwhole : ∀ i < s.positions.length, partlyClosed (t.closes i) = false) {ea : ExecBridge}
    (hrejects : ea.consecRejects = s.run.ea.consecRejects)
    (hr : s.run.ea.onTimer inputs s.positions (s.found t opens) =
      ea.execute inputs s.positions c (s.found t opens)) :
    (s.timer inputs t opens).Agreed := by
  have hl := (h.sent hsent).leaving hpending
  have hprocessed := (ExecBridge.execute_bridge inputs ea s.positions c (s.found t opens)).1
  rw [hseq] at hprocessed
  have hclose : ea.execute inputs s.positions c (s.found t opens) =
      ea.onClose inputs s.positions c.seq (s.found t opens) := by
    unfold ExecBridge.execute
    rw [haction]
  have hnot : ∀ side, s.bridge.pendingAction ≠ .enter side := by
    intro side
    rw [hpending]
    exact nofun
  rw [hclose, hseq] at hr
  rw [hclose, hseq] at hprocessed
  rcases hl.held with hagrees | ⟨hempty, hzero⟩
  · -- one position, the one that the runtime knows of
    obtain ⟨p, hone⟩ : ∃ p, s.positions = [p] := by
      unfold Agrees at hagrees
      apply List.length_eq_one_iff.mp
      rw [← List.length_map OwnPosition.side, hagrees]
      cases hposition : s.bridge.position with
      | flat => exact absurd hposition hl.opened
      | longSide => rfl
      | shortSide => rfl
    rw [hone] at hr hprocessed hwhole
    have hfirst : partlyClosed ((s.found t opens).closes 0) = false := hwhole 0 Nat.one_pos
    rcases onClose_single inputs ea p s.seq hfirst with
      ⟨hpositions, hack⟩ | ⟨hpositions, hreset, hack⟩
    · refine h.timer_answered hsent hnew inputs hmarked (hone ▸ hr) hprocessed hack ?_
        (fun side hc => absurd hc (hnot side)) (fun _ => Or.inl ?_)
      · rw [hpositions, BridgeState.answer_of_refuses rfl, ← hone]
        exact hagrees
      · rw [hpositions, ← hone]
        exact hagrees
    · refine h.timer_answered hsent hnew inputs hmarked (hone ▸ hr) hprocessed hack ?_
        (fun side hc => absurd hc (hnot side)) (fun _ => Or.inr ⟨hpositions, hreset⟩)
      rw [hpositions]
      rfl
  · -- an earlier number has closed it
    rw [hempty] at hr hprocessed
    obtain ⟨hpositions, hbridge, hack⟩ :=
      onClose_flat inputs ea s.seq (s.found t opens)
    refine h.timer_answered hsent hnew inputs hmarked (hempty ▸ hr) hprocessed hack ?_
      (fun side hc => absurd hc (hnot side)) (fun _ => Or.inr ⟨hpositions, ?_⟩)
    · rw [hpositions]
      rfl
    · rw [hbridge]
      exact hrejects.trans hzero

theorem Agreed.timer_halted {s : System} (h : s.Agreed) (hsent : s.bridge.inFlight = true)
    (hnew : (s.seq : Int) ∉ s.run.processed) (inputs : Inputs) {t : Terminal} {opens : Bool}
    (hmarked : (s.timer inputs t opens).run.Marked) {c : Command} (hseq : c.seq = s.seq)
    (hexhausted : s.run.ea.exhausted inputs = true)
    (hr : s.run.ea.onTimer inputs s.positions (s.found t opens) =
      { bridge := { s.run.ea with lastSeq := c.seq, armed := false }, positions := s.positions
        processed := some c.seq
        ack := writeAck (s.found t opens) { seq := c.seq, status := .haltConsecRejects } }) :
    (s.timer inputs t opens).Agreed := by
  have hs := h.sent hsent
  have hrejects : s.run.ea.consecRejects ≠ 0 := by
    unfold ExecBridge.exhausted at hexhausted
    rw [Bool.and_eq_true, decide_eq_true_eq, decide_eq_true_eq] at hexhausted
    omega
  have hkept : s.Agrees := by
    cases haction : s.bridge.pendingAction with
    | enter side =>
      have he := hs.entering side haction
      unfold Agrees
      rw [he.held.elim id fun hheld => absurd hheld.2 hnew, he.flat]
      rfl
    | close => exact (hs.leaving haction).held.elim id fun hclosed => absurd hclosed.2 hrejects
  have hack : ∀ a ∈ writeAck (s.found t opens) { seq := c.seq, status := .haltConsecRejects },
      a.seq = s.seq ∧ a.status = .haltConsecRejects := by
    intro a ha
    cases of_mem_writeAck ha
    exact ⟨hseq, rfl⟩
  refine h.timer_answered hsent hnew inputs hmarked hr (congrArg some hseq) hack hkept ?_
    (fun _ => Or.inl hkept)
  intro side haction
  exact (hs.entering side haction).held.imp id fun hheld => hheld.1

theorem Agreed.timer {s : System} (h : s.Agreed) (inputs : Inputs) (t : Terminal) (opens : Bool)
    (htimely : s.Timely (.timer t opens)) : (s.timer inputs t opens).Agreed := by
  obtain ⟨hnumbered, hwhole⟩ := htimely
  have hmarked : (s.timer inputs t opens).run.Marked :=
    h.marked.step inputs ⟨s.positions, s.found t opens⟩ hnumbered
  cases haccepted : s.run.ea.accepted (s.found t opens) with
  | none => exact h.timer_skipped inputs hmarked haccepted
  | some c =>
    have hall := lt_of_accepted h hnumbered haccepted
    have hcommand := command_of_accepted haccepted
    cases hflight : s.bridge.inFlight with
    | false =>
      have hold := (h.idle hflight).1 c hcommand
      exact absurd (hall c.seq hold) (lt_irrefl _)
    | true =>
      obtain ⟨want, hfile⟩ := (h.sent hflight).command
      obtain ⟨hseq, hpending⟩ : c.seq = s.seq ∧ c.action = s.bridge.pendingAction := by
        cases hfile.symm.trans hcommand
        exact ⟨rfl, rfl⟩
      have hnew : (s.seq : Int) ∉ s.run.processed := by
        intro hold
        have hlt := hall s.seq hold
        omega
      have htimed := ExecBridge.timed inputs s.run.ea s.positions (s.found t opens)
      generalize hr : s.run.ea.onTimer inputs s.positions (s.found t opens) = r at htimed
      cases htimed with
      | idle accepted => exact absurd (haccepted.symm.trans accepted) nofun
      | killed accepted => exact absurd (haccepted.symm.trans accepted) nofun
      | halted accepted exhausted =>
        cases haccepted.symm.trans accepted
        exact h.timer_halted hflight hnew inputs hmarked hseq exhausted hr
      | executed accepted =>
        cases haccepted.symm.trans accepted
        cases haction : c.action with
        | enter side =>
          exact h.timer_entry hflight hnew inputs hmarked hseq haction (hpending.symm.trans haction) hr
        | close =>
          refine h.timer_close hflight hnew inputs hmarked hseq haction (hpending.symm.trans haction)
            (hwhole c haccepted haction) ?_ hr
          rfl

/-! ## The runtime's steps -/

/-- A new number: nothing has been processed or acknowledged under it. -/
theorem Agreed.not_answered {s : System} (h : s.Agreed) {a : Ack} (ha : a ∈ s.ack) :
    a.seq ≠ ((s.seq + 1 : Nat) : Int) := by
  have hbound := (h.ack a ha).2
  omega

theorem Agreed.send {s : System} (h : s.Agreed) (hidle : s.bridge.inFlight = false) {action : Action}
    {isEntry : Bool} {side : Side} (want : Rat) (nowNs : UInt64)
    (hentering : ∀ x, action = .enter x → s.bridge.position = .flat ∧ side = x ∧ isEntry = true)
    (hleaving : action = .close → s.bridge.position ≠ .flat) :
    (s.send action isEntry side want nowNs).Agreed := by
  have hagrees := (h.idle hidle).2
  refine ⟨h.marked, ?_, ?_, nofun, fun _ => ⟨rfl, ⟨want, rfl⟩, ?_, ?_, ?_⟩⟩
  · intro p hp
    exact (h.processed p hp).trans (Int.ofNat_le.mpr (Nat.le_succ _))
  · intro a ha
    exact ⟨(h.ack a ha).1, (h.ack a ha).2.trans (Int.ofNat_le.mpr (Nat.le_succ _))⟩
  · intro a ha hseq
    exact absurd hseq (h.not_answered ha)
  · intro x haction
    obtain ⟨hflat, hside, hentry⟩ := hentering x haction
    refine ⟨hflat, hside, hentry, Or.inl ?_⟩
    unfold Agrees at hagrees
    rw [hflat] at hagrees
    exact List.map_eq_nil_iff.mp hagrees
  · intro haction
    exact ⟨hleaving haction, Or.inl hagrees⟩

/-- An entry that is sent again has not been filled; a close may have been. -/
theorem Agreed.retry {s : System} (h : s.Agreed) (nowNs : UInt64)
    (htimely : s.Timely (.retry nowNs)) : (s.retryIfTimedOut nowNs).Agreed := by
  unfold retryIfTimedOut
  split
  · rename_i hout
    have hflight : s.bridge.inFlight = true := (Bool.and_eq_true_iff.mp hout).1
    have hs := h.sent hflight
    refine ⟨h.marked, ?_, ?_, ?_, fun _ => ⟨rfl, ⟨1, rfl⟩, ?_, ?_, ?_⟩⟩
    · intro p hp
      exact (h.processed p hp).trans (Int.ofNat_le.mpr (Nat.le_succ _))
    · intro a ha
      exact ⟨(h.ack a ha).1, (h.ack a ha).2.trans (Int.ofNat_le.mpr (Nat.le_succ _))⟩
    · intro hidle
      exact absurd (hflight.symm.trans hidle) nofun
    · intro a ha hseq
      exact absurd hseq (h.not_answered ha)
    · intro side haction
      have he := hs.entering side haction
      have hempty := List.length_eq_zero_iff.mp (htimely hout he.entry)
      exact ⟨he.flat, he.asked, he.entry, Or.inl hempty⟩
    · intro haction
      have hl := hs.leaving haction
      exact ⟨hl.opened, hl.held⟩
  · exact h

theorem Agreed.pollAck {s : System} (h : s.Agreed) : s.pollAck.Agreed := by
  unfold System.pollAck
  cases hflight : s.bridge.inFlight with
  | false => exact h
  | true =>
    rw [Bool.not_true, if_neg Bool.false_ne_true]
    have hs := h.sent hflight
    cases hack : s.ack with
    | none => exact h
    | some a =>
      dsimp only
      split
      · exact h
      · rename_i hstale
        obtain ⟨hnonneg, hbound⟩ := h.ack a hack
        have hseq : a.seq = s.seq := by
          unfold strtoull at hstale
          rw [if_neg (by omega), hs.pending] at hstale
          omega
        obtain ⟨hprocessed, hagree⟩ := hs.answered a hack hseq
        obtain ⟨want, hfile⟩ := hs.command
        refine ⟨h.marked, h.processed, ?_, fun _ => ⟨?_, hagree⟩, ?_⟩
        · intro b hb
          cases hb
          exact ⟨hnonneg, hbound⟩
        · intro c hc
          cases hfile.symm.trans hc
          exact hprocessed
        · intro hsent
          have hlanded : (s.bridge.answer a.status).inFlight = false := by
            cases a.status <;> rfl
          exact absurd (hlanded.symm.trans hsent) nofun

theorem Agreed.step {s : System} (h : s.Agreed) (inputs : Inputs) (a : SystemStep) (htimely : s.Timely a) :
    (s.step inputs a).Agreed := by
  cases a with
  | enter side want nowNs =>
    unfold System.step
    dsimp only
    split
    · rename_i hflat
      refine h.send hflat.1 want nowNs ?_ nofun
      intro x hx
      cases hx
      exact ⟨hflat.2, rfl, rfl⟩
    · exact h
  | close side want nowNs =>
    unfold System.step
    dsimp only
    split
    · rename_i hopen
      exact h.send hopen.1 want nowNs nofun fun _ => hopen.2
    · exact h
  | reconcile nowNs =>
    unfold System.step
    dsimp only
    split
    · rename_i hopen
      exact h.send hopen.1 1 nowNs nofun fun _ => hopen.2
    · exact h
  | retry nowNs => exact h.retry nowNs htimely
  | pollAck => exact h.pollAck
  | timer t opens => exact h.timer inputs t opens htimely

/-- In every timely run from matched ends, the runtime's position is the one that the bridge holds
whenever no command is in flight. -/
theorem positions_agree (inputs : Inputs) (s : System) (hstart : s.Matched) (steps : List SystemStep)
    (htimely : Runs.Along (step inputs) Timely s steps)
    (hidle : (Runs.run (step inputs) s steps).bridge.inFlight = false) :
    (Runs.run (step inputs) s steps).Agrees := by
  have hagreed : (Runs.run (step inputs) s steps).Agreed :=
    Runs.run_invariant (fun s a hs ha => hs.step inputs a ha) hstart.agreed htimely
  exact (hagreed.idle hidle).2

instance (s : System) (a : SystemStep) : Decidable (s.Timely a) :=
  match a with
  | .enter .. | .close .. | .reconcile _ | .pollAck => inferInstanceAs (Decidable True)
  | .retry nowNs =>
    inferInstanceAs (Decidable
      (s.timedOut nowNs = true → s.bridge.pendingIsEntry = true → s.positions.length = 0))
  | .timer t opens =>
    inferInstanceAs (Decidable (s.run.Renumbered (s.found t opens) ∧ s.ClosesWhole t opens))

theorem matched_new : Matched {} :=
  ⟨BridgeRun.marked_new, nofun, nofun, nofun, rfl, rfl, rfl⟩

/-- A long, filled and closed, the close sent twice. -/
theorem positions_agree_round_trip :
    let steps : List SystemStep :=
      [.enter .buy 1 0, .timer BridgeRun.quiet true, .pollAck, .close .sell 1 0,
        .timer BridgeRun.quiet true, .retry 3000000000, .timer BridgeRun.quiet true, .pollAck]
    (Runs.run (step {}) {} steps).Agrees :=
  positions_agree {} {} matched_new _ (by decide +kernel) (by decide +kernel)

/-- The least lot is ten steps, and the broker closes six of the ten. -/
def coarse : Terminal :=
  { BridgeRun.quiet with
    info := { BridgeRun.quiet.info with volumeMin := 1 / 10 }
    closes := fun _ =>
      (some { bid := 110000 / 100000, ask := 110010 / 100000, time := 1000 }, .done 11 10010 (4 / 100)) }

/-- A long is filled, but sent again before its acknowledgement is read; a long is closed in part. -/
theorem late_retry_disagrees :
    (let s := Runs.run (step {}) {}
      [.enter .buy 1 0, .timer BridgeRun.quiet true, .retry 3000000000, .timer BridgeRun.quiet true, .pollAck]
    s.bridge.inFlight = false ∧ s.bridge.position = .shortSide ∧
      s.positions.map OwnPosition.side = [.buy]) ∧
    (let s := Runs.run (step {}) {}
      [.enter .buy 1 0, .timer coarse true, .pollAck, .close .sell 1 0, .timer coarse true, .pollAck]
    s.bridge.inFlight = false ∧ s.bridge.position = .flat ∧
      s.positions = [{ ticket := 7, side := .buy, volume := 4 / 100 }]) := by
  decide +kernel

end System

end MicrostructureEngine.Bridge
