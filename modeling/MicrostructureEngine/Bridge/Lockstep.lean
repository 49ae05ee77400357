import MicrostructureEngine.Bridge.FastPath

/-!
# The strategy and the terminal in step

The fast path asks the strategy only when its position is the one of the bridge. Whatever the two
parties do in between, and although the broker closes positions on its own, the terminal then holds
that position or none, and an entry is only ever written for a terminal that holds none.
-/

namespace MicrostructureEngine.Bridge

set_option autoImplicit false

universe u

/-! ## Positions that the broker may have closed -/

/-- Nothing is held but the position that `p` stands for. -/
def Within (positions : List OwnPosition) (p : BridgePosition) : Prop :=
  positions = [] ∨ positions.map OwnPosition.side = p.sides

theorem Within.length_le {positions : List OwnPosition} {p : BridgePosition} (h : Within positions p) :
    positions.length ≤ 1 := by
  rcases h with rfl | hsides
  · exact Nat.zero_le 1
  · rw [← List.length_map OwnPosition.side, hsides]
    cases p with
    | flat => exact Nat.zero_le 1
    | longSide => exact Nat.le_refl 1
    | shortSide => exact Nat.le_refl 1

theorem Within.of_flat {positions : List OwnPosition} (h : Within positions .flat) : positions = [] :=
  h.elim id List.map_eq_nil_iff.mp

/-- None at all, or one on the side of `p`. -/
theorem Within.cases {positions : List OwnPosition} {p : BridgePosition} (h : Within positions p) :
    positions = [] ∨ ∃ x : OwnPosition, positions = [x] ∧ [x.side] = p.sides := by
  rcases h with hempty | hsides
  · exact Or.inl hempty
  · cases positions with
    | nil => exact Or.inl rfl
    | cons x rest =>
      have hrest : rest = [] := by
        have hlength := Within.length_le (Or.inr hsides)
        exact List.length_eq_zero_iff.mp (by simpa using hlength)
      rw [hrest] at hsides ⊢
      exact Or.inr ⟨x, rfl, hsides⟩

theorem Within.eraseIdx {positions : List OwnPosition} {p : BridgePosition} (h : Within positions p)
    (index : Nat) : Within (positions.eraseIdx index) p := by
  rcases h.cases with rfl | ⟨x, rfl, hside⟩
  · exact Or.inl rfl
  · cases index with
    | zero => exact Or.inl rfl
    | succ n => exact Or.inr hside

theorem sides_of (side : Side) : (BridgePosition.of side).sides = [side] := by
  cases side with
  | buy => rfl
  | sell => rfl

namespace System

/-- What waits for the answer to a command, with the positions that the broker has left. -/
structure SentWithin (s : System) : Prop where
  pending : s.bridge.pendingSeq = s.seq
  command : ∃ want, s.command = some { seq := s.seq, action := s.bridge.pendingAction, want := want }
  answered : ∀ a ∈ s.ack, a.seq = s.seq →
    (s.seq : Int) ∈ s.run.processed ∧ Within s.positions (s.bridge.answer a.status).position
  entering : ∀ side, s.bridge.pendingAction = .enter side → s.Entering side
  leaving : s.bridge.pendingAction = .close → Within s.positions s.bridge.position

structure Covered (s : System) : Prop where
  marked : s.run.Marked
  processed : ∀ p ∈ s.run.processed, p ≤ s.seq
  ack : ∀ a ∈ s.ack, 0 ≤ a.seq ∧ a.seq ≤ s.seq
  idle : s.bridge.inFlight = false →
    (∀ c ∈ s.command, c.seq ∈ s.run.processed) ∧ Within s.positions s.bridge.position
  sent : s.bridge.inFlight = true → s.SentWithin

theorem Matched.covered {s : System} (h : s.Matched) : s.Covered := by
  refine ⟨h.marked, h.processed, h.ack, fun _ => ⟨h.command, Or.inl h.empty⟩, ?_⟩
  intro hsent
  rw [h.idle] at hsent
  cases hsent

theorem Covered.length_le {s : System} (h : s.Covered) : s.positions.length ≤ 1 := by
  cases hflight : s.bridge.inFlight with
  | false => exact (h.idle hflight).2.length_le
  | true =>
    have hs := h.sent hflight
    cases haction : s.bridge.pendingAction with
    | close => exact (hs.leaving haction).length_le
    | enter side =>
      have hside : Within s.positions (.of side) := by
        rw [Within, sides_of]
        exact (hs.entering side haction).held.imp id And.left
      exact hside.length_le

/-! ### The timer -/

/-- What a timer call makes of the command in flight: it processes its number, and its answer, its
position and those that wait for either cover what it leaves open. -/
structure AnsweredBy (s : System) (r : Outcome) : Prop where
  processed : r.processed = some (s.seq : Int)
  ack : ∀ a ∈ r.ack, a.seq = s.seq ∧ Within r.positions (s.bridge.answer a.status).position
  entering : ∀ side, s.bridge.pendingAction = .enter side → Within r.positions (.of side)
  leaving : s.bridge.pendingAction = .close → Within r.positions s.bridge.position

theorem AnsweredBy.entry {s : System} {side : Side} (h : s.Entering side)
    (haction : s.bridge.pendingAction = .enter side) (hempty : s.positions = []) (inputs : Inputs)
    (ea : ExecBridge) {c : Command} (hseq : c.seq = s.seq) (hc : c.action = .enter side) (t : Terminal) :
    s.AnsweredBy (ea.execute inputs s.positions c t) := by
  have hprocessed := (ExecBridge.execute_bridge inputs ea s.positions c t).1
  have hentry : ea.execute inputs s.positions c t = ea.onEntry inputs [] c side t := by
    unfold ExecBridge.execute
    rw [hc, hempty]
  rw [hentry, hseq] at hprocessed
  rw [hentry]
  refine ⟨hprocessed, ?_, ?_, ?_⟩
  · intro a ha
    rcases onEntry_flat inputs ea c side t with
      ⟨status, hrefuses, hpositions, hack⟩ | ⟨p, hside, hpositions, hack⟩
    · obtain ⟨haseq, -⟩ := hack a ha
      exact ⟨haseq.trans hseq, Or.inl hpositions⟩
    · obtain ⟨haseq, hstatus⟩ := hack a ha
      refine ⟨haseq.trans hseq, Or.inr ?_⟩
      rw [hpositions, hstatus]
      show [p.side] = (BridgePosition.of s.bridge.pendingSide).sides
      rw [sides_of, hside, h.asked]
  · intro side' hpending
    cases haction.symm.trans hpending
    rcases onEntry_flat inputs ea c side t with ⟨_, _, hpositions, _⟩ | ⟨p, hside, hpositions, _⟩
    · exact Or.inl hpositions
    · refine Or.inr ?_
      rw [hpositions, sides_of, ← hside]
      rfl
  · intro hclose
    exact absurd (haction.symm.trans hclose) nofun

theorem AnsweredBy.close {s : System} (h : Within s.positions s.bridge.position)
    (haction : s.bridge.pendingAction = .close) (inputs : Inputs) (ea : ExecBridge) {c : Command}
    (hseq : c.seq = s.seq) (hc : c.action = .close) {t : Terminal}
    (hwhole : ∀ i < s.positions.length, partlyClosed (t.closes i) = false) :
    s.AnsweredBy (ea.execute inputs s.positions c t) := by
  have hprocessed := (ExecBridge.execute_bridge inputs ea s.positions c t).1
  have hclose : ea.execute inputs s.positions c t = ea.onClose inputs s.positions c.seq t := by
    unfold ExecBridge.execute
    rw [hc]
  rw [hclose, hseq] at hprocessed
  rw [hclose, hseq]
  have hnot : ∀ side, s.bridge.pendingAction = .enter side →
      Within (ea.onClose inputs s.positions s.seq t).positions (.of side) := by
    intro side hpending
    exact absurd (haction.symm.trans hpending) nofun
  rcases h.cases with hempty | ⟨p, hone, hside⟩
  · obtain ⟨hpositions, -, hack⟩ := onClose_flat inputs ea s.seq t
    rw [hempty] at hprocessed hnot ⊢
    exact ⟨hprocessed, fun a ha => ⟨(hack a ha).1, Or.inl hpositions⟩, hnot,
      fun _ => Or.inl hpositions⟩
  · rw [hone] at hprocessed hnot hwhole ⊢
    rcases onClose_single inputs ea p s.seq (hwhole 0 Nat.one_pos) with ⟨hpositions, hack⟩ | ⟨hpositions, -, hack⟩
    · have hkept : Within (ea.onClose inputs [p] s.seq t).positions s.bridge.position := by
        rw [hpositions]
        exact Or.inr hside
      refine ⟨hprocessed, ?_, hnot, fun _ => hkept⟩
      intro a ha
      obtain ⟨haseq, hstatus⟩ := hack a ha
      rw [hstatus, BridgeState.answer_of_refuses rfl]
      exact ⟨haseq, hkept⟩
    · exact ⟨hprocessed, fun a ha => ⟨(hack a ha).1, Or.inl hpositions⟩, hnot,
        fun _ => Or.inl hpositions⟩

/-- The positions while the command in flight is still to be processed. -/
theorem SentWithin.unprocessed {s : System} (h : s.SentWithin) (hnew : (s.seq : Int) ∉ s.run.processed) :
    Within s.positions s.bridge.position ∧
      ∀ side, s.bridge.pendingAction = .enter side → s.positions = [] := by
  have hempty : ∀ side, s.bridge.pendingAction = .enter side → s.positions = [] := by
    intro side haction
    exact (h.entering side haction).held.elim id fun hheld => absurd hheld.2 hnew
  refine ⟨?_, hempty⟩
  cases haction : s.bridge.pendingAction with
  | enter side => exact Or.inl (hempty side haction)
  | close => exact h.leaving haction

theorem AnsweredBy.halted {s : System} (h : s.SentWithin) (hnew : (s.seq : Int) ∉ s.run.processed)
    {ea : ExecBridge} {ack : Option Ack}
    (hack : ∀ a ∈ ack, a.seq = s.seq ∧ a.status = .haltConsecRejects) :
    s.AnsweredBy
      { bridge := ea, positions := s.positions, processed := some (s.seq : Int), ack := ack } := by
  obtain ⟨hwithin, hempty⟩ := h.unprocessed hnew
  refine ⟨rfl, ?_, fun side haction => Or.inl (hempty side haction), fun _ => hwithin⟩
  intro a ha
  obtain ⟨hseq, hstatus⟩ := hack a ha
  rw [hstatus, BridgeState.answer_of_refuses rfl]
  exact ⟨hseq, hwithin⟩

/-- The command in flight is processed: what the runtime waits for is covered by the answer. -/
theorem Covered.answered {s : System} (h : s.Covered) (hsent : s.bridge.inFlight = true)
    (hnew : (s.seq : Int) ∉ s.run.processed) (inputs : Inputs) {t : Terminal} {opens : Bool}
    (hmarked : (s.timer inputs t opens).run.Marked)
    (hr : s.AnsweredBy (s.run.ea.onTimer inputs s.positions (s.found t opens))) :
    (s.timer inputs t opens).Covered := by
  have hs := h.sent hsent
  have hself : (s.seq : Int) ∈ s.run.processed ++ [(s.seq : Int)] :=
    List.mem_append_right _ (List.mem_singleton_self _)
  unfold timer BridgeRun.record at hmarked ⊢
  generalize s.run.ea.onTimer inputs s.positions (s.found t opens) = r at hr hmarked ⊢
  dsimp only at hmarked ⊢
  have hacks : ∀ a ∈ r.ack.or s.ack, a ∈ r.ack ∨ a ∈ s.ack := by
    intro a ha
    rcases Option.or_eq_some_iff.mp ha with hwritten | ⟨-, hold⟩
    · exact Or.inl hwritten
    · exact Or.inr hold
  rw [hr.processed] at hmarked ⊢
  refine ⟨hmarked, ?_, ?_, ?_, fun _ => ⟨hs.pending, hs.command, ?_, ?_, hr.leaving⟩⟩
  · intro p hp
    rcases List.mem_append.mp hp with hold | hself
    · exact h.processed p hold
    · exact le_of_eq (List.mem_singleton.mp hself)
  · intro a ha
    rcases hacks a ha with hwritten | hold
    · have hseq := (hr.ack a hwritten).1
      dsimp only
      omega
    · exact h.ack a hold
  · intro hidle
    exact absurd (hsent.symm.trans hidle) nofun
  · intro a ha hseq
    refine ⟨hself, ?_⟩
    rcases hacks a ha with hwritten | hold
    · exact (hr.ack a hwritten).2
    · exact absurd (hs.answered a hold hseq).1 hnew
  · intro side haction
    have he := hs.entering side haction
    have hwithin := hr.entering side haction
    rw [Within, sides_of] at hwithin
    exact ⟨he.flat, he.asked, he.entry, hwithin.imp id fun hheld => ⟨hheld, hself⟩⟩

theorem Covered.skipped {s : System} (h : s.Covered) (inputs : Inputs) {t : Terminal} {opens : Bool}
    (hmarked : (s.timer inputs t opens).run.Marked)
    (hskipped : s.run.ea.accepted (s.found t opens) = none) : (s.timer inputs t opens).Covered := by
  obtain ⟨hprocessed, hpositions, hack, -⟩ := ExecBridge.onTimer_skipped inputs s.positions hskipped
  unfold timer BridgeRun.record at hmarked ⊢
  generalize s.run.ea.onTimer inputs s.positions (s.found t opens) = r at *
  dsimp only at hmarked ⊢
  rw [hpositions, hack, hprocessed]
  rw [hprocessed] at hmarked
  dsimp only [Option.toList, Option.or] at hmarked ⊢
  rw [List.append_nil] at hmarked ⊢
  refine ⟨hmarked, h.processed, h.ack, h.idle, ?_⟩
  intro hsent
  have hs := h.sent hsent
  refine ⟨hs.pending, hs.command, hs.answered, ?_, hs.leaving⟩
  intro side haction
  have he := hs.entering side haction
  exact ⟨he.flat, he.asked, he.entry, he.held⟩

/-- The number that a timer call gets to is that of the command in flight, and new. -/
theorem Covered.accepted {s : System} (h : s.Covered) {t : Terminal} {opens : Bool}
    (hnumbered : s.run.Renumbered (s.found t opens)) {c : Command}
    (haccepted : s.run.ea.accepted (s.found t opens) = some c) :
    s.bridge.inFlight = true ∧ (s.seq : Int) ∉ s.run.processed ∧ c.seq = s.seq ∧
      c.action = s.bridge.pendingAction := by
  have hcommand := command_of_accepted haccepted
  have hall : ∀ p ∈ s.run.processed, p < c.seq := by
    intro p hp
    have hnew := ExecBridge.lt_of_accepted haccepted
    by_cases hreset : s.run.ea.lastSeq = -999
    · exact hnumbered hreset c haccepted p hp
    · have hmark := h.marked.mark hreset p hp
      omega
  cases hflight : s.bridge.inFlight with
  | false =>
    have hold := (h.idle hflight).1 c hcommand
    exact absurd (hall c.seq hold) (lt_irrefl _)
  | true =>
    obtain ⟨want, hfile⟩ := (h.sent hflight).command
    cases hfile.symm.trans hcommand
    refine ⟨rfl, ?_, rfl, rfl⟩
    intro hold
    exact absurd (hall s.seq hold) (lt_irrefl _)

theorem Covered.timer {s : System} (h : s.Covered) (inputs : Inputs) (t : Terminal) (opens : Bool)
    (htimely : s.Timely (.timer t opens)) : (s.timer inputs t opens).Covered := by
  obtain ⟨hnumbered, hwhole⟩ := htimely
  have hmarked : (s.timer inputs t opens).run.Marked :=
    h.marked.step inputs ⟨s.positions, s.found t opens⟩ hnumbered
  cases haccepted : s.run.ea.accepted (s.found t opens) with
  | none => exact h.skipped inputs hmarked haccepted
  | some c =>
    obtain ⟨hflight, hnew, hseq, haction⟩ := h.accepted hnumbered haccepted
    refine h.answered hflight hnew inputs hmarked ?_
    have hs := h.sent hflight
    have htimed := ExecBridge.timed inputs s.run.ea s.positions (s.found t opens)
    generalize s.run.ea.onTimer inputs s.positions (s.found t opens) = r at htimed ⊢
    cases htimed with
    | idle accepted => exact absurd (haccepted.symm.trans accepted) nofun
    | killed accepted => exact absurd (haccepted.symm.trans accepted) nofun
    | halted accepted exhausted =>
      cases haccepted.symm.trans accepted
      rw [hseq]
      apply AnsweredBy.halted hs hnew
      intro a ha
      cases of_mem_writeAck ha
      exact ⟨rfl, rfl⟩
    | executed accepted =>
      cases haccepted.symm.trans accepted
      cases hpending : s.bridge.pendingAction with
      | enter side =>
        exact AnsweredBy.entry (hs.entering side hpending) hpending ((hs.unprocessed hnew).2 side hpending)
          inputs _ hseq (haction.trans hpending) _
      | close =>
        have hclose := haction.trans hpending
        exact AnsweredBy.close (hs.leaving hpending) hpending inputs _ hseq hclose (hwhole c haccepted hclose)

/-! ### The runtime and the broker -/

theorem Covered.sentAgain {s : System} (h : s.Covered) {a : Ack} (ha : a ∈ s.ack) :
    a.seq ≠ ((s.seq + 1 : Nat) : Int) := by
  have hbound := (h.ack a ha).2
  omega

theorem Covered.send {s : System} (h : s.Covered) (hidle : s.bridge.inFlight = false) {action : Action}
    {isEntry : Bool} {side : Side} (want : Rat) (nowNs : UInt64)
    (hentering : ∀ x, action = .enter x → s.bridge.position = .flat ∧ side = x ∧ isEntry = true) :
    (s.send action isEntry side want nowNs).Covered := by
  have hwithin := (h.idle hidle).2
  refine ⟨h.marked, ?_, ?_, nofun, fun _ => ⟨rfl, ⟨want, rfl⟩, ?_, ?_, fun _ => hwithin⟩⟩
  · intro p hp
    exact (h.processed p hp).trans (Int.ofNat_le.mpr (Nat.le_succ _))
  · intro a ha
    exact ⟨(h.ack a ha).1, (h.ack a ha).2.trans (Int.ofNat_le.mpr (Nat.le_succ _))⟩
  · intro a ha hseq
    exact absurd hseq (h.sentAgain ha)
  · intro x haction
    obtain ⟨hflat, hside, hentry⟩ := hentering x haction
    rw [hflat] at hwithin
    exact ⟨hflat, hside, hentry, Or.inl hwithin.of_flat⟩

theorem Covered.retry {s : System} (h : s.Covered) (nowNs : UInt64) (htimely : s.Timely (.retry nowNs)) :
    (s.retryIfTimedOut nowNs).Covered := by
  unfold retryIfTimedOut
  split
  · rename_i hout
    have hflight : s.bridge.inFlight = true := (Bool.and_eq_true_iff.mp hout).1
    have hs := h.sent hflight
    refine ⟨h.marked, ?_, ?_, ?_, fun _ => ⟨rfl, ⟨1, rfl⟩, ?_, ?_, hs.leaving⟩⟩
    · intro p hp
      exact (h.processed p hp).trans (Int.ofNat_le.mpr (Nat.le_succ _))
    · intro a ha
      exact ⟨(h.ack a ha).1, (h.ack a ha).2.trans (Int.ofNat_le.mpr (Nat.le_succ _))⟩
    · intro hidle
      exact absurd (hflight.symm.trans hidle) nofun
    · intro a ha hseq
      exact absurd hseq (h.sentAgain ha)
    · intro side haction
      have he := hs.entering side haction
      have hempty := List.length_eq_zero_iff.mp (htimely hout he.entry)
      exact ⟨he.flat, he.asked, he.entry, Or.inl hempty⟩
  · exact h

theorem Covered.pollAck {s : System} (h : s.Covered) : s.pollAck.Covered := by
  unfold System.pollAck
  cases hflight : s.bridge.inFlight with
  | false => exact h
  | true =>
    rw [Bool.not_true, if_neg Bool.false_ne_true]
    have hs := h.sent hflight
    cases hack : s.ack with
    | none => exact h
    | some a =>
      dsimp only
      split
      · exact h
      · rename_i hstale
        obtain ⟨hnonneg, hbound⟩ := h.ack a hack
        have hseq : a.seq = s.seq := by
          unfold strtoull at hstale
          rw [if_neg (by omega), hs.pending] at hstale
          omega
        obtain ⟨hprocessed, hwithin⟩ := hs.answered a hack hseq
        obtain ⟨want, hfile⟩ := hs.command
        refine ⟨h.marked, h.processed, ?_, fun _ => ⟨?_, hwithin⟩, ?_⟩
        · intro b hb
          cases hb
          exact ⟨hnonneg, hbound⟩
        · intro c hc
          cases hfile.symm.trans hc
          exact hprocessed
        · intro hsent
          have hlanded : (s.bridge.answer a.status).inFlight = false := by
            cases a.status <;> rfl
          exact absurd (hlanded.symm.trans hsent) nofun

theorem Covered.step {s : System} (h : s.Covered) (inputs : Inputs) (a : SystemStep)
    (htimely : s.Timely a) : (s.step inputs a).Covered := by
  cases a with
  | enter side want nowNs =>
    unfold System.step
    dsimp only
    split
    · rename_i hflat
      refine h.send hflat.1 want nowNs ?_
      intro x hx
      cases hx
      exact ⟨hflat.2, rfl, rfl⟩
    · exact h
  | close side want nowNs =>
    unfold System.step
    dsimp only
    split
    · rename_i hopen
      exact h.send hopen.1 want nowNs nofun
    · exact h
  | reconcile nowNs =>
    unfold System.step
    dsimp only
    split
    · rename_i hopen
      exact h.send hopen.1 1 nowNs nofun
    · exact h
  | retry nowNs => exact h.retry nowNs htimely
  | pollAck => exact h.pollAck
  | timer t opens => exact h.timer inputs t opens htimely

theorem mismatched_answer (s : System) (status : AckStatus) :
    (s.mismatched.bridge.answer status).position = (s.bridge.answer status).position := by
  cases status <;> rfl

theorem Covered.mismatched {s : System} (h : s.Covered) : s.mismatched.Covered := by
  refine ⟨h.marked, h.processed, h.ack, h.idle, ?_⟩
  intro hsent
  have hs := h.sent hsent
  refine ⟨hs.pending, hs.command, fun a ha hseq => ?_, ?_, hs.leaving⟩
  · rw [mismatched_answer]
    exact hs.answered a ha hseq
  intro side haction
  have he := hs.entering side haction
  exact ⟨he.flat, he.asked, he.entry, he.held⟩

theorem Agreed.mismatched {s : System} (h : s.Agreed) : s.mismatched.Agreed := by
  refine ⟨h.marked, h.processed, h.ack, h.idle, ?_⟩
  intro hsent
  have hs := h.sent hsent
  refine ⟨hs.pending, hs.command, fun a ha hseq => ?_, ?_, ?_⟩
  · rw [mismatched_answer]
    exact hs.answered a ha hseq
  · intro side haction
    have he := hs.entering side haction
    exact ⟨he.flat, he.asked, he.entry, he.held⟩
  · intro haction
    exact ⟨(hs.leaving haction).opened, (hs.leaving haction).held⟩

/-- A position the less: the broker may close what either side believes in. -/
theorem Covered.stopOut {s : System} (h : s.Covered) (index : Nat) : (s.stopOut index).Covered := by
  refine ⟨h.marked, h.processed, h.ack, ?_, ?_⟩
  · intro hidle
    exact ⟨(h.idle hidle).1, (h.idle hidle).2.eraseIdx index⟩
  · intro hsent
    have hs := h.sent hsent
    refine ⟨hs.pending, hs.command, ?_, ?_, fun haction => (hs.leaving haction).eraseIdx index⟩
    · intro a ha hseq
      obtain ⟨hprocessed, hwithin⟩ := hs.answered a ha hseq
      exact ⟨hprocessed, hwithin.eraseIdx index⟩
    · intro side haction
      have he := hs.entering side haction
      refine ⟨he.flat, he.asked, he.entry, ?_⟩
      rcases he.held with hempty | ⟨hheld, hprocessed⟩
      · refine Or.inl ?_
        show s.positions.eraseIdx index = []
        rw [hempty]
        rfl
      · have hwithin : Within s.positions (.of side) := Or.inr (hheld.trans (sides_of side).symm)
        have hkept := hwithin.eraseIdx index
        rw [Within, sides_of] at hkept
        exact hkept.imp id fun hheld => ⟨hheld, hprocessed⟩

end System

/-! ## A pass as steps of the two parties -/

namespace Runtime

variable {α : Type u}

/-- What a pass leaves of the two parties' system once the files have been listened to: as it is, one
mismatch the more, or with a command that the position allows. -/
inductive Wrote (s : System) : System → Prop
  | idle : Wrote s s
  | noted : Wrote s s.mismatched
  | reconciled (idle : s.bridge.inFlight = false) (opened : s.bridge.position ≠ .flat) (nowNs : UInt64) :
      Wrote s (s.send .close false s.bridge.pendingSide 1 nowNs).mismatched
  | entered (idle : s.bridge.inFlight = false) (flat : s.bridge.position = .flat) (side : Side)
      (nowNs : UInt64) : Wrote s (s.send (.enter side) true side 1 nowNs)
  | closed (idle : s.bridge.inFlight = false) (opened : s.bridge.position ≠ .flat) (side : Side)
      (nowNs : UInt64) : Wrote s (s.send .close false side 1 nowNs)

theorem settle_system (s : Runtime α) (commission : Order → Int) (spreadTicks : Int) (tsNs : Nat) :
    (s.settle commission spreadTicks tsNs).system = s.system := by
  unfold settle
  split
  · rfl
  · cases s.broker.findOrder s.working with
    | none => rfl
    | some o =>
      dsimp only
      split
      · unfold ended
        split
        · cases s.entryInFlight with
          | true => rfl
          | false => rfl
        · rfl
      · rfl

theorem observed_system (s : Runtime α) (t : LiveTick) (p : Pass α) : (s.observed t p).system = s.system := by
  unfold observed
  dsimp only
  split
  · rfl
  · rfl

theorem arrived_system (s : Runtime α) (t : LiveTick) (p : Pass α) :
    (s.arrived t p).system = (s.listened p).system := by
  unfold arrived
  rw [settle_system, observed_system]

theorem meaningful_congr {s s' : Runtime α} (hsame : s'.system = s.system) (entering : Bool) :
    s'.meaningful entering = s.meaningful entering := by
  unfold meaningful
  rw [hsame]

theorem wrote_command {system : System} {s : Runtime α} (hsame : s.system = system)
    (hidle : system.bridge.inFlight = false) (intent : Strategy.Intent) {entering : Bool}
    (hmeaningful : s.meaningful entering = true) (p : Pass α) :
    Wrote system (s.command intent entering p).system := by
  rw [← hsame] at hidle ⊢
  unfold command
  split
  · cases entering with
    | true =>
      have hflat : s.system.bridge.position = .flat := of_decide_eq_true hmeaningful
      exact Wrote.entered hidle hflat intent.side p.sentNs
    | false =>
      have hopen : s.system.bridge.position ≠ .flat := by
        intro hflat
        have hclosed : s.system.bridge.flat = true := decide_eq_true hflat
        unfold meaningful at hmeaningful
        rw [if_neg Bool.false_ne_true, hclosed] at hmeaningful
        cases hmeaningful
      exact Wrote.closed hidle hopen intent.side p.sentNs
  · exact Wrote.idle

theorem wrote_raised {system : System} {s : Runtime α} (hsame : s.system = system)
    (hidle : system.bridge.inFlight = false) (intent : Strategy.Intent) (t : LiveTick) (p : Pass α) :
    Wrote system (s.raised intent t p).system := by
  rw [← hsame] at hidle ⊢
  unfold raised
  dsimp -proj only
  split
  · exact Wrote.idle
  rename_i hmeaningful
  split
  · exact Wrote.idle
  split
  · exact Wrote.idle
  · rw [Bool.not_eq_true, Bool.not_eq_false'] at hmeaningful
    refine wrote_command ?_ hidle intent ?_ p
    · rfl
    · refine (meaningful_congr (s := s) ?_ _).trans hmeaningful
      rfl

section

variable [LE α] [LT α] [DecidableLE α] [DecidableLT α] [Zero α] [Neg α]

theorem wrote_resolved (s : Runtime α) (t : LiveTick) (p : Pass α) :
    Wrote s.system (s.resolved t p).system := by
  unfold resolved
  split
  · exact Wrote.idle
  split
  · exact Wrote.idle
  rename_i hidle
  rw [Bool.not_eq_true] at hidle
  have hclose : s.system.bridge.flat = false → Wrote s.system (s.reconcileClose p).system := by
    intro hopen
    unfold reconcileClose
    split
    · exact Wrote.reconciled hidle (of_decide_eq_false hopen) p.sentNs
    · exact Wrote.idle
  split
  · rename_i hone
    exact hclose (Bool.not_eq_true' _ |>.mp (Bool.and_eq_true_iff.mp hone).1)
  split
  · rename_i hsides
    exact hclose (Bool.not_eq_true' _ |>.mp (Bool.and_eq_true_iff.mp (Bool.and_eq_true_iff.mp hsides).1).1)
  split
  · exact Wrote.noted
  · unfold decision
    split
    · exact Wrote.idle
    · refine wrote_raised ?_ hidle (s.intent t p) t p
      rfl

theorem wrote_pass (s : Runtime α) (p : Pass α) :
    Wrote (s.listened p).system (s.pass p).system := by
  unfold pass
  cases p.tick.filter LiveTick.valid with
  | none => exact Wrote.idle
  | some t =>
    have hwrote := wrote_resolved (s.arrived t p) t p
    rw [arrived_system] at hwrote
    exact hwrote

end

/-! ### Invariants of the two parties -/

/-- No entry is sent again that the terminal has filled, no number is processed again, and no close is
filled in part. -/
def Timely (s : Runtime α) : Event α → Prop
  | .pass p => p.retryOpens = true → (s.polled p).system.Timely (.retry p.retryNs)
  | .timer t opens => s.system.Timely (.timer t opens)
  | _ => True

instance (s : Runtime α) (e : Event α) : Decidable (s.Timely e) :=
  match e with
  | .pass p => inferInstanceAs (Decidable
      (p.retryOpens = true → (s.polled p).system.Timely (.retry p.retryNs)))
  | .timer t opens => inferInstanceAs (Decidable (s.system.Timely (.timer t opens)))
  | .quote .. | .halt | .stopOut _ => inferInstanceAs (Decidable True)

section

variable {inputs : Inputs} {I : System → Prop}

theorem polled_keeps (hstep : ∀ s a, I s → s.Timely a → I (s.step inputs a)) {s : Runtime α}
    (h : I s.system) (p : Pass α) : I (s.polled p).system := by
  unfold polled
  split
  · exact hstep s.system .pollAck h trivial
  · exact h

theorem listened_keeps (hstep : ∀ s a, I s → s.Timely a → I (s.step inputs a)) {s : Runtime α}
    (h : I s.system) {p : Pass α} (htimely : s.Timely (.pass p)) : I (s.listened p).system := by
  have hpolled := polled_keeps hstep h p
  unfold listened
  dsimp only
  split
  · rename_i hopens
    exact hstep (s.polled p).system (.retry p.retryNs) hpolled (htimely hopens)
  · exact hpolled

theorem wrote_keeps (hstep : ∀ s a, I s → s.Timely a → I (s.step inputs a))
    (hnoted : ∀ s, I s → I s.mismatched) {s s' : System} (h : I s) (hwrote : Wrote s s') : I s' := by
  cases hwrote with
  | idle => exact h
  | noted => exact hnoted s h
  | reconciled idle opened nowNs =>
    apply hnoted
    have hsent := hstep s (.reconcile nowNs) h trivial
    rwa [System.step, if_pos ⟨idle, opened⟩] at hsent
  | entered idle flat side nowNs =>
    have hsent := hstep s (.enter side 1 nowNs) h trivial
    rwa [System.step, if_pos ⟨idle, flat⟩] at hsent
  | closed idle opened side nowNs =>
    have hsent := hstep s (.close side 1 nowNs) h trivial
    rwa [System.step, if_pos ⟨idle, opened⟩] at hsent

theorem onQuote_system (s : Runtime α) (symbolId : Nat) (bid ask bidSize askSize : Int) (tsNs : Nat) :
    (s.onQuote symbolId bid ask bidSize askSize tsNs).system = s.system := by
  unfold onQuote
  split
  · rfl
  · exact settle_system _ _ _ _

variable [LE α] [LT α] [DecidableLE α] [DecidableLT α] [Zero α] [Neg α]

/-- What the steps of the two parties keep, the runtime keeps; the broker's own closes are to be shown
to keep it where there are any. -/
theorem step_keeps (hstep : ∀ s a, I s → s.Timely a → I (s.step inputs a))
    (hnoted : ∀ s, I s → I s.mismatched) {s : Runtime α} {e : Event α} (h : I s.system)
    (htimely : s.Timely e) (hstopped : ∀ index, e = .stopOut index → I (s.system.stopOut index)) :
    I (s.step inputs e).system := by
  cases e with
  | pass p => exact wrote_keeps hstep hnoted (listened_keeps hstep h htimely) (wrote_pass s p)
  | quote symbolId bid ask bidSize askSize tsNs =>
    show I (s.onQuote symbolId bid ask bidSize askSize tsNs).system
    rw [onQuote_system]
    exact h
  | halt => exact h
  | timer t opens => exact hstep s.system (.timer t opens) h htimely
  | stopOut index => exact hstopped index rfl

theorem covered_run {s : Runtime α} (h : s.system.Covered) {events : List (Event α)}
    (htimely : Runs.Along (step inputs) Timely s events) :
    (Runs.run (step inputs) s events).system.Covered := by
  refine Runs.run_invariant (I := fun s : Runtime α => s.system.Covered) ?_ h htimely
  intro s e hs he
  exact step_keeps (fun s a hs ha => hs.step inputs a ha) (fun s hs => hs.mismatched) hs he
    fun index _ => hs.stopOut index

theorem agreed_run {s : Runtime α} (h : s.system.Agreed) {events : List (Event α)}
    (htimely : Runs.Along (step inputs) Timely s events) (hnone : ∀ index, .stopOut index ∉ events) :
    (Runs.run (step inputs) s events).system.Agreed := by
  have hopen : Runs.Along (step inputs) (fun _ e => ∀ index, e ≠ .stopOut index) s events := by
    apply Runs.along_of_forall
    rintro e he s index rfl
    exact hnone index he
  refine Runs.run_invariant (I := fun s : Runtime α => s.system.Agreed) ?_ h (htimely.and hopen)
  rintro s e hs ⟨he, hne⟩
  exact step_keeps (fun s a hs ha => hs.step inputs a ha) (fun s hs => hs.mismatched) hs he
    fun index hstop => absurd hstop (hne index)

end

/-! ## What the strategy is asked on -/

/-- The side that a position of the strategy is on, if it has one. -/
def sides (p : Strategy.OpenPosition) : List Side := if p.active then [p.side] else []

theorem flat_of_asks {s : Runtime α} (h : s.asks = true) :
    s.working.logicalOrderId = 0 ∧ s.system.bridge.inFlight = false ∧
      s.system.bridge.flat = !s.flip.life.position.active ∧
      (s.system.bridge.flat || s.system.bridge.holds s.flip.life.position.side) = true := by
  unfold asks at h
  rw [Bool.and_eq_true, Bool.and_eq_true, Bool.and_eq_true, decide_eq_true_eq, Bool.not_eq_true',
    beq_iff_eq] at h
  exact ⟨h.1.1.1, h.1.1.2, h.1.2, h.2⟩

theorem sides_of_asks {s : Runtime α} (h : s.asks = true) :
    s.system.bridge.position.sides = sides s.flip.life.position := by
  obtain ⟨-, -, hflat, hholds⟩ := flat_of_asks h
  unfold sides
  cases hactive : s.flip.life.position.active with
  | false =>
    rw [hactive] at hflat
    rw [of_decide_eq_true hflat]
    rfl
  | true =>
    rw [hactive] at hflat
    rw [hflat] at hholds
    unfold BridgeState.holds at hholds
    cases hside : s.flip.life.position.side with
    | buy =>
      rw [hside] at hholds
      rw [of_decide_eq_true hholds]
      rfl
    | sell =>
      rw [hside] at hholds
      rw [of_decide_eq_true hholds]
      rfl

section

variable [LE α] [LT α] [DecidableLE α] [DecidableLT α] [Zero α] [Neg α]

theorem resolved_of_asks {s : Runtime α} (h : s.asks = true) (t : LiveTick) (p : Pass α) :
    s.resolved t p = s.decision t p := by
  obtain ⟨hworking, hidle, hflat, hholds⟩ := flat_of_asks h
  unfold resolved
  rw [if_neg (not_not.mpr hworking), hidle, if_neg Bool.false_ne_true]
  cases hactive : s.flip.life.position.active with
  | false =>
    rw [hactive] at hflat
    rw [hflat]
    simp
  | true =>
    rw [hactive] at hflat
    rw [hflat] at hholds ⊢
    rw [Bool.not_true, Bool.false_or] at hholds
    rw [hholds]
    simp

/-- Without being asked the strategy neither answers nor is deferred. -/
theorem resolved_of_not_asks {s : Runtime α} (h : s.asks = false) (t : LiveTick) (p : Pass α) :
    (s.resolved t p).counts.intents = s.counts.intents ∧
      (s.resolved t p).counts.vetoes = s.counts.vetoes ∧
      (s.resolved t p).counts.deferred = s.counts.deferred := by
  unfold resolved
  split
  · exact ⟨rfl, rfl, rfl⟩
  rename_i hworking
  split
  · exact ⟨rfl, rfl, rfl⟩
  rename_i hidle
  have hclose : (s.reconcileClose p).counts = s.counts := by
    unfold reconcileClose
    split
    · rfl
    · rfl
  split
  · rw [hclose]
    exact ⟨rfl, rfl, rfl⟩
  rename_i hone
  split
  · rw [hclose]
    exact ⟨rfl, rfl, rfl⟩
  rename_i hsides
  split
  · exact ⟨rfl, rfl, rfl⟩
  rename_i hphantom
  have hasks : s.asks = true := by
    unfold asks
    rw [not_not] at hworking
    rw [Bool.not_eq_true] at hidle
    rw [decide_eq_true hworking, hidle]
    cases hflat : s.system.bridge.flat with
    | true =>
      cases hactive : s.flip.life.position.active with
      | true => exact absurd (by rw [hflat, hactive]; rfl) hphantom
      | false => rfl
    | false =>
      cases hactive : s.flip.life.position.active with
      | false => exact absurd (by rw [hflat, hactive]; rfl) hone
      | true =>
        cases hholds : s.system.bridge.holds s.flip.life.position.side with
        | true => rfl
        | false => exact absurd (by rw [hflat, hactive, hholds]; rfl) hsides
  exact absurd (h.symm.trans hasks) nofun

/-- In every timely run, the terminal holds what the strategy believes to hold whenever the strategy
is asked, or nothing if the broker has closed it; and it holds exactly that as long as the broker has
closed nothing. -/
theorem asked_on_held_position (inputs : Inputs) (s : Runtime α) (hstart : s.system.Matched)
    (events : List (Event α)) (p : Pass α) (t : LiveTick)
    (htimely : Runs.Along (step inputs) Timely s (events ++ [.pass p]))
    (hasks : ((Runs.run (step inputs) s events).arrived t p).asks = true) :
    let r := (Runs.run (step inputs) s events).arrived t p
    (r.system.positions = [] ∨ r.system.positions.map OwnPosition.side = sides r.flip.life.position) ∧
      ((∀ index, .stopOut index ∉ events) →
        r.system.positions.map OwnPosition.side = sides r.flip.life.position) := by
  intro r
  obtain ⟨hevents, hpass⟩ := Runs.along_append.mp htimely
  have hidle : r.system.bridge.inFlight = false := (flat_of_asks hasks).2.1
  have hsides : r.system.bridge.position.sides = sides r.flip.life.position := sides_of_asks hasks
  have hlistened : r.system = ((Runs.run (step inputs) s events).listened p).system :=
    arrived_system _ t p
  rw [← hsides]
  constructor
  · have hcovered : r.system.Covered := by
      rw [hlistened]
      exact listened_keeps (fun s a hs ha => hs.step inputs a ha)
        (covered_run hstart.covered hevents) hpass.1
    exact (hcovered.idle hidle).2
  · intro hnone
    have hagreed : r.system.Agreed := by
      rw [hlistened]
      exact listened_keeps (fun s a hs ha => hs.step inputs a ha)
        (agreed_run hstart.agreed hevents hnone) hpass.1
    exact (hagreed.idle hidle).2

end

/-! ### A long that the terminal fills -/

/-- A pass on a rising market, with every file at hand. -/
def risingPass (timeMsc : Int) : Pass Int :=
  { ackReads := true, retryOpens := true, retryNs := 0
    tick := some { bidTicks := 110000, askTicks := 110010, timeMsc := timeMsc }
    freshNs := 0, nowNs := 0, signals := ⟨0, 1, 1, 0, 0, 127⟩, opens := true, sentNs := 0 }

def flipRuntime : Runtime Int :=
  { flipConfig := { entryMomentum := 1, flipMomentum := 1 }
    flip := { config := { entryMomentum := 1, flipMomentum := 1 } }, broker := paperBroker }

/-- The strategy enters and the terminal fills. -/
def filledLong : List (Event Int) := [.pass (risingPass 1000), .timer BridgeRun.quiet true]

theorem asked_on_held_position_long :
    let r := (Runs.run (step {}) flipRuntime filledLong).arrived ⟨110000, 110010, 2000⟩ (risingPass 2000)
    r.asks = true ∧ r.system.positions.map OwnPosition.side = sides r.flip.life.position := by
  have hasks : ((Runs.run (step {}) flipRuntime filledLong).arrived ⟨110000, 110010, 2000⟩
      (risingPass 2000)).asks = true := by decide +kernel
  have htimely : Runs.Along (step {}) Timely flipRuntime (filledLong ++ [.pass (risingPass 2000)]) := by
    decide +kernel
  have hnone : ∀ index, .stopOut index ∉ filledLong := by
    intro index hmem
    simp [filledLong] at hmem
  exact ⟨hasks, (asked_on_held_position {} flipRuntime System.matched_new filledLong (risingPass 2000)
    ⟨110000, 110010, 2000⟩ htimely hasks).2 hnone⟩

/-! ## What becomes a command -/

section

variable [LE α] [LT α] [DecidableLE α] [DecidableLT α] [Zero α] [Neg α]

/-- Whatever new entry a step writes, the terminal holds nothing. -/
def EntersAlone (inputs : Inputs) (s : Runtime α) (e : Event α) : Prop :=
  ∀ c ∈ (s.step inputs e).system.command, c ∉ s.system.command → c.action ≠ .close →
    s.system.positions = []

omit [LE α] [LT α] [DecidableLE α] [DecidableLT α] [Zero α] [Neg α] in
theorem polled_frame (s : Runtime α) (p : Pass α) :
    (s.polled p).system.command = s.system.command ∧ (s.polled p).system.positions = s.system.positions := by
  unfold polled
  split
  · show s.system.pollAck.command = s.system.command ∧ s.system.pollAck.positions = s.system.positions
    unfold System.pollAck
    split
    · exact ⟨rfl, rfl⟩
    · cases s.system.ack with
      | none => exact ⟨rfl, rfl⟩
      | some a =>
        dsimp only
        split
        · exact ⟨rfl, rfl⟩
        · exact ⟨rfl, rfl⟩
  · exact ⟨rfl, rfl⟩

omit [LE α] [LT α] [DecidableLE α] [DecidableLT α] [Zero α] [Neg α] in
theorem listened_positions (s : Runtime α) (p : Pass α) :
    (s.listened p).system.positions = s.system.positions := by
  rw [← (polled_frame s p).2]
  unfold listened
  dsimp only
  split
  · show ((s.polled p).system.retryIfTimedOut p.retryNs).positions = _
    unfold System.retryIfTimedOut
    split
    · rfl
    · rfl
  · rfl

omit [LE α] [LT α] [DecidableLE α] [DecidableLT α] [Zero α] [Neg α] in
/-- An entry that is sent again has not been filled. -/
theorem listened_entersAlone {s : Runtime α} {p : Pass α} (h : (s.polled p).system.Covered)
    (htimely : s.Timely (.pass p)) {c : Command} (hc : c ∈ (s.listened p).system.command)
    (hnew : c ∉ s.system.command) (hentry : c.action ≠ .close) : s.system.positions = [] := by
  obtain ⟨hcommand, hpositions⟩ := polled_frame s p
  rw [← hcommand] at hnew
  rw [← hpositions]
  unfold listened at hc
  dsimp only at hc
  split at hc
  · rename_i hopens
    change c ∈ ((s.polled p).system.retryIfTimedOut p.retryNs).command at hc
    unfold System.retryIfTimedOut at hc
    split at hc
    · rename_i hout
      cases hc
      have hflight := (Bool.and_eq_true_iff.mp hout).1
      cases haction : (s.polled p).system.bridge.pendingAction with
      | close => exact absurd haction hentry
      | enter side =>
        have he := (h.sent hflight).entering side haction
        exact List.length_eq_zero_iff.mp (htimely hopens hout he.entry)
    · exact absurd hc hnew
  · exact absurd hc hnew

theorem entersAlone {s : Runtime α} (h : s.system.Covered) (inputs : Inputs) {e : Event α}
    (htimely : s.Timely e) : s.EntersAlone inputs e := by
  intro c hc hnew hentry
  cases e with
  | pass p =>
    have hpolled : (s.polled p).system.Covered :=
      polled_keeps (fun s a hs ha => hs.step inputs a ha) h p
    have hlistened : (s.listened p).system.Covered :=
      listened_keeps (fun s a hs ha => hs.step inputs a ha) h htimely
    have hagain := listened_entersAlone hpolled htimely (c := c)
    have hwrote := wrote_pass s p
    change c ∈ (s.pass p).system.command at hc
    rw [← listened_positions s p] at hagain ⊢
    generalize (s.pass p).system = s' at hwrote hc
    generalize (s.listened p).system = s₁ at hagain hlistened hwrote ⊢
    cases hwrote with
    | idle => exact hagain hc hnew hentry
    | noted => exact hagain hc hnew hentry
    | reconciled idle opened nowNs =>
      cases hc
      exact absurd rfl hentry
    | entered idle flat side nowNs =>
      have hwithin := (hlistened.idle idle).2
      rw [flat] at hwithin
      exact hwithin.of_flat
    | closed idle opened side nowNs =>
      cases hc
      exact absurd rfl hentry
  | quote symbolId bid ask bidSize askSize tsNs =>
    change c ∈ (s.onQuote symbolId bid ask bidSize askSize tsNs).system.command at hc
    rw [onQuote_system] at hc
    exact absurd hc hnew
  | halt => exact absurd hc hnew
  | timer t opens => exact absurd hc hnew
  | stopOut index => exact absurd hc hnew

/-- In every timely run, an entry is only written while the terminal holds nothing, and the terminal
never holds a second position. -/
theorem entries_alone (inputs : Inputs) (s : Runtime α) (hstart : s.system.Matched)
    (events : List (Event α)) (htimely : Runs.Along (step inputs) Timely s events) :
    Runs.Along (step inputs) (EntersAlone inputs) s events ∧
      Runs.Throughout (step inputs) (fun r => r.system.positions.length ≤ 1) s events := by
  have hsteps : ∀ (r : Runtime α) (e : Event α), r.system.Covered → r.Timely e →
      (r.step inputs e).system.Covered := by
    intro r e hr he
    exact step_keeps (fun s a hs ha => hs.step inputs a ha) (fun s hs => hs.mismatched) hr he
      fun index _ => hr.stopOut index
  constructor
  · exact Runs.Along.of_invariant (I := fun r : Runtime α => r.system.Covered) hsteps
      (fun r e hr he => entersAlone hr inputs he) hstart.covered htimely
  · intro events' hprefix
    obtain ⟨rest, rfl⟩ := hprefix
    have hcovered := covered_run hstart.covered (Runs.along_append.mp htimely).1
    exact hcovered.length_le

end

theorem entries_alone_long :
    Runs.Along (step {}) (EntersAlone {}) flipRuntime filledLong ∧
      Runs.Throughout (step {}) (fun r : Runtime Int => r.system.positions.length ≤ 1) flipRuntime
        filledLong :=
  entries_alone {} flipRuntime System.matched_new filledLong (by decide +kernel)

end Runtime

end MicrostructureEngine.Bridge
