import MicrostructureEngine.Bridge.PositionAgreement

/-!
# A restarted runtime and the mark of the bridge

The expert advisor outlives the runtime, and with it the mark below which it discards commands. A
restarted runtime resumes its numbers from the acknowledgement file and begins with a close; what is
not acknowledged it sends again under the next number, until the mark is passed.
-/

namespace MicrostructureEngine.Bridge

set_option autoImplicit false

namespace System

/-- What the two parties do while a command is in flight. -/
def Waits : SystemStep → Prop
  | .retry _ | .pollAck | .timer .. => True
  | .enter .. | .close .. | .reconcile _ => False

instance (a : SystemStep) : Decidable (Waits a) :=
  match a with
  | .retry _ | .pollAck | .timer .. => inferInstanceAs (Decidable True)
  | .enter .. | .close .. | .reconcile _ => inferInstanceAs (Decidable False)

/-- What the bridge has processed since `start`. -/
def processedSince (start s : System) : List Int := s.run.processed.drop start.run.processed.length

/-- Since `start` only numbers of the same command have been filed, one for every timeout, and either
the bridge has processed one of them or its mark has not risen. -/
structure FiledSince (start s : System) : Prop where
  command : ∃ c, s.command = some c ∧ c.seq = s.seq ∧ c.action = s.bridge.pendingAction
  action : s.bridge.pendingAction = start.bridge.pendingAction
  counted : s.seq + start.bridge.timeouts = start.seq + s.bridge.timeouts
  least : start.seq ≤ s.seq
  grown : start.run.processed.length ≤ s.run.processed.length
  reached : (∃ n : Nat, start.seq ≤ n ∧ n ≤ s.seq ∧ (n : Int) ∈ processedSince start s) ∨
    s.run.ea.lastSeq ≤ max start.run.ea.lastSeq (-1)

theorem answer_frame (b : BridgeState) (status : AckStatus) :
    (b.answer status).timeouts = b.timeouts ∧ (b.answer status).pendingAction = b.pendingAction := by
  cases status <;> exact ⟨rfl, rfl⟩

theorem FiledSince.retry {start s : System} (h : FiledSince start s) (nowNs : UInt64) :
    FiledSince start (s.retryIfTimedOut nowNs) := by
  unfold retryIfTimedOut
  split
  · have hleast := h.least
    have hcounted := h.counted
    refine ⟨⟨_, rfl, rfl, rfl⟩, h.action, ?_, ?_, h.grown, ?_⟩
    · dsimp only
      omega
    · dsimp only
      omega
    · refine h.reached.imp ?_ id
      rintro ⟨n, hfrom, hto, hprocessed⟩
      exact ⟨n, hfrom, hto.trans (Nat.le_succ _), hprocessed⟩
  · exact h

theorem FiledSince.pollAck {start s : System} (h : FiledSince start s) : FiledSince start s.pollAck := by
  unfold System.pollAck
  split
  · exact h
  cases s.ack with
  | none => exact h
  | some a =>
    dsimp only
    split
    · exact h
    · obtain ⟨htimeouts, haction⟩ := answer_frame s.bridge a.status
      obtain ⟨c, hfile, hseq, hc⟩ := h.command
      refine ⟨⟨c, hfile, hseq, hc.trans haction.symm⟩, haction.trans h.action, ?_, h.least, h.grown, h.reached⟩
      show s.seq + start.bridge.timeouts = start.seq + (s.bridge.answer a.status).timeouts
      rw [htimeouts]
      exact h.counted

theorem FiledSince.processedSince_timer {start s : System} (h : FiledSince start s) (inputs : Inputs)
    (t : Terminal) (opens : Bool) :
    processedSince start (s.timer inputs t opens) = processedSince start s ++
      (s.run.ea.onTimer inputs s.positions (s.found t opens)).processed.toList :=
  List.drop_append_of_le_length h.grown

/-- A timer call that gets to the file processes the number in it. -/
theorem FiledSince.processes {start s : System} (h : FiledSince start s) (inputs : Inputs) {t : Terminal}
    {opens : Bool} {c : Command} (haccepted : s.run.ea.accepted (s.found t opens) = some c) :
    (s.seq : Int) ∈ processedSince start (s.timer inputs t opens) := by
  obtain ⟨c', hfile, hseq, -⟩ := h.command
  cases hfile.symm.trans (command_of_accepted haccepted)
  have hprocessed := (ExecBridge.onTimer_accepted inputs s.positions haccepted).1
  rw [h.processedSince_timer, hprocessed, hseq]
  exact List.mem_append_right _ (List.mem_singleton_self _)

theorem FiledSince.timer {start s : System} (h : FiledSince start s) (inputs : Inputs) (t : Terminal)
    (opens : Bool) : FiledSince start (s.timer inputs t opens) := by
  refine ⟨h.command, h.action, h.counted, h.least, ?_, ?_⟩
  · show start.run.processed.length ≤ (s.run.processed ++ _).length
    rw [List.length_append]
    exact Nat.le_add_right_of_le h.grown
  cases haccepted : s.run.ea.accepted (s.found t opens) with
  | some c => exact Or.inl ⟨s.seq, h.least, Nat.le_refl _, h.processes inputs haccepted⟩
  | none =>
    rcases h.reached with ⟨n, hfrom, hto, hprocessed⟩ | hmark
    · refine Or.inl ⟨n, hfrom, hto, ?_⟩
      rw [h.processedSince_timer]
      exact List.mem_append_left _ hprocessed
    · refine Or.inr ?_
      have htimed := ExecBridge.timed inputs s.run.ea s.positions (s.found t opens)
      show (s.run.ea.onTimer inputs s.positions (s.found t opens)).bridge.lastSeq ≤ _
      generalize s.run.ea.onTimer inputs s.positions (s.found t opens) = r at htimed ⊢
      cases htimed with
      | idle => exact hmark
      | killed =>
        -- the kill file takes the mark below every number
        have hreset : (-999 : Int) ≤ -1 := by decide
        exact hreset.trans (le_max_right _ _)
      | halted accepted => exact absurd (haccepted.symm.trans accepted) nofun
      | executed accepted => exact absurd (haccepted.symm.trans accepted) nofun

theorem FiledSince.step {start s : System} (h : FiledSince start s) (inputs : Inputs) {a : SystemStep}
    (hwaits : Waits a) : FiledSince start (s.step inputs a) := by
  cases a with
  | retry nowNs => exact h.retry nowNs
  | pollAck => exact h.pollAck
  | timer t opens => exact h.timer inputs t opens
  | enter => exact absurd hwaits id
  | close => exact absurd hwaits id
  | reconcile => exact absurd hwaits id

theorem FiledSince.run {start : System} (hstart : FiledSince start start) (inputs : Inputs)
    {steps : List SystemStep} (hwaits : ∀ a ∈ steps, Waits a) :
    FiledSince start (Runs.run (System.step inputs) start steps) := by
  have halong : Runs.Along (System.step inputs) (fun _ a => Waits a) start steps :=
    Runs.along_of_forall fun a ha _ => hwaits a ha
  exact Runs.run_invariant (I := FiledSince start) (fun s a hs ha => hs.step inputs ha) hstart halong

/-- The mark stands at 3 and the acknowledgement file was lost. -/
def marked : System :=
  { run := { ea := { lastSeq := 3 }, processed := [1, 2, 3] } }

end System

end MicrostructureEngine.Bridge
