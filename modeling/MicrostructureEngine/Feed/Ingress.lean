import MicrostructureEngine.Feed.PipeAdapter

/-!
# A session through the adapter

What one call of `ingest` does is said once: it rejects the record at one of the checks, or it
delivers an event with the next number. Over a run of calls the events are numbered without a
hole, and the sequence numbers between the first and the last one that moved the tracker are the
ones that were seen and the ones that were counted as lost.
-/

namespace MicrostructureEngine.Mt5

set_option autoImplicit false

/-- The arguments of one call of `ingest`. -/
structure Arrival where
  record : WireRecord
  monotonicNs : Nat
  utcNs : Nat
  deriving DecidableEq

namespace WireRecord

def sequence (r : WireRecord) : Nat := r.recordPrefix.sequence.toNat

def tsTerminalMs : WireRecord → UInt64
  | .marketData record => record.tsTerminalMs
  | .heartbeat record => record.tsTerminalMs

/-- The record passes the checks on its prefix that come before its sequence number. -/
def BelongsTo (r : WireRecord) (epoch : UInt64) : Prop :=
  r.recordPrefix.magic = protocolMagic ∧ r.recordPrefix.version = protocolVersion ∧
    r.recordPrefix.sessionEpoch = epoch ∧ r.Typed

instance (r : WireRecord) (epoch : UInt64) : Decidable (r.BelongsTo epoch) :=
  inferInstanceAs (Decidable (_ ∧ _ ∧ _ ∧ _))

/-- The verdict on a record that is let through. -/
def passVerdict : WireRecord → IngressVerdict
  | .marketData _ => .accepted
  | .heartbeat record => if record.connected = 0 then .disconnected else .accepted

end WireRecord

/-- The call has delivered an event. -/
def IngressVerdict.Delivers (v : IngressVerdict) : Prop := v = .accepted ∨ v = .disconnected

instance (v : IngressVerdict) : Decidable v.Delivers := inferInstanceAs (Decidable (_ ∨ _))

theorem not_delivers_gap : ¬ IngressVerdict.sequenceGap.Delivers := by decide

theorem not_delivers_stale : ¬ IngressVerdict.staleSequence.Delivers := by decide

theorem WireRecord.passVerdict_delivers (r : WireRecord) : r.passVerdict.Delivers := by
  cases r with
  | marketData r => exact .inl rfl
  | heartbeat r =>
    unfold passVerdict IngressVerdict.Delivers
    by_cases hconnected : r.connected = 0
    · exact .inr (if_pos hconnected)
    · exact .inl (if_neg hconnected)

namespace SequenceTracker

/-- A number that the tracker takes for the next one. -/
def Next (t : SequenceTracker) (sequence : Nat) : Prop :=
  t.initialized = true → sequence = (t.last + 1) % 2 ^ 64

theorem observe_next {t : SequenceTracker} {sequence : Nat} (h : t.Next sequence) :
    ((t.observe sequence).1.status = .synchronized ∨ (t.observe sequence).1.status = .inOrder) ∧
      (t.observe sequence).2 = { t with last := sequence, initialized := true } := by
  unfold observe
  by_cases hinit : t.initialized = true
  · rw [hinit]
    dsimp only
    rw [if_neg (by decide), if_pos (h hinit)]
    refine ⟨.inr rfl, ?_⟩
    rw [← hinit]
  · rw [Bool.not_eq_true] at hinit
    rw [hinit]
    exact ⟨.inl rfl, rfl⟩

theorem observe_gap {t : SequenceTracker} {sequence : Nat} (h : ¬ t.Next sequence) (hlast : t.last < sequence) :
    (t.observe sequence).1.status = .gap ∧
      (t.observe sequence).2 = { t with
        last := sequence
        gaps := (t.gaps + (sequence - (t.last + 1) % 2 ^ 64)) % 2 ^ 64 } := by
  unfold Next at h
  push Not at h
  unfold observe
  rw [h.1]
  dsimp only
  rw [if_neg (by decide), if_neg h.2, if_neg (Nat.not_le.mpr hlast)]
  exact ⟨rfl, by rw [← h.1]⟩

theorem observe_stale {t : SequenceTracker} {sequence : Nat} (h : ¬ t.Next sequence) (hlast : sequence ≤ t.last) :
    (t.observe sequence).1.status = .staleOrDuplicate ∧ (t.observe sequence).2 = t := by
  unfold Next at h
  push Not at h
  unfold observe
  rw [h.1]
  dsimp only
  rw [if_neg (by decide), if_neg h.2, if_pos hlast]
  exact ⟨rfl, rfl⟩

end SequenceTracker

namespace PipeAdapter
variable (a : PipeAdapter) (r : WireRecord)

/-- The check on the prefix, once the record belongs to the session. -/
theorem validatePrefix_belongs (h : r.BelongsTo a.epoch) :
    a.validatePrefix r.recordPrefix r.type =
      (match (a.sequence.observe r.sequence).1.status with
        | .gap => .sequenceGap
        | .staleOrDuplicate => .staleSequence
        | _ => .accepted,
        { a with sequence := (a.sequence.observe r.sequence).2 }) := by
  obtain ⟨hmagic, hversion, hepoch, htyped⟩ := h
  have htype : r.recordPrefix.type = r.type.code := htyped
  unfold validatePrefix
  rw [if_neg (not_not.mpr hmagic), if_neg (not_not.mpr hversion), if_neg (not_not.mpr hepoch),
    if_neg (not_not.mpr htype)]
  dsimp only
  unfold WireRecord.sequence
  cases (a.sequence.observe r.recordPrefix.sequence.toNat).1.status <;> rfl

/-- A record from elsewhere moves nothing but the counter of expired records. -/
theorem validatePrefix_foreign (h : ¬ r.BelongsTo a.epoch) :
    ∃ v, a.validatePrefix r.recordPrefix r.type =
        (v, { a with expired := if v = .staleEpoch then (a.expired + 1) % 2 ^ 64 else a.expired }) ∧
      ¬ v.Delivers ∧ v ≠ .sequenceGap := by
  unfold validatePrefix
  by_cases hmagic : r.recordPrefix.magic = protocolMagic
  · rw [if_neg (not_not.mpr hmagic)]
    by_cases hversion : r.recordPrefix.version = protocolVersion
    · rw [if_neg (not_not.mpr hversion)]
      by_cases hepoch : r.recordPrefix.sessionEpoch = a.epoch
      · rw [if_neg (not_not.mpr hepoch)]
        have htype : r.recordPrefix.type ≠ r.type.code := fun htype => h ⟨hmagic, hversion, hepoch, htype⟩
        rw [if_pos htype]
        exact ⟨.wrongType, rfl, by decide, by decide⟩
      · rw [if_pos hepoch]
        exact ⟨.staleEpoch, rfl, by decide, by decide⟩
    · rw [if_pos hversion]
      exact ⟨.badVersion, rfl, by decide, by decide⟩
  · rw [if_pos hmagic]
    exact ⟨.badMagic, rfl, by decide, by decide⟩

/-- The adapter behind a record that it lets through. -/
def passed (arrival : Arrival) : PipeAdapter :=
  let a := { a with sequence := { a.sequence with last := arrival.record.sequence, initialized := true } }
  let a := a.stamp arrival.record.tsTerminalMs arrival.utcNs
  match arrival.record with
  | .marketData _ => a
  | .heartbeat record => { a with heartbeat := a.heartbeat.observe arrival.monotonicNs (record.connected ≠ 0) }

def step (a : PipeAdapter) (arrival : Arrival) : IngressResult × PipeAdapter :=
  a.ingest arrival.record arrival.monotonicNs arrival.utcNs

variable {a} {arrival : Arrival}

theorem ingest_rejected (h : (a.validatePrefix arrival.record.recordPrefix arrival.record.type).1 ≠ .accepted) :
    a.step arrival = (⟨(a.validatePrefix arrival.record.recordPrefix arrival.record.type).1, .zeroed⟩,
      (a.validatePrefix arrival.record.recordPrefix arrival.record.type).2) := by
  obtain ⟨record, monotonicNs, utcNs⟩ := arrival
  cases record with
  | marketData record => exact if_pos h
  | heartbeat record => exact if_pos h

/-- A record from elsewhere. -/
theorem ingest_foreign (h : ¬ arrival.record.BelongsTo a.epoch) :
    ∃ v, a.step arrival = (⟨v, .zeroed⟩,
        { a with expired := if v = .staleEpoch then (a.expired + 1) % 2 ^ 64 else a.expired }) ∧
      ¬ v.Delivers ∧ v ≠ .sequenceGap := by
  obtain ⟨v, hchecked, hdelivers, hgap⟩ := a.validatePrefix_foreign arrival.record h
  refine ⟨v, ?_, hdelivers, hgap⟩
  rw [ingest_rejected fun haccepted => hdelivers (.inl (by rw [hchecked] at haccepted; exact haccepted)), hchecked]

/-- A number beyond the next one. -/
theorem ingest_gap (h : arrival.record.BelongsTo a.epoch) (hnext : ¬ a.sequence.Next arrival.record.sequence)
    (hlast : a.sequence.last < arrival.record.sequence) :
    a.step arrival = (⟨.sequenceGap, .zeroed⟩, { a with sequence := { a.sequence with
      last := arrival.record.sequence
      gaps := (a.sequence.gaps + (arrival.record.sequence - (a.sequence.last + 1) % 2 ^ 64)) % 2 ^ 64 } }) := by
  have hchecked := a.validatePrefix_belongs arrival.record h
  obtain ⟨hstatus, hsequence⟩ := SequenceTracker.observe_gap hnext hlast
  rw [hstatus, hsequence] at hchecked
  rw [ingest_rejected (by rw [hchecked]; exact IngressVerdict.noConfusion), hchecked]

/-- A number that was seen or passed over. -/
theorem ingest_stale (h : arrival.record.BelongsTo a.epoch) (hnext : ¬ a.sequence.Next arrival.record.sequence)
    (hlast : arrival.record.sequence ≤ a.sequence.last) :
    a.step arrival = (⟨.staleSequence, .zeroed⟩, a) := by
  have hchecked := a.validatePrefix_belongs arrival.record h
  obtain ⟨hstatus, hsequence⟩ := SequenceTracker.observe_stale hnext hlast
  rw [hstatus, hsequence] at hchecked
  rw [ingest_rejected (by rw [hchecked]; exact IngressVerdict.noConfusion), hchecked]

/-- The next number: the record becomes an event. -/
theorem ingest_next (h : arrival.record.BelongsTo a.epoch) (hnext : a.sequence.Next arrival.record.sequence) :
    (a.step arrival).1.verdict = arrival.record.passVerdict ∧ (a.step arrival).2 = a.passed arrival ∧
      (a.step arrival).1.event.header = { (a.step arrival).1.event.header with
        seqGlobal := UInt64.ofNat (a.passed arrival).seqGlobal
        tsTerminalNs := UInt64.ofNat ((a.passed arrival).clock.correct (nanoseconds arrival.record.tsTerminalMs))
        tsLocalNs := UInt64.ofNat arrival.monotonicNs
        seqSource := UInt32.ofNat arrival.record.sequence
        sourceId := a.sourceId
        sourcePriority := 0 } := by
  have hchecked := a.validatePrefix_belongs arrival.record h
  obtain ⟨hstatus, hsequence⟩ := SequenceTracker.observe_next hnext
  have haccepted : a.validatePrefix arrival.record.recordPrefix arrival.record.type =
      (.accepted, { a with sequence := { a.sequence with last := arrival.record.sequence, initialized := true } }) := by
    rw [hchecked, hsequence]
    rcases hstatus with hstatus | hstatus
    · rw [hstatus]
    · rw [hstatus]
  obtain ⟨record, monotonicNs, utcNs⟩ := arrival
  cases record with
  | marketData record =>
    have hstep : a.validatePrefix record.recordPrefix .marketData = _ := haccepted
    unfold step ingest ingestMd
    dsimp only
    rw [hstep, if_neg (not_not.mpr rfl), FixedEvent.header_build]
    exact ⟨rfl, rfl, rfl⟩
  | heartbeat record =>
    have hstep : a.validatePrefix record.recordPrefix .heartbeat = _ := haccepted
    unfold step ingest ingestHb
    dsimp only
    rw [hstep, if_neg (not_not.mpr rfl), FixedEvent.header_build]
    exact ⟨rfl, rfl, rfl⟩

/-! ## Runs -/

open Outputs

/-- The events that a run of calls delivered. -/
def delivered (results : List IngressResult) : List FixedEvent :=
  (results.filter fun result => result.verdict.Delivers).map IngressResult.event

theorem delivered_cons {result : IngressResult} (results : List IngressResult) (h : result.verdict.Delivers) :
    delivered (result :: results) = result.event :: delivered results := by
  unfold delivered
  rw [List.filter_cons_of_pos (by simpa using h), List.map_cons]

theorem delivered_skip {result : IngressResult} (results : List IngressResult) (h : ¬ result.verdict.Delivers) :
    delivered (result :: results) = delivered results := by
  unfold delivered
  rw [List.filter_cons_of_neg (by simpa using h)]

/-- The sequence numbers that moved the tracker. -/
def advances : PipeAdapter → List Arrival → List Nat
  | _, [] => []
  | a, arrival :: as =>
    if (a.step arrival).1.verdict.Delivers ∨ (a.step arrival).1.verdict = .sequenceGap then
      arrival.record.sequence :: advances (a.step arrival).2 as
    else advances (a.step arrival).2 as

/-- The four things that a call can do, told apart by the record and the tracker. -/
theorem step_split (a : PipeAdapter) (arrival : Arrival) :
    (¬ arrival.record.BelongsTo a.epoch) ∨
      (arrival.record.BelongsTo a.epoch ∧ a.sequence.Next arrival.record.sequence) ∨
      (arrival.record.BelongsTo a.epoch ∧ ¬ a.sequence.Next arrival.record.sequence ∧
        a.sequence.last < arrival.record.sequence) ∨
      (arrival.record.BelongsTo a.epoch ∧ ¬ a.sequence.Next arrival.record.sequence ∧
        arrival.record.sequence ≤ a.sequence.last) := by
  by_cases hbelongs : arrival.record.BelongsTo a.epoch
  · by_cases hnext : a.sequence.Next arrival.record.sequence
    · exact .inr (.inl ⟨hbelongs, hnext⟩)
    · rcases Nat.lt_or_ge a.sequence.last arrival.record.sequence with hlast | hlast
      · exact .inr (.inr (.inl ⟨hbelongs, hnext, hlast⟩))
      · exact .inr (.inr (.inr ⟨hbelongs, hnext, hlast⟩))
  · exact .inl hbelongs

theorem passed_seqGlobal (a : PipeAdapter) (arrival : Arrival) :
    (a.passed arrival).seqGlobal = (a.seqGlobal + 1) % 2 ^ 64 := by
  obtain ⟨record, monotonicNs, utcNs⟩ := arrival
  cases record <;> rfl

theorem passed_sequence (a : PipeAdapter) (arrival : Arrival) :
    (a.passed arrival).sequence =
      { a.sequence with last := arrival.record.sequence, initialized := true } := by
  obtain ⟨record, monotonicNs, utcNs⟩ := arrival
  cases record <;> rfl

theorem passed_expired (a : PipeAdapter) (arrival : Arrival) : (a.passed arrival).expired = a.expired := by
  obtain ⟨record, monotonicNs, utcNs⟩ := arrival
  cases record <;> rfl

/-- An event gets the next number, and only an event does. -/
theorem step_number (a : PipeAdapter) (arrival : Arrival) :
    ((a.step arrival).1.verdict.Delivers →
        (a.step arrival).1.event.header.seqGlobal = UInt64.ofNat (a.seqGlobal + 1) ∧
          (a.step arrival).2.seqGlobal = (a.seqGlobal + 1) % 2 ^ 64) ∧
      (¬ (a.step arrival).1.verdict.Delivers → (a.step arrival).2.seqGlobal = a.seqGlobal) := by
  rcases step_split a arrival with h | ⟨h, hnext⟩ | ⟨h, hnext, hlast⟩ | ⟨h, hnext, hlast⟩
  · obtain ⟨v, hstep, hv, -⟩ := ingest_foreign h
    rw [hstep]
    exact ⟨fun hdelivers => absurd hdelivers hv, fun _ => rfl⟩
  · obtain ⟨hverdict, hstate, hheader⟩ := ingest_next h hnext
    refine ⟨fun _ => ?_, fun hdelivers => ?_⟩
    · rw [hheader, hstate, passed_seqGlobal]
      refine ⟨?_, rfl⟩
      apply UInt64.toNat_inj.mp
      rw [UInt64.toNat_ofNat', UInt64.toNat_ofNat', Nat.mod_mod]
    · rw [hverdict] at hdelivers
      exact absurd arrival.record.passVerdict_delivers hdelivers
  · rw [ingest_gap h hnext hlast]
    exact ⟨fun hdelivers => absurd hdelivers not_delivers_gap, fun _ => rfl⟩
  · rw [ingest_stale h hnext hlast]
    exact ⟨fun hdelivers => absurd hdelivers not_delivers_stale, fun _ => rfl⟩

theorem delivered_numbers (as : List Arrival) : ∀ a : PipeAdapter,
    (delivered (outputs step a as)).map (fun e => e.header.seqGlobal) =
      (List.range (delivered (outputs step a as)).length).map fun i => UInt64.ofNat (a.seqGlobal + 1 + i) := by
  induction as with
  | nil => exact fun _ => rfl
  | cons arrival as ih =>
    intro a
    obtain ⟨hnumber, hsame⟩ := step_number a arrival
    have hrest := ih (a.step arrival).2
    rw [outputs]
    by_cases hdelivers : (a.step arrival).1.verdict.Delivers
    · obtain ⟨hfirst, hnext⟩ := hnumber hdelivers
      rw [delivered_cons _ hdelivers, List.map_cons, List.length_cons, List.range_succ_eq_map, List.map_cons,
        List.map_map, hfirst, hrest]
      refine congrArg₂ List.cons rfl ?_
      apply List.map_congr_left
      intro i _
      apply UInt64.toNat_inj.mp
      rw [hnext, Function.comp_apply, UInt64.toNat_ofNat', UInt64.toNat_ofNat', Nat.succ_eq_add_one]
      omega
    · rw [delivered_skip _ hdelivers, hrest, hsame hdelivers]

theorem sequence_lt (r : WireRecord) : r.sequence < 2 ^ 64 := r.recordPrefix.sequence.toNat_lt

/-- What a call does to the tracker, for a record that moves it and for one that does not. -/
theorem step_tracker (a : PipeAdapter) (arrival : Arrival) :
    (((a.step arrival).1.verdict.Delivers ∨ (a.step arrival).1.verdict = .sequenceGap) ∧
        (a.step arrival).2.sequence = {
          last := arrival.record.sequence
          initialized := true
          gaps := if (a.step arrival).1.verdict = .sequenceGap
            then (a.sequence.gaps + (arrival.record.sequence - (a.sequence.last + 1) % 2 ^ 64)) % 2 ^ 64
            else a.sequence.gaps } ∧
        ((a.step arrival).1.verdict = .sequenceGap →
          a.sequence.initialized = true ∧ a.sequence.last < arrival.record.sequence) ∧
        ((a.step arrival).1.verdict ≠ .sequenceGap → a.sequence.Next arrival.record.sequence)) ∨
      (¬ ((a.step arrival).1.verdict.Delivers ∨ (a.step arrival).1.verdict = .sequenceGap) ∧
        (a.step arrival).2.sequence = a.sequence) := by
  rcases step_split a arrival with h | ⟨h, hnext⟩ | ⟨h, hnext, hlast⟩ | ⟨h, hnext, hlast⟩
  · obtain ⟨v, hstep, hv, hgap⟩ := ingest_foreign h
    rw [hstep]
    exact .inr ⟨fun hmoves => hmoves.elim hv hgap, rfl⟩
  · obtain ⟨hverdict, hstate, -⟩ := ingest_next h hnext
    have hpass := arrival.record.passVerdict_delivers
    have hgap : arrival.record.passVerdict ≠ .sequenceGap := by
      intro hgap
      rw [hgap] at hpass
      exact not_delivers_gap hpass
    rw [hverdict, hstate, passed_sequence, if_neg hgap]
    exact .inl ⟨.inl hpass, rfl, fun heq => absurd heq hgap, fun _ => hnext⟩
  · rw [ingest_gap h hnext hlast]
    have hinit : a.sequence.initialized = true := by
      unfold SequenceTracker.Next at hnext
      push Not at hnext
      exact hnext.1
    refine .inl ⟨.inr rfl, ?_, fun _ => ⟨hinit, hlast⟩, fun hne => absurd rfl hne⟩
    dsimp only
    rw [if_pos rfl, hinit]
  · rw [ingest_stale h hnext hlast]
    refine .inr ⟨fun hmoves => ?_, rfl⟩
    exact hmoves.elim not_delivers_stale IngressVerdict.noConfusion

/-- Between two numbers of a run stand the numbers that were seen and those that were lost. -/
theorem gaps_account (as : List Arrival) : ∀ a : PipeAdapter, a.sequence.initialized = true →
    ((after step a as).sequence.gaps + (a.advances as).length + a.sequence.last) % 2 ^ 64 =
      (a.sequence.gaps + (after step a as).sequence.last) % 2 ^ 64 ∧
    (after step a as).sequence.last = (a.advances as).getLastD a.sequence.last := by
  induction as with
  | nil => exact fun a _ => ⟨rfl, rfl⟩
  | cons arrival as ih =>
    intro a hinit
    unfold after advances
    rcases step_tracker a arrival with ⟨hmoves, hstate, hgap, hnext⟩ | ⟨hstays, hstate⟩
    · obtain ⟨hcount, hlast⟩ := ih (a.step arrival).2 (by rw [hstate])
      rw [if_pos hmoves, List.length_cons, List.getLastD_cons, hlast, hstate]
      rw [hlast, hstate] at hcount
      refine ⟨?_, rfl⟩
      dsimp only at hcount ⊢
      by_cases hverdict : (a.step arrival).1.verdict = .sequenceGap
      · have hlt := sequence_lt arrival.record
        have hbefore := (hgap hverdict).2
        rw [if_pos hverdict] at hcount
        omega
      · have hsucc := hnext hverdict hinit
        rw [if_neg hverdict] at hcount
        omega
    · obtain ⟨hcount, hlast⟩ := ih (a.step arrival).2 (by rw [hstate]; exact hinit)
      rw [if_neg hstays]
      rw [hstate] at hcount hlast
      exact ⟨hcount, hlast⟩

/-- The numbers that move the tracker grow, unless the last one of all comes by. -/
theorem advances_ordered (as : List Arrival) (hlow : ∀ arrival ∈ as, arrival.record.sequence ≠ 2 ^ 64 - 1) :
    ∀ a : PipeAdapter, (a.sequence.initialized = true → a.sequence.last < 2 ^ 64 - 1) →
      (a.advances as).Pairwise (· < ·) ∧
        (a.sequence.initialized = true → ∀ sequence ∈ a.advances as, a.sequence.last < sequence) := by
  induction as with
  | nil => exact fun a _ => ⟨List.Pairwise.nil, fun _ sequence h => absurd h List.not_mem_nil⟩
  | cons arrival as ih =>
    intro a hroom
    have hrest := ih fun other hother => hlow other (List.mem_cons_of_mem arrival hother)
    have hhere := hlow arrival List.mem_cons_self
    have hlt := sequence_lt arrival.record
    unfold advances
    rcases step_tracker a arrival with ⟨hmoves, hstate, hgap, hnext⟩ | ⟨hstays, hstate⟩
    · obtain ⟨hpairs, habove⟩ := hrest (a.step arrival).2 (by rw [hstate]; intro _; dsimp only; omega)
      have habove := habove (by rw [hstate])
      rw [hstate] at habove
      rw [if_pos hmoves]
      refine ⟨List.Pairwise.cons habove hpairs, fun hinit sequence hmem => ?_⟩
      have hfirst : a.sequence.last < arrival.record.sequence := by
        by_cases hverdict : (a.step arrival).1.verdict = .sequenceGap
        · exact (hgap hverdict).2
        · have hsucc := hnext hverdict hinit
          have hbefore := hroom hinit
          omega
      rcases List.mem_cons.mp hmem with rfl | hmem
      · exact hfirst
      · exact Nat.lt_trans hfirst (habove sequence hmem)
    · rw [if_neg hstays]
      have hsame := hrest (a.step arrival).2 (by rw [hstate]; exact hroom)
      rw [hstate] at hsame
      exact hsame

/-- The same from the first number on, for a tracker that has seen none. -/
theorem gaps_account_fresh (as : List Arrival) : ∀ a : PipeAdapter, a.sequence.initialized = false →
    ∀ first rest, a.advances as = first :: rest →
      ((after step a as).sequence.gaps + (a.advances as).length + first) % 2 ^ 64 =
        (a.sequence.gaps + ((a.advances as).getLastD 0 + 1)) % 2 ^ 64 := by
  induction as with
  | nil => exact fun a _ first rest h => absurd h (List.cons_ne_nil _ _).symm
  | cons arrival as ih =>
    intro a hfresh first rest hadvances
    unfold advances at hadvances ⊢
    unfold after
    rcases step_tracker a arrival with ⟨hmoves, hstate, hgap, hnext⟩ | ⟨hstays, hstate⟩
    · have hverdict : (a.step arrival).1.verdict ≠ .sequenceGap := by
        intro hverdict
        rw [(hgap hverdict).1] at hfresh
        cases hfresh
      rw [if_pos hmoves] at hadvances ⊢
      obtain ⟨rfl, rfl⟩ := List.cons.inj hadvances
      obtain ⟨hcount, hlast⟩ := gaps_account as (a.step arrival).2 (by rw [hstate])
      rw [if_neg hverdict] at hstate
      rw [hlast, hstate] at hcount
      rw [List.length_cons, List.getLastD_cons]
      dsimp only at hcount
      omega
    · rw [if_neg hstays] at hadvances ⊢
      have hrest := ih (a.step arrival).2 (by rw [hstate]; exact hfresh) first rest hadvances
      rw [hstate] at hrest
      exact hrest

theorem expired_account (as : List Arrival) : ∀ a : PipeAdapter,
    (after step a as).expired % 2 ^ 64 =
      (a.expired + (outputs step a as).countP fun result => result.verdict = .staleEpoch) % 2 ^ 64 := by
  induction as with
  | nil => exact fun a => rfl
  | cons arrival as ih =>
    intro a
    have hstep : (a.step arrival).2.expired % 2 ^ 64 =
        (a.expired + if (a.step arrival).1.verdict = .staleEpoch then 1 else 0) % 2 ^ 64 := by
      rcases step_split a arrival with h | ⟨h, hnext⟩ | ⟨h, hnext, hlast⟩ | ⟨h, hnext, hlast⟩
      · obtain ⟨v, hv, -, -⟩ := ingest_foreign h
        rw [hv]
        dsimp only
        split
        · exact Nat.mod_mod _ _
        · rfl
      · obtain ⟨hverdict, hstate, -⟩ := ingest_next h hnext
        have hpass := arrival.record.passVerdict_delivers
        rw [hverdict, hstate, passed_expired, if_neg]
        · rfl
        · intro hstale
          rw [hstale] at hpass
          exact absurd hpass (by decide)
      · rw [ingest_gap h hnext hlast]
        rfl
      · rw [ingest_stale h hnext hlast]
        rfl
    rw [after, outputs, ih, List.countP_cons]
    simp only [decide_eq_true_eq]
    omega

/-- A session of any records in any order: its events are numbered from one without a hole, every
record of an earlier session is counted, and the numbers that were seen and the gaps that were
counted together fill the range from the first number to the last. -/
theorem session_accounts (sessionEpoch : UInt64) (sourceId : UInt16) (timeoutNs : Nat) (as : List Arrival) :
    let a := create sessionEpoch sourceId timeoutNs
    let events := delivered (outputs step a as)
    events.map (fun e => e.header.seqGlobal) = (List.range events.length).map (fun i => UInt64.ofNat (i + 1)) ∧
      (after step a as).expired % 2 ^ 64 =
        (outputs step a as).countP (fun result => result.verdict = .staleEpoch) % 2 ^ 64 ∧
      (∀ first ∈ (a.advances as).head?, ((after step a as).sequence.gaps + (a.advances as).length + first) % 2 ^ 64 =
        ((a.advances as).getLastD 0 + 1) % 2 ^ 64) ∧
      ((a.advances as).Pairwise (· < ·) ∨ ∃ arrival ∈ as, arrival.record.sequence = 2 ^ 64 - 1) := by
  intro a events
  refine ⟨?_, ?_, ?_, ?_⟩
  · refine (delivered_numbers as a).trans (List.map_congr_left fun i _ => ?_)
    rw [show a.seqGlobal = 0 from rfl, Nat.zero_add, Nat.add_comm]
  · rw [expired_account, show a.expired = 0 from rfl, Nat.zero_add]
  · intro first hfirst
    obtain ⟨rest, hadvances⟩ : ∃ rest, a.advances as = first :: rest := by
      cases h : a.advances as with
      | nil =>
        rw [h] at hfirst
        cases hfirst
      | cons sequence rest =>
        rw [h] at hfirst
        cases hfirst
        exact ⟨rest, rfl⟩
    have hcount := gaps_account_fresh as a rfl first rest hadvances
    rw [show a.sequence.gaps = 0 from rfl, Nat.zero_add] at hcount
    exact hcount
  · by_cases hlow : ∀ arrival ∈ as, arrival.record.sequence ≠ 2 ^ 64 - 1
    · exact .inl (advances_ordered as hlow a fun hinit => Bool.noConfusion hinit).1
    · push Not at hlow
      exact .inr hlow

end PipeAdapter

end MicrostructureEngine.Mt5
