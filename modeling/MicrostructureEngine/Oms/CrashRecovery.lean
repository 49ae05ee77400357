import MicrostructureEngine.Oms.Reservation
import MicrostructureEngine.Oms.WalRun

/-!
# Crash recovery refines the live system

The outboxes of a journaled system are drained into one file in any order, the crash keeps
a prefix of it, and recovery reads that prefix sorted by its stamps. Sorting is stable and
every outbox is in stamp order, so each reference finds a prefix of its own records: what it
recovers to is the mirror of an earlier state of its order, and on the whole file the mirror
of the live one.
-/

namespace MicrostructureEngine

open scoped List
set_option autoImplicit false

/-! ## Incarnations -/

/-- One life of a reference: the volume it was created with and the fills it accepted. -/
structure Incarnation where
  volume : Int
  fills : List Int
  deriving DecidableEq, Repr

/-- The fills before the next create. -/
def fillsOf : List Entry → List Int
  | .filled v :: es => v :: fillsOf es
  | _ => []

/-- A history cut at its creates. -/
def incarnations : List Entry → List Incarnation
  | [] => []
  | .opened v :: es => ⟨v, fillsOf es⟩ :: incarnations es
  | .filled _ :: es => incarnations es

theorem incarnations_eq_nil_iff {es : List Entry} :
    incarnations es = [] ↔ es.countP Entry.isOpened = 0 := by
  induction es with
  | nil => exact ⟨fun _ => rfl, fun _ => rfl⟩
  | cons e es ih =>
    cases e with
    | opened v => simp [incarnations, Entry.isOpened]
    | filled v =>
      rw [List.countP_cons_of_neg (by simp [Entry.isOpened])]
      exact ih

theorem fillsOf_append {es : List Entry} (h : es.countP Entry.isOpened = 0) (es' : List Entry) :
    fillsOf (es ++ es') = fillsOf es ++ fillsOf es' := by
  induction es with
  | nil => rfl
  | cons e es ih =>
    cases e with
    | opened v => simp [Entry.isOpened] at h
    | filled v =>
      rw [List.countP_cons_of_neg (by simp [Entry.isOpened])] at h
      simp [fillsOf, ih h]

/-- The last incarnation of a cut history is an incarnation of the whole one, with the
fills up to the cut. -/
theorem incarnations_append {es : List Entry} {inc : Incarnation}
    (h : (incarnations es).getLast? = some inc) (es' : List Entry) :
    ∃ later, (incarnations (es ++ es'))[es.countP Entry.isOpened - 1]? =
      some ⟨inc.volume, inc.fills ++ later⟩ := by
  induction es with
  | nil => cases h
  | cons e es ih =>
    cases e with
    | filled v =>
      rw [List.countP_cons_of_neg (by simp [Entry.isOpened])]
      exact ih h
    | opened v =>
      rw [List.countP_cons_of_pos (by rfl), Nat.add_sub_cancel]
      simp only [incarnations, List.cons_append] at h ⊢
      by_cases hnil : incarnations es = []
      · rw [hnil] at h
        have hzero := incarnations_eq_nil_iff.mp hnil
        have hinc : (⟨v, fillsOf es⟩ : Incarnation) = inc := by simpa using h
        subst hinc
        exact ⟨fillsOf es', by rw [hzero, fillsOf_append hzero]; rfl⟩
      · have hlast : (incarnations es).getLast? = some inc := by
          rw [List.getLast?_cons] at h
          cases hl : (incarnations es).getLast? with
          | none => exact absurd (List.getLast?_eq_none_iff.mp hl) hnil
          | some i =>
            rw [hl] at h
            exact h
        have hpos : es.countP Entry.isOpened ≠ 0 := fun hz => hnil (incarnations_eq_nil_iff.mpr hz)
        obtain ⟨later, hlater⟩ := ih hlast
        refine ⟨later, ?_⟩
        rw [← hlater]
        obtain ⟨n, hn⟩ := Nat.exists_eq_succ_of_ne_zero hpos
        rw [hn]
        rfl

namespace Recovery

def isReplace (r : JournalRecord) : Bool := JournalRecordType.ofCode r.type == .replace

/-- A record that is neither a command nor a fill nor a replace keeps the volumes. -/
theorem decode_volumes {x : Option Order} {y : Order} {r : JournalRecord} {delta : Int}
    (hentry : entry r = none) (hreplace : isReplace r = false) (h : decode x r = some (some y, delta)) :
    ∃ z, x = some z ∧ y.requestedVolume = z.requestedVolume ∧ y.filledVolume = z.filledVolume := by
  have hkeep : ∀ {z : Order} {c : Prop} [Decidable c],
      (if c then some (some z, (0 : Int)) else none) = some (some y, delta) → y = z := by
    intro z c _ hc
    split at hc
    · cases hc
      rfl
    · cases hc
  unfold entry at hentry
  unfold isReplace at hreplace
  cases x with
  | none =>
    simp only [decode, decodeAbsent] at h
    cases ht : JournalRecordType.ofCode r.type <;> rw [ht] at h hentry <;> simp_all
  | some z =>
    refine ⟨z, rfl, ?_⟩
    simp only [decode, decodeLive] at h
    cases ht : JournalRecordType.ofCode r.type <;> rw [ht] at h hentry hreplace <;> dsimp only at h
    case command => cases h
    case fill => cases hentry
    case replace => cases hreplace
    case orderState =>
      split at h
      · rename_i hg
        simp only [Option.some.injEq, Prod.mk.injEq] at h
        have hy := h.1
        unfold Verdict.transition at hy
        rw [if_pos hg.2.2] at hy
        dsimp only at hy
        split at hy
        · cases hy
        · cases hy
          exact ⟨rfl, rfl⟩
      · cases h
    case acknowledgement =>
      rw [hkeep h]
      exact ⟨rfl, rfl⟩
    case cancel =>
      rw [hkeep h]
      exact ⟨rfl, rfl⟩
    case rejection =>
      rw [hkeep h]
      exact ⟨rfl, rfl⟩
    all_goals
      cases h
      exact ⟨rfl, rfl⟩

theorem entry_eq_filled {r : JournalRecord} {v : Int} (h : entry r = some (.filled v)) :
    JournalRecordType.ofCode r.type = .fill ∧ r.b = v := by
  unfold entry at h
  cases ht : JournalRecordType.ofCode r.type <;> rw [ht] at h <;> simp_all

theorem entry_eq_opened {r : JournalRecord} {v : Int} (h : entry r = some (.opened v)) :
    JournalRecordType.ofCode r.type = .command ∧ r.b = v := by
  unfold entry at h
  cases ht : JournalRecordType.ofCode r.type <;> rw [ht] at h <;> simp_all

/-- A fill moves the volume of the order that is there. -/
theorem decode_fill {x y : Option Order} {r : JournalRecord} {v delta : Int}
    (he : entry r = some (.filled v)) (h : decode x r = some (y, delta)) :
    ∃ w, x = some w ∧ y = some (Oms.addFill w v) := by
  obtain ⟨ht, rfl⟩ := entry_eq_filled he
  cases x with
  | none => simp [decode, decodeAbsent, ht] at h
  | some w =>
    simp only [decode, decodeLive, ht] at h
    split at h
    · cases h
      exact ⟨w, rfl, rfl⟩
    · cases h

theorem decode_command {x y : Option Order} {r : JournalRecord} {v delta : Int}
    (he : entry r = some (.opened v)) (h : decode x r = some (y, delta)) :
    x = none ∧ ∃ z, y = some z ∧ z.requestedVolume = v ∧ z.filledVolume = 0 := by
  obtain ⟨ht, rfl⟩ := entry_eq_opened he
  cases x with
  | some w => simp [decode, decodeLive, ht] at h
  | none =>
    simp only [decode, decodeAbsent, ht] at h
    split at h
    · cases h
      exact ⟨rfl, commandOrder r, rfl, rfl, rfl⟩
    · cases h

/-- Recovery keeps no terminal order. -/
def NoTerminal (x : Option Order) : Prop := ∀ z, x = some z → z.state.isTerminal = false

theorem decodeLive_state {x y : Order} {r : JournalRecord} {delta : Int}
    (h : decodeLive x r = some (some y, delta)) :
    y.state = x.state ∨ y.state.isTerminal = false := by
  have hkeep : ∀ {z : Order} {c : Prop} [Decidable c], z.state = x.state →
      (if c then some (some z, (0 : Int)) else none) = some (some y, delta) → y.state = x.state := by
    intro z c _ hz hc
    split at hc
    · cases hc
      exact hz
    · cases hc
  unfold decodeLive at h
  cases ht : JournalRecordType.ofCode r.type <;> rw [ht] at h <;> dsimp only at h
  case command => cases h
  case orderState =>
    right
    split at h
    · rename_i hg
      simp only [Option.some.injEq, Prod.mk.injEq] at h
      have hy := h.1
      unfold Verdict.transition at hy
      rw [if_pos hg.2.2] at hy
      dsimp only at hy
      split at hy
      · cases hy
      · rename_i hn
        cases hy
        simpa using hn
    · cases h
  case acknowledgement => exact Or.inl (hkeep rfl h)
  case cancel => exact Or.inl (hkeep rfl h)
  case rejection => exact Or.inl (hkeep rfl h)
  case fill => exact Or.inl (hkeep (z := Oms.addFill x r.b) rfl h)
  case replace => exact Or.inl (hkeep (z := replaceOrder r.b r.d x) rfl h)
  all_goals
    cases h
    exact Or.inl rfl

theorem decode_noTerminal {x y : Option Order} {r : JournalRecord} {delta : Int} (hx : NoTerminal x)
    (h : decode x r = some (y, delta)) : NoTerminal y := by
  intro z hz
  subst hz
  cases x with
  | some w =>
    rcases decodeLive_state h with hkept | hlive
    · rw [hkept]
      exact hx w rfl
    · exact hlive
  | none =>
    simp only [decode, decodeAbsent] at h
    cases ht : JournalRecordType.ofCode r.type <;> rw [ht] at h <;> simp at h
    obtain ⟨_, rfl, _⟩ := h
    rfl

theorem decodeAll_noTerminal {x y : Option Order} {rs : List JournalRecord} (hx : NoTerminal x)
    (h : decodeAll x rs = some y) : NoTerminal y := by
  induction rs generalizing x with
  | nil =>
    cases h
    exact hx
  | cons r rs ih =>
    rw [decodeAll_cons] at h
    obtain ⟨x', hx', hrest⟩ := Option.bind_eq_some_iff.mp h
    obtain ⟨⟨x'', delta⟩, hdec, rfl⟩ := Option.map_eq_some_iff.mp hx'
    exact ih (decode_noTerminal hx hdec) hrest

/-- The volumes that the records of a reference decode to, read off their history. -/
def VolumesFrom (x : Option Order) (es : List Entry) (y : Order) : Prop :=
  match (incarnations es).getLast? with
  | some inc => y.requestedVolume = inc.volume ∧ y.filledVolume = inc.fills.sum
  | none => ∃ z, x = some z ∧ y.requestedVolume = z.requestedVolume ∧
      y.filledVolume = z.filledVolume + (fillsOf es).sum

theorem VolumesFrom.of_none {es : List Entry} {y : Order} (h : VolumesFrom none es y) :
    ∃ inc, (incarnations es).getLast? = some inc ∧ y.requestedVolume = inc.volume ∧
      y.filledVolume = inc.fills.sum := by
  unfold VolumesFrom at h
  cases hlast : (incarnations es).getLast? with
  | some inc =>
    rw [hlast] at h
    exact ⟨inc, rfl, h⟩
  | none =>
    rw [hlast] at h
    obtain ⟨z, hz, _⟩ := h
    cases hz

theorem decodeAll_volumes {x : Option Order} {y : Order} {rs : List JournalRecord}
    (hreplace : ∀ r ∈ rs, isReplace r = false) (h : decodeAll x rs = some (some y)) :
    VolumesFrom x (rs.filterMap entry) y := by
  induction rs generalizing x with
  | nil =>
    cases h
    exact ⟨y, rfl, rfl, by simp [fillsOf]⟩
  | cons r rs ih =>
    rw [decodeAll_cons] at h
    obtain ⟨x', hx', hrest⟩ := Option.bind_eq_some_iff.mp h
    obtain ⟨⟨x'', delta⟩, hdec, rfl⟩ := Option.map_eq_some_iff.mp hx'
    have hvol := ih (fun r' hr' => hreplace r' (List.mem_cons_of_mem r hr')) hrest
    unfold VolumesFrom at hvol ⊢
    cases he : entry r with
    | none =>
      rw [List.filterMap_cons_none he]
      cases hlast : (incarnations (rs.filterMap entry)).getLast? with
      | some inc =>
        rw [hlast] at hvol
        exact hvol
      | none =>
        rw [hlast] at hvol
        obtain ⟨z, rfl, hreq, hfilled⟩ := hvol
        obtain ⟨w, rfl, hreq', hfilled'⟩ :=
          decode_volumes he (hreplace r List.mem_cons_self) hdec
        exact ⟨w, rfl, hreq.trans hreq', by rw [hfilled, hfilled']⟩
    | some e =>
      rw [List.filterMap_cons_some he]
      cases e with
      | filled v =>
        cases hlast : (incarnations (rs.filterMap entry)).getLast? with
        | some inc =>
          rw [hlast] at hvol
          simp only [incarnations, hlast]
          exact hvol
        | none =>
          rw [hlast] at hvol
          obtain ⟨z, rfl, hreq, hfilled⟩ := hvol
          obtain ⟨w, rfl, hz⟩ := decode_fill he hdec
          cases hz
          simp only [incarnations, hlast, fillsOf, List.sum_cons]
          refine ⟨w, rfl, hreq, ?_⟩
          rw [hfilled]
          simp only [Oms.addFill]
          omega
      | opened v =>
        obtain ⟨rfl, z, rfl, hreq, hfilled⟩ := decode_command he hdec
        cases hlast : (incarnations (rs.filterMap entry)).getLast? with
        | some inc =>
          rw [hlast] at hvol
          simp only [incarnations, List.getLast?_cons, hlast, Option.getD_some]
          exact hvol
        | none =>
          rw [hlast] at hvol
          obtain ⟨w, hw, hreq', hfilled'⟩ := hvol
          cases hw
          simp only [incarnations, List.getLast?_cons, hlast, Option.getD_none]
          exact ⟨hreq'.trans hreq, by rw [hfilled', hfilled, Int.zero_add]⟩

end Recovery

/-! ## From the outboxes to the recovered store -/

namespace Recovery

theorem headersOk_of_sorted {rs : List JournalRecord} {lastTs : Nat}
    (hsorted : rs.Pairwise fun a b => a.tsNs ≤ b.tsNs)
    (hstamped : ∀ r ∈ rs, Shard.Stamped r.ref r.tsNs r) (hlast : ∀ r ∈ rs, lastTs ≤ r.tsNs) :
    headersOk lastTs rs = true := by
  induction rs generalizing lastTs with
  | nil => rfl
  | cons r rs ih =>
    obtain ⟨hhead, htail⟩ := List.pairwise_cons.mp hsorted
    have hst := hstamped r List.mem_cons_self
    have hle := hlast r List.mem_cons_self
    have hrest := ih htail (fun r' hr' => hstamped r' (List.mem_cons_of_mem r hr')) hhead
    simp [headersOk, headerOk, hst.reserved, hle, hst.symbol, hst.type_pos, hst.type_le, hrest]

/-- A stream that every reference can decode is accepted, and what it recovers to is known
reference by reference. -/
theorem recoverStreaming_decodes {rs : List JournalRecord} {out : RecoveryState} {window : Nat}
    (killPresent : Bool) (persistedHalt : Risk.HaltReason) (hheaders : headersOk 0 rs = true)
    (hflags : (DuplicateWindow.new window).flagsNone rs = true)
    (horder : ∀ r ∈ rs, orderRecord r = true)
    (hdecode : ∀ ref, (decodeAll none (recordsOf ref rs)).isSome)
    (hroom : rs.countP isCommand ≤ out.orders.capacity) :
    ∃ state, recoverStreaming ⟨rs, false⟩ out window killPresent persistedHalt = (true, state) ∧
      ∀ ref, ∃ y, decodeAll none (recordsOf ref rs) = some y ∧
        state.orders.find ref = y.map finalMark := by
  have hnone : ∀ ref, (RecoveryState.new out.portfolio.mode out.orders.capacity).orders.find ref =
      none := fun ref => congrFun (Oms.find_new out.orders.capacity) ref
  have hsome : (replayAll { next := RecoveryState.new out.portfolio.mode out.orders.capacity }
      rs).isSome := by
    apply replayAll_isSome horder
    · intro ref
      rw [hnone]
      exact hdecode ref
    · have hsize : (RecoveryState.new out.portfolio.mode out.orders.capacity).orders.size = 0 := rfl
      have hcap : (RecoveryState.new out.portfolio.mode out.orders.capacity).orders.capacity =
          out.orders.capacity := rfl
      dsimp only
      rw [hsize, hcap]
      omega
  obtain ⟨s, hs⟩ := Option.isSome_iff_exists.mp hsome
  obtain ⟨hacc, hpnl⟩ := replayAll_flags horder hs
  have hflag : s.haveAccount = s.havePnl := by rw [hacc, hpnl]
  obtain ⟨state, hfinish⟩ :=
    Option.isSome_iff_exists.mp (finish_isSome hflag killPresent persistedHalt)
  refine ⟨state, ?_, ?_⟩
  · unfold recoverStreaming
    simp [streamLoop_eq, hheaders, hflags, hs, hfinish]
  · intro ref
    have hdec := replayAll_decode hs ref
    rw [hnone] at hdec
    exact ⟨_, hdec, (finish_spec hfinish).2 ref⟩

end Recovery

namespace ShardedOms

section File
variable {s : ShardedOms} {file cut : List JournalRecord}

theorem Journaled.recordsOf_file (h : Journaled s) (hfile : Draining.Drains s.outbox file)
    (ref : BrokerOrderRef) :
    Recovery.recordsOf ref file = Recovery.recordsOf ref (s.outbox (s.shardOf ref)) := by
  apply hfile.filter_eq
  intro j r hr href
  rw [← of_decide_eq_true href]
  exact (h.routed j r hr).symm

/-- Each reference finds a prefix of its records in the cut, also after the sort. -/
theorem Journaled.recordsOf_cut (h : Journaled s) (hfile : Draining.Drains s.outbox file)
    (hcut : cut <+: file) (ref : BrokerOrderRef) :
    Recovery.recordsOf ref cut <+: Recovery.recordsOf ref (s.outbox (s.shardOf ref)) ∧
      Recovery.recordsOf ref (Draining.sortByStamp JournalRecord.tsNs cut) =
        Recovery.recordsOf ref cut := by
  have hinitial : Recovery.recordsOf ref cut <+: Recovery.recordsOf ref (s.outbox (s.shardOf ref)) := by
    rw [← h.recordsOf_file hfile]
    exact hcut.filter _
  refine ⟨hinitial, Draining.filter_sortByStamp ?_⟩
  exact ((h.sorted _).sublist List.filter_sublist).sublist hinitial.sublist

theorem Journaled.outbox_of_ge (h : Journaled s) {i : Nat} (hi : s.shardCount ≤ i) :
    s.outbox i = [] := by
  rw [List.eq_nil_iff_forall_not_mem]
  intro r hr
  have hroute := h.routed i r hr
  have hlt := Nat.mod_lt r.ref.logicalOrderId.toNat s.shardCount_pos
  unfold shardOf at hroute
  omega

theorem Journaled.countP_file (h : Journaled s) (hfile : Draining.Drains s.outbox file) :
    file.countP Recovery.isCommand = s.commands := by
  apply hfile.countP_eq
  intro i hi
  exact h.outbox_of_ge hi

/-- A crash of a journaled system can be recovered from at every cut. -/
theorem Journaled.recover_cut (h : Journaled s) (hfile : Draining.Drains s.outbox file)
    (hcut : cut <+: file) {out : RecoveryState} {window : Nat} (killPresent : Bool)
    (persistedHalt : Risk.HaltReason) (hroom : s.commands ≤ out.orders.capacity)
    (hflags : (DuplicateWindow.new window).flagsNone
      (Draining.sortByStamp JournalRecord.tsNs cut) = true) :
    ∃ state, Recovery.recoverStreaming ⟨Draining.sortByStamp JournalRecord.tsNs cut, false⟩ out window
        killPresent persistedHalt = (true, state) ∧
      ∀ ref, ∃ y, Recovery.decodeAll none (Recovery.recordsOf ref cut) = some y ∧
        state.orders.find ref = y.map Recovery.finalMark := by
  have hmem : ∀ r ∈ Draining.sortByStamp JournalRecord.tsNs cut, Shard.Stamped r.ref r.tsNs r := by
    intro r hr
    obtain ⟨i, hi⟩ := hfile.mem (hcut.subset (Draining.mem_sortByStamp.mp hr))
    exact (h.stamped i r hi).1
  have hdecode : ∀ ref, (Recovery.decodeAll none
      (Recovery.recordsOf ref (Draining.sortByStamp JournalRecord.tsNs cut))).isSome := by
    intro ref
    obtain ⟨⟨rest, hrest⟩, hsort⟩ := h.recordsOf_cut hfile hcut ref
    obtain ⟨y, hy, _⟩ := h.mirrored (s.shardOf ref) ref
    rw [← hrest, Recovery.decodeAll_append] at hy
    obtain ⟨x, hx, _⟩ := Option.bind_eq_some_iff.mp hy
    rw [hsort, hx]
    rfl
  have hcount : (Draining.sortByStamp JournalRecord.tsNs cut).countP Recovery.isCommand ≤
      out.orders.capacity := by
    have hperm := (Draining.sortByStamp_perm JournalRecord.tsNs cut).countP_eq
      Recovery.isCommand
    have hle := hcut.sublist.countP_le (p := Recovery.isCommand)
    have hfileCount := h.countP_file hfile
    omega
  obtain ⟨state, hstate, hfind⟩ := Recovery.recoverStreaming_decodes killPresent persistedHalt
    (Recovery.headersOk_of_sorted (Draining.sortByStamp_sorted cut) hmem fun r _ => Nat.zero_le _)
    hflags (fun r hr => (hmem r hr).order) hdecode hcount
  refine ⟨state, hstate, ?_⟩
  intro ref
  obtain ⟨y, hy, hfinal⟩ := hfind ref
  rw [(h.recordsOf_cut hfile hcut ref).2] at hy
  exact ⟨y, hy, hfinal⟩

theorem finalMark_state {y : Order} (h : y.state.isTerminal = false) :
    (Recovery.finalMark y).state = .unknown := by
  unfold Recovery.finalMark
  by_cases hunknown : y.state = .unknown
  · rw [if_neg fun hn => hn.2 hunknown]
    exact hunknown
  · rw [if_pos ⟨by simp [h], hunknown⟩]
    rfl

theorem finalMark_volumes (y : Order) :
    (Recovery.finalMark y).requestedVolume = y.requestedVolume ∧
      (Recovery.finalMark y).filledVolume = y.filledVolume := by
  unfold Recovery.finalMark
  split <;> exact ⟨rfl, rfl⟩

theorem finalMark_mirror {x y : Order} (h : Mirrors x y) :
    (Recovery.finalMark y).state = .unknown ∧
      (Recovery.finalMark y).requestedVolume = x.requestedVolume ∧
      (Recovery.finalMark y).filledVolume = x.filledVolume := by
  have hlive : y.state.isTerminal = false := by
    rw [h.state]
    have hx := h.liveOk.live
    cases hs : x.state <;> rw [hs] at hx <;> first | rfl | cases hx
  obtain ⟨hreq, hfilled⟩ := finalMark_volumes y
  exact ⟨finalMark_state hlive, hreq.trans h.requested, hfilled.trans h.filled⟩

/-- The recovered orders are the live ones, in state `unknown`, with the live volumes. -/
def RecoversTo (s : ShardedOms) (state : RecoveryState) : Prop :=
  (∀ ref, (state.orders.find ref).isSome ↔ ∃ x, s.order ref = some x ∧ x.state.isTerminal = false) ∧
    ∀ ref x y, s.order ref = some x → state.orders.find ref = some y →
      y.state = .unknown ∧ y.requestedVolume = x.requestedVolume ∧ y.filledVolume = x.filledVolume

/-- On the whole file nothing is missing. -/
theorem Journaled.recoversTo (h : Journaled s) (hfile : Draining.Drains s.outbox file)
    {state : RecoveryState}
    (hfind : ∀ ref, ∃ y, Recovery.decodeAll none (Recovery.recordsOf ref file) = some y ∧
      state.orders.find ref = y.map Recovery.finalMark) : s.RecoversTo state := by
  have hmirror : ∀ ref, ∃ y, Option.Rel Mirrors (s.order ref) y ∧
      state.orders.find ref = y.map Recovery.finalMark := by
    intro ref
    obtain ⟨y, hy, hfinal⟩ := hfind ref
    obtain ⟨y', hy', hrel⟩ := h.mirrored (s.shardOf ref) ref
    rw [h.recordsOf_file hfile, hy', Option.some.injEq] at hy
    subst hy
    exact ⟨y', hrel, hfinal⟩
  refine ⟨?_, ?_⟩
  · intro ref
    obtain ⟨y, hrel, hfinal⟩ := hmirror ref
    rw [hfinal]
    generalize s.order ref = o at hrel
    cases hrel with
    | none => simp
    | some hm => simp [hm.liveOk.live]
  · intro ref x z hx hz
    obtain ⟨y, hrel, hfinal⟩ := hmirror ref
    rw [hx] at hrel
    obtain ⟨w, rfl, hm⟩ := Shard.rel_some_left hrel
    rw [hfinal] at hz
    cases hz
    exact finalMark_mirror hm

end File

/-! ## Runs of the direct path -/

/-- Requests of the direct path: creates that fit the command schema, lookups, transitions,
and fills that the order state machine does not refuse. -/
def DirectRequest (sh : Shard) (req : Request) : Prop :=
  match req.kind with
  | .create => Shard.Commandable req
  | .find | .snapshot | .transition => True
  | .fill => ¬ StuckFill sh.oms req.ref req.volume
  | .replace | .report | .restore => False

def Direct (s : ShardedOms) : Event → Prop
  | .request req _ => DirectRequest (s.shards (s.shardOf req.ref)) req
  | _ => True

theorem DirectRequest.journalable {sh : Shard} {req : Request} (h : DirectRequest sh req)
    (approved : Bool) : sh.Journalable approved req := by
  unfold Shard.Journalable
  unfold DirectRequest at h
  cases hk : req.kind <;> rw [hk] at h <;>
    first | exact h | exact fun _ _ _ => h | exact absurd h id

theorem Direct.journalable {s : ShardedOms} {e : Event} (h : s.Direct e) : s.JournalableEvent e := by
  cases e with
  | request req cell => exact DirectRequest.journalable h s.engine.standingApproval
  | snapshot shard capacity cell => trivial
  | haltGlobally reason => trivial

theorem DirectRequest.records_isReplace {sh : Shard} {req : Request} (h : DirectRequest sh req)
    (before : Option Order) (c : Completion) (tsNs : Nat) :
    ∀ r ∈ Wal.records req before c tsNs, Recovery.isReplace r = false := by
  have hnil : ∀ r ∈ ([] : List JournalRecord), Recovery.isReplace r = false :=
    fun r hr => absurd hr List.not_mem_nil
  unfold DirectRequest at h
  unfold Wal.records
  split
  · exact List.forall_mem_singleton.mpr rfl
  · unfold Wal.transitionRecords
    split
    · exact hnil
    · split
      · exact List.forall_mem_cons.mpr ⟨rfl, List.forall_mem_singleton.mpr rfl⟩
      · exact List.forall_mem_singleton.mpr rfl
  · exact List.forall_mem_cons.mpr ⟨rfl, List.forall_mem_singleton.mpr rfl⟩
  · rename_i hk
    rw [hk] at h
    exact absurd h id
  · rename_i hk
    rw [hk] at h
    exact absurd h id
  · exact hnil

theorem Direct.appended_isReplace {s : ShardedOms} {e : Event} (h : s.Direct e) (i : Nat) :
    ∀ r ∈ s.appended i e, Recovery.isReplace r = false := by
  intro r hr
  cases e with
  | snapshot shard capacity cell => cases hr
  | haltGlobally reason => cases hr
  | request req cell =>
    simp only [appended, Applied.journal] at hr
    split at hr
    · split at hr
      · exact DirectRequest.records_isReplace h _ _ _ r hr
      · cases hr
    · cases hr

/-- No order is in `new_order`, so a direct request has no drift. -/
theorem DirectRequest.requestDrift {sh : Shard} {req : Request} (h : DirectRequest sh req)
    (hstarted : ∀ x, sh.oms.find req.ref = some x → x.state ≠ .newOrder) :
    requestDrift sh req = 0 := by
  unfold DirectRequest at h
  unfold MicrostructureEngine.requestDrift
  cases hf : sh.oms.find req.ref with
  | none => rfl
  | some x =>
    dsimp only
    cases hk : req.kind with
    | create => rfl
    | find => rfl
    | snapshot => rfl
    | fill => rfl
    | transition => exact if_neg fun hn => hstarted x hf hn.1
    | replace =>
      rw [hk] at h
      exact absurd h id
    | report =>
      rw [hk] at h
      exact absurd h id
    | restore => rfl

theorem Direct.eventDrift {s : ShardedOms} (h : Journaled s) {e : Event} (hd : s.Direct e) :
    s.eventDrift e = 0 := by
  cases e with
  | snapshot shard capacity cell => rfl
  | haltGlobally reason => rfl
  | request req cell =>
    apply DirectRequest.requestDrift hd
    intro x hx
    obtain ⟨y, _, hrel⟩ := h.mirrored (s.shardOf req.ref) req.ref
    rw [hx] at hrel
    obtain ⟨z, _, hm⟩ := Shard.rel_some_left hrel
    exact hm.liveOk.started

/-- What a run of the direct path keeps. -/
structure DirectInv (s : ShardedOms) : Prop where
  journaled : Journaled s
  noReplace : ∀ i, ∀ r ∈ s.outbox i, Recovery.isReplace r = false
  conserved : ∀ i, (s.shards i).oms.Conserved

theorem DirectInv.step {s : ShardedOms} (h : DirectInv s) {e : Event} (hd : s.Direct e)
    (hdrop : (s.step e).walDropped = 0) : DirectInv (s.step e) := by
  refine ⟨h.journaled.step hd.journalable hdrop, ?_, ?_⟩
  · intro i r hr
    rw [(step_outbox h.journaled.hooked hdrop).2] at hr
    rcases List.mem_append.mp hr with hold | hnew
    · exact h.noReplace i r hold
    · exact hd.appended_isReplace i r hnew
  · exact (conserved_step h.conserved e).mpr (Direct.eventDrift h.journaled hd)

theorem DirectInv.run {s : ShardedOms} (h : DirectInv s) {events : List Event}
    (hd : Runs.Along ShardedOms.step Direct s events)
    (hdrop : (Runs.run ShardedOms.step s events).walDropped = 0) :
    DirectInv (Runs.run ShardedOms.step s events) := by
  have hinv := Runs.run_invariant (P := Direct)
    (I := fun s => s.walHook.isSome = true ∧ (s.walDropped = 0 → DirectInv s)) (by
      intro s e hs he
      refine ⟨by rw [step_hooked]; exact hs.1, ?_⟩
      intro hzero
      exact (hs.2 (step_outbox hs.1 hzero).1).step he hzero) ⟨h.journaled.hooked, fun _ => h⟩ hd
  exact hinv.2 hdrop

theorem directInv_boot (shardCount : Nat) (hpos : 0 < shardCount)
    (capacity logCapacity gapPoolCapacity terminalCacheCapacity : Nat) {hook : WalHook}
    (hempty : ∀ i, hook.outbox i = []) :
    DirectInv (boot shardCount hpos capacity logCapacity gapPoolCapacity terminalCacheCapacity
      (some hook)) := by
  refine ⟨journaled_boot shardCount hpos capacity logCapacity gapPoolCapacity terminalCacheCapacity
    hempty, ?_, ?_⟩
  · intro i r hr
    have hnil : r ∈ hook.outbox i := hr
    rw [hempty] at hnil
    cases hnil
  · intro i
    exact (Oms.conserved_iff _).mpr (Oms.slack_new capacity)

/-! ## The reservation -/

/-- An order is only ever in the shard that its reference is routed to. -/
theorem Journaled.find_elsewhere {s : ShardedOms} (h : Journaled s) {i : Nat} {ref : BrokerOrderRef}
    (hi : i ≠ s.shardOf ref) : (s.shards i).oms.find ref = none := by
  obtain ⟨y, hy, hrel⟩ := h.mirrored i ref
  have hnil : Recovery.recordsOf ref (s.outbox i) = [] := by
    unfold Recovery.recordsOf
    rw [List.filter_eq_nil_iff]
    intro r hr href
    apply hi
    rw [← of_decide_eq_true href]
    exact (h.routed i r hr).symm
  rw [hnil, Recovery.decodeAll_nil, Option.some.injEq] at hy
  subst hy
  generalize (s.shards i).oms.find ref = o at hrel ⊢
  cases hrel
  rfl

theorem reservedExposure_eq_total {s : ShardedOms} (h : Journaled s)
    (hconserved : ∀ i, (s.shards i).oms.Conserved) :
    s.reservedExposure = MapSum.total exposure s.order := by
  have hshard : ∀ i, (s.shards i).oms.reservedExposure =
      ∑ ref, ((s.shards i).oms.find ref).elim 0 exposure := by
    intro i
    have hslack := (Oms.conserved_iff _).mp (hconserved i)
    unfold Oms.slack MapSum.total at hslack
    omega
  have hlist : s.reservedExposure = ∑ i ∈ Finset.range s.shardCount, (s.shards i).oms.reservedExposure :=
    rfl
  rw [hlist, Finset.sum_congr rfl fun i _ => hshard i, Finset.sum_comm]
  unfold MapSum.total order
  apply Finset.sum_congr rfl
  intro ref _
  rw [Finset.sum_eq_single_of_mem (s.shardOf ref)]
  · exact Finset.mem_range.mpr (Nat.mod_lt _ s.shardCount_pos)
  · intro i _ hi
    rw [h.find_elsewhere hi]
    rfl

/-- Same orders, same volumes, so the same sum. -/
theorem RecoversTo.reservedExposure {s : ShardedOms} {state : RecoveryState} (hr : s.RecoversTo state)
    (h : Journaled s) (hconserved : ∀ i, (s.shards i).oms.Conserved)
    (hrecovered : state.orders.Conserved) :
    state.orders.reservedExposure = s.reservedExposure := by
  have hslack := (Oms.conserved_iff _).mp hrecovered
  rw [reservedExposure_eq_total h hconserved]
  have htotal : MapSum.total exposure state.orders.find = MapSum.total exposure s.order := by
    apply Finset.sum_congr rfl
    intro ref _
    cases hx : s.order ref with
    | none =>
      have hnone : state.orders.find ref = none := by
        rw [← Option.not_isSome_iff_eq_none, hr.1 ref]
        rintro ⟨x, hx', _⟩
        rw [hx] at hx'
        cases hx'
      rw [hnone]
    | some x =>
      obtain ⟨y, _, hrel⟩ := h.mirrored (s.shardOf ref) ref
      have hx' : (s.shards (s.shardOf ref)).oms.find ref = some x := hx
      rw [hx'] at hrel
      obtain ⟨_, _, hm⟩ := Shard.rel_some_left hrel
      obtain ⟨z, hz⟩ := Option.isSome_iff_exists.mp ((hr.1 ref).mpr ⟨x, hx, hm.liveOk.live⟩)
      obtain ⟨hstate, hreq, _⟩ := hr.2 ref x z hx hz
      have hreserves : x.state.reservesExposure = true := by
        simp [OrderState.reservesExposure, hm.liveOk.live, hm.liveOk.started]
      rw [hz]
      simp only [Option.elim_some, exposure, hstate, hreserves, hreq, if_true]
      rfl
  unfold Oms.slack at hslack
  omega

/-! ## The refinement -/

section Refinement
variable {s : ShardedOms} {events : List Event} {file cut : List JournalRecord}

/-- The history of a cut is a prefix of the history of the run. -/
theorem history_of_cut (h : Journaled s) (hempty : ∀ i, s.outbox i = [])
    (hj : Runs.Along step JournalableEvent s events) (hdrop : (Runs.run step s events).walDropped = 0)
    (hfile : Draining.Drains (Runs.run step s events).outbox file) (hcut : cut <+: file)
    (ref : BrokerOrderRef) :
    (Recovery.recordsOf ref cut).filterMap Recovery.entry <+: accepted ref s events := by
  obtain ⟨⟨rest, hrest⟩, _⟩ := (h.run hj hdrop).recordsOf_cut hfile hcut ref
  have hentries := run_entries h hj hdrop ref
  rw [hempty, ← run_shardOf s events, ← hrest, List.filterMap_append] at hentries
  exact ⟨_, hentries⟩

/-- What a cut decodes to is the order of an incarnation at some point of its life. -/
theorem incarnation_of_cut {ref : BrokerOrderRef} {history : List Entry} {z : Order}
    (hreplace : ∀ r ∈ cut, Recovery.isReplace r = false)
    (hhistory : (Recovery.recordsOf ref cut).filterMap Recovery.entry <+: history)
    (hz : Recovery.decodeAll none (Recovery.recordsOf ref cut) = some (some z)) :
    ∃ inc k, (incarnations history)[(Recovery.recordsOf ref cut).countP Recovery.isCommand - 1]? =
        some inc ∧ z.requestedVolume = inc.volume ∧ z.filledVolume = (inc.fills.take k).sum := by
  have hvolumes := Recovery.decodeAll_volumes
    (fun r hr => hreplace r (List.mem_of_mem_filter hr)) hz
  obtain ⟨inc, hlast, hreq, hfilled⟩ := hvolumes.of_none
  obtain ⟨es, rfl⟩ := hhistory
  obtain ⟨later, hlater⟩ := incarnations_append hlast es
  refine ⟨⟨inc.volume, inc.fills ++ later⟩, inc.fills.length, ?_, hreq, ?_⟩
  · rw [countP_isCommand]
    exact hlater
  · rw [List.take_left]
    exact hfilled

theorem recovered_conserved {state out : RecoveryState} {window : Nat} {killPresent : Bool}
    {persistedHalt : Risk.HaltReason} (hreplace : ∀ r ∈ cut, Recovery.isReplace r = false)
    (hstate : Recovery.recoverStreaming ⟨Draining.sortByStamp JournalRecord.tsNs cut, false⟩ out window
      killPresent persistedHalt = (true, state)) : state.orders.Conserved := by
  have htrue : (Recovery.recoverStreaming ⟨Draining.sortByStamp JournalRecord.tsNs cut, false⟩ out
      window killPresent persistedHalt).1 = true := by
    rw [hstate]
  have hconserved := (Recovery.recoverStreaming_conserved_iff htrue).mpr
  rw [hstate] at hconserved
  apply hconserved
  apply List.sum_eq_zero
  intro shift hshift
  obtain ⟨r, hr, rfl⟩ := List.mem_map.mp hshift
  have hkeep := hreplace r (Draining.mem_sortByStamp.mp hr)
  unfold Recovery.replaceShift
  rw [if_neg]
  intro ht
  simp [Recovery.isReplace, ht] at hkeep

theorem commands_of_empty (hempty : ∀ i, s.outbox i = []) : s.commands = 0 := by
  apply Finset.sum_eq_zero
  intro i _
  rw [hempty]
  rfl

end Refinement

/-- For every run of the direct path, every order of draining and every crash point, the
prefix of the file is accepted; each recovered order is `unknown`, with the volume of the
incarnation that the prefix ends in and the fills of some prefix of it. From the whole file
the live orders come back, with the live reservation. -/
theorem crash_recovery_refines_live (shardCount : Nat) (hpos : 0 < shardCount)
    (capacity logCapacity gapPoolCapacity terminalCacheCapacity : Nat) (hook : WalHook)
    (hempty : ∀ i, hook.outbox i = []) (events : List Event)
    (hdirect : Runs.Along step Direct (boot shardCount hpos capacity logCapacity gapPoolCapacity
      terminalCacheCapacity (some hook)) events)
    (hdrop : (Runs.run step (boot shardCount hpos capacity logCapacity gapPoolCapacity
      terminalCacheCapacity (some hook)) events).walDropped = 0)
    (file : List JournalRecord)
    (hfile : Draining.Drains (Runs.run step (boot shardCount hpos capacity logCapacity gapPoolCapacity
      terminalCacheCapacity (some hook)) events).outbox file)
    (cut : List JournalRecord) (hcut : cut <+: file) (out : RecoveryState) (window : Nat)
    (killPresent : Bool) (persistedHalt : Risk.HaltReason)
    (hroom : events.countP isCreate ≤ out.orders.capacity)
    (hflags : (DuplicateWindow.new window).flagsNone
      (Draining.sortByStamp JournalRecord.tsNs cut) = true) :
    ∃ state, Recovery.recoverStreaming ⟨Draining.sortByStamp JournalRecord.tsNs cut, false⟩ out window
        killPresent persistedHalt = (true, state) ∧
      (∀ ref y, state.orders.find ref = some y → y.state = .unknown ∧
        ∃ inc k, (incarnations (accepted ref (boot shardCount hpos capacity logCapacity gapPoolCapacity
            terminalCacheCapacity (some hook)) events))[
              (Recovery.recordsOf ref cut).countP Recovery.isCommand - 1]? = some inc ∧
          y.requestedVolume = inc.volume ∧ y.filledVolume = (inc.fills.take k).sum) ∧
      (cut = file →
        (Runs.run step (boot shardCount hpos capacity logCapacity gapPoolCapacity
          terminalCacheCapacity (some hook)) events).RecoversTo state ∧
        state.orders.reservedExposure =
          (Runs.run step (boot shardCount hpos capacity logCapacity gapPoolCapacity
            terminalCacheCapacity (some hook)) events).reservedExposure) := by
  have hboot := directInv_boot shardCount hpos capacity logCapacity gapPoolCapacity
    terminalCacheCapacity hempty
  have hout : ∀ i, (boot shardCount hpos capacity logCapacity gapPoolCapacity terminalCacheCapacity
      (some hook)).outbox i = [] := hempty
  have hinv := hboot.run hdirect hdrop
  have hcommands := run_commands hboot.journaled.hooked hdrop
  rw [commands_of_empty hout, Nat.zero_add] at hcommands
  obtain ⟨state, hstate, hfind⟩ := hinv.journaled.recover_cut hfile hcut killPresent persistedHalt
    (hcommands.trans hroom) hflags
  have hreplace : ∀ r ∈ cut, Recovery.isReplace r = false := by
    intro r hr
    obtain ⟨i, hi⟩ := hfile.mem (hcut.subset hr)
    exact hinv.noReplace i r hi
  refine ⟨state, hstate, ?_, ?_⟩
  · intro ref y hy
    obtain ⟨x, hx, hfinal⟩ := hfind ref
    rw [hfinal] at hy
    obtain ⟨z, rfl, rfl⟩ := Option.map_eq_some_iff.mp hy
    have hlive := Recovery.decodeAll_noTerminal (fun z hz => by cases hz) hx z rfl
    obtain ⟨hreq, hfilled⟩ := finalMark_volumes z
    have hhistory := history_of_cut hboot.journaled hout
      (hdirect.imp fun _ _ => Direct.journalable) hdrop hfile hcut ref
    rw [hreq, hfilled]
    exact ⟨finalMark_state hlive, incarnation_of_cut hreplace hhistory hx⟩
  · intro hwhole
    subst hwhole
    have hrecovers := hinv.journaled.recoversTo hfile hfind
    exact ⟨hrecovers, hrecovers.reservedExposure hinv.journaled hinv.conserved
      (recovered_conserved hreplace hstate)⟩

/-- The acknowledged order of 10 lots is filled with 4. -/
def partlyFilledOrder : List Event :=
  acknowledgedOrder ++ [.request { kind := .fill, ref := ⟨1, 1⟩, volume := 4 } 0]

/-- A system of one shard whose journal accepts everything. -/
def journaledSystem : ShardedOms := boot 1 Nat.one_pos 4 16 4 4 (some { accepts := fun _ => true })

theorem drains_journaledSystem {events : List Event}
    (hdrop : (Runs.run step journaledSystem events).walDropped = 0) :
    Draining.Drains (Runs.run step journaledSystem events).outbox
      ((Runs.run step journaledSystem events).outbox 0) := by
  apply Draining.Drains.single
  intro j hj
  exact run_outbox_of_ge (s := journaledSystem) rfl (fun _ _ => rfl) hdrop
    (Nat.one_le_iff_ne_zero.mpr hj)

theorem partlyFilledOrder_direct : Runs.Along step Direct journaledSystem partlyFilledOrder := by
  refine ⟨⟨by decide, by decide, by decide, by decide⟩, trivial, trivial, ?_, trivial⟩
  rintro ⟨x, hx, _, hl⟩
  have hstate : ((Runs.run step journaledSystem acknowledgedOrder).order ⟨1, 1⟩).map Order.state =
      some .acknowledged := by decide +kernel
  have hfound : (Runs.run step journaledSystem acknowledgedOrder).order ⟨1, 1⟩ = some x := hx
  rw [hfound, Option.map_some, Option.some.injEq] at hstate
  rw [hstate] at hl
  unfold OmsState.fillTarget at hl
  split at hl <;> cases hl

/-- The crash falls between the two records of the fill. -/
theorem crash_recovery_refines_live_torn_fill :
    ∃ state, Recovery.recoverStreaming ⟨Draining.sortByStamp JournalRecord.tsNs
          (((Runs.run step journaledSystem partlyFilledOrder).outbox 0).take 4), false⟩
        (.new .hedging 4) 16 false .none = (true, state) ∧
      ∀ ref y, state.orders.find ref = some y → y.state = .unknown := by
  have hsorted : (((Runs.run step journaledSystem partlyFilledOrder).outbox 0).take 4).Pairwise
      fun a b => a.tsNs ≤ b.tsNs := by decide +kernel
  have hflags : (DuplicateWindow.new 16).flagsNone (Draining.sortByStamp JournalRecord.tsNs
      (((Runs.run step journaledSystem partlyFilledOrder).outbox 0).take 4)) = true := by
    rw [Draining.sortByStamp_of_sorted hsorted]
    decide +kernel
  have hdrop : (Runs.run step journaledSystem partlyFilledOrder).walDropped = 0 := by decide +kernel
  obtain ⟨state, hstate, hunknown, _⟩ := crash_recovery_refines_live 1 Nat.one_pos 4 16 4 4
    { accepts := fun _ => true } (fun _ => rfl) partlyFilledOrder partlyFilledOrder_direct
    hdrop _ (drains_journaledSystem hdrop) _ (List.take_prefix 4 _) (.new .hedging 4) 16
    false .none (by decide) hflags
  exact ⟨state, hstate, fun ref y hy => (hunknown ref y hy).1⟩

end ShardedOms

end MicrostructureEngine
