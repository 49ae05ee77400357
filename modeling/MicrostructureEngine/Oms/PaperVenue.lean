import MicrostructureEngine.Exec.Journalling
import MicrostructureEngine.Oms.Cascade
import MicrostructureEngine.Oms.Venue

/-!
# The venue adapter of the paper broker

`PaperBrokerVenueAdapter::fetch_recent_reports` reads the reports off the broker's journal: the
`n`-th report record of an order becomes the report with the sequence number `n`. The scan keeps a
table of the orders it has seen; `numbered` says what the scan returns without that table.
-/

namespace MicrostructureEngine

set_option autoImplicit false

namespace PaperVenue

/-- The `switch` over the record type: kind, volume and price of the report. The cast to
`OrderState` keeps the low byte. -/
def translate (rec : JournalRecord) : Option (ReportKind × Int × Int) :=
  if rec.type = JournalRecordType.acknowledgement.code then some (.ack, 0, 0)
  else if rec.type = JournalRecordType.fill.code then some (.fill, rec.b, 0)
  else if rec.type = JournalRecordType.cancel.code then some (.cancelPending, 0, 0)
  else if rec.type = JournalRecordType.orderState.code then
    if rec.b % 256 = OrderState.cancelled.code then some (.cancelled, 0, 0) else none
  else if rec.type = JournalRecordType.replace.code then some (.replaceAck, rec.d, rec.b)
  else none

structure Seen where
  ref : BrokerOrderRef
  count : Nat
  deriving DecidableEq, Repr

/-- The next number of the order. The table is as large as the journal. -/
def bump (seen : List Seen) (ref : BrokerOrderRef) : Nat × List Seen :=
  match SlotTable.locate (fun s => s.ref == ref) seen with
  | some (k, s) => (s.count + 1, seen.set k { s with count := s.count + 1 })
  | none => if seen.length < maxJournalRecords then (1, seen ++ [⟨ref, 1⟩]) else (0, seen)

def report (ref : BrokerOrderRef) (seq : Nat) (body : ReportKind × Int × Int) : ExecReport :=
  { ref := ref, venueSeq := seq, kind := body.1, volume := body.2.1, price := body.2.2 }

/-- The scan of the journal; `capacity` is what is left of the output buffer. -/
def scan (capacity : Nat) (seen : List Seen) : List JournalRecord → List ExecReport
  | [] => []
  | rec :: recs =>
    if capacity = 0 then []
    else
      match translate rec with
      | none => scan capacity seen recs
      | some body =>
        let next := bump seen rec.ref
        report rec.ref next.1 body :: scan (capacity - 1) next.2 recs

def fetchRecentReports (journal : Journal) (capacity : Nat) : List ExecReport :=
  scan capacity [] journal.records

/-! ## What the scan returns -/

/-- The reports of the records, numbered per order behind `count`. -/
def numbered (count : BrokerOrderRef → Nat) : List JournalRecord → List ExecReport
  | [] => []
  | rec :: recs =>
    match translate rec with
    | none => numbered count recs
    | some body =>
      report rec.ref (count rec.ref + 1) body ::
        numbered (Function.update count rec.ref (count rec.ref + 1)) recs

theorem isReport_iff (rec : JournalRecord) : Exec.isReport rec = (translate rec).isSome := by
  unfold Exec.isReport translate
  by_cases hack : rec.type = JournalRecordType.acknowledgement.code
  · simp [hack]
  by_cases hfill : rec.type = JournalRecordType.fill.code
  · simp [hfill, JournalRecordType.code]
  by_cases hcancel : rec.type = JournalRecordType.cancel.code
  · simp [hcancel, JournalRecordType.code]
  by_cases hreplace : rec.type = JournalRecordType.replace.code
  · simp [hreplace, JournalRecordType.code]
  by_cases hstate : rec.type = JournalRecordType.orderState.code
  · by_cases hcancelled : rec.b % 256 = OrderState.cancelled.code
    · simp [hstate, hcancelled, JournalRecordType.code]
    · simp [hstate, hcancelled, JournalRecordType.code]
  · simp [hack, hfill, hcancel, hreplace, hstate]

/-- The table stands for the counts: an order it does not list has none. -/
def Counts (seen : List Seen) (count : BrokerOrderRef → Nat) : Prop :=
  ∀ ref, count ref = ((seen.find? fun s => s.ref == ref).map Seen.count).getD 0

theorem bump_spec {seen : List Seen} {count : BrokerOrderRef → Nat} (h : Counts seen count)
    (hroom : seen.length < maxJournalRecords) (ref : BrokerOrderRef) :
    (bump seen ref).1 = count ref + 1 ∧
      Counts (bump seen ref).2 (Function.update count ref (count ref + 1)) ∧
      (bump seen ref).2.length ≤ seen.length + 1 := by
  unfold bump
  cases hlocate : SlotTable.locate (fun s => s.ref == ref) seen with
  | none =>
    have habsent := SlotTable.locate_eq_none_iff.mp hlocate
    have hnone : seen.find? (fun s => s.ref == ref) = none :=
      List.find?_eq_none.mpr fun s hs => Bool.eq_false_iff.mp (habsent s hs)
    have hzero : count ref = 0 := by
      rw [h ref, hnone]
      rfl
    dsimp only
    rw [if_pos hroom]
    refine ⟨by rw [hzero], ?_, by simp⟩
    intro other
    rw [List.find?_append]
    by_cases hother : other = ref
    · rw [hother, Function.update_self, hnone, hzero]
      simp
    · rw [Function.update_of_ne hother, h other]
      have hne : (ref == other) = false := beq_eq_false_iff_ne.mpr (Ne.symm hother)
      simp [hne]
  | some found =>
    obtain ⟨k, s⟩ := found
    obtain ⟨l, r, rfl, rfl, href, hfirst⟩ := SlotTable.locate_eq_some hlocate
    have hl : l.find? (fun s => s.ref == ref) = none :=
      List.find?_eq_none.mpr fun s hs => Bool.eq_false_iff.mp (hfirst s hs)
    dsimp only at href ⊢
    have hcount : count ref = s.count := by
      rw [h ref, List.find?_append, hl]
      simp [href]
    have hset : (l ++ s :: r).set l.length { s with count := s.count + 1 } =
        l ++ { s with count := s.count + 1 } :: r := by
      rw [List.set_append_right _ _ (Nat.le_refl _), Nat.sub_self, List.set_cons_zero]
    rw [hset]
    refine ⟨by rw [hcount], ?_, by simp⟩
    intro other
    by_cases hother : other = ref
    · rw [hother, Function.update_self, List.find?_append, hl, hcount]
      simp [href]
    · have hne : (s.ref == other) = false := by
        rw [beq_iff_eq.mp href]
        exact beq_eq_false_iff_ne.mpr (Ne.symm hother)
      rw [Function.update_of_ne hother, h other, List.find?_append, List.find?_append]
      simp [hne]

theorem scan_zero (seen : List Seen) (recs : List JournalRecord) : scan 0 seen recs = [] := by
  cases recs with
  | nil => rfl
  | cons rec recs => rfl

/-- With room for all of them the scan returns every report, numbered per order. -/
theorem scan_eq {capacity : Nat} {seen : List Seen} {count : BrokerOrderRef → Nat}
    {recs : List JournalRecord} (h : Counts seen count)
    (hroom : seen.length + recs.length ≤ maxJournalRecords)
    (hcapacity : (recs.filter Exec.isReport).length ≤ capacity) :
    scan capacity seen recs = numbered count recs := by
  induction recs generalizing capacity seen count with
  | nil => rfl
  | cons rec recs ih =>
    rw [List.length_cons] at hroom
    have hreport := isReport_iff rec
    unfold scan numbered
    cases hbody : translate rec with
    | none =>
      rw [hbody, Option.isSome_none] at hreport
      rw [List.filter_cons_of_neg (by simp [hreport])] at hcapacity
      have hrest := ih h (by omega) hcapacity
      split
      · rename_i hzero
        rw [hzero, scan_zero] at hrest
        exact hrest
      · exact hrest
    | some body =>
      rw [hbody, Option.isSome_some] at hreport
      rw [List.filter_cons_of_pos hreport, List.length_cons] at hcapacity
      obtain ⟨hseq, hcounts, hlength⟩ := bump_spec h (by omega) rec.ref
      rw [if_neg (by omega)]
      dsimp only
      rw [hseq, ih hcounts (by omega) (by omega)]

theorem numbered_seq {count : BrokerOrderRef → Nat} {recs : List JournalRecord} {r : ExecReport}
    (h : r ∈ numbered count recs) : count r.ref < r.venueSeq := by
  induction recs generalizing count with
  | nil => cases h
  | cons rec recs ih =>
    unfold numbered at h
    split at h
    · exact ih h
    · rename_i body _
      rcases List.mem_cons.mp h with rfl | hmem
      · exact Nat.lt_succ_self _
      · have hlater := ih hmem
        by_cases href : r.ref = rec.ref
        · rw [href, Function.update_self] at hlater
          rw [href]
          omega
        · rwa [Function.update_of_ne href] at hlater

theorem numbered_distinct (count : BrokerOrderRef → Nat) (recs : List JournalRecord) :
    DistinctKeys (numbered count recs) := by
  induction recs generalizing count with
  | nil => exact List.nodup_nil
  | cons rec recs ih =>
    unfold numbered
    split
    · exact ih count
    · refine List.nodup_cons.mpr ⟨?_, ih _⟩
      intro hmem
      obtain ⟨r, hr, hkey⟩ := List.mem_map.mp hmem
      obtain ⟨href, hseq⟩ : r.ref = rec.ref ∧ r.venueSeq = count rec.ref + 1 := Prod.mk.inj hkey
      have hlater := numbered_seq hr
      rw [href, Function.update_self, hseq] at hlater
      omega

/-- The sequence number that the journal gives a record does not show in the reports. -/
theorem numbered_payload (count : BrokerOrderRef → Nat) (recs : List JournalRecord) :
    numbered count (recs.map JournalRecord.payload) = numbered count recs := by
  induction recs generalizing count with
  | nil => rfl
  | cons rec recs ih =>
    have hbody : translate rec.payload = translate rec := rfl
    have href : rec.payload.ref = rec.ref := rfl
    rw [List.map_cons]
    unfold numbered
    rw [hbody, href]
    split
    · exact ih count
    · rw [ih]

theorem numbered_filter (count : BrokerOrderRef → Nat) (recs : List JournalRecord) :
    numbered count (recs.filter Exec.isReport) = numbered count recs := by
  induction recs generalizing count with
  | nil => rfl
  | cons rec recs ih =>
    have hreport := isReport_iff rec
    cases hbody : translate rec with
    | none =>
      rw [hbody, Option.isSome_none] at hreport
      rw [List.filter_cons_of_neg (by simp [hreport]), ih count]
      simp only [numbered, hbody]
    | some body =>
      rw [hbody, Option.isSome_some] at hreport
      rw [List.filter_cons_of_pos hreport]
      simp only [numbered, hbody, ih]

theorem fetchRecentReports_eq {journal : Journal} {told : List JournalRecord}
    (h : Exec.Tells {} journal told) (hflow : journal.overflowed = false) {capacity : Nat}
    (hcapacity : (journal.records.filter Exec.isReport).length ≤ capacity) :
    fetchRecentReports journal capacity = numbered (fun _ => 0) told := by
  obtain ⟨recs, rfl, rfl⟩ := h
  have hlength := Journal.emits_length_le (j := {}) recs (Nat.zero_le _)
  obtain ⟨-, hrecords⟩ := Journal.emits_records hflow
  have hcounts : Counts [] fun _ => 0 := fun _ => rfl
  unfold fetchRecentReports
  rw [scan_eq hcounts (by simpa using hlength) hcapacity, ← numbered_payload, hrecords, numbered_filter]
  exact numbered_payload _ recs

end PaperVenue

end MicrostructureEngine
