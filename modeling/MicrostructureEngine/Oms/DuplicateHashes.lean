import MicrostructureEngine.Lib.HashSlots
import MicrostructureEngine.Oms.StreamingRecovery

/-!
# What the duplicate window takes for a repetition

The window keeps one hash for each slot, the one of the last record that fell there. A record is
taken for a repetition exactly if its hash is the one that is kept; the payloads are not compared,
so two records of different payloads and one hash are as good as one record sent twice.
-/

namespace MicrostructureEngine

set_option autoImplicit false

namespace DuplicateWindow

/-- No record hashes to what the last record of its slot has left there. -/
def Unclashing (window : Nat) (rs : List JournalRecord) : Prop :=
  HashSlots.Unclashing hash (new window).capacity [] rs

theorem flagsNone_eq (w : DuplicateWindow) (rs : List JournalRecord) :
    w.flagsNone rs = HashSlots.flagsNone hash w.capacity w.table rs := by
  induction rs generalizing w with
  | nil => rfl
  | cons r rs ih =>
    unfold flagsNone HashSlots.flagsNone
    rw [ih]
    rfl

theorem flagsNone_new_iff (window : Nat) (rs : List JournalRecord) :
    (new window).flagsNone rs = true ↔ Unclashing window rs := by
  rw [flagsNone_eq]
  exact HashSlots.flagsNone_iff hash (new window).capacity [] rs

/-- No record of the stream is flagged, and what `recover` accepts as a journal is accepted as a
stream. -/
structure InventsNone (window : Nat) (rs : List JournalRecord) : Prop where
  flagged : (new window).flagsNone rs = true
  accepted : ∀ (appended : List JournalRecord) (out : RecoveryState) (killPresent : Bool)
    (persistedHalt : Risk.HaltReason), (({} : Journal).emits appended).overflowed = false →
    (({} : Journal).emits appended).records = rs → out.orders.capacity = defaultCapacity →
    (Recovery.recover (({} : Journal).emits appended) out killPresent persistedHalt).1 = true →
    (StreamingRecovery.recoverStreaming ⟨rs, false⟩ out window killPresent persistedHalt).1 = true

/-- On payloads that differ pairwise, the window invents a repetition exactly if two hashes clash. -/
theorem inventsNone_iff (window : Nat) {rs : List JournalRecord} (hdistinct : Recovery.DistinctPayloads rs) :
    InventsNone window rs ↔ Unclashing window rs := by
  have hflags := flagsNone_new_iff window rs
  constructor
  · intro h
    exact hflags.mp h.flagged
  · intro hunclashing
    refine ⟨hflags.mpr hunclashing, ?_⟩
    rintro appended out killPresent persistedHalt hflow rfl hcapacity haccepted
    have hagree := StreamingRecovery.recover_eq hflow (Journal.emits_numbered hflow) hdistinct
      (hflags.mpr hunclashing) hcapacity killPresent persistedHalt
    rw [← hagree]
    exact haccepted

def accountRecords (tsNs : Nat) (balance realized commission : Int) : List JournalRecord :=
  [{ tsNs := tsNs, type := 10, a := balance, b := balance, d := balance },
    { tsNs := tsNs, type := 9, a := realized, c := commission }]

theorem inventsNone_two_accounts : Recovery.DistinctPayloads (accountRecords 1 5 0 0 ++ accountRecords 2 6 1 0) ∧
    (InventsNone 64 (accountRecords 1 5 0 0 ++ accountRecords 2 6 1 0) ↔
      Unclashing 64 (accountRecords 1 5 0 0 ++ accountRecords 2 6 1 0)) :=
  ⟨by decide +kernel, inventsNone_iff 64 (by decide +kernel)⟩

/-- The second `pnl_update` has another payload than the first and the same hash. -/
def clashing : List JournalRecord := accountRecords 1 5 0 0 ++ accountRecords 1 6 1 4343070929923945

theorem clashing_invented : Recovery.DistinctPayloads clashing ∧
    (Recovery.recover (({} : Journal).emits clashing) (.new .hedging defaultCapacity) false .none).1 = true ∧
    (new 65536).flagsNone clashing = false ∧
    (StreamingRecovery.recoverStreaming ⟨clashing, false⟩ (.new .hedging defaultCapacity) 65536 false .none).1 =
      false := by
  refine ⟨by decide +kernel, by decide +kernel, by decide +kernel, by decide +kernel⟩

end DuplicateWindow

end MicrostructureEngine
