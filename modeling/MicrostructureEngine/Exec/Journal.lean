import MicrostructureEngine.Exec.Types

/-!
# The execution journal

Fixed-layout integer records. The type-specific fields `a`, `b`, `c`, `d` are raw
integers; their meaning is given by the writers and by the recovery code, not here.
-/

namespace MicrostructureEngine

set_option autoImplicit false

inductive JournalRecordType where
  | command
  | acknowledgement
  | rejection
  | fill
  | cancel
  | replace
  | orderState
  | positionUpdate
  | pnlUpdate
  | accountUpdate
  deriving DecidableEq, Repr, Inhabited

namespace JournalRecordType

def code : JournalRecordType → Nat
  | command => 1
  | acknowledgement => 2
  | rejection => 3
  | fill => 4
  | cancel => 5
  | replace => 6
  | orderState => 7
  | positionUpdate => 8
  | pnlUpdate => 9
  | accountUpdate => 10

/-- `static_cast<JournalRecordType>` of a value checked to lie in `1..10`. -/
def ofCode : Nat → JournalRecordType
  | 1 => command
  | 2 => acknowledgement
  | 3 => rejection
  | 4 => fill
  | 5 => cancel
  | 6 => replace
  | 7 => orderState
  | 8 => positionUpdate
  | 9 => pnlUpdate
  | _ => accountUpdate

@[simp] theorem ofCode_code (t : JournalRecordType) : ofCode t.code = t := by
  cases t <;> rfl

theorem code_pos (t : JournalRecordType) : 1 ≤ t.code := by
  cases t <;> decide

theorem code_le (t : JournalRecordType) : t.code ≤ 10 := by
  cases t <;> decide

end JournalRecordType

structure JournalRecord where
  seq : Nat := 0
  tsNs : Nat := 0
  type : Nat := 0
  reserved : Nat := 0
  symbolId : Nat := 0
  runId : UInt64 := 0
  logicalOrderId : UInt64 := 0
  positionTicket : UInt64 := 0
  a : Int := 0
  b : Int := 0
  c : Int := 0
  d : Int := 0
  deriving DecidableEq, Repr, Inhabited

def JournalRecord.ref (r : JournalRecord) : BrokerOrderRef := ⟨r.runId, r.logicalOrderId⟩

def maxJournalRecords : Nat := 1 <<< 14

/-- The bounded in-memory journal: a full journal refuses and remembers that it did. -/
structure Journal where
  records : List JournalRecord := []
  overflowed : Bool := false
  deriving DecidableEq, Repr, Inhabited

def Journal.append (j : Journal) (r : JournalRecord) : Bool × Journal :=
  if j.records.length ≥ maxJournalRecords then (false, { j with overflowed := true })
  else (true, { j with records := j.records ++ [{ r with seq := j.records.length }] })

/-- `emit`, whose answer no caller looks at. -/
def Journal.emit (j : Journal) (type : JournalRecordType) (tsNs : Nat) (runId logicalOrderId : UInt64)
    (symbolId : Nat) (positionTicket : UInt64) (a b c d : Int) : Journal :=
  (j.append
    { tsNs := tsNs, type := type.code, symbolId := symbolId, runId := runId,
      logicalOrderId := logicalOrderId, positionTicket := positionTicket, a := a, b := b, c := c,
      d := d }).2

end MicrostructureEngine
