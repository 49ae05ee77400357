import MicrostructureEngine.Persist.ReadCalls
import MicrostructureEngine.Persist.WalDirectory

/-!
# Journal records in the log

A `JournalRecord` is its 80-byte image, which is the payload of its frame. The writer rotates
before it appends where that is due, and answers `false` unless the record was committed; the
reader takes no frame of another size for a record.
-/

namespace MicrostructureEngine

set_option autoImplicit false

def journalRecordSize : Nat := 80

structure JournalImage where
  image : List UInt8
  size : image.length = journalRecordSize
  deriving DecidableEq

/-- The type of the record, from its offset. -/
def JournalImage.type (record : JournalImage) : UInt16 := UInt16.ofNat (LittleEndian.decode (slice 16 2 record.image))

namespace ExecutionWalWriter

/-- What `append` hands to the segment writer. -/
def call (record : JournalImage) : AppendCall := ⟨record.type, 0, record.image⟩

/-- `append`; `none` where the process dies. -/
def append (w : WalWriter) (record : JournalImage) (nowNs : Nat) (system : SystemAnswers) (D : Directory) :
    Option (Bool × WalWriter × Directory) :=
  w.appendRotating nowNs system (call record) D

end ExecutionWalWriter

namespace ExecutionWalReader

def next (r : WalReader) : ReadStatus × Option JournalImage × WalReader :=
  match r.nextRaw journalRecordSize with
  | (.ok, some payload, r') =>
    if h : payload.length = journalRecordSize then (.ok, some ⟨payload, h⟩, r')
    else (.unexpectedPayloadSize, none, r')
  | (status, _, r') => (status, none, r')

end ExecutionWalReader

end MicrostructureEngine
