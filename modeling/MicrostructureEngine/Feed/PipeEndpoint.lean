import MicrostructureEngine.Feed.Protocol
import MicrostructureEngine.Lib.PacedStream

/-!
# The recorder's end of the pipe

`read_next` reads a prefix and then as much as the type in it calls for. The system may return
the bytes of the pipe in pieces of any size. Reading until `read_next` answers `false` yields
the records at the front of what was written into the pipe, and a record that was not written to
its end is never one of them.
-/

namespace MicrostructureEngine.Mt5

set_option autoImplicit false

/-- What `read_next` fills in: the record of the type that it has read. -/
inductive WireRecord where
  | marketData (record : MdRecord)
  | heartbeat (record : HbRecord)
  deriving DecidableEq

namespace WireRecord

def recordPrefix : WireRecord → RecordPrefix
  | .marketData record => record.recordPrefix
  | .heartbeat record => record.recordPrefix

def type : WireRecord → RecordType
  | .marketData _ => .marketData
  | .heartbeat _ => .heartbeat

/-- The bytes of the structure. -/
def image : WireRecord → List UInt8
  | .marketData record => mdLayout.write record
  | .heartbeat record => hbLayout.write record

/-- The prefix names the type of the record. -/
def Typed (r : WireRecord) : Prop := r.recordPrefix.type = r.type.code

instance (r : WireRecord) : Decidable r.Typed := inferInstanceAs (Decidable (_ = _))

end WireRecord

abbrev PipeStream := PacedStream UInt8

/-- `read_next` on a connected pipe; `none` for `false`. -/
def readNext (p : PipeStream) : Option WireRecord × PipeStream :=
  let head := p.readExact prefixLayout.width
  match head.1 with
  | none => (none, head.2)
  | some bytes =>
    let recordPrefix := prefixLayout.read bytes
    if recordPrefix.type = RecordType.marketData.code then
      let body := head.2.readExact (mdLayout.width - prefixLayout.width)
      (body.1.map fun rest => .marketData (mdLayout.read (bytes ++ rest)), body.2)
    else if recordPrefix.type = RecordType.heartbeat.code then
      let body := head.2.readExact (hbLayout.width - prefixLayout.width)
      (body.1.map fun rest => .heartbeat (hbLayout.read (bytes ++ rest)), body.2)
    else (none, head.2)

/-- The records that the recorder's loop reads before `read_next` answers `false`. -/
def readRecords : Nat → PipeStream → List WireRecord
  | 0, _ => []
  | n + 1, p =>
    match (readNext p).1 with
    | none => []
    | some r => r :: readRecords n (readNext p).2

def recordsRead (p : PipeStream) : List WireRecord := readRecords p.items.length p

/-! ## Handshake -/

inductive HandshakeVerdict where
  | accept
  | badMagic
  | badVersion
  | staleEpoch
  | accountMismatch
  | serverMismatch
  | marginModeMismatch
  deriving DecidableEq, Repr

def validateHandshake (hello : HelloRecord) (ack : HelloAckRecord) (expectedServerHash : Vector UInt8 32)
    (expectedMarginMode : UInt32) : HandshakeVerdict :=
  if hello.recordPrefix.magic ≠ protocolMagic ∨ ack.recordPrefix.magic ≠ protocolMagic then .badMagic
  else if hello.recordPrefix.version ≠ protocolVersion ∨ ack.recordPrefix.version ≠ protocolVersion then .badVersion
  else if hello.recordPrefix.sessionEpoch ≠ ack.recordPrefix.sessionEpoch then .staleEpoch
  else if hello.accountExpected ≠ ack.accountActual then .accountMismatch
  else if ack.serverHash ≠ expectedServerHash then .serverMismatch
  else if ack.accountMarginMode ≠ expectedMarginMode then .marginModeMismatch
  else .accept

/-- `handshake` behind the write of the hello record: the answer is read from the pipe. -/
def handshake (hello : HelloRecord) (expectedServerHash : Vector UInt8 32) (expectedMarginMode : UInt32)
    (p : PipeStream) : HandshakeVerdict × PipeStream :=
  let ack := p.readExact helloAckLayout.width
  match ack.1 with
  | none => (.badMagic, ack.2)
  | some bytes => (validateHandshake hello (helloAckLayout.read bytes) expectedServerHash expectedMarginMode, ack.2)

/-! ## Records as items of a stream -/

/-- The prefix of the record at the head of a stream. -/
def headPrefix (bs : List UInt8) : RecordPrefix := prefixLayout.read (bs.take prefixLayout.width)

/-- The record at the head of a stream, if it is there to its end. -/
def headRecord (bs : List UInt8) : Option (WireRecord × List UInt8) :=
  if bs.length < prefixLayout.width then none
  else if (headPrefix bs).type = RecordType.marketData.code then
    if bs.length < mdLayout.width then none
    else some (.marketData (mdLayout.read (bs.take mdLayout.width)), bs.drop mdLayout.width)
  else if (headPrefix bs).type = RecordType.heartbeat.code then
    if bs.length < hbLayout.width then none
    else some (.heartbeat (hbLayout.read (bs.take hbLayout.width)), bs.drop hbLayout.width)
  else none

theorem headPrefix_md (r : MdRecord) (rest : List UInt8) :
    headPrefix (mdLayout.write r ++ rest) = r.recordPrefix := by
  have hwrite : mdLayout.write r ++ rest = prefixLayout.write r.recordPrefix ++ (mdBodyLayout.write _ ++ rest) :=
    List.append_assoc _ _ _
  rw [headPrefix, hwrite, prefixLayout.read_append]

theorem headPrefix_hb (r : HbRecord) (rest : List UInt8) :
    headPrefix (hbLayout.write r ++ rest) = r.recordPrefix := by
  have hwrite : hbLayout.write r ++ rest = prefixLayout.write r.recordPrefix ++ (hbBodyLayout.write _ ++ rest) :=
    List.append_assoc _ _ _
  rw [headPrefix, hwrite, prefixLayout.read_append]

theorem headPrefix_image (r : WireRecord) (rest : List UInt8) : headPrefix (r.image ++ rest) = r.recordPrefix := by
  cases r with
  | marketData r => exact headPrefix_md r rest
  | heartbeat r => exact headPrefix_hb r rest

/-- A record that is read has the prefix that was read first. -/
theorem recordPrefix_md (bs : List UInt8) :
    (mdLayout.read (bs.take mdLayout.width)).recordPrefix = headPrefix bs := by
  have htake : (bs.take mdLayout.width).take prefixLayout.width = bs.take prefixLayout.width := by
    rw [List.take_take]
    rfl
  calc (mdLayout.read (bs.take mdLayout.width)).recordPrefix
      = prefixLayout.read ((bs.take mdLayout.width).take prefixLayout.width) := rfl
    _ = headPrefix bs := by rw [htake, headPrefix]

theorem recordPrefix_hb (bs : List UInt8) :
    (hbLayout.read (bs.take hbLayout.width)).recordPrefix = headPrefix bs := by
  have htake : (bs.take hbLayout.width).take prefixLayout.width = bs.take prefixLayout.width := by
    rw [List.take_take]
    rfl
  calc (hbLayout.read (bs.take hbLayout.width)).recordPrefix
      = prefixLayout.read ((bs.take hbLayout.width).take prefixLayout.width) := rfl
    _ = headPrefix bs := by rw [htake, headPrefix]

theorem headRecord_eq_some {bs : List UInt8} {r : WireRecord} {rest : List UInt8} :
    headRecord bs = some (r, rest) ↔ r.Typed ∧ bs = r.image ++ rest := by
  constructor
  · intro h
    unfold headRecord at h
    split_ifs at h with hshort hmd hmdShort hhb hhbShort
    · cases h
      refine ⟨?_, (mdLayout.write_read_append (Nat.le_of_not_lt hmdShort)).symm⟩
      rw [WireRecord.Typed, WireRecord.recordPrefix, recordPrefix_md, hmd]
      rfl
    · cases h
      refine ⟨?_, (hbLayout.write_read_append (Nat.le_of_not_lt hhbShort)).symm⟩
      rw [WireRecord.Typed, WireRecord.recordPrefix, recordPrefix_hb, hhb]
      rfl
  · rintro ⟨htyped, rfl⟩
    have hparsed := headPrefix_image r rest
    cases r with
    | marketData r =>
      have hlength : (WireRecord.marketData r).image.length = mdLayout.width := mdLayout.length_write r
      have htype : (headPrefix ((WireRecord.marketData r).image ++ rest)).type = RecordType.marketData.code := by
        rw [hparsed]
        exact htyped
      have hwide : prefixLayout.width ≤ mdLayout.width := by decide
      unfold headRecord
      rw [if_neg (by rw [List.length_append]; omega), if_pos htype, if_neg (by rw [List.length_append]; omega)]
      unfold WireRecord.image
      rw [mdLayout.read_append, mdLayout.drop_append]
    | heartbeat r =>
      have hlength : (WireRecord.heartbeat r).image.length = hbLayout.width := hbLayout.length_write r
      have htype : (headPrefix ((WireRecord.heartbeat r).image ++ rest)).type = RecordType.heartbeat.code := by
        rw [hparsed]
        exact htyped
      have hother : RecordType.heartbeat.code ≠ RecordType.marketData.code := by decide
      have hwide : prefixLayout.width ≤ hbLayout.width := by decide
      unfold headRecord
      rw [if_neg (by rw [List.length_append]; omega), htype, if_neg hother, if_pos rfl,
        if_neg (by rw [List.length_append]; omega)]
      unfold WireRecord.image
      rw [hbLayout.read_append, hbLayout.drop_append]

/-- The records of the pipe as items of its stream. -/
def wireCodec : Framing.Codec {r : WireRecord // r.Typed} UInt8 where
  encode r := r.1.image
  head bs := (headRecord bs).attach.map fun found =>
    (⟨found.1.1, (headRecord_eq_some.mp found.2).1⟩, found.1.2)
  head_eq_some := by
    intro bs r rest
    rw [Option.map_eq_some_iff]
    constructor
    · rintro ⟨⟨found, hfound⟩, -, heq⟩
      cases heq
      exact (headRecord_eq_some.mp hfound).2
    · intro h
      have hhead := headRecord_eq_some.mpr ⟨r.2, h⟩
      exact ⟨⟨_, hhead⟩, by rw [Option.attach_eq_some_iff]; exact hhead, rfl⟩
  encode_ne_nil := by
    rintro ⟨r, htyped⟩ hnil
    have hlength := congrArg List.length hnil
    cases r with
    | marketData r => exact absurd ((mdLayout.length_write r).symm.trans hlength) (by decide)
    | heartbeat r => exact absurd ((hbLayout.length_write r).symm.trans hlength) (by decide)

/-! ## Reading -/

section Reading
variable (p : PipeStream)

/-- What a second call adds to the first is what one call for both brings. -/
theorem readBody_spec {a width : Nat} {front : List UInt8} (h : (p.readExact a).1 = some front) (hwidth : a ≤ width)
    (f : List UInt8 → WireRecord) :
    ((p.readExact a).2.readExact (width - a)).1.map (fun rest => f (front ++ rest)) =
        (if p.items.length < width then none else some (f (p.items.take width))) ∧
      ((p.readExact a).2.readExact (width - a)).2.items = p.items.drop width := by
  rw [PacedStream.readExact_value] at h
  split_ifs at h with hfits
  obtain rfl : p.items.take a = front := Option.some.inj h
  have hrest := p.readExact_items a
  have hsum : a + (width - a) = width := by omega
  refine ⟨?_, ?_⟩
  · rw [PacedStream.readExact_value, hrest, List.length_drop]
    by_cases hall : p.items.length < width
    · rw [if_neg (by omega), if_pos hall, Option.map_none]
    · have htake : p.items.take width = p.items.take a ++ (p.items.drop a).take (width - a) := by
        rw [← List.take_add, hsum]
      rw [if_pos (by omega), if_neg hall, Option.map_some, htake]
  · rw [PacedStream.readExact_items, hrest, List.drop_drop, hsum]

/-- One call of `read_next` takes the record at the head of the stream. -/
theorem readNext_spec :
    (readNext p).1 = (headRecord p.items).map Prod.fst ∧
      ∀ r rest, headRecord p.items = some (r, rest) → (readNext p).2.items = rest := by
  unfold readNext headRecord
  dsimp only
  cases hhead : (p.readExact prefixLayout.width).1 with
  | none =>
    rw [PacedStream.readExact_value] at hhead
    split_ifs at hhead with hfits
    rw [if_pos (Nat.lt_of_not_le hfits)]
    exact ⟨rfl, fun r rest h => nomatch h⟩
  | some bytes =>
    have hread := hhead
    rw [PacedStream.readExact_value] at hread
    split_ifs at hread with hfits
    have hparsed : prefixLayout.read bytes = headPrefix p.items := by
      rw [← Option.some.inj hread, headPrefix]
    dsimp only
    rw [if_neg (Nat.not_lt.mpr hfits), hparsed]
    by_cases hmd : (headPrefix p.items).type = RecordType.marketData.code
    · obtain ⟨hbody, hrest⟩ := readBody_spec p hhead (show prefixLayout.width ≤ mdLayout.width by decide)
        fun bs => .marketData (mdLayout.read bs)
      rw [if_pos hmd, if_pos hmd, hbody]
      split_ifs with hshort
      · exact ⟨rfl, fun r rest h => nomatch h⟩
      · refine ⟨rfl, fun r rest h => ?_⟩
        cases h
        exact hrest
    rw [if_neg hmd, if_neg hmd]
    by_cases hhb : (headPrefix p.items).type = RecordType.heartbeat.code
    · obtain ⟨hbody, hrest⟩ := readBody_spec p hhead (show prefixLayout.width ≤ hbLayout.width by decide)
        fun bs => .heartbeat (hbLayout.read bs)
      rw [if_pos hhb, if_pos hhb, hbody]
      split_ifs with hshort
      · exact ⟨rfl, fun r rest h => nomatch h⟩
      · refine ⟨rfl, fun r rest h => ?_⟩
        cases h
        exact hrest
    · rw [if_neg hhb, if_neg hhb]
      exact ⟨rfl, fun r rest h => nomatch h⟩

end Reading

theorem head_wireCodec (bs : List UInt8) :
    (wireCodec.head bs).map (fun found => (found.1.1, found.2)) = headRecord bs := by
  unfold wireCodec
  dsimp only
  rw [Option.map_map]
  exact Option.attach_map_subtype_val (headRecord bs)

/-- The loop reads the records at the front of the pipe, whatever the sizes of the pieces. -/
theorem readRecords_eq (n : Nat) : ∀ p : PipeStream, p.items.length ≤ n →
    readRecords n p = (wireCodec.scan p.items).1.map Subtype.val := by
  induction n with
  | zero =>
    intro p hn
    rw [List.length_eq_zero_iff.mp (Nat.le_zero.mp hn)]
    rfl
  | succ n ih =>
    intro p hn
    obtain ⟨hvalue, hitems⟩ := readNext_spec p
    unfold readRecords
    rw [hvalue]
    cases hhead : wireCodec.head p.items with
    | none =>
      rw [← head_wireCodec, hhead, wireCodec.scan_of_none hhead]
      rfl
    | some found =>
      have hfound : headRecord p.items = some (found.1.1, found.2) := by
        rw [← head_wireCodec, hhead]
        rfl
      have hsplit := wireCodec.head_eq_some.mp hhead
      have hpos := wireCodec.length_encode_pos found.1
      have hrest := hitems _ _ hfound
      have hlength := congrArg List.length hsplit
      rw [List.length_append] at hlength
      rw [hfound, Option.map_some]
      dsimp only
      rw [ih _ (by rw [hrest]; omega), hrest, hsplit, wireCodec.scan_encode]
      rfl

theorem recordsRead_eq (p : PipeStream) : recordsRead p = (wireCodec.scan p.items).1.map Subtype.val :=
  readRecords_eq p.items.length p (Nat.le_refl _)

/-- The adviser's records come out of the pipe as they went in, in pieces of any size; where the
pipe was cut, those come out that were written to their end. -/
theorem recordsRead_cut (records : List {r : WireRecord // r.Typed}) (cut : Nat) (pace : Nat → Nat) :
    ∃ n, n ≤ records.length ∧
      recordsRead ⟨(wireCodec.concat records).take cut, pace, 0⟩ = (records.take n).map Subtype.val ∧
      ∀ m, m ≤ records.length → ((wireCodec.concat (records.take m)).length ≤ cut ↔ m ≤ n) := by
  obtain ⟨n, hn, hscan, hlengths⟩ := wireCodec.scan_take records cut
  exact ⟨n, hn, by rw [recordsRead_eq, hscan], hlengths⟩

end MicrostructureEngine.Mt5
