import MicrostructureEngine.Feed.FeedBridge
import MicrostructureEngine.Feed.Ingress

/-!
# Sessions of the feed

Whatever the terminal does and wherever its writes fail, the bytes of every session are an
acknowledgement and records numbered one behind the other, cut somewhere. A recorder that was
started for the session therefore never halts on a record of its adviser: not on its epoch, not on
its sequence number.
-/

namespace MicrostructureEngine.Mt5

set_option autoImplicit false

/-- The records are numbered one behind the other, the first one behind `start`. -/
def Consecutive : UInt64 → List WireRecord → Prop
  | _, [] => True
  | start, r :: rs => r.recordPrefix.sequence = start + 1 ∧ Consecutive (start + 1) rs

theorem consecutive_append {rs later : List WireRecord} : ∀ {start : UInt64},
    Consecutive start (rs ++ later) ↔ Consecutive start rs ∧ Consecutive (start + UInt64.ofNat rs.length) later := by
  induction rs with
  | nil =>
    intro start
    rw [List.nil_append, List.length_nil, show start + UInt64.ofNat 0 = start from UInt64.add_zero start]
    exact ⟨fun h => ⟨trivial, h⟩, And.right⟩
  | cons r rs ih =>
    intro start
    have hstart : start + 1 + UInt64.ofNat rs.length = start + UInt64.ofNat (r :: rs).length := by
      apply UInt64.toNat_inj.mp
      rw [List.length_cons, UInt64.toNat_add, UInt64.toNat_add, UInt64.toNat_add, UInt64.toNat_ofNat',
        UInt64.toNat_ofNat', show UInt64.toNat 1 = 1 from rfl]
      omega
    rw [List.cons_append, Consecutive, Consecutive, ih, hstart, and_assoc]

namespace PipeAdapter

open Outputs

end PipeAdapter

/-! ## What is in a pipe -/

abbrev TypedRecord := {r : WireRecord // r.Typed}

/-- An acknowledgement and the records behind it, for the session of this greeting. -/
structure Chain (hello : HelloRecord) (ack : HelloAckRecord) (records : List TypedRecord) : Prop where
  greeting : hello.recordPrefix.magic = protocolMagic ∧ hello.recordPrefix.version = protocolVersion
  magic : ack.recordPrefix.magic = protocolMagic
  version : ack.recordPrefix.version = protocolVersion
  epoch : ack.recordPrefix.sessionEpoch = hello.recordPrefix.sessionEpoch
  belongs : ∀ r ∈ records, r.1.BelongsTo hello.recordPrefix.sessionEpoch
  consecutive : Consecutive ack.recordPrefix.sequence (records.map Subtype.val)

/-- The bytes of an acknowledgement with records behind it. -/
def chainBytes (ack : HelloAckRecord) (records : List TypedRecord) : List UInt8 :=
  helloAckLayout.write ack ++ wireCodec.concat records

theorem Chain.snoc {hello : HelloRecord} {ack : HelloAckRecord} {records : List TypedRecord}
    (h : Chain hello ack records) {r : TypedRecord} (hbelongs : r.1.BelongsTo hello.recordPrefix.sessionEpoch)
    (hsequence : r.1.recordPrefix.sequence = ack.recordPrefix.sequence + UInt64.ofNat records.length + 1) :
    Chain hello ack (records ++ [r]) := by
  refine ⟨h.greeting, h.magic, h.version, h.epoch, ?_, ?_⟩
  · intro other hother
    rcases List.mem_append.mp hother with hother | hother
    · exact h.belongs other hother
    · rw [List.mem_singleton.mp hother]
      exact hbelongs
  · rw [List.map_append, consecutive_append, List.length_map]
    exact ⟨h.consecutive, hsequence, trivial⟩

theorem chainBytes_snoc (ack : HelloAckRecord) (records : List TypedRecord) (r : TypedRecord) :
    chainBytes ack (records ++ [r]) = chainBytes ack records ++ r.1.image := by
  unfold chainBytes
  rw [wireCodec.concat_append, wireCodec.concat_cons, wireCodec.concat_nil, List.append_nil, List.append_assoc]
  rfl

namespace Session

/-- The bytes of the session are those of a chain, cut somewhere. -/
def Chained (s : Session) : Prop :=
  ∃ ack records, Chain s.hello ack records ∧ s.bytes <+: chainBytes ack records

/-- The records that are in the pipe to their end. -/
def records (s : Session) : List WireRecord :=
  (wireCodec.scan (s.bytes.drop helloAckLayout.width)).1.map Subtype.val

theorem records_whole {hello : HelloRecord} {ack : HelloAckRecord} {rs : List TypedRecord} :
    records ⟨hello, chainBytes ack rs⟩ = rs.map Subtype.val := by
  unfold records chainBytes
  dsimp only
  rw [helloAckLayout.drop_append, wireCodec.scan_of_concat]

/-- A record that is cut is not there. -/
theorem records_torn {hello : HelloRecord} {ack : HelloAckRecord} {rs : List TypedRecord} {r : TypedRecord}
    {taken : Nat} (htaken : taken < r.1.image.length) :
    records ⟨hello, chainBytes ack rs ++ r.1.image.take taken⟩ = rs.map Subtype.val := by
  have htorn : (wireCodec.scan (r.1.image.take taken)).1 = [] := by
    obtain ⟨n, hn, hscan, hlengths⟩ := wireCodec.scan_take [r] taken
    rw [wireCodec.concat_cons, wireCodec.concat_nil, List.append_nil] at hscan
    have hnot : ¬ 1 ≤ n := by
      intro hone
      have hlength := (hlengths 1 (Nat.le_refl 1)).mpr hone
      rw [List.take_succ_cons, List.take_zero, wireCodec.concat_cons, wireCodec.concat_nil, List.append_nil] at hlength
      exact absurd hlength (Nat.not_le.mpr htaken)
    obtain rfl : n = 0 := by omega
    exact hscan
  unfold records chainBytes
  dsimp only
  rw [List.append_assoc, helloAckLayout.drop_append, wireCodec.scan_concat, htorn, List.append_nil]

theorem records_short {s : Session} (h : s.bytes.length ≤ helloAckLayout.width) : s.records = [] := by
  unfold records
  rw [List.drop_eq_nil_of_le h]
  rfl

end Session

/-! ## The bridge -/

/-- The tick that a record carries. -/
def MdRecord.tick (r : MdRecord) : MqlTick :=
  ⟨r.tsBrokerMs, r.bidTicks, r.askTicks, r.lastTicks, r.bidVolume, r.tickVolume, r.flags⟩

def WireRecord.tickOf (symbol : Symbol) : WireRecord → Option MqlTick
  | .marketData r => if r.symbolId = UInt32.ofNat symbol.val then some r.tick else none
  | .heartbeat _ => none

namespace FeedBridge

/-- The ticks of a symbol that went into the pipes to their end, the first session first. -/
def sent (b : FeedBridge) (symbol : Symbol) : List MqlTick :=
  (b.sessions.reverse.flatMap Session.records).filterMap (WireRecord.tickOf symbol)

/-- The pipe of a connected bridge holds a whole chain, whose last number is the bridge's. -/
structure Present (b : FeedBridge) (hello : HelloRecord) (ack : HelloAckRecord) (records : List TypedRecord)
    (earlier : List Session) : Prop where
  handle : b.handleOpen = true
  sessions : b.sessions = ⟨hello, chainBytes ack records⟩ :: earlier
  chain : Chain hello ack records
  epoch : hello.recordPrefix.sessionEpoch = b.sessionEpoch
  sequence : b.sequence = ack.recordPrefix.sequence + UInt64.ofNat records.length

structure Sound (b : FeedBridge) : Prop where
  each : ∀ s ∈ b.sessions, s.Chained
  present : b.connected = true → ∃ hello ack records earlier, b.Present hello ack records earlier

/-- The record has the bridge's next prefix. -/
def Due (b : FeedBridge) (r : WireRecord) : Prop :=
  r.recordPrefix = ⟨protocolMagic, protocolVersion, r.type.code, b.sessionEpoch, b.sequence + 1⟩

theorem Due.belongs {b : FeedBridge} {r : WireRecord} (h : b.Due r) : r.BelongsTo b.sessionEpoch := by
  unfold WireRecord.BelongsTo WireRecord.Typed
  rw [h]
  exact ⟨rfl, rfl, rfl, rfl⟩

section Sending
variable (world : Surroundings) (timeLocal : Nat) {b : FeedBridge} {hello : HelloRecord} {ack : HelloAckRecord}
  {records : List TypedRecord} {earlier : List Session}

theorem sent_cons {s : Session} {earlier : List Session} (h : b.sessions = s :: earlier) (symbol : Symbol) :
    b.sent symbol = (earlier.reverse.flatMap Session.records).filterMap (WireRecord.tickOf symbol) ++
      s.records.filterMap (WireRecord.tickOf symbol) := by
  unfold sent
  rw [h, List.reverse_cons, List.flatMap_append, List.filterMap_append, List.flatMap_singleton]

/-- A write into the pipe of the present session. -/
theorem writeStruct_open (b : FeedBridge) {s : Session} (hopen : b.handleOpen = true) (hsessions : b.sessions = s :: earlier)
    (image : List UInt8) :
    ∃ taken, taken ≤ image.length ∧ b.writeStruct world image = (decide (taken = image.length),
      { b with sessions := { s with bytes := s.bytes ++ image.take taken } :: earlier, writes := b.writes + 1 }) := by
  refine ⟨min image.length (world.takes b.writes), Nat.min_le_left _ _, ?_⟩
  unfold writeStruct
  rw [hopen, hsessions]
  rfl

/-- What sending does: the record is in the pipe to its end, or it is cut and the pipe is closed. -/
theorem send_cases (h : b.Present hello ack records earlier) (hconnected : b.connected = true) {r : WireRecord}
    (hdue : b.Due r) :
    (∃ r' : TypedRecord, r'.1 = r ∧ (b.send world timeLocal r).1 = true ∧
        (b.send world timeLocal r).2.Present hello ack (records ++ [r']) earlier ∧
        (b.send world timeLocal r).2 = { b with
          sequence := b.sequence + 1
          sessions := ⟨hello, chainBytes ack (records ++ [r'])⟩ :: earlier
          writes := b.writes + 1 }) ∨
      (∃ (r' : TypedRecord) (taken : Nat), r'.1 = r ∧ taken < r.image.length ∧ Chain hello ack (records ++ [r']) ∧
        (b.send world timeLocal r).1 = false ∧ (b.send world timeLocal r).2 = { b with
          sequence := b.sequence + 1
          sessions := ⟨hello, chainBytes ack records ++ r.image.take taken⟩ :: earlier
          writes := b.writes + 1
          connected := false
          handleOpen := false
          nextReconnectAt := timeLocal + b.reconnectSeconds }) := by
  have hbelongs := hdue.belongs
  let r' : TypedRecord := ⟨r, hbelongs.2.2.2⟩
  have hchain : Chain hello ack (records ++ [r']) := by
    apply h.chain.snoc
    · rw [h.epoch]
      exact hbelongs
    · rw [show r'.1 = r from rfl, show r.recordPrefix = _ from hdue, ← h.sequence]
  obtain ⟨taken, htaken, hwrite⟩ :=
    writeStruct_open world { b with sequence := b.sequence + 1 } h.handle h.sessions r.image
  unfold send
  dsimp only
  rw [hwrite]
  by_cases hall : taken = r.image.length
  · subst hall
    refine .inl ⟨r', rfl, ?_⟩
    have hbytes : chainBytes ack records ++ r.image.take r.image.length = chainBytes ack (records ++ [r']) := by
      rw [List.take_length, chainBytes_snoc]
    rw [decide_eq_true rfl, if_pos rfl, hbytes]
    refine ⟨rfl, ⟨h.handle, rfl, hchain, h.epoch, ?_⟩, rfl⟩
    dsimp only
    apply UInt64.toNat_inj.mp
    rw [h.sequence, List.length_append, List.length_singleton, UInt64.toNat_add, UInt64.toNat_add, UInt64.toNat_add,
      UInt64.toNat_ofNat', UInt64.toNat_ofNat', show UInt64.toNat 1 = 1 from rfl]
    omega
  · refine .inr ⟨r', taken, rfl, by omega, hchain, ?_⟩
    rw [decide_eq_false hall, if_neg Bool.false_ne_true]
    unfold disconnect
    dsimp only
    rw [hconnected]
    exact ⟨rfl, rfl⟩

theorem Present.each (h : b.Present hello ack records earlier) (hearlier : ∀ s ∈ earlier, s.Chained) :
    ∀ s ∈ b.sessions, s.Chained := by
  intro s hs
  rw [h.sessions] at hs
  rcases List.mem_cons.mp hs with rfl | hs
  · exact ⟨ack, records, h.chain, List.prefix_rfl⟩
  · exact hearlier s hs

theorem Sound.chainedEarlier (h : b.Sound) (hpresent : b.Present hello ack records earlier) : ∀ s ∈ earlier, s.Chained := by
  intro s hs
  apply h.each
  rw [hpresent.sessions]
  exact List.mem_cons_of_mem _ hs

/-- Soundness is about the pipes and the numbers. -/
theorem Sound.congr (h : b.Sound) {b' : FeedBridge} (hsessions : b'.sessions = b.sessions)
    (hconnected : b'.connected = b.connected) (hopen : b'.handleOpen = b.handleOpen)
    (hepoch : b'.sessionEpoch = b.sessionEpoch) (hsequence : b'.sequence = b.sequence) : b'.Sound := by
  refine ⟨fun s hs => h.each s (hsessions ▸ hs), fun hpipe => ?_⟩
  obtain ⟨hello, ack, records, earlier, hpresent⟩ := h.present (hconnected ▸ hpipe)
  exact ⟨hello, ack, records, earlier, hopen.trans hpresent.handle, hsessions.trans hpresent.sessions,
    hpresent.chain, hpresent.epoch.trans hepoch.symm, hsequence.trans hpresent.sequence⟩

theorem sent_congr {b b' : FeedBridge} (h : b'.sessions = b.sessions) : b'.sent = b.sent := by
  funext symbol
  unfold sent
  rw [h]

/-- The ticks that a send adds to the pipe of a symbol, if the record got there to its end. -/
theorem send_spec (h : b.Sound) (hconnected : b.connected = true) {r : WireRecord} (hdue : b.Due r) :
    let done := b.send world timeLocal r
    done.2.Sound ∧ done.2.history = b.history ∧ done.2.lastTickMsc = b.lastTickMsc ∧ done.2.copyCalls = b.copyCalls ∧
      done.2.connected = done.1 ∧ ∀ symbol, done.2.sent symbol =
        b.sent symbol ++ (if done.1 then (WireRecord.tickOf symbol r).toList else []) := by
  intro done
  obtain ⟨hello, ack, records, earlier, hpresent⟩ := h.present hconnected
  have hearlier := h.chainedEarlier hpresent
  rcases send_cases world timeLocal hpresent hconnected hdue with
    ⟨r', hr', hok, hnext, hstate⟩ | ⟨r', taken, hr', htaken, hchain, hok, hstate⟩
  · have hdone : done.2 = _ := hstate
    have hflag : done.1 = true := hok
    rw [hflag]
    refine ⟨⟨hnext.each hearlier, fun _ => ⟨hello, ack, records ++ [r'], earlier, hnext⟩⟩, ?_, ?_, ?_, ?_, ?_⟩
    · rw [hdone]
    · rw [hdone]
    · rw [hdone]
    · rw [hdone]
      exact hconnected
    · intro symbol
      rw [sent_cons hnext.sessions, sent_cons hpresent.sessions, Session.records_whole, Session.records_whole,
        List.map_append, List.filterMap_append, List.append_assoc, if_pos rfl, List.map_singleton, hr']
      cases htick : WireRecord.tickOf symbol r with
      | none => rw [List.filterMap_cons_none htick]; rfl
      | some tick => rw [List.filterMap_cons_some htick]; rfl
  · have hdone : done.2 = _ := hstate
    have hflag : done.1 = false := hok
    have hsessions : done.2.sessions = ⟨hello, chainBytes ack records ++ r.image.take taken⟩ :: earlier := by
      rw [hdone]
    rw [hflag]
    refine ⟨⟨?_, ?_⟩, ?_, ?_, ?_, ?_, ?_⟩
    · intro s hs
      rw [hsessions] at hs
      rcases List.mem_cons.mp hs with rfl | hs
      · refine ⟨ack, records ++ [r'], hchain, ?_⟩
        rw [chainBytes_snoc, hr']
        exact (List.prefix_append_right_inj _).mpr (List.take_prefix _ _)
      · exact hearlier s hs
    · rw [hdone]
      exact fun hopen => Bool.noConfusion hopen
    · rw [hdone]
    · rw [hdone]
    · rw [hdone]
    · rw [hdone]
    · intro symbol
      subst hr'
      rw [sent_cons hsessions, sent_cons hpresent.sessions, Session.records_torn htaken, Session.records_whole,
        if_neg Bool.false_ne_true, List.append_nil]

/-- These ticks of the symbol went into the pipe, and the watermark went with them. -/
structure Sends (symbol : Symbol) (ticks : List MqlTick) (b b' : FeedBridge) : Prop where
  sound : b'.Sound
  history : b'.history = b.history
  sent : b'.sent = Function.update b.sent symbol (b.sent symbol ++ ticks)
  mark : b'.lastTickMsc =
    Function.update b.lastTickMsc symbol ((ticks.getLast?.map MqlTick.timeMsc).getD (b.lastTickMsc symbol))

theorem Sends.none (symbol : Symbol) (h : b.Sound) : Sends symbol [] b b := by
  refine ⟨h, rfl, ?_, ?_⟩
  · rw [List.append_nil, Function.update_eq_self]
  · exact (Function.update_eq_self symbol b.lastTickMsc).symm

theorem tickOf_tickRecord (b : FeedBridge) (symbol other : Symbol) (tick : MqlTick) :
    WireRecord.tickOf other (.marketData (b.tickRecord world symbol tick)) =
      if other = symbol then some tick else none := by
  have hids : ∀ i j : Symbol, UInt32.ofNat i.val = UInt32.ofNat j.val ↔ j = i := by decide
  unfold WireRecord.tickOf tickRecord MdRecord.tick
  dsimp only
  by_cases hsame : other = symbol
  · rw [if_pos ((hids symbol other).mpr hsame), if_pos hsame]
  · rw [if_neg fun heq => hsame ((hids symbol other).mp heq), if_neg hsame]

/-- `SendTick`, and the watermark behind it. -/
theorem sendTick_spec (h : b.Sound) (hconnected : b.connected = true) (symbol : Symbol) (tick : MqlTick) :
    let done := b.sendTick world timeLocal symbol tick
    done.2.connected = done.1 ∧ (done.1 = false → Sends symbol [] b done.2) ∧
      (done.1 = true → Sends symbol [tick] b
        { done.2 with lastTickMsc := Function.update done.2.lastTickMsc symbol tick.timeMsc }) := by
  intro done
  have hdue : b.Due (.marketData (b.tickRecord world symbol tick)) := rfl
  obtain ⟨hsound, hhistory, hmark, -, hflag, hsent⟩ := send_spec world timeLocal h hconnected hdue
  refine ⟨hflag, fun hfailed => ?_, fun hok => ?_⟩
  · refine ⟨hsound, hhistory, ?_, ?_⟩
    · funext other
      rw [show done.2.sent other = _ from hsent other]
      rw [show (b.send world timeLocal (.marketData (b.tickRecord world symbol tick))).1 = false from hfailed]
      rw [if_neg Bool.false_ne_true, List.append_nil, List.append_nil, Function.update_eq_self]
    · rw [show done.2.lastTickMsc = _ from hmark]
      exact (Function.update_eq_self symbol b.lastTickMsc).symm
  · refine ⟨hsound.congr rfl rfl rfl rfl rfl, hhistory, ?_, ?_⟩
    · have hsessions : ({ done.2 with lastTickMsc := Function.update done.2.lastTickMsc symbol tick.timeMsc } :
          FeedBridge).sessions = done.2.sessions := rfl
      refine (sent_congr hsessions).trans ?_
      funext other
      rw [show done.2.sent other = _ from hsent other]
      rw [show (b.send world timeLocal (.marketData (b.tickRecord world symbol tick))).1 = true from hok]
      rw [if_pos rfl, tickOf_tickRecord]
      by_cases hsame : other = symbol
      · rw [if_pos hsame, hsame, Function.update_self]
        rfl
      · rw [if_neg hsame, Function.update_of_ne hsame, Option.toList_none, List.append_nil]
    · dsimp only
      rw [show done.2.lastTickMsc = _ from hmark]
      rfl

theorem Sends.trans {symbol : Symbol} {xs ys : List MqlTick} {b b' b'' : FeedBridge} (h : Sends symbol xs b b')
    (h' : Sends symbol ys b' b'') : Sends symbol (xs ++ ys) b b'' := by
  refine ⟨h'.sound, h'.history.trans h.history, ?_, ?_⟩
  · rw [h'.sent, h.sent, Function.update_self, Function.update_idem, List.append_assoc]
  · rw [h'.mark, h.mark, Function.update_self, Function.update_idem, List.getLast?_append]
    cases ys.getLast? with
    | none => rfl
    | some tick => rfl

/-- The inner loop sends a front of its ticks, and all of them if it does not return. -/
theorem sendTicks_spec (symbol : Symbol) (ticks : List MqlTick) : ∀ b : FeedBridge, b.Sound → b.connected = true →
    ∃ front, front <+: ticks ∧ Sends symbol front b (sendTicks world timeLocal symbol ticks b).2 ∧
      ((sendTicks world timeLocal symbol ticks b).1 = true →
        front = ticks ∧ (sendTicks world timeLocal symbol ticks b).2.connected = true) := by
  induction ticks with
  | nil => exact fun b h hconnected => ⟨[], List.prefix_rfl, .none symbol h, fun _ => ⟨rfl, hconnected⟩⟩
  | cons tick ticks ih =>
    intro b h hconnected
    obtain ⟨hflag, hfailed, hok⟩ := sendTick_spec world timeLocal h hconnected symbol tick
    unfold sendTicks
    dsimp only
    cases hdone : (b.sendTick world timeLocal symbol tick).1 with
    | false =>
      rw [if_pos (by rfl)]
      exact ⟨[], List.nil_prefix, hfailed hdone, fun htrue => Bool.noConfusion htrue⟩
    | true =>
      rw [Bool.not_true, if_neg Bool.false_ne_true]
      have hfirst := hok hdone
      obtain ⟨front, hfront, hsends, hall⟩ := ih _ hfirst.sound (hflag.trans hdone)
      refine ⟨tick :: front, (List.prefix_cons_inj tick).mpr hfront, hfirst.trans hsends, fun htrue => ?_⟩
      obtain ⟨rfl, hopen⟩ := hall htrue
      exact ⟨rfl, hopen⟩

/-- A step that adds no tick to what was sent and leaves the watermarks alone. -/
structure Quiet (b b' : FeedBridge) : Prop where
  sound : b'.Sound
  history : b'.history = b.history
  sent : b'.sent = b.sent
  mark : b'.lastTickMsc = b.lastTickMsc

/-- What batches and quiet steps keep is kept by every callback. -/
structure Kept (P : FeedBridge → Prop) : Prop where
  sound : ∀ b, P b → b.Sound
  quiet : ∀ b b', P b → Quiet b b' → P b'
  batch : ∀ b b' symbol front count, P b → Sends symbol front b b' →
    front <+: copyTicks (b.history symbol) (if b.lastTickMsc symbol = 0 then 0 else b.lastTickMsc symbol + 1) count →
      P b'

section Callbacks
variable {P : FeedBridge → Prop}

theorem Kept.drainSymbols (hkept : Kept P) (symbols : List Symbol) : ∀ b : FeedBridge, P b → b.connected = true →
    P (FeedBridge.drainSymbols world timeLocal symbols b) := by
  induction symbols with
  | nil => exact fun b h _ => h
  | cons symbol symbols ih =>
    intro b h hconnected
    have hcalled : P { b with copyCalls := b.copyCalls + 1 } :=
      hkept.quiet b _ h ⟨(hkept.sound b h).congr rfl rfl rfl rfl rfl, rfl, rfl, rfl⟩
    unfold FeedBridge.drainSymbols
    dsimp only
    generalize hstart : (if b.lastTickMsc symbol = 0 then 0 else b.lastTickMsc symbol + 1) = start
    obtain ⟨front, hfront, hsends, hall⟩ := sendTicks_spec world timeLocal symbol
      (copyTicks (b.history symbol) start (min 256 (world.copies b.copyCalls))) _ (hkept.sound _ hcalled) hconnected
    have hbatch := hkept.batch _ _ symbol front _ hcalled hsends (by dsimp only; rw [hstart]; exact hfront)
    split
    · exact hbatch
    · rename_i hgoes
      rw [Bool.not_eq_true, Bool.not_eq_false'] at hgoes
      exact ih _ hbatch (hall hgoes).2

theorem Kept.drainTicks (hkept : Kept P) (h : P b) : P (b.drainTicks world timeLocal) := by
  unfold FeedBridge.drainTicks
  split
  · exact h
  · rename_i hconnected
    rw [Bool.not_eq_true, Bool.not_eq_false'] at hconnected
    exact hkept.drainSymbols world timeLocal _ b h hconnected

theorem sendHeartbeat_quiet (h : b.Sound) (hconnected : b.connected = true) : Quiet b (b.sendHeartbeat world timeLocal) := by
  have hdue : b.Due (.heartbeat (b.heartbeatRecord world)) := rfl
  obtain ⟨hsound, hhistory, hmark, -, -, hsent⟩ := send_spec world timeLocal h hconnected hdue
  refine ⟨hsound, hhistory, ?_, hmark⟩
  funext symbol
  refine (hsent symbol).trans ?_
  split
  · exact List.append_nil _
  · exact List.append_nil _

/-- A session that starts holds its acknowledgement, or the front of one behind a closed pipe. -/
theorem acknowledge_quiet (h : b.Sound) (hclosed : b.connected = false)
    (hgreeting : hello.recordPrefix.magic = protocolMagic ∧ hello.recordPrefix.version = protocolVersion) :
    let tried := b.acknowledge world hello
    Quiet b tried.2 ∧ tried.2.connected = false ∧ (tried.1 = .connected →
      ∃ ack, tried.2.Present hello ack [] b.sessions) := by
  intro tried
  let opened : FeedBridge := { b with
    handleOpen := true
    sessionEpoch := hello.recordPrefix.sessionEpoch
    sessions := ⟨hello, []⟩ :: b.sessions }
  let ack := opened.ackRecord world
  have hchain : Chain hello ack [] := ⟨hgreeting, rfl, rfl, rfl, fun r hr => absurd hr List.not_mem_nil, trivial⟩
  obtain ⟨taken, htaken, hwrite⟩ := writeStruct_open world { opened with sequence := b.sequence + 1 } rfl
    (show _ = _ :: b.sessions from rfl) (helloAckLayout.write ack)
  have hlength : (helloAckLayout.write ack).length = helloAckLayout.width := helloAckLayout.length_write ack
  have htried : tried = b.acknowledge world hello := rfl
  unfold acknowledge at htried
  dsimp only at htried
  rw [hwrite] at htried
  dsimp only at htried
  have hbytes : ∀ s : Session, s = ⟨hello, [] ++ (helloAckLayout.write ack).take taken⟩ → s.Chained ∧ s.records = [] := by
    rintro s rfl
    refine ⟨⟨ack, [], hchain, ?_⟩, Session.records_short ?_⟩
    · rw [List.nil_append]
      exact (List.take_prefix _ _).trans (List.prefix_append _ _)
    · dsimp only
      rw [List.nil_append, List.length_take]
      omega
  have hsent : ∀ b' : FeedBridge, b'.sessions = ⟨hello, [] ++ (helloAckLayout.write ack).take taken⟩ :: b.sessions →
      b'.sent = b.sent := by
    intro b' hsessions
    funext symbol
    rw [sent_cons hsessions, (hbytes _ rfl).2, List.filterMap_nil, List.append_nil]
    rfl
  have heach : ∀ s ∈ (⟨hello, [] ++ (helloAckLayout.write ack).take taken⟩ : Session) :: b.sessions, s.Chained := by
    intro s hs
    rcases List.mem_cons.mp hs with hs | hs
    · exact (hbytes s hs).1
    · exact h.each s hs
  by_cases hall : taken = (helloAckLayout.write ack).length
  · rw [decide_eq_true hall, if_pos rfl] at htried
    rw [htried]
    refine ⟨⟨⟨heach, fun hopen => ?_⟩, rfl, hsent _ rfl, rfl⟩, hclosed, fun _ => ⟨ack, rfl, ?_, hchain, rfl, ?_⟩⟩
    · rw [show b.connected = true from hopen] at hclosed
      cases hclosed
    · dsimp only
      rw [hall, List.take_length, List.nil_append]
      unfold chainBytes
      rw [wireCodec.concat_nil, List.append_nil]
    · exact (UInt64.add_zero (b.sequence + 1)).symm
  · rw [decide_eq_false hall, if_neg Bool.false_ne_true] at htried
    rw [htried]
    refine ⟨⟨⟨heach, fun hopen => ?_⟩, rfl, hsent _ rfl, rfl⟩, hclosed, fun hverdict => ConnectVerdict.noConfusion hverdict⟩
    rw [show b.connected = true from hopen] at hclosed
    cases hclosed

theorem tryConnect_quiet (h : b.Sound) (hclosed : b.connected = false) (greeting : Option HelloRecord) :
    let tried := b.tryConnect world greeting
    Quiet b tried.2 ∧ tried.2.connected = false ∧ (tried.1 = .connected →
      ∃ hello ack, tried.2.Present hello ack [] b.sessions) := by
  intro tried
  have hshut : Quiet b { b with handleOpen := false } := by
    refine ⟨⟨h.each, fun hopen => ?_⟩, rfl, rfl, rfl⟩
    rw [show b.connected = true from hopen] at hclosed
    cases hclosed
  have htried : tried = b.tryConnect world greeting := rfl
  unfold tryConnect at htried
  dsimp only at htried
  cases greeting with
  | none =>
    rw [htried]
    exact ⟨hshut, hclosed, fun hverdict => ConnectVerdict.noConfusion hverdict⟩
  | some hello =>
    dsimp only at htried
    by_cases hformat : hello.recordPrefix.magic ≠ protocolMagic ∨ hello.recordPrefix.version ≠ protocolVersion
    · rw [htried, if_pos hformat]
      exact ⟨hshut, hclosed, fun hverdict => ConnectVerdict.noConfusion hverdict⟩
    by_cases haccount : hello.accountExpected ≠ b.expectedAccount
    · rw [htried, if_neg hformat, if_pos haccount]
      exact ⟨hshut, hclosed, fun hverdict => ConnectVerdict.noConfusion hverdict⟩
    by_cases hsymbols : hello.symbolSetHash ≠ b.symbolHash
    · rw [htried, if_neg hformat, if_neg haccount, if_pos hsymbols]
      exact ⟨hshut, hclosed, fun hverdict => ConnectVerdict.noConfusion hverdict⟩
    · rw [htried, if_neg hformat, if_neg haccount, if_neg hsymbols]
      obtain ⟨hquiet, hstill, hpresent⟩ := acknowledge_quiet world hshut.sound hclosed
        ⟨not_not.mp fun hmagic => hformat (.inl hmagic), not_not.mp fun hversion => hformat (.inr hversion)⟩
      refine ⟨⟨hquiet.sound, hquiet.history, hquiet.sent, hquiet.mark⟩, hstill, fun hverdict => ?_⟩
      obtain ⟨ack, hack⟩ := hpresent hverdict
      exact ⟨hello, ack, hack⟩

/-- A bridge that connects. -/
theorem Present.connect {tried : FeedBridge} (h : tried.Present hello ack [] earlier) (hsound : tried.Sound) :
    Quiet tried { tried with connected := true } :=
  ⟨⟨hsound.each, fun _ => ⟨hello, ack, [], earlier, h.handle, h.sessions, h.chain, h.epoch, h.sequence⟩⟩, rfl, rfl, rfl⟩

theorem Quiet.trans {b b' b'' : FeedBridge} (h : Quiet b b') (h' : Quiet b' b'') : Quiet b b'' :=
  ⟨h'.sound, h'.history.trans h.history, h'.sent.trans h.sent, h'.mark.trans h.mark⟩

theorem Sound.still (h : b.Sound) {b' : FeedBridge} (hsessions : b'.sessions = b.sessions)
    (hconnected : b'.connected = false) (hhistory : b'.history = b.history) (hmark : b'.lastTickMsc = b.lastTickMsc) :
    Quiet b b' := by
  refine ⟨⟨fun s hs => h.each s (hsessions ▸ hs), fun hopen => ?_⟩, hhistory, sent_congr hsessions, hmark⟩
  rw [hopen] at hconnected
  cases hconnected

theorem maybeReconnect_quiet (h : b.Sound) (hclosed : b.connected = false) (greeting : Option HelloRecord) :
    Quiet b (b.maybeReconnect world timeLocal greeting) := by
  obtain ⟨hquiet, hstill, hpresent⟩ := tryConnect_quiet world h hclosed greeting
  unfold maybeReconnect
  split
  · exact ⟨h, rfl, rfl, rfl⟩
  dsimp only
  cases hverdict : (b.tryConnect world greeting).1 with
  | connected =>
    obtain ⟨hello, ack, hack⟩ := hpresent hverdict
    exact hquiet.trans (hack.connect hquiet.sound)
  | refused => exact hquiet.trans (hquiet.sound.still rfl hstill rfl rfl)
  | unavailable => exact hquiet.trans (hquiet.sound.still rfl hstill rfl rfl)

/-- What batches and quiet steps keep is kept by the terminal's calls. -/
theorem Kept.step (hkept : Kept P) (h : P b) {event : BridgeEvent} (hcall : ∀ symbol tick, event ≠ .tick symbol tick) :
    P (b.step world event) := by
  have hsound := hkept.sound b h
  cases event with
  | tick symbol tick => exact absurd rfl (hcall symbol tick)
  | onTick timeLocal =>
    unfold FeedBridge.step
    dsimp only
    split
    · exact h
    · exact hkept.drainTicks world timeLocal h
  | onBookEvent symbol timeLocal =>
    unfold FeedBridge.step
    dsimp only
    split
    · exact h
    · exact hkept.drainTicks world timeLocal
        (hkept.quiet b _ h ⟨hsound.congr rfl rfl rfl rfl rfl, rfl, rfl, rfl⟩)
  | onTimer timeLocal greeting =>
    unfold FeedBridge.step
    dsimp only
    split
    · exact h
    cases hconnected : b.connected with
    | false => exact hkept.quiet b _ h (maybeReconnect_quiet world timeLocal hsound hconnected greeting)
    | true =>
      have hdrained := hkept.drainTicks world timeLocal h
      rw [Bool.not_true, if_neg Bool.false_ne_true]
      split
      · rename_i hopen
        exact hkept.quiet _ _ hdrained (sendHeartbeat_quiet world timeLocal (hkept.sound _ hdrained) hopen)
      · exact hdrained
  | onDeinit => exact hkept.quiet b _ h (hsound.still rfl rfl rfl rfl)

theorem Kept.onInit (hkept : Kept P) (h : P b) (hclosed : b.connected = false) {login : UInt64} {marginMode : UInt32}
    {greeting : Option HelloRecord} {started : FeedBridge}
    (hstart : b.onInit world login marginMode timeLocal greeting = some started) : P started := by
  have hsound := hkept.sound b h
  obtain ⟨hquiet, hstill, hpresent⟩ := tryConnect_quiet world hsound hclosed greeting
  unfold FeedBridge.onInit at hstart
  split_ifs at hstart
  dsimp only at hstart
  cases hverdict : (b.tryConnect world greeting).1 with
  | connected =>
    rw [hverdict] at hstart
    cases hstart
    obtain ⟨hello, ack, hack⟩ := hpresent hverdict
    exact hkept.quiet b _ h (hquiet.trans (hack.connect hquiet.sound))
  | refused =>
    rw [hverdict] at hstart
    cases hstart
  | unavailable =>
    rw [hverdict] at hstart
    cases hstart
    exact hkept.quiet b _ h (hquiet.trans (hquiet.sound.still rfl hstill rfl rfl))

end Callbacks

end Sending

/-! ## Runs -/

/-- The expert adviser before `OnInit`. -/
def create (expectedAccount : UInt64) (expectedMarginMode : UInt32) (reconnectSeconds : Nat)
    (serverHash symbolHash : Vector UInt8 32) : FeedBridge where
  expectedAccount := expectedAccount
  expectedMarginMode := expectedMarginMode
  reconnectSeconds := reconnectSeconds
  serverHash := serverHash
  symbolHash := symbolHash

theorem create_sound (expectedAccount : UInt64) (expectedMarginMode : UInt32) (reconnectSeconds : Nat)
    (serverHash symbolHash : Vector UInt8 32) :
    (create expectedAccount expectedMarginMode reconnectSeconds serverHash symbolHash).Sound :=
  ⟨fun _ hs => absurd hs List.not_mem_nil, fun hopen => Bool.noConfusion hopen⟩

theorem kept_sound : Kept Sound :=
  ⟨fun _ h => h, fun _ _ _ hquiet => hquiet.sound, fun _ _ _ _ _ _ hsends _ => hsends.sound⟩

theorem step_sound (world : Surroundings) {b : FeedBridge} (h : b.Sound) (event : BridgeEvent) :
    (b.step world event).Sound := by
  cases event with
  | tick symbol tick => exact h.congr rfl rfl rfl rfl rfl
  | onTick timeLocal => exact kept_sound.step world h fun _ _ => BridgeEvent.noConfusion
  | onBookEvent symbol timeLocal => exact kept_sound.step world h fun _ _ => BridgeEvent.noConfusion
  | onTimer timeLocal greeting => exact kept_sound.step world h fun _ _ => BridgeEvent.noConfusion
  | onDeinit => exact kept_sound.step world h fun _ _ => BridgeEvent.noConfusion

end FeedBridge

namespace Session

open Outputs

/-- What the recorder of the session makes of its pipe, wherever it is cut. -/
theorem Chained.accepted {s : Session} (h : s.Chained) (serverHash : Vector UInt8 32) (marginMode : UInt32)
    (cut : Nat) (pace : Nat → Nat) :
    let shaken := handshake s.hello serverHash marginMode ⟨s.bytes.take cut, pace, 0⟩
    (min cut s.bytes.length < helloAckLayout.width → shaken.1 = .badMagic) ∧
      (helloAckLayout.width ≤ min cut s.bytes.length →
        shaken.1 ≠ .badMagic ∧ shaken.1 ≠ .badVersion ∧ shaken.1 ≠ .staleEpoch ∧
          ∃ records : List TypedRecord, recordsRead shaken.2 = records.map Subtype.val ∧
            (∀ r ∈ records, r.1.BelongsTo s.hello.recordPrefix.sessionEpoch) ∧
            ∃ start, Consecutive start (records.map Subtype.val)) := by
  intro shaken
  obtain ⟨ack, records, hchain, hleading⟩ := h
  have hshaken : shaken = handshake s.hello serverHash marginMode ⟨s.bytes.take cut, pace, 0⟩ := rfl
  unfold handshake at hshaken
  dsimp only at hshaken
  rw [PacedStream.readExact_value, List.length_take] at hshaken
  constructor
  · intro hshort
    rw [hshaken, if_neg (Nat.not_le.mpr hshort)]
  · intro hwhole
    have hitems : (⟨s.bytes.take cut, pace, 0⟩ : PipeStream).items = s.bytes.take cut := rfl
    -- what is read is the front of the chain
    obtain ⟨behind, hbehind⟩ := hleading
    have htake : s.bytes.take cut = (chainBytes ack records).take (min cut s.bytes.length) := by
      rw [← hbehind, List.take_append_of_le_length (Nat.min_le_right _ _), ← List.take_take, List.take_length]
    have hfront : (s.bytes.take cut).take helloAckLayout.width = helloAckLayout.write ack := by
      rw [htake, List.take_take, Nat.min_eq_left hwhole, chainBytes, List.take_left' (helloAckLayout.length_write ack)]
    have hrest : (s.bytes.take cut).drop helloAckLayout.width =
        (wireCodec.concat records).take (min cut s.bytes.length - helloAckLayout.width) := by
      rw [htake, List.drop_take, chainBytes, helloAckLayout.drop_append]
    rw [if_pos hwhole, hitems, hfront] at hshaken
    dsimp only at hshaken
    rw [helloAckLayout.read_write] at hshaken
    have hverdict : shaken.1 = validateHandshake s.hello ack serverHash marginMode := by rw [hshaken]
    have hstream : shaken.2.items = (s.bytes.take cut).drop helloAckLayout.width := by
      rw [hshaken]
      exact PacedStream.readExact_items _ _
    have hpassed : validateHandshake s.hello ack serverHash marginMode =
        if s.hello.accountExpected ≠ ack.accountActual then .accountMismatch
        else if ack.serverHash ≠ serverHash then .serverMismatch
        else if ack.accountMarginMode ≠ marginMode then .marginModeMismatch
        else .accept := by
      unfold validateHandshake
      rw [if_neg (by simp [hchain.greeting.1, hchain.magic]), if_neg (by simp [hchain.greeting.2, hchain.version]),
        if_neg (by simp [hchain.epoch])]
    rw [hverdict, hpassed]
    obtain ⟨n, hn, hscan, -⟩ := wireCodec.scan_take records (min cut s.bytes.length - helloAckLayout.width)
    refine ⟨?_, ?_, ?_, records.take n, ?_, ?_, ack.recordPrefix.sequence, ?_⟩
    · split_ifs <;> exact HandshakeVerdict.noConfusion
    · split_ifs <;> exact HandshakeVerdict.noConfusion
    · split_ifs <;> exact HandshakeVerdict.noConfusion
    · rw [recordsRead_eq, hstream, hrest, hscan]
    · exact fun r hr => hchain.belongs r (List.mem_of_mem_take hr)
    · have hall := hchain.consecutive
      rw [← List.take_append_drop n records, List.map_append, consecutive_append] at hall
      exact hall.1

end Session

def brokenSurroundings : Surroundings where
  terminal _ := { accountLogin := 1234 }
  takes write := if write = 2 then 20 else 256
  copies _ := 256

def zeroHash : Vector UInt8 32 := Vector.replicate 32 0

def greetingOf (epoch : UInt64) : HelloRecord where
  recordPrefix := ⟨protocolMagic, protocolVersion, RecordType.hello.code, epoch, 1⟩
  accountExpected := 1234
  symbolSetHash := zeroHash

def greetedBridge : FeedBridge :=
  { FeedBridge.create 1234 2 5 zeroHash zeroHash with
    handleOpen := true
    sessionEpoch := 55
    sessions := [⟨greetingOf 55, []⟩] }

def firstSession : Session := ⟨greetingOf 55, helloAckLayout.write (greetedBridge.ackRecord brokenSurroundings)⟩

def firstBridge : FeedBridge :=
  { greetedBridge with sequence := 1, sessions := [firstSession], writes := 1, connected := true }

def euro : Symbol := ⟨0, Nat.succ_pos 4⟩

def tickAt (timeMsc : UInt64) : MqlTick where
  timeMsc := timeMsc
  bidTicks := 100
  askTicks := 102
  lastTicks := 0
  volumeReal := 1
  volume := 1
  flags := 6

/-- The second tick is cut off, a third comes during the outage; both go through in the next
session, before a heartbeat. -/
def brokenEvents : List FeedBridge.BridgeEvent :=
  [.tick euro (tickAt 1000), .onTick 1, .tick euro (tickAt 2000), .onTick 2, .tick euro (tickAt 3000), .onTick 3,
    .onTimer 7 (some (greetingOf 56)), .onTick 8, .onTimer 9 none]

def brokenRun : FeedBridge := Runs.run (FeedBridge.step brokenSurroundings) firstBridge brokenEvents

end MicrostructureEngine.Mt5
