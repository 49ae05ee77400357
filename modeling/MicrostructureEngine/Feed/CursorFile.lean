import MicrostructureEngine.Feed.Tailing
import MicrostructureEngine.Lib.Decimal

/-!
# The cursor file

`save_cursor` writes the cursor as text, over the file of before, and `load_cursor` reads two numbers of
it. Of a file that was cut off anywhere no cursor is read, or one of the same segment with no more
records consumed: a tailer that resumes from it delivers records again, and never skips one.
-/

namespace MicrostructureEngine

open Decimal

set_option autoImplicit false

/-! ## The text -/

/-- `isspace`, in the locale of C. -/
def isSpace (c : Char) : Bool := c.toNat == 32 || (decide (9 ≤ c.toNat) && decide (c.toNat ≤ 13))

def readSign : List Char → Bool × List Char
  | '-' :: text => (true, text)
  | '+' :: text => (false, text)
  | text => (false, text)

/-- `>>` of a 64-bit number: white space is passed, and a minus sign wraps. -/
def readNumber (text : List Char) : Option (Nat × List Char) :=
  let signed := readSign (text.dropWhile isSpace)
  let digits := signed.2.takeWhile Char.isDigit
  if digits = [] ∨ value digits ≥ 2 ^ 64 then none
  else
    some (if signed.1 then (2 ^ 64 - value digits) % 2 ^ 64 else value digits, signed.2.dropWhile Char.isDigit)

namespace WalTailer

def saveCursor (cursor : TailCursor) : List Char :=
  Nat.toDigits 10 cursor.segmentIndex ++ ' ' :: (Nat.toDigits 10 cursor.recordsConsumed ++ ['\n'])

def loadCursor (text : List Char) : Option TailCursor :=
  match readNumber text with
  | none => none
  | some (segment, rest) =>
    match readNumber rest with
    | none => none
    | some (frames, _) => some ⟨segment, frames⟩

end WalTailer

/-! ## Numbers in a text -/

theorem not_isSpace_of_isDigit {c : Char} (h : c.isDigit = true) : isSpace c = false := by
  obtain ⟨hlow, -⟩ := digit_bounds h
  simp only [isSpace, Bool.or_eq_false_iff, Bool.and_eq_false_iff, beq_eq_false_iff_ne,
    decide_eq_false_iff_not]
  omega

theorem readSign_of_isDigit {c : Char} (h : c.isDigit = true) (text : List Char) :
    readSign (c :: text) = (false, c :: text) := by
  unfold readSign
  split
  · rename_i hc
    cases hc
    cases h
  · rename_i hc
    cases hc
    cases h
  · rfl

/-- A numeral that no further digit follows is read as its value. -/
theorem readNumber_digits {digits : List Char} (rest : List Char) (hdigits : AllDigits digits)
    (hne : digits ≠ []) (hrest : rest.takeWhile Char.isDigit = []) (hlt : value digits < 2 ^ 64) :
    readNumber (digits ++ rest) = some (value digits, rest.dropWhile Char.isDigit) := by
  cases digits with
  | nil => exact absurd rfl hne
  | cons c digits =>
    have hc := hdigits c List.mem_cons_self
    have hall : ∀ d ∈ c :: digits, d.isDigit = true := hdigits
    have hspace : ((c :: digits) ++ rest).dropWhile isSpace = (c :: digits) ++ rest := by
      rw [List.cons_append, List.dropWhile_cons_of_neg (by rw [not_isSpace_of_isDigit hc]; decide)]
    have htake : ((c :: digits) ++ rest).takeWhile Char.isDigit = c :: digits := by
      rw [List.takeWhile_append_of_pos hall, hrest, List.append_nil]
    have hdrop : ((c :: digits) ++ rest).dropWhile Char.isDigit = rest.dropWhile Char.isDigit :=
      List.dropWhile_append_of_pos hall
    unfold readNumber
    rw [hspace, List.cons_append, readSign_of_isDigit hc]
    dsimp only
    rw [← List.cons_append, htake, hdrop, if_neg (by
      rintro (hnil | hge)
      · cases hnil
      · omega)]
    rfl

theorem readNumber_space (text : List Char) : readNumber (' ' :: text) = readNumber text := rfl

theorem readNumber_nil : readNumber [] = none := rfl

namespace WalTailer

theorem loadCursor_digits {digits : List Char} (hdigits : AllDigits digits) (hlt : value digits < 2 ^ 64) :
    loadCursor digits = none := by
  unfold loadCursor
  by_cases hne : digits = []
  · rw [hne, readNumber_nil]
  · have hnumber := readNumber_digits [] hdigits hne rfl hlt
    rw [List.append_nil] at hnumber
    rw [hnumber]
    rfl

theorem loadCursor_one {digits : List Char} (hdigits : AllDigits digits) (hne : digits ≠ [])
    (hlt : value digits < 2 ^ 64) : loadCursor (digits ++ [' ']) = none := by
  unfold loadCursor
  rw [readNumber_digits _ hdigits hne rfl hlt]
  rfl

theorem loadCursor_two {first second : List Char} (rest : List Char) (hfirst : AllDigits first)
    (hne : first ≠ []) (hlt : value first < 2 ^ 64) (hsecond : AllDigits second) (hne' : second ≠ [])
    (hlt' : value second < 2 ^ 64) (hrest : rest.takeWhile Char.isDigit = []) :
    loadCursor (first ++ ' ' :: (second ++ rest)) = some ⟨value first, value second⟩ := by
  unfold loadCursor
  rw [readNumber_digits _ hfirst hne rfl hlt]
  dsimp only
  rw [List.dropWhile_cons_of_neg (by decide), readNumber_space, readNumber_digits rest hsecond hne' hrest hlt']

/-- Of a file that is cut off anywhere no cursor is read, or one of the same segment with no more records
consumed; and of the whole file, or all of it but its end of line, the one that was saved. -/
theorem loadCursor_cut {cursor : TailCursor} (hsegment : cursor.segmentIndex < 2 ^ 64)
    (hrecords : cursor.recordsConsumed < 2 ^ 64) (n : Nat) :
    (loadCursor ((saveCursor cursor).take n) = none ∧ n + 1 < (saveCursor cursor).length) ∨
      ∃ k ≤ cursor.recordsConsumed, loadCursor ((saveCursor cursor).take n) = some ⟨cursor.segmentIndex, k⟩ ∧
        ((saveCursor cursor).length ≤ n + 1 → k = cursor.recordsConsumed) := by
  have hfirst := allDigits_toDigits cursor.segmentIndex
  have hsecond := allDigits_toDigits cursor.recordsConsumed
  have hvalue := value_toDigits cursor.segmentIndex
  have hvalue' := value_toDigits cursor.recordsConsumed
  have hne := Nat.toDigits_ne_nil (n := cursor.segmentIndex) (b := 10)
  have hne' := Nat.toDigits_ne_nil (n := cursor.recordsConsumed) (b := 10)
  unfold saveCursor
  generalize Nat.toDigits 10 cursor.segmentIndex = first at hfirst hvalue hne ⊢
  generalize Nat.toDigits 10 cursor.recordsConsumed = second at hsecond hvalue' hne' ⊢
  have hlt : value first < 2 ^ 64 := by rw [hvalue]; exact hsegment
  have hlt' : value second < 2 ^ 64 := by rw [hvalue']; exact hrecords
  have hpos := List.length_pos_iff.mpr hne'
  have hlength : (first ++ ' ' :: (second ++ ['\n'])).length = first.length + second.length + 2 := by
    simp only [List.length_append, List.length_cons, List.length_nil]
    omega
  rw [hlength, ← hvalue, ← hvalue']
  by_cases hshort : n ≤ first.length
  · -- cut inside the first number
    left
    rw [List.take_append_of_le_length hshort]
    refine ⟨loadCursor_digits (fun c hc => hfirst c (List.mem_of_mem_take hc)) ?_, by omega⟩
    exact Nat.lt_of_le_of_lt (value_take_le first n) hlt
  obtain ⟨m, rfl⟩ : ∃ m, n = first.length + (m + 1) := ⟨n - first.length - 1, by omega⟩
  rw [List.take_length_add_append, List.take_succ_cons]
  by_cases hcut : m ≤ second.length
  · -- cut inside the second number
    rw [List.take_append_of_le_length hcut]
    by_cases hzero : m = 0
    · left
      rw [hzero, List.take_zero]
      exact ⟨loadCursor_one hfirst hne hlt, by omega⟩
    · right
      have hle := value_take_le second m
      have htake : second.take m ≠ [] := by
        intro hnil
        have hmin := congrArg List.length hnil
        rw [List.length_take, List.length_nil] at hmin
        omega
      have hload := loadCursor_two [] hfirst hne hlt
        (fun c hc => hsecond c (List.mem_of_mem_take hc)) htake (Nat.lt_of_le_of_lt hle hlt') rfl
      rw [List.append_nil] at hload
      refine ⟨value (second.take m), hle, hload, ?_⟩
      intro hfull
      rw [List.take_of_length_le (by omega)]
  · right
    have hall : (second ++ ['\n']).take m = second ++ ['\n'] := by
      apply List.take_of_length_le
      rw [List.length_append, List.length_singleton]
      omega
    rw [hall]
    exact ⟨value second, Nat.le_refl _, loadCursor_two _ hfirst hne hlt hsecond hne' hlt' rfl, fun _ => rfl⟩

end WalTailer

/-! ## Behind a crash -/

namespace Tailing
variable {ρ : Type} {S : RecordStream ρ} {first : Nat} {parts : List (List Frame)}

def writes : TailingAction ρ → Bool
  | .append .. | .rotate .. | .finalize .. | .relist .. => true
  | _ => false

/-- The two systems differ in their tailers only. -/
structure SameLog (s s' : Tailing ρ) : Prop where
  disk : s.disk = s'.disk
  writer : s.writer = s'.writer
  appended : s.appended = s'.appended

structure SameTailer (s s' : Tailing ρ) : Prop where
  tailer : s.tailer = s'.tailer
  delivered : s.delivered = s'.delivered

theorem SameLog.step_write {s s' : Tailing ρ} (h : SameLog s s') {a : TailingAction ρ} (hwrites : writes a = true) :
    SameLog (step S s a) (step S s' a) ∧ SameTailer (step S s' a) s' := by
  obtain ⟨hdisk, hwriter, happended⟩ := h
  cases a with
  | append nowNs system record =>
    unfold step
    dsimp only
    rw [hdisk, hwriter]
    cases s'.writer.appendRotating nowNs system (S.call record) s'.disk with
    | none => exact ⟨⟨hdisk, hwriter, happended⟩, ⟨rfl, rfl⟩⟩
    | some answer => exact ⟨⟨rfl, rfl, by rw [happended]⟩, ⟨rfl, rfl⟩⟩
  | rotate nowNs system =>
    unfold step
    dsimp only
    rw [hdisk, hwriter]
    exact ⟨⟨rfl, rfl, happended⟩, ⟨rfl, rfl⟩⟩
  | finalize system =>
    unfold step
    dsimp only
    rw [hdisk, hwriter]
    exact ⟨⟨rfl, rfl, happended⟩, ⟨rfl, rfl⟩⟩
  | relist files =>
    unfold step
    dsimp only
    rw [hdisk]
    split
    · exact ⟨⟨rfl, hwriter, happended⟩, ⟨rfl, rfl⟩⟩
    · exact ⟨⟨hdisk, hwriter, happended⟩, ⟨rfl, rfl⟩⟩
  | call => cases hwrites
  | rescan => cases hwrites
  | read => cases hwrites
  | next => cases hwrites
  | restart => cases hwrites

theorem turn_sameLog (s : Tailing ρ) (on : Phase) (turned : Turn ρ) : SameLog (s.turn on turned) s := by
  cases turned with
  | returns status out t => exact ⟨rfl, rfl, rfl⟩
  | goesOn t => exact ⟨rfl, rfl, rfl⟩

theorem step_sameLog (s : Tailing ρ) {a : TailingAction ρ} (hreads : writes a = false) : SameLog (step S s a) s := by
  cases a with
  | append nowNs system record => cases hreads
  | rotate nowNs system => cases hreads
  | finalize system => cases hreads
  | relist files => cases hreads
  | call =>
    unfold step
    dsimp only
    split
    · exact turn_sameLog s _ _
    · exact ⟨rfl, rfl, rfl⟩
  | rescan =>
    unfold step
    dsimp only
    split
    · exact turn_sameLog s _ _
    · exact ⟨rfl, rfl, rfl⟩
  | read =>
    unfold step
    dsimp only
    split
    · exact turn_sameLog s _ _
    · exact ⟨rfl, rfl, rfl⟩
  | next =>
    unfold step
    dsimp only
    split
    · exact ⟨rfl, rfl, rfl⟩
    · exact ⟨rfl, rfl, rfl⟩
  | restart =>
    unfold step
    dsimp only
    split
    · exact ⟨rfl, rfl, rfl⟩
    · exact ⟨rfl, rfl, rfl⟩

theorem run_writes {s s' : Tailing ρ} (h : SameLog s s') (actions : List (TailingAction ρ)) :
    SameLog (Runs.run (step S) s actions) (Runs.run (step S) s' (actions.filter writes)) ∧
      SameTailer (Runs.run (step S) s' (actions.filter writes)) s' := by
  induction actions generalizing s s' with
  | nil => exact ⟨h, ⟨rfl, rfl⟩⟩
  | cons a actions ih =>
    rw [Runs.run_cons]
    cases hwrites : writes a with
    | true =>
      rw [List.filter_cons_of_pos hwrites, Runs.run_cons]
      obtain ⟨hlog, htailer⟩ := h.step_write (S := S) hwrites
      obtain ⟨hrun, hrest⟩ := ih hlog
      exact ⟨hrun, hrest.tailer.trans htailer.tailer, hrest.delivered.trans htailer.delivered⟩
    | false =>
      rw [List.filter_cons_of_neg (by rw [hwrites]; exact Bool.false_ne_true)]
      have hsame := step_sameLog (S := S) s hwrites
      exact ih ⟨hsame.disk.trans h.disk, hsame.writer.trans h.writer, hsame.appended.trans h.appended⟩

/-- A new tailer at any position of the log delivers what stands behind it. -/
theorem Good.resumed {s : Tailing ρ} (h : Good S first parts s) (cursor : TailCursor)
    (hwithin : SegmentedLog.Within (S.log parts) cursor.segmentIndex cursor.recordsConsumed) :
    ∃ rest, s.appended = SegmentedLog.upTo (S.log parts) cursor.segmentIndex cursor.recordsConsumed ++ rest ∧
      ∀ k, ((Tailer.openDirectory (some s.disk)).resume cursor).answers S.toRecordReader s.disk (rest.length + k) =
        rest.map (fun record => (.ok, some record)) ++ List.replicate k (.idle, none) := by
  have hresumed : Good S first parts { s with
      tailer := (Tailer.openDirectory (some s.disk)).resume cursor
      phase := .outside
      delivered := SegmentedLog.upTo (S.log parts) cursor.segmentIndex cursor.recordsConsumed } := by
    refine ⟨h.writes, h.width, h.appended, hwithin, rfl, rfl, List.nil_prefix, fun _ => rfl, ?_⟩
    intro hlisted
    cases hlisted
  obtain ⟨rest, hrest⟩ := hresumed.prefix_appended
  exact ⟨rest, hrest.symm, fun k => hresumed.answers k rest hrest.symm⟩

end Tailing

/-- A process that starts anew opens the directory and resumes from the cursor file, if it can be read. -/
def WalTailer.reopened (D : Directory) (text : List Char) : Tailer FixedEvent :=
  match loadCursor text with
  | none => Tailer.openDirectory (some D)
  | some cursor => (Tailer.openDirectory (some D)).resume cursor

/-- Whatever the writer and the tailer do before and after the cursor is saved, and wherever the file was cut
off when the process died: the next one delivers every event that had not been delivered when the cursor was
saved, in order, behind a part of those that had. Of the whole file it repeats nothing. -/
theorem cursor_file_resumes (config : WalConfig) (header : WalFileHeader) (nowNs : Nat) (fault : Option OpenFault)
    (hopen : (WalWriter.openDirectory config header nowNs fault {}).1 = true)
    (before behind : List (TailingAction FixedEvent)) (n : Nat) :
    let saved := Runs.run (Tailing.step WalTailer.stream) (Tailing.start config header nowNs fault) before
    let s := Runs.run (Tailing.step WalTailer.stream) saved behind
    let text := WalTailer.saveCursor saved.tailer.cursor
    saved.tailer.cursor.segmentIndex < 2 ^ 64 → saved.tailer.cursor.recordsConsumed < 2 ^ 64 →
      ∃ kept rest, s.appended = kept ++ rest ∧ kept <+: saved.delivered ∧
        (text.length ≤ n + 1 → kept = saved.delivered) ∧
        ∀ k, (WalTailer.reopened s.disk (text.take n)).answers WalTailer.stream.toRecordReader s.disk
          (rest.length + k) = rest.map (fun e => (.ok, some e)) ++ List.replicate k (.idle, none) := by
  intro saved s text hsegment hrecords
  have hsaved := Tailing.run_good WalTailer.stream hopen before
  -- the run behind the save without the tailer's part in it, so that the saved cursor stays a position
  obtain ⟨hlog, htailer⟩ := Tailing.run_writes (S := WalTailer.stream) (s := saved) ⟨rfl, rfl, rfl⟩ behind
  obtain ⟨parts, hgood⟩ := Runs.invariant_of_step
    (I := fun s => ∃ parts, Tailing.Good WalTailer.stream config.firstSegmentIndex parts s)
    (fun s a hs => hs.choose_spec.step a) hsaved (behind.filter Tailing.writes)
  have hwithin := hgood.within
  have hdelivered := hgood.delivered
  rw [htailer.tailer] at hwithin hdelivered
  rw [htailer.delivered] at hdelivered
  rcases WalTailer.loadCursor_cut hsegment hrecords n with ⟨hnone, hshort⟩ | ⟨k, hle, hload, hfull⟩
  · have hzero : SegmentedLog.Within (WalTailer.stream.log parts) 0 0 :=
      ⟨Nat.lt_of_le_of_lt (Nat.zero_le _) hwithin.1, Nat.zero_le _⟩
    obtain ⟨rest, happended, hanswers⟩ := hgood.resumed {} hzero
    rw [SegmentedLog.upTo_zero, ← hlog.appended] at happended
    rw [← hlog.disk] at hanswers
    refine ⟨[], rest, happended, List.nil_prefix, ?_, ?_⟩
    · intro hlength
      exact absurd hlength (Nat.not_le.mpr hshort)
    · unfold WalTailer.reopened
      rw [hnone]
      exact hanswers
  · obtain ⟨rest, happended, hanswers⟩ := hgood.resumed
      ⟨saved.tailer.cursor.segmentIndex, k⟩ ⟨hwithin.1, Nat.le_trans hle hwithin.2⟩
    rw [← hlog.appended] at happended
    rw [← hlog.disk] at hanswers
    refine ⟨_, rest, happended, ?_, ?_, ?_⟩
    · rw [← hdelivered]
      exact SegmentedLog.upTo_take hle
    · intro hlength
      rw [hfull hlength]
      exact hdelivered
    · unfold WalTailer.reopened
      rw [hload]
      exact hanswers

def oneDelivered : List (TailingAction FixedEvent) :=
  [.append 1 {} ⟨List.replicate 128 0, List.length_replicate⟩,
    .append 2 {} ⟨List.replicate 128 0, List.length_replicate⟩, .next]

/-- The file is cut off inside its second number. -/
theorem cursor_file_resumes_cut :
    let saved := Runs.run (Tailing.step WalTailer.stream) (Tailing.start { segmentDataBytes := 4096 }
      ⟨List.replicate walHeaderSize 0, List.length_replicate⟩ 0 none) oneDelivered
    let s := Runs.run (Tailing.step WalTailer.stream) saved [.next]
    let text := WalTailer.saveCursor saved.tailer.cursor
    ∃ kept rest, s.appended = kept ++ rest ∧ kept <+: saved.delivered ∧
      (text.length ≤ 2 + 1 → kept = saved.delivered) ∧
      ∀ k, (WalTailer.reopened s.disk (text.take 2)).answers WalTailer.stream.toRecordReader s.disk
        (rest.length + k) = rest.map (fun e => (.ok, some e)) ++ List.replicate k (.idle, none) :=
  cursor_file_resumes { segmentDataBytes := 4096 } ⟨List.replicate walHeaderSize 0, List.length_replicate⟩ 0 none
    (by decide +kernel) oneDelivered [.next] 2 (by decide +kernel) (by decide +kernel)

end MicrostructureEngine
