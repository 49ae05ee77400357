import MicrostructureEngine.Lib.Outputs
import MicrostructureEngine.Persist.Scanning

/-!
# Calls after a refusal

A reader does not remember that it has refused a frame: the next call goes on where the stream
stands. What every call passes is the same for `next` and `next_raw`, so the places where a
reader stands are a matter of the bytes alone, and a refusal is final exactly if no intact
frame of the right size stands at a later one.
-/

namespace MicrostructureEngine

set_option autoImplicit false

inductive ReadCall where
  | next
  | nextRaw (outCapacity : Nat)
  deriving DecidableEq, Repr

namespace ReadCall

/-- The payload sizes that the call delivers. -/
def takes : ReadCall → Nat → Bool
  | .next, size => size == fixedEventPayloadSize
  | .nextRaw outCapacity, size => decide (size ≤ outCapacity)

def apply (r : WalReader) : ReadCall → ReadStatus × WalReader
  | .next => (r.next.1, r.next.2.2)
  | .nextRaw outCapacity => ((r.nextRaw outCapacity).1, (r.nextRaw outCapacity).2.2)

def status (region : List UInt8) (c : ReadCall) : ReadStatus :=
  if (headStatus region).1 = .ok ∧ c.takes (WalReader.headPayload region).length = false then
    .unexpectedPayloadSize
  else (headStatus region).1

def Finds (c : ReadCall) (region : List UInt8) : Prop :=
  ∃ (f : Frame) (rest : List UInt8), region = f.encode ++ rest ∧ c.takes f.payload.length = true

/-- There are bytes ahead, neither preallocated space nor a frame that the call delivers. -/
def Refuses (c : ReadCall) (region : List UInt8) : Prop :=
  region ≠ [] ∧ ¬ (framePrefixSize ≤ region.length ∧
    FramePrefix.ofImage (region.take framePrefixSize) = ⟨0, 0, 0⟩) ∧ ¬ c.Finds region

end ReadCall

def ReadStatus.Failed (status : ReadStatus) : Prop := status ≠ .ok ∧ isCleanStop status = false

/-- The bytes ahead after `n` calls. A call passes a frame whose size it can tell, eight bytes
where it cannot, and nothing where fewer than eight are left. -/
def standsAt (region : List UInt8) : Nat → List UInt8
  | 0 => region
  | n + 1 => standsAt (region.drop (headStatus region).2) n

theorem headStatus_clean_iff (region : List UInt8) :
    isCleanStop (headStatus region).1 = true ↔
      region = [] ∨ (framePrefixSize ≤ region.length ∧
        FramePrefix.ofImage (region.take framePrefixSize) = ⟨0, 0, 0⟩) := by
  unfold headStatus
  dsimp only
  split_ifs with hnil hshort hzero hbad hover hcrc
  · exact ⟨fun _ => .inl hnil, fun _ => rfl⟩
  · refine ⟨fun h => Bool.noConfusion h, ?_⟩
    rintro (h | ⟨h, _⟩)
    · exact absurd h hnil
    · omega
  · exact ⟨fun _ => .inr ⟨Nat.not_lt.mp hshort, hzero⟩, fun _ => rfl⟩
  all_goals
    refine ⟨fun h => Bool.noConfusion h, ?_⟩
    rintro (h | ⟨_, h⟩)
    · exact absurd h hnil
    · exact absurd h hzero

namespace ReadCall
variable {c : ReadCall} {region : List UInt8}

theorem status_encode (c : ReadCall) (f : Frame) (rest : List UInt8) :
    c.status (f.encode ++ rest) = if c.takes f.payload.length = true then .ok else .unexpectedPayloadSize := by
  unfold status
  rw [headStatus_encode, WalReader.headPayload_encode]
  cases c.takes f.payload.length with
  | true => rfl
  | false => rfl

theorem status_of_none (h : headFrame region = none) : c.status region = (headStatus region).1 := by
  rcases headStatus_cases region with ⟨f, rest, rfl, _⟩ | ⟨_, hne⟩
  · rw [headFrame_encode] at h
    cases h
  · exact if_neg fun hok => hne hok.1

theorem status_ok_iff : c.status region = .ok ↔ c.Finds region := by
  rcases headStatus_cases region with ⟨f, rest, rfl, _⟩ | ⟨hnone, hne⟩
  · rw [status_encode]
    constructor
    · intro h
      refine ⟨f, rest, rfl, ?_⟩
      by_contra htakes
      rw [if_neg htakes] at h
      cases h
    · rintro ⟨f', rest', heq, htakes⟩
      have hsame := headFrame_encode f rest
      rw [heq, headFrame_encode] at hsame
      cases hsame
      exact if_pos htakes
  · rw [status_of_none hnone]
    constructor
    · exact fun h => absurd h hne
    · rintro ⟨f, rest, rfl, _⟩
      rw [headFrame_encode] at hnone
      cases hnone

theorem status_failed_iff : (c.status region).Failed ↔ c.Refuses region := by
  unfold ReadStatus.Failed Refuses
  rw [ne_eq, status_ok_iff]
  rcases headStatus_cases region with ⟨f, rest, rfl, hstatus⟩ | ⟨hnone, hne⟩
  · have hclean := headStatus_clean_iff (f.encode ++ rest)
    rw [hstatus] at hclean
    have hdirty : ¬ (f.encode ++ rest = [] ∨ (framePrefixSize ≤ (f.encode ++ rest).length ∧
        FramePrefix.ofImage ((f.encode ++ rest).take framePrefixSize) = ⟨0, 0, 0⟩)) :=
      fun h => Bool.noConfusion (hclean.mpr h)
    rw [not_or] at hdirty
    constructor
    · exact fun h => ⟨hdirty.1, hdirty.2, h.1⟩
    · intro h
      refine ⟨h.2.2, ?_⟩
      rw [status_encode]
      split
      · rfl
      · rfl
  · rw [status_of_none hnone]
    have hclean := headStatus_clean_iff region
    constructor
    · rintro ⟨hfinds, hstop⟩
      rw [hstop] at hclean
      exact ⟨fun h => Bool.noConfusion (hclean.mpr (.inl h)),
        fun h => Bool.noConfusion (hclean.mpr (.inr h)), hfinds⟩
    · rintro ⟨hnil, hzero, hfinds⟩
      refine ⟨hfinds, ?_⟩
      cases hstop : isCleanStop (headStatus region).1 with
      | false => rfl
      | true =>
        rcases hclean.mp hstop with h | h
        · exact absurd h hnil
        · exact absurd h hzero

end ReadCall

/-! ## Runs of calls -/

namespace WalReader

theorem At.apply {r : WalReader} {region beyond : List UInt8} (h : r.At region beyond) (c : ReadCall) :
    (c.apply r).1 = c.status region ∧
      (c.apply r).2.At (region.drop (headStatus region).2) beyond := by
  have hread := h.readFrame
  have hnext := h.advance (headStatus_le region)
  have hreader : ∀ r' : WalReader, r'.isOpen = r.isOpen →
      r'.stream = (r.advance (headStatus region).2).stream →
      r'.boundary = r.boundary → r'.position = (r.advance (headStatus region).2).position →
        r'.At (region.drop (headStatus region).2) beyond := by
    intro r' hopen hstream hboundary hposition
    exact ⟨hopen.trans h.isOpen, hstream.trans hnext.stream,
      by rw [hboundary, hposition]; exact hnext.boundary⟩
  generalize hstatus : (headStatus region).1 = status at hread
  generalize (headStatus region).2 = size at hread hnext hreader ⊢
  by_cases hok : status = .ok
  · subst hok
    simp only [if_true, reduceCtorEq, if_false] at hread
    cases c with
    | next =>
      unfold ReadCall.apply ReadCall.status ReadCall.takes WalReader.next
      rw [hread, hstatus]
      dsimp only
      rw [if_neg (not_not.mpr rfl)]
      by_cases hsize : (headPayload region).length = fixedEventPayloadSize
      · rw [dif_pos hsize, if_neg]
        · exact ⟨rfl, hreader _ rfl rfl rfl rfl⟩
        · rw [hsize]
          simp
      · rw [dif_neg hsize, if_pos]
        · exact ⟨rfl, hreader _ rfl rfl rfl rfl⟩
        · simp [hsize]
    | nextRaw outCapacity =>
      unfold ReadCall.apply ReadCall.status ReadCall.takes WalReader.nextRaw
      rw [hread, hstatus]
      dsimp only
      rw [if_neg (not_not.mpr rfl)]
      by_cases hsize : (headPayload region).length > outCapacity
      · rw [if_pos hsize, if_pos]
        · exact ⟨rfl, hreader _ rfl rfl rfl rfl⟩
        · simp [hsize]
      · rw [if_neg hsize, if_neg]
        · exact ⟨rfl, hreader _ rfl rfl rfl rfl⟩
        · simp [Nat.not_lt.mp hsize]
  · have hstays : (if status = .crcMismatch then (r.advance size).countCrcFailure else r.advance size).At
        (region.drop size) beyond := by
      split
      · exact hreader _ rfl rfl rfl rfl
      · exact hnext
    have hanswer : c.status region = status := by
      unfold ReadCall.status
      rw [hstatus, if_neg fun h => hok h.1]
    rw [hanswer]
    cases c with
    | next =>
      unfold ReadCall.apply WalReader.next
      rw [hread]
      dsimp only
      rw [if_pos hok]
      exact ⟨rfl, hstays⟩
    | nextRaw outCapacity =>
      unfold ReadCall.apply WalReader.nextRaw
      rw [hread]
      dsimp only
      rw [if_pos hok]
      exact ⟨rfl, hstays⟩

theorem apply_closed {r : WalReader} (h : r.isOpen = false) (c : ReadCall) : c.apply r = (.notOpen, r) := by
  have hread : r.readFrame = (.notOpen, [], r) := by
    unfold readFrame
    rw [h]
    rfl
  cases c with
  | next =>
    unfold ReadCall.apply WalReader.next
    rw [hread]
    rfl
  | nextRaw outCapacity =>
    unfold ReadCall.apply WalReader.nextRaw
    rw [hread]
    rfl

def statuses (r : WalReader) (calls : List ReadCall) : List ReadStatus :=
  Outputs.outputs ReadCall.apply r calls

theorem statuses_closed {r : WalReader} (h : r.isOpen = false) (calls : List ReadCall) :
    ∀ s ∈ r.statuses calls, s = .notOpen := by
  induction calls with
  | nil => exact fun s hs => absurd hs List.not_mem_nil
  | cons c calls ih =>
    intro s hs
    unfold WalReader.statuses Outputs.outputs at hs
    rw [apply_closed h c] at hs
    rcases List.mem_cons.mp hs with hs | hs
    · exact hs
    · exact ih s hs

end WalReader

def regionStep (region : List UInt8) (c : ReadCall) : ReadStatus × List UInt8 :=
  (c.status region, region.drop (headStatus region).2)

theorem after_regionStep (region : List UInt8) (calls : List ReadCall) :
    Outputs.after regionStep region calls = standsAt region calls.length := by
  induction calls generalizing region with
  | nil => rfl
  | cons c calls ih => exact ih _

theorem statuses_opened (f : SegmentFile) (calls : List ReadCall) :
    (WalReader.opened f).statuses calls = Outputs.outputs regionStep f.region calls := by
  have hstep : ∀ (r : WalReader) (region : List UInt8) (c : ReadCall), (∃ beyond, r.At region beyond) →
      (c.apply r).1 = (regionStep region c).1 ∧ ∃ beyond, (c.apply r).2.At (regionStep region c).2 beyond := by
    intro r region c h
    obtain ⟨beyond, h⟩ := h
    exact ⟨(h.apply c).1, beyond, (h.apply c).2⟩
  exact (Outputs.outputs_of_simulation hstep ⟨_, WalReader.opened_at f⟩ calls).1

/-- Behind a call that is refused, a call finds an intact frame of a size that it delivers. -/
def FindsAfterRefusal (region : List UInt8) (calls : List ReadCall) : Prop :=
  ∃ (i j : Nat) (c d : ReadCall), i < j ∧ calls[i]? = some c ∧ calls[j]? = some d ∧
    c.Refuses (standsAt region i) ∧ d.Finds (standsAt region j)

/-- A refusal of a reader is final exactly if no later call finds a frame where it then stands. -/
theorem reader_stops_iff (f : SegmentFile) (calls : List ReadCall) :
    ((WalReader.openFile (some f)).2.statuses calls).Pairwise (fun s t => s.Failed → t ≠ .ok) ↔
      ¬ (f.Openable ∧ FindsAfterRefusal f.region calls) := by
  by_cases hopen : f.Openable
  · have hlength : ∀ i : Nat, ∀ c, calls[i]? = some c → (calls.take i).length = i := by
      intro i c hi
      have hlt := (List.getElem?_eq_some_iff.mp hi).1
      rw [List.length_take]
      omega
    rw [WalReader.openFile_openable hopen, statuses_opened, Outputs.pairwise_outputs_iff]
    apply not_congr
    constructor
    · rintro ⟨i, j, c, d, hij, hi, hj, hbad, hgood⟩
      rw [after_regionStep, hlength i c hi] at hbad
      rw [after_regionStep, hlength j d hj] at hgood
      exact ⟨hopen, i, j, c, d, hij, hi, hj, ReadCall.status_failed_iff.mp hbad, ReadCall.status_ok_iff.mp hgood⟩
    · rintro ⟨_, i, j, c, d, hij, hi, hj, hbad, hgood⟩
      refine ⟨i, j, c, d, hij, hi, hj, ?_, ?_⟩
      · rw [after_regionStep, hlength i c hi]
        exact ReadCall.status_failed_iff.mpr hbad
      · rw [after_regionStep, hlength j d hj]
        exact ReadCall.status_ok_iff.mpr hgood
  · rw [WalReader.openFile_not_openable hopen]
    refine ⟨fun _ h => hopen h.1, fun _ => ?_⟩
    have hclosed : ∀ s ∈ WalReader.statuses {} calls, s = .notOpen := WalReader.statuses_closed rfl calls
    apply List.Pairwise.imp_of_mem (R := fun _ _ => True)
    · intro s t _ ht _ _ hok
      rw [hclosed t ht] at hok
      cases hok
    · exact List.pairwise_of_forall fun _ _ => trivial

end MicrostructureEngine
