import MicrostructureEngine.Persist.Framing

/-!
# The committed boundary

A segment has a sidecar of two slots. A slot holds a generation and the number of data
bytes that are committed, under a checksum; the valid slot with the highest generation
counts, and between equal generations the first.
-/

namespace MicrostructureEngine

set_option autoImplicit false

/-- `MMEBND01`. -/
def boundaryMagic : List UInt8 := [77, 77, 69, 66, 78, 68, 48, 49]

def boundarySlotSize : Nat := 32

/-- What the checksum of a slot covers. -/
def slotHead (generation committed : Nat) : List UInt8 :=
  boundaryMagic ++ (LittleEndian.encode 8 generation ++ LittleEndian.encode 8 committed)

def makeSlot (generation committed : Nat) : List UInt8 :=
  slotHead generation committed ++ (checksum (slotHead generation committed) ++ List.replicate 4 0)

def slotGeneration (slot : List UInt8) : Nat := LittleEndian.decode (slice 8 8 slot)

def slotCommitted (slot : List UInt8) : Nat := LittleEndian.decode (slice 16 8 slot)

def validBoundarySlot (slot : List UInt8) : Bool :=
  slot.take 8 == boundaryMagic &&
    (crc32 (slot.take 24) 0).toNat == LittleEndian.decode (slice 24 4 slot)

/-- One turn of the loop over the slots: generation and boundary of the best one so far. -/
def selectStep (best : Option (Nat × Nat)) (slot : List UInt8) : Option (Nat × Nat) :=
  if !validBoundarySlot slot then best
  else
    match best with
    | none => some (slotGeneration slot, slotCommitted slot)
    | some b => if b.1 < slotGeneration slot then some (slotGeneration slot, slotCommitted slot) else some b

/-- The slot that a reader and a repair select from the 64 bytes of a sidecar. -/
def selectSlot (metadata : List UInt8) : Option (Nat × Nat) :=
  [slice 0 boundarySlotSize metadata, slice boundarySlotSize boundarySlotSize metadata].foldl selectStep none

@[simp] theorem length_slotHead (generation committed : Nat) : (slotHead generation committed).length = 24 := by
  simp [slotHead, boundaryMagic]

@[simp] theorem length_makeSlot (generation committed : Nat) :
    (makeSlot generation committed).length = boundarySlotSize := by
  simp [makeSlot, boundarySlotSize]

theorem makeSlot_eq (generation committed : Nat) :
    makeSlot generation committed = boundaryMagic ++ (LittleEndian.encode 8 generation ++
      (LittleEndian.encode 8 committed ++
        (checksum (slotHead generation committed) ++ List.replicate 4 0))) := by
  rw [makeSlot]
  nth_rewrite 1 [slotHead]
  simp only [List.append_assoc]

theorem length_boundaryMagic : boundaryMagic.length = 8 := rfl

section Slot
variable {generation committed : Nat}

theorem validBoundarySlot_makeSlot : validBoundarySlot (makeSlot generation committed) = true := by
  have hmagic : (makeSlot generation committed).take 8 = boundaryMagic := by
    rw [makeSlot_eq]
    exact List.take_left' length_boundaryMagic
  have hhead : (makeSlot generation committed).take 24 = slotHead generation committed :=
    List.take_left' (length_slotHead _ _)
  have hcrc : slice 24 4 (makeSlot generation committed) = checksum (slotHead generation committed) :=
    slice_append (length_slotHead _ _) (length_checksum _) _
  unfold validBoundarySlot
  rw [hmagic, hhead, hcrc, (checksum_eq_iff (length_checksum _)).mp rfl]
  simp

theorem slotGeneration_makeSlot (h : generation < 2 ^ 64) :
    slotGeneration (makeSlot generation committed) = generation := by
  have hslice : slice 8 8 (makeSlot generation committed) = LittleEndian.encode 8 generation := by
    rw [makeSlot_eq]
    exact slice_append length_boundaryMagic (LittleEndian.length_encode 8 _) _
  unfold slotGeneration
  rw [hslice, LittleEndian.decode_encode_of_lt (by omega)]

theorem slotCommitted_makeSlot (h : committed < 2 ^ 64) :
    slotCommitted (makeSlot generation committed) = committed := by
  have hslice : slice 16 8 (makeSlot generation committed) = LittleEndian.encode 8 committed := by
    rw [makeSlot_eq, ← List.append_assoc]
    exact slice_append (by simp [length_boundaryMagic]) (LittleEndian.length_encode 8 _) _
  unfold slotCommitted
  rw [hslice, LittleEndian.decode_encode_of_lt (by omega)]

end Slot

section Select
variable {first second : List UInt8}

theorem selectSlot_append (h₁ : first.length = boundarySlotSize) (h₂ : second.length = boundarySlotSize) :
    selectSlot (first ++ second) = selectStep (selectStep none first) second := by
  have hfirst : slice 0 boundarySlotSize (first ++ second) = first := List.take_left' h₁
  have hsecond : slice boundarySlotSize boundarySlotSize (first ++ second) = second := by
    unfold slice
    rw [List.drop_left' h₁]
    exact List.take_of_length_le (Nat.le_of_eq h₂)
  unfold selectSlot
  rw [hfirst, hsecond]
  rfl

theorem selectStep_invalid {best : Option (Nat × Nat)} {slot : List UInt8}
    (h : validBoundarySlot slot = false) : selectStep best slot = best := by
  unfold selectStep
  rw [h]
  rfl

theorem selectStep_makeSlot {generation committed : Nat} (hg : generation < 2 ^ 64)
    (hc : committed < 2 ^ 64) {best : Option (Nat × Nat)} (hbest : ∀ b ∈ best, b.1 < generation) :
    selectStep best (makeSlot generation committed) = some (generation, committed) := by
  unfold selectStep
  rw [validBoundarySlot_makeSlot, slotGeneration_makeSlot hg, slotCommitted_makeSlot hc]
  cases best with
  | none => rfl
  | some b => exact if_pos (hbest b rfl)

theorem selectStep_older {generation committed : Nat} (hg : generation < 2 ^ 64)
    {b : Nat × Nat} (hbest : generation ≤ b.1) :
    selectStep (some b) (makeSlot generation committed) = some b := by
  unfold selectStep
  rw [validBoundarySlot_makeSlot, slotGeneration_makeSlot hg]
  exact if_neg (Nat.not_lt.mpr hbest)

end Select

section Pair
variable {k c : Nat} {spare : List UInt8}

theorem selectStep_first (hk : k < 2 ^ 64) (hc : c < 2 ^ 64) :
    selectStep none (makeSlot k c) = some (k, c) :=
  selectStep_makeSlot hk hc fun b hb => absurd hb (Option.not_mem_none b)

/-- While one slot is torn, the other one counts. -/
theorem selectSlot_torn (hk : k < 2 ^ 64) (hc : c < 2 ^ 64) (hspare : spare.length = boundarySlotSize)
    (htorn : validBoundarySlot spare = false) :
    selectSlot (makeSlot k c ++ spare) = some (k, c) ∧ selectSlot (spare ++ makeSlot k c) = some (k, c) := by
  constructor
  · rw [selectSlot_append (length_makeSlot k c) hspare, selectStep_first hk hc, selectStep_invalid htorn]
  · rw [selectSlot_append hspare (length_makeSlot k c), selectStep_invalid htorn, selectStep_first hk hc]

/-- Of two complete slots the newer one counts. -/
theorem selectSlot_newer {s c' : Nat} (hk : k < 2 ^ 64) (hc : c < 2 ^ 64) (hc' : c' < 2 ^ 64) (hs : s < k) :
    selectSlot (makeSlot k c ++ makeSlot s c') = some (k, c) ∧
      selectSlot (makeSlot s c' ++ makeSlot k c) = some (k, c) := by
  have hs64 : s < 2 ^ 64 := Nat.lt_trans hs hk
  constructor
  · rw [selectSlot_append (length_makeSlot _ _) (length_makeSlot _ _), selectStep_first hk hc,
      selectStep_older hs64 (Nat.le_of_lt hs)]
  · rw [selectSlot_append (length_makeSlot _ _) (length_makeSlot _ _), selectStep_first hs64 hc']
    apply selectStep_makeSlot hk hc
    intro b hb
    cases hb
    exact hs

/-- Two slots of one boundary: whichever of them counts, the boundary is that one. The
generations may have wrapped around. -/
theorem selectSlot_same (g₁ g₂ : Nat) {boundary : Nat} (hboundary : boundary < 2 ^ 64) :
    ∃ generation, selectSlot (makeSlot g₁ boundary ++ makeSlot g₂ boundary) = some (generation, boundary) := by
  rw [selectSlot_append (length_makeSlot _ _) (length_makeSlot _ _)]
  have hfirst : selectStep none (makeSlot g₁ boundary) =
      some (slotGeneration (makeSlot g₁ boundary), boundary) := by
    unfold selectStep
    rw [validBoundarySlot_makeSlot, slotCommitted_makeSlot hboundary]
    rfl
  rw [hfirst]
  unfold selectStep
  rw [validBoundarySlot_makeSlot, slotCommitted_makeSlot hboundary]
  dsimp only
  split
  · exact ⟨_, rfl⟩
  · split
    · exact ⟨_, rfl⟩
    · exact ⟨_, rfl⟩

end Pair

end MicrostructureEngine
