import MicrostructureEngine.Exec.FillHistory
import MicrostructureEngine.Exec.Journalling

/-!
# Fill conservation

A fill should move the net volume of its symbol by its signed volume and leave the other
symbols alone. Opening, adding and netting do. The reducing path looks for a single opposing
ticket, although `submit` admitted the order against all of them: what the first ticket does
not hold is counted as filled and booked nowhere.
-/

namespace MicrostructureEngine.Exec

set_option autoImplicit false

def netOf (book : List Position) (symbolId : Nat) : Int := (book.map (signedVolume symbolId)).sum

theorem netOf_split (l r : List Position) (p : Position) (symbolId : Nat) :
    netOf (l ++ p :: r) symbolId = netOf (l ++ r) symbolId + signedVolume symbolId p := by
  simp only [netOf, List.map_append, List.map_cons, List.sum_append, List.sum_cons]
  omega

/-- A volume with the sign of a side, on one symbol. -/
def sidedVolume (symbolId : Nat) (p : Position) (size : Int) : Int :=
  if p.symbolId = symbolId then (if p.side = .buy then size else -size) else 0

theorem signedVolume_of_closed {symbolId : Nat} {p : Position} (h : isClosed p = true) :
    signedVolume symbolId p = 0 := by
  unfold signedVolume
  rw [if_pos (Or.inr h)]

theorem signedVolume_of_working {symbolId : Nat} {p : Position} (h : isClosed p = false) :
    signedVolume symbolId p = sidedVolume symbolId p p.volume := by
  unfold signedVolume sidedVolume
  by_cases hs : p.symbolId = symbolId
  · simp [hs, h]
  · simp [hs]

theorem signedVolume_resized {symbolId : Nat} {p p' : Position} {size : Int} (h : Resized p p' size) :
    signedVolume symbolId p' = sidedVolume symbolId p size := by
  have hclosed := h.working
  by_cases hzero : size = 0
  · rw [signedVolume_of_closed (by rw [hclosed]; simp [hzero]), hzero]
    unfold sidedVolume
    split <;> simp
  · rw [signedVolume_of_working (by rw [hclosed]; simp [hzero])]
    unfold sidedVolume
    rw [h.symbolId, h.side, h.volume]

theorem signedVolume_fresh {symbolId : Nat} {i : Intent} {size : Int} {number : UInt64} {p : Position}
    (h : i.Fresh size number p) :
    signedVolume symbolId p = { i with volume := size }.signed symbolId := by
  rw [signedVolume_of_working h.working]
  unfold sidedVolume Intent.signed
  rw [h.symbolId, h.side, h.volume]

theorem netOf_placed {p : Position} {l l' : List Position} (h : Placed p l l') (symbolId : Nat) :
    netOf l' symbolId = netOf l symbolId + signedVolume symbolId p := by
  cases h with
  | reused hclosed =>
    rw [netOf_split, netOf_split, signedVolume_of_closed hclosed]
    omega
  | appended => rw [netOf_split, List.append_nil]

/-- The ticket that a hedging entry adds to is one of the order's symbol and side. -/
def Intent.OwnTerms (i : Intent) (own : UInt64) (book : List Position) : Prop :=
  i.hedging = true → i.reduces = false → ∀ l p r, book = l ++ p :: r → i.Targets own p →
    (∀ q ∈ l, ¬ i.Targets own q) → p.symbolId = i.symbolId ∧ p.side = i.side

/-- The reducing path finds a ticket, and the first one it finds holds the whole fill. -/
def Intent.Covered (i : Intent) (book : List Position) : Prop :=
  i.reduces = true → ∃ l p r, book = l ++ p :: r ∧ i.Reducible p ∧ (∀ q ∈ l, ¬ i.Reducible q) ∧
    i.volume ≤ p.volume

def Conserves (i : Intent) (book book' : List Position) : Prop :=
  ∀ symbolId, netOf book' symbolId = netOf book symbolId + i.signed symbolId

theorem sidedVolume_sub {symbolId : Nat} {p : Position} (m n : Int) :
    sidedVolume symbolId p (m + n) = sidedVolume symbolId p m + sidedVolume symbolId p n := by
  unfold sidedVolume
  split
  · split <;> omega
  · rfl

theorem sidedVolume_same {symbolId : Nat} {i : Intent} {p : Position} (hs : p.symbolId = i.symbolId)
    (hside : p.side = i.side) : sidedVolume symbolId p i.volume = i.signed symbolId := by
  unfold sidedVolume Intent.signed
  rw [hs, hside]

/-- Reducing an opposite position moves the net volume the way the order goes. -/
theorem sidedVolume_opposite {symbolId : Nat} {i : Intent} {p : Position} (hs : p.symbolId = i.symbolId)
    (hside : p.side ≠ i.side) (size : Int) :
    sidedVolume symbolId p (-size) = { i with volume := size }.signed symbolId := by
  unfold sidedVolume Intent.signed
  dsimp only
  rw [hs]
  split
  · cases hp : p.side <;> cases hi : i.side
    · exact absurd (hp.trans hi.symm) hside
    · simp
    · simp
    · exact absurd (hp.trans hi.symm) hside
  · rfl

theorem sidedVolume_eq_signed_iff {i : Intent} (hvolume : 0 < i.volume) (p : Position) :
    (∀ s, sidedVolume s p i.volume = i.signed s) ↔ p.symbolId = i.symbolId ∧ p.side = i.side := by
  constructor
  · intro h
    have hself := h i.symbolId
    unfold sidedVolume Intent.signed at hself
    rw [if_pos rfl] at hself
    by_cases hs : p.symbolId = i.symbolId
    · refine ⟨hs, ?_⟩
      rw [if_pos hs] at hself
      cases hp : p.side <;> cases hi : i.side <;> simp [hp, hi] at hself ⊢ <;> omega
    · rw [if_neg hs] at hself
      split at hself <;> omega
  · rintro ⟨hs, hside⟩ s
    exact sidedVolume_same hs hside

theorem netOf_resized {l r : List Position} {p p' : Position} {size : Int} (hp : isClosed p = false)
    (h : Resized p p' size) (symbolId : Nat) :
    netOf (l ++ p' :: r) symbolId =
      netOf (l ++ p :: r) symbolId - sidedVolume symbolId p p.volume + sidedVolume symbolId p size := by
  rw [netOf_split, netOf_split, signedVolume_resized h, signedVolume_of_working hp]
  omega

/-- An opposite position that gives up `size` moves the net volume by that much of the order. -/
theorem netOf_reduced {i : Intent} {l r : List Position} {p p' : Position} {size : Int}
    (hp : isClosed p = false) (hs : p.symbolId = i.symbolId) (hside : p.side ≠ i.side)
    (h : Resized p p' (p.volume - size)) (symbolId : Nat) :
    netOf (l ++ p' :: r) symbolId =
      netOf (l ++ p :: r) symbolId + { i with volume := size }.signed symbolId := by
  rw [netOf_resized hp h, show p.volume - size = p.volume + -size from Int.sub_eq_add_neg,
    sidedVolume_sub, sidedVolume_opposite hs hside]
  omega

theorem netOf_added {i : Intent} {l r : List Position} {p p' : Position} (hp : isClosed p = false)
    (h : Resized p p' (p.volume + i.volume)) (symbolId : Nat) :
    netOf (l ++ p' :: r) symbolId =
      netOf (l ++ p :: r) symbolId + sidedVolume symbolId p i.volume := by
  rw [netOf_resized hp h, sidedVolume_sub]
  omega

/-- What a fill of the first `m` and one of the other `n` add is what one fill adds. -/
theorem signed_split (i : Intent) (m n : Int) (symbolId : Nat) :
    { i with volume := m }.signed symbolId + { i with volume := n }.signed symbolId =
      { i with volume := m + n }.signed symbolId := by
  unfold Intent.signed
  dsimp only
  split
  · split <;> omega
  · rfl

/-- The first element with a property is unique. -/
theorem first_unique {P : Position → Prop} {l r l' r' : List Position} {p p' : Position}
    (heq : l ++ p :: r = l' ++ p' :: r') (hp : P p) (hl : ∀ q ∈ l, ¬ P q) (hp' : P p')
    (hl' : ∀ q ∈ l', ¬ P q) : p = p' := by
  induction l generalizing l' with
  | nil =>
    cases l' with
    | nil => exact (List.cons.inj heq).1
    | cons a l' =>
      have ha := (List.cons.inj heq).1
      exact absurd (ha ▸ hp) (hl' a List.mem_cons_self)
  | cons a l ih =>
    cases l' with
    | nil =>
      have ha := (List.cons.inj heq).1
      exact absurd (ha ▸ hp') (hl a List.mem_cons_self)
    | cons a' l' =>
      exact ih (List.cons.inj heq).2 (fun q hq => hl q (List.mem_cons_of_mem _ hq))
        fun q hq => hl' q (List.mem_cons_of_mem _ hq)

theorem signed_self (i : Intent) : i.signed i.symbolId = if i.side = .buy then i.volume else -i.volume :=
  if_pos rfl

/-- Reducing a single ticket conserves the net volumes exactly when it holds the whole fill. -/
theorem conserves_reduced_iff {i : Intent} {l r : List Position} {p p' : Position}
    (mode : i.reduces = true) (found : i.Reducible p) (first : ∀ q ∈ l, ¬ i.Reducible q)
    (resized : Resized p p' (p.volume - min i.volume p.volume)) :
    Conserves i (l ++ p :: r) (l ++ p' :: r) ↔ i.Covered (l ++ p :: r) := by
  have hside : p.side ≠ i.side := by
    rw [found.side]
    unfold Books.opposite
    cases i.side <;> decide
  have hnet := netOf_reduced (l := l) (r := r) found.working found.symbolId hside resized
  have hfirst : i.Covered (l ++ p :: r) ↔ i.volume ≤ p.volume := by
    constructor
    · intro hc
      obtain ⟨l', q, r', hbook, hq, hl', hle⟩ := hc mode
      rw [first_unique hbook found first hq hl']
      exact hle
    · intro hle _
      exact ⟨l, p, r, rfl, found, first, hle⟩
  rw [hfirst]
  constructor
  · intro hc
    have hself := hc i.symbolId
    rw [hnet, signed_self { i with volume := min i.volume p.volume }, signed_self i] at hself
    dsimp only at hself
    split at hself <;> omega
  · intro hle s
    rw [hnet, show min i.volume p.volume = i.volume from by omega]

theorem conserves_flipped {i : Intent} {l r book : List Position} {p p' q : Position} {number : UInt64}
    (found : isClosed p = false) (hs : p.symbolId = i.symbolId) (side : p.side ≠ i.side)
    (resized : Resized p p' 0) (fresh : i.Fresh (i.volume - p.volume) number q)
    (placed : Placed q (l ++ p' :: r) book) : Conserves i (l ++ p :: r) book := by
  intro s
  have hresized : Resized p p' (p.volume - p.volume) := by
    rw [Int.sub_self]
    exact resized
  have hclosed := netOf_reduced (l := l) (r := r) found hs side hresized s
  have htotal := signed_split i p.volume (i.volume - p.volume) s
  rw [show p.volume + (i.volume - p.volume) = i.volume from by omega] at htotal
  rw [netOf_placed placed, hclosed, signedVolume_fresh fresh, Int.add_assoc, htotal]

/-- A fill that neither reduces on purpose nor adds to an own ticket conserves the net volumes. -/
theorem Intent.ownTerms_of_untargeted {i : Intent} {own : UInt64} {book : List Position}
    (h : ∀ p ∈ book, ¬ i.Targets own p) : i.OwnTerms own book := by
  intro _ _ l p r hbook htargets _
  exact absurd htargets (h p (by rw [hbook]; simp))

theorem Intent.covered_of_entry {i : Intent} {book : List Position} (h : i.reduces = false) :
    i.Covered book := by
  intro hreduces
  rw [h] at hreduces
  cases hreduces

instance (i : Intent) (p : Position) : Decidable (i.Reducible p) :=
  decidable_of_iff
    (p.symbolId = i.symbolId ∧ p.side = Books.opposite i.side ∧ isClosed p = false ∧ 0 < p.volume)
    ⟨fun h => ⟨h.1, h.2.1, h.2.2.1, h.2.2.2⟩, fun h => ⟨h.symbolId, h.side, h.working, h.volume⟩⟩

theorem Intent.covered_of_first {i : Intent} {book : List Position} {p : Position}
    (hp : p ∈ book.take 1) (hreducible : i.Reducible p) (hvolume : i.volume ≤ p.volume) :
    i.Covered book := by
  cases book with
  | nil => cases hp
  | cons q r =>
    obtain rfl := List.mem_singleton.mp hp
    exact fun _ => ⟨[], p, r, rfl, hreducible, nofun, hvolume⟩

theorem Intent.ownTerms_of_netting {i : Intent} {own : UInt64} {book : List Position}
    (h : i.hedging = false) : i.OwnTerms own book := by
  intro hhedging
  rw [h] at hhedging
  cases hhedging

theorem Intent.ownTerms_of_reduces {i : Intent} {own : UInt64} {book : List Position}
    (h : i.reduces = true) : i.OwnTerms own book := by
  intro _ hentry
  rw [h] at hentry
  cases hentry

/-- A fill conserves the net volumes exactly when the reducing path, if it takes it, is covered by
the first ticket it finds, and an own ticket that it adds to has the order's terms. -/
theorem conserves_iff {i : Intent} {t t' : Tickets} (h : Booking i t t') (hvolume : 0 < i.volume)
    (hsound : SoundBook t.book) (hroom : (t.book.filter fun p => !isClosed p).length < maxPositions) :
    Conserves i t.book t'.book ↔ i.Covered t.book ∧ i.OwnTerms t.own t.book := by
  cases h with
  | unreducible mode missing =>
    constructor
    · intro hc
      have hself := hc i.symbolId
      rw [signed_self] at hself
      split at hself <;> omega
    · intro hc
      obtain ⟨l, p, r, hbook, hp, -, -⟩ := hc.1 mode
      exact absurd hp (missing p (by rw [hbook]; simp))
  | reduced mode found first resized =>
    rw [conserves_reduced_iff mode found first resized]
    exact ⟨fun hc => ⟨hc, Intent.ownTerms_of_reduces mode⟩, And.left⟩
  | full mode untargeted occupied limit =>
    exfalso
    have hall : (t.book.filter fun p => !isClosed p) = t.book :=
      List.filter_eq_self.mpr fun p hp => by rw [occupied p hp]; rfl
    rw [hall] at hroom
    omega
  | opened mode untargeted fresh placed =>
    refine ⟨fun _ => ⟨Intent.covered_of_entry mode, Intent.ownTerms_of_untargeted untargeted⟩, ?_⟩
    intro _ s
    rw [netOf_placed placed, signedVolume_fresh fresh]
  | @added l r p p' seq own mode found first side resized =>
    have hpos : 0 < p.volume + i.volume := by
      have hp := hsound p (by simp) found.1
      omega
    have hnet := netOf_added (l := l) (r := r) found.1 (resized hpos)
    have hconserves : Conserves i (l ++ p :: r) (l ++ p' :: r) ↔
        p.symbolId = i.symbolId ∧ p.side = i.side := by
      rw [← sidedVolume_eq_signed_iff hvolume]
      unfold Conserves
      simp only [hnet, Int.add_right_inj]
    rw [hconserves]
    constructor
    · intro hterms
      refine ⟨Intent.covered_of_entry mode, fun hhedging _ l' q r' hbook hq hl' => ?_⟩
      rw [← first_unique hbook found first hq hl']
      exact hterms
    · intro hc
      cases hh : i.hedging with
      | true => exact hc.2 hh mode l p r rfl found first
      | false =>
        have htarget := found.2
        rw [hh] at htarget
        exact ⟨htarget, side hh⟩
  | netted mode found first side covered resized =>
    have hreduces : i.reduces = false := by simp [Intent.reduces, mode]
    have htarget := found.2
    rw [mode] at htarget
    refine ⟨fun _ => ⟨Intent.covered_of_entry hreduces, Intent.ownTerms_of_netting mode⟩, ?_⟩
    intro _ s
    exact netOf_reduced found.1 htarget side resized s
  | flipped mode found first side exceeded resized fresh placed =>
    have hreduces : i.reduces = false := by simp [Intent.reduces, mode]
    have htarget := found.2
    rw [mode] at htarget
    refine ⟨fun _ => ⟨Intent.covered_of_entry hreduces, Intent.ownTerms_of_netting mode⟩, ?_⟩
    intro _
    exact conserves_flipped found.1 htarget side resized fresh placed

/-! ## Own tickets -/

/-- The ticket that the slot names, where it is open, has the terms of the order in the slot. -/
structure SlotNamed (book : List Position) (seq : UInt64) (x : OrderSlot) : Prop where
  number : x.ticket.toNat ≤ seq.toNat
  terms : ∀ p ∈ book, isClosed p = false → x.ticket ≠ 0 → p.positionTicket = x.ticket →
    p.symbolId = x.order.symbolId ∧ p.side = x.order.side

/-- No ticket carries a number that was not given out. -/
structure Numbered (book : List Position) (seq : UInt64) (slots : List OrderSlot) : Prop where
  given : ∀ p ∈ book, isClosed p = false → p.positionTicket.toNat ≤ seq.toNat
  named : ∀ x ∈ slots, SlotNamed book seq x

/-- Every fill so far found room for another ticket number. -/
def Unwrapped (b : Books) : Prop := ∀ f ∈ b.fills, f.ticketSeq.toNat + 1 < 2 ^ 64

theorem toNat_succ {n : UInt64} (h : n.toNat + 1 < 2 ^ 64) : (n + 1).toNat = n.toNat + 1 := by
  rw [UInt64.toNat_add]
  exact Nat.mod_eq_of_lt h

theorem SlotNamed.sameOwn {book : List Position} {seq : UInt64} {x y : OrderSlot} (h : SameOwn x y)
    (hx : SlotNamed book seq x) : SlotNamed book seq y := by
  refine ⟨?_, ?_⟩
  · rw [h.ticket]
    exact hx.number
  · rw [h.ticket, h.symbolId, h.side]
    exact hx.terms

theorem slotNamed_zero (book : List Position) (seq : UInt64) {x : OrderSlot} (h : x.ticket = 0) :
    SlotNamed book seq x := by
  refine ⟨?_, ?_⟩
  · rw [h]
    exact Nat.zero_le _
  · intro p _ _ hne
    exact absurd h hne

/-- The numbers of a booking: other slots keep their tickets, and the order's own ticket keeps its
terms, because no open ticket had the fresh number. -/
theorem Booking.slotNamed {i : Intent} {t t' : Tickets} (h : Booking i t t') (hvolume : 0 < i.volume)
    (hsound : SoundBook t.book) (hseq : t.seq.toNat + 1 < 2 ^ 64)
    (hgiven : ∀ p ∈ t.book, isClosed p = false → p.positionTicket.toNat ≤ t.seq.toNat) :
    (∀ x, SlotNamed t.book t.seq x → SlotNamed t'.book t'.seq x) ∧
    ∀ x, SlotNamed t.book t.seq x → x.ticket = t.own → x.order.symbolId = i.symbolId →
      x.order.side = i.side → SlotNamed t'.book t'.seq { x with ticket := t'.own } := by
  have hle : t.seq.toNat ≤ t'.seq.toNat := by
    rcases h.numbers with ⟨heq, -⟩ | ⟨heq, -⟩
    · rw [heq]
    · rw [heq, toNat_succ hseq]
      omega
  have hkept : ∀ x, SlotNamed t.book t.seq x → SlotNamed t'.book t'.seq x := by
    intro x hx
    refine ⟨Nat.le_trans hx.number hle, ?_⟩
    intro q hq hopen hne hticket
    rcases h.origin hvolume hsound q hq hopen with ⟨p, hp, hpopen, hnumber, hsymbol, hside⟩ | ⟨-, hfresh⟩
    · rw [hsymbol, hside]
      exact hx.terms p hp hpopen hne (hnumber.symm.trans hticket)
    · have hnumber := congrArg UInt64.toNat (hticket.symm.trans hfresh.ticket)
      rw [toNat_succ hseq] at hnumber
      have hbound := hx.number
      omega
  refine ⟨hkept, ?_⟩
  intro x hx hown hsymbol hside
  rcases h.numbers with ⟨-, hsame⟩ | ⟨hnext, hsame | hfreshOwn⟩
  · rw [hsame, ← hown]
    exact hkept x hx
  · rw [hsame, ← hown]
    exact hkept x hx
  · refine ⟨?_, ?_⟩
    · rw [hfreshOwn, hnext]
    · intro q hq hopen _ hticket
      dsimp only at hticket ⊢
      rw [hfreshOwn] at hticket
      rw [hsymbol, hside]
      rcases h.origin hvolume hsound q hq hopen with ⟨p, hp, hpopen, hnumber, -, -⟩ | ⟨-, hfresh⟩
      · have hbound := hgiven p hp hpopen
        rw [← hnumber, hticket, toNat_succ hseq] at hbound
        omega
      · exact ⟨hfresh.symbolId, hfresh.side⟩

theorem Booking.given {i : Intent} {t t' : Tickets} (h : Booking i t t') (hvolume : 0 < i.volume)
    (hsound : SoundBook t.book) (hseq : t.seq.toNat + 1 < 2 ^ 64)
    (hgiven : ∀ p ∈ t.book, isClosed p = false → p.positionTicket.toNat ≤ t.seq.toNat) :
    ∀ p ∈ t'.book, isClosed p = false → p.positionTicket.toNat ≤ t'.seq.toNat := by
  intro q hq hopen
  rcases h.origin hvolume hsound q hq hopen with ⟨p, hp, hpopen, hnumber, -, -⟩ | ⟨hnext, hfresh⟩
  · have hbound := hgiven p hp hpopen
    rw [hnumber]
    rcases h.numbers with ⟨heq, -⟩ | ⟨heq, -⟩
    · rw [heq]
      exact hbound
    · rw [heq, toNat_succ hseq]
      omega
  · rw [hnext, hfresh.ticket]

namespace FillEvent

/-- The signed volume of the fill on a symbol. -/
def signed (f : FillEvent) (symbolId : Nat) : Int :=
  if f.slot.order.symbolId = symbolId then (if f.slot.order.side = .buy then f.volume else -f.volume)
  else 0

/-- The fill moves the net volume of every symbol by its signed volume on it. -/
def Conserves (f : FillEvent) : Prop :=
  ∀ s, f.after.netVolume s = f.before.netVolume s + f.signed s

def Covered (hedging : Bool) (f : FillEvent) : Prop := (f.intent hedging).Covered f.before.positions

def OwnTerms (hedging : Bool) (f : FillEvent) : Prop :=
  (f.intent hedging).OwnTerms f.slot.ticket f.before.positions

end FillEvent

theorem SlotNamed.ownTerms {hedging : Bool} {f : FillEvent}
    (h : SlotNamed f.before.positions f.ticketSeq f.slot) : f.OwnTerms hedging := by
  intro hhedging _ l p r hbook htargets _
  obtain ⟨hopen, htarget⟩ := htargets
  rw [hhedging] at htarget
  have hmem : p ∈ f.before.positions := by
    rw [hbook]
    simp
  exact h.terms p hmem hopen htarget.1 htarget.2

/-- What ticket numbers mean in a run that has not used them up. -/
structure Named (b : Books) (slots : List OrderSlot) : Prop where
  history : History b
  numbered : Unwrapped b → Numbered b.positions.positions b.ticketSeq slots
  ownTerms : Unwrapped b → ∀ f ∈ b.fills, f.OwnTerms b.config.hedging

theorem Named.fill {b : Books} {l r : List OrderSlot} {x : OrderSlot} {price volume : Int} {nowNs : Nat}
    (hvolume : 0 < volume) (h : Named b (l ++ x :: r)) :
    Named (b.bookFill x price volume nowNs).1 (l ++ (b.bookFill x price volume nowNs).2 :: r) := by
  have hbooking := Books.booking_bookFill b x price volume nowNs
  have hbooked := Books.booked_bookFill b x price volume nowNs
  have hslot := Books.bookFill_slot b x price volume nowNs
  have hsound := h.history.sound
  have hunwrapped : Unwrapped (b.bookFill x price volume nowNs).1 →
      Unwrapped b ∧ b.ticketSeq.toNat + 1 < 2 ^ 64 := by
    intro hu
    unfold Unwrapped at hu
    rw [hbooked.fills] at hu
    exact ⟨fun f hf => hu f (List.mem_append_left _ hf),
      hu (b.fillEvent x price volume nowNs) (List.mem_append_right _ List.mem_cons_self)⟩
  refine ⟨h.history.fill x price hvolume nowNs, ?_, ?_⟩
  · intro hu
    obtain ⟨hu, hseq⟩ := hunwrapped hu
    have hnumbered := h.numbered hu
    obtain ⟨hkept, hown⟩ := hbooking.slotNamed hvolume hsound hseq hnumbered.given
    refine ⟨hbooking.given hvolume hsound hseq hnumbered.given, ?_⟩
    have hnamed := hnumbered.named
    rw [List.forall_mem_append, List.forall_mem_cons] at hnamed ⊢
    refine ⟨fun y hy => hkept y (hnamed.1 y hy), ?_, fun y hy => hkept y (hnamed.2.2 y hy)⟩
    have hx := hown x hnamed.2.1 rfl rfl rfl
    apply hx.sameOwn
    rw [hslot]
    exact ⟨rfl, rfl, rfl⟩
  · intro hu
    obtain ⟨hu, -⟩ := hunwrapped hu
    rw [hbooked.config, hbooked.fills]
    intro f hf
    rcases List.mem_append.mp hf with hf | hf
    · exact h.ownTerms hu f hf
    · rw [List.mem_singleton.mp hf]
      exact ((h.numbered hu).named x (by simp)).ownTerms

theorem named_rule : TicketRule Named where
  frame := by
    intro b b' xs ys hframe hslots h
    have hunwrapped : Unwrapped b' → Unwrapped b := by
      unfold Unwrapped
      rw [hframe.fills]
      exact id
    refine ⟨h.history.frame hframe, fun hu => ?_, fun hu => ?_⟩
    · have hnumbered := h.numbered (hunwrapped hu)
      rw [hframe.positions, hframe.ticketSeq]
      exact ⟨hnumbered.given,
        SlotTable.forall_of_forall₂ (fun _ _ hxy hx => hx.sameOwn hxy) hslots hnumbered.named⟩
    · rw [hframe.config, hframe.fills]
      exact h.ownTerms (hunwrapped hu)
  fill := fun hvolume h => h.fill hvolume
  vacant := by
    intro b xs h
    refine ⟨h.history, fun hu => ⟨(h.numbered hu).given, ?_⟩, h.ownTerms⟩
    rw [List.forall_mem_append, List.forall_mem_singleton]
    exact ⟨(h.numbered hu).named, slotNamed_zero _ _ rfl⟩
  taken := by
    intro b l r x y hzero h
    refine ⟨h.history, fun hu => ⟨(h.numbered hu).given, ?_⟩, h.ownTerms⟩
    exact forall_split (h.numbered hu).named fun _ => slotNamed_zero _ _ hzero

/-! ## Journalled fills -/

def isFillRecord (r : JournalRecord) : Bool := r.type == JournalRecordType.fill.code

/-- The record of a fill: its order, its symbol, its price and its volume. -/
structure FillEvent.Journalled (f : FillEvent) (r : JournalRecord) : Prop where
  type : r.type = JournalRecordType.fill.code
  order : r.logicalOrderId = f.slot.order.ref.logicalOrderId
  symbolId : r.symbolId = f.slot.order.symbolId
  price : r.a = f.priceTicks
  volume : r.b = f.volume

/-- The fill records among everything journalled so far are the fills so far. -/
def FillsTold (b : Books) : Prop :=
  ∃ es, Tells {} b.journal es ∧ List.Forall₂ FillEvent.Journalled b.fills (es.filter isFillRecord)

namespace FillsTold

variable {b b' : Books}

theorem quiet {es : List JournalRecord} (h : FillsTold b) (hfills : b'.fills = b.fills)
    (hjournal : Tells b.journal b'.journal es) (hes : es.filter isFillRecord = []) : FillsTold b' := by
  obtain ⟨rs, hrs, htold⟩ := h
  refine ⟨rs ++ es, hrs.trans hjournal, ?_⟩
  rw [hfills, List.filter_append, hes, List.append_nil]
  exact htold

theorem applyFill (h : FillsTold b) (x : OrderSlot) (price volume : Int) (nowNs : Nat) :
    FillsTold (b.applyFill x price volume nowNs).1 := by
  obtain ⟨rs, hrs, htold⟩ := h
  refine ⟨_, hrs.trans (Books.tells_applyFill b x nowNs price volume), ?_⟩
  rw [(Books.booked_applyFill b x price volume nowNs).fills, List.filter_append]
  refine List.rel_append htold ?_
  exact List.Forall₂.cons ⟨rfl, rfl, rfl, rfl, rfl⟩ List.Forall₂.nil

theorem ready {x : OrderSlot} {nowNs : Nat} {c : Books × OrderSlot} (h : FillsTold b)
    (hready : Books.Ready b x nowNs c) : FillsTold c.1 := by
  cases hready with
  | standing => exact h
  | acknowledged => exact h.quiet rfl (Books.tells_acknowledge b x nowNs) rfl

theorem processSlot (h : FillsTold b) (x : OrderSlot) (nowNs : Nat) :
    FillsTold (b.processSlot x nowNs).1 := by
  have hp := Books.processed b x nowNs
  generalize b.processSlot x nowNs = r at hp ⊢
  cases hp with
  | idle => exact h
  | expired =>
    exact h.quiet (Books.clerical_finish b x nowNs .expired).fills
      (Books.tells_finish b x nowNs (by decide)) rfl
  | rejected =>
    exact h.quiet (Books.clerical_rejectSent b x nowNs).fills (Books.tells_rejectSent b x nowNs) rfl
  | ready hready => exact h.ready hready
  | @halted c hready reason =>
    have hquiet : Tells c.1.journal (c.1.halt reason).journal [] := by
      rw [Books.halt_journal]
      exact Tells.refl _
    exact (h.ready hready).quiet (Books.clerical_halt _ reason).fills hquiet rfl
  | filled hready price volume => exact (h.ready hready).applyFill _ price volume nowNs

theorem onQuote {b : PaperBroker} (h : FillsTold b.books) (symbolId : Nat)
    (bid ask bidSize askSize : Int) (tsNs : Nat) :
    FillsTold (b.onQuote symbolId bid ask bidSize askSize tsNs).books := by
  by_cases hsymbol : symbolId < maxSymbols
  · have hquoted : FillsTold (b.quoted symbolId bid ask bidSize askSize tsNs).books :=
      h.quiet rfl (Tells.refl _) rfl
    rw [PaperBroker.onQuote_eq hsymbol]
    refine FillsTold.quiet ?_ (Books.clerical_recomputeAccount _ tsNs).fills
      (Books.tells_recomputeAccount _ tsNs) rfl
    unfold PaperBroker.process
    split
    · exact hquoted
    · exact Books.processSlots_invariant (l := []) (I := fun c _ => FillsTold c)
        (fun c l x r hc => hc.processSlot x tsNs) hquoted
  · rw [PaperBroker.onQuote_of_unknown hsymbol]
    exact h

theorem step {b : PaperBroker} (h : FillsTold b.books) (a : PaperBroker.Action) :
    FillsTold (b.step a).books := by
  cases a with
  | setSymbol spec =>
    unfold PaperBroker.step PaperBroker.setSymbol
    dsimp only
    split
    · exact h.quiet rfl (Tells.refl _) rfl
    · exact h
  | onQuote symbolId bid ask bidSize askSize tsNs => exact h.onQuote symbolId bid ask bidSize askSize tsNs
  | submit q nowNs =>
    show FillsTold (b.submit q nowNs).2.books
    rcases PaperBroker.submit_cases b q nowNs with ⟨reason, -, heq⟩ | ⟨-, -, heq⟩ |
      ⟨s, reason, -, -, -, heq⟩ | ⟨s, -, -, -, heq⟩
    · rw [heq]
      exact h.quiet rfl (PaperBroker.tells_reject b q nowNs reason) rfl
    · rw [heq]
      exact h.quiet rfl (PaperBroker.tells_reject b q nowNs .corruptedState) rfl
    · rw [heq]
      exact h.quiet rfl (PaperBroker.tells_reject { b with slots := s.2 } q nowNs reason) rfl
    · rw [heq]
      exact h.quiet (PaperBroker.clerical_accept { b with slots := s.2 } s.1 q nowNs).fills
        (PaperBroker.tells_accept { b with slots := s.2 } s.1 q nowNs) rfl
  | cancel ref nowNs =>
    show FillsTold (b.cancel ref nowNs).2.books
    rcases PaperBroker.cancel_cases b ref nowNs with ⟨heq, -⟩ | ⟨l, x, r, -, heq⟩
    · rw [heq]
      exact h
    · rw [heq]
      exact h.quiet (PaperBroker.clerical_cancelled b.books ref x nowNs).fills
        (PaperBroker.tells_cancelled b.books ref x nowNs) rfl
  | replace ref price volume nowNs =>
    show FillsTold (b.replace ref price volume nowNs).2.books
    rcases PaperBroker.replace_cases b ref price volume nowNs with ⟨heq, -⟩ | ⟨l, x, r, -, -, heq⟩
    · rw [heq]
      exact h
    · rw [heq]
      exact h.quiet rfl (PaperBroker.tells_replaced b.books ref x price volume nowNs) rfl

theorem after (config : BrokerConfig) (actions : List PaperBroker.Action) :
    FillsTold (PaperBroker.after config actions).books := by
  apply Runs.invariant_of_step (I := fun b : PaperBroker => FillsTold b.books)
  · intro b a hb
    exact hb.step a
  · exact ⟨[], Tells.refl _, List.Forall₂.nil⟩

/-- While the journal has not overflowed, its fill records are the fills, one by one. -/
theorem records (h : FillsTold b) (hroom : b.journal.overflowed = false) :
    List.Forall₂ FillEvent.Journalled b.fills (b.journal.records.filter isFillRecord) := by
  obtain ⟨es, ⟨rs, hjournal, hes⟩, htold⟩ := h
  rw [hjournal] at hroom ⊢
  have hpayloads := (Journal.emits_records hroom).2
  have hfills : es.filter isFillRecord = rs.filter isFillRecord := by
    rw [← hes, List.filter_filter]
    apply List.filter_congr
    intro r _
    cases hr : isFillRecord r with
    | false => rfl
    | true =>
      have htype : r.type = JournalRecordType.fill.code := beq_iff_eq.mp hr
      simp [isReport, htype]
  have hsame : ((({} : Journal).emits rs).records.filter isFillRecord).map JournalRecord.payload =
      (rs.filter isFillRecord).map JournalRecord.payload := by
    have hfilter : ∀ l : List JournalRecord, (l.filter isFillRecord).map JournalRecord.payload =
        (l.map JournalRecord.payload).filter isFillRecord := by
      intro l
      rw [List.filter_map]
      rfl
    rw [hfilter, hfilter, hpayloads]
    rfl
  rw [hfills] at htold
  have hmap : List.Forall₂ FillEvent.Journalled b.fills
      ((rs.filter isFillRecord).map JournalRecord.payload) := by
    rw [List.forall₂_map_right_iff]
    exact htold.imp fun f r hr => ⟨hr.type, hr.order, hr.symbolId, hr.price, hr.volume⟩
  rw [← hsame, List.forall₂_map_right_iff] at hmap
  exact hmap.imp fun f r hr => ⟨hr.type, hr.order, hr.symbolId, hr.price, hr.volume⟩

end FillsTold

/-! ## Runs -/

theorem Genuine.conserves_iff {hedging : Bool} {f : FillEvent} (h : Genuine hedging f)
    (hroom : f.before.openCount < maxPositions) :
    f.Conserves ↔ f.Covered hedging ∧ f.OwnTerms hedging := by
  obtain ⟨seq, own, hbooking⟩ := h.booking
  exact Exec.conserves_iff hbooking h.volume_pos h.sound hroom

namespace PaperBroker

/-- Every fill of the run found fewer than `max_positions` tickets open. -/
def Roomy (b : PaperBroker) : Prop := ∀ f ∈ b.books.fills, f.before.openCount < maxPositions

/-- In every run with room for tickets: a fill moves the net volumes by its signed volume exactly
when the reducing path finds enough in the first ticket it looks at and an own ticket has the
order's terms. An own ticket always has, until the ticket numbers wrap. In a run of such fills
every net volume is the signed sum of the fills, and these are what the journal records. -/
theorem fill_conservation_iff (config : BrokerConfig) (actions : List Action)
    (hroom : (after config actions).Roomy) :
    (∀ f ∈ (after config actions).books.fills,
      f.Conserves ↔ f.Covered config.hedging ∧ f.OwnTerms config.hedging) ∧
    (Unwrapped (after config actions).books →
      ∀ f ∈ (after config actions).books.fills, f.OwnTerms config.hedging) ∧
    ((∀ f ∈ (after config actions).books.fills, f.Covered config.hedging ∧ f.OwnTerms config.hedging) →
      ∀ s, (after config actions).books.positions.netVolume s =
        ((after config actions).books.fills.map fun f => f.signed s).sum) ∧
    ((after config actions).books.journal.overflowed = false →
      List.Forall₂ FillEvent.Journalled (after config actions).books.fills
        ((after config actions).books.journal.records.filter isFillRecord)) := by
  have hhistory := history_after config actions
  have hconfig := after_config config actions
  have hiff : ∀ f ∈ (after config actions).books.fills,
      f.Conserves ↔ f.Covered config.hedging ∧ f.OwnTerms config.hedging := by
    intro f hf
    have hgenuine := hhistory.genuine f hf
    rw [hconfig] at hgenuine
    exact hgenuine.conserves_iff (hroom f hf)
  refine ⟨hiff, ?_, ?_, (FillsTold.after config actions).records⟩
  · have hnew : Named (new config).books [] := by
      refine ⟨history_after config [], fun _ => ⟨?_, ?_⟩, fun _ => ?_⟩
      · intro p hp
        cases hp
      · intro x hx
        cases hx
      · intro f hf
        cases hf
    have hnamed := (named_rule.after hnew actions).ownTerms
    rw [hconfig] at hnamed
    exact hnamed
  · intro hcovered s
    rw [hhistory.moved s]
    congr 1
    apply List.map_congr_left
    intro f hf
    have hmoved := (hiff f hf).mpr (hcovered f hf) s
    omega

/-- A ticket of three lots and a `reduce_only` order that takes two of them. -/
def reducedOnce : List Action :=
  [.onQuote 0 100 102 0 0 1, .submit { volume := 3 } 1, .onQuote 0 100 102 0 0 1000000000,
    .submit { volume := 2, side := .sell, reduceOnly := true, seqGlobal := 1 } 1000000000,
    .onQuote 0 100 102 0 0 2000000000]

theorem fill_conservation_reduced_once :
    let b := after { initialBalanceMinor := 1000000 } reducedOnce
    (b.books.fills.map fun f => f.signed 0) = [3, -2] ∧
      b.books.positions.netVolume 0 = (b.books.fills.map fun f => f.signed 0).sum := by
  intro b
  have hroom : b.Roomy := by
    unfold Roomy
    decide +kernel
  have hfresh : Unwrapped b.books := by
    unfold Unwrapped
    decide +kernel
  have hcovered : ∀ f ∈ b.books.fills, (f.intent true).reduces = false ∨
      ∃ p ∈ f.before.positions.take 1, (f.intent true).Reducible p ∧ f.volume ≤ p.volume := by decide +kernel
  obtain ⟨-, howned, hsum, -⟩ := fill_conservation_iff { initialBalanceMinor := 1000000 } reducedOnce hroom
  refine ⟨by decide +kernel, hsum (fun f hf => ⟨?_, howned hfresh f hf⟩) 0⟩
  rcases hcovered f hf with hentry | ⟨p, hp, hreducible, hvolume⟩
  · exact Intent.covered_of_entry hentry
  · exact Intent.covered_of_first hp hreducible hvolume

/-- Two tickets of one lot, and a `reduce_only` order of two lots against them. -/
def twoTickets : List Action :=
  [.onQuote 0 100 102 0 0 1, .submit { volume := 1 } 1, .submit { volume := 1, seqGlobal := 1 } 1,
    .onQuote 0 100 102 0 0 1000000000,
    .submit { volume := 2, side := .sell, reduceOnly := true, seqGlobal := 2 } 1000000000,
    .onQuote 0 100 102 0 0 2000000000]

/-- One lot of the fill is booked, the other is not. -/
theorem fill_conservation_two_tickets :
    (after { initialBalanceMinor := 1000000 } twoTickets).Roomy ∧
    ∃ f ∈ (after { initialBalanceMinor := 1000000 } twoTickets).books.fills, ¬ f.Conserves := by
  have hfill : ∃ f ∈ (after { initialBalanceMinor := 1000000 } twoTickets).books.fills,
      f.after.netVolume 0 ≠ f.before.netVolume 0 + f.signed 0 := by decide +kernel
  refine ⟨?_, ?_⟩
  · unfold Roomy
    decide +kernel
  · obtain ⟨f, hf, hmoved⟩ := hfill
    exact ⟨f, hf, fun hc => hmoved (hc 0)⟩

end PaperBroker

end MicrostructureEngine.Exec
