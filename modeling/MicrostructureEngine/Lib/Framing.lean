import Mathlib.Data.List.Basic

/-!
# Self-delimiting items in a stream

A codec writes an item as a nonempty string and reads the item at the head of a stream, if
there is one; reading is the inverse of writing. Scanning reads items until none is at the
head: a stream is one list of written items, followed by a rest that starts with no item.
-/

namespace MicrostructureEngine.Framing

set_option autoImplicit false

universe u v

structure Codec (α : Type u) (β : Type v) where
  encode : α → List β
  head : List β → Option (α × List β)
  head_eq_some : ∀ {bs a rest}, head bs = some (a, rest) ↔ bs = encode a ++ rest
  encode_ne_nil : ∀ a, encode a ≠ []

namespace Codec
variable {α : Type u} {β : Type v} (c : Codec α β)

def concat (as : List α) : List β := as.flatMap c.encode

def scanLoop : Nat → List β → List α × List β
  | 0, bs => ([], bs)
  | n + 1, bs =>
    match c.head bs with
    | none => ([], bs)
    | some (a, rest) => (a :: (scanLoop n rest).1, (scanLoop n rest).2)

/-- The items at the front of the stream and what follows them. -/
def scan (bs : List β) : List α × List β := c.scanLoop bs.length bs

@[simp] theorem concat_nil : c.concat [] = [] := rfl

@[simp] theorem concat_cons (a : α) (as : List α) : c.concat (a :: as) = c.encode a ++ c.concat as :=
  rfl

@[simp] theorem concat_append (as bs : List α) : c.concat (as ++ bs) = c.concat as ++ c.concat bs :=
  List.flatMap_append

theorem head_encode (a : α) (rest : List β) : c.head (c.encode a ++ rest) = some (a, rest) :=
  c.head_eq_some.mpr rfl

theorem head_nil : c.head [] = none := by
  cases h : c.head [] with
  | none => rfl
  | some p =>
    have hnil := c.head_eq_some.mp h
    exact absurd (List.append_eq_nil_iff.mp hnil.symm).1 (c.encode_ne_nil p.1)

theorem length_encode_pos (a : α) : 0 < (c.encode a).length :=
  List.length_pos_iff.mpr (c.encode_ne_nil a)

/-- Induction along the items of a stream. -/
theorem stream_induction {P : List β → Prop} (stop : ∀ bs, c.head bs = none → P bs)
    (step : ∀ a rest, P rest → P (c.encode a ++ rest)) (bs : List β) : P bs := by
  induction hn : bs.length using Nat.strongRecOn generalizing bs with
  | ind n ih =>
    cases h : c.head bs with
    | none => exact stop bs h
    | some p =>
      have heq := c.head_eq_some.mp h
      have hpos := c.length_encode_pos p.1
      rw [heq, List.length_append] at hn
      rw [heq]
      exact step p.1 p.2 (ih p.2.length (by omega) p.2 rfl)

theorem scanLoop_of_none {n : Nat} {bs : List β} (h : c.head bs = none) :
    c.scanLoop n bs = ([], bs) := by
  cases n with
  | zero => rfl
  | succ n => simp only [scanLoop, h]

theorem scanLoop_encode (n : Nat) (a : α) (rest : List β) :
    c.scanLoop (n + 1) (c.encode a ++ rest) =
      (a :: (c.scanLoop n rest).1, (c.scanLoop n rest).2) := by
  simp only [scanLoop, c.head_encode]

/-- A scan is over before it runs out of fuel. -/
theorem scanLoop_fuel (bs : List β) : ∀ n, bs.length ≤ n → c.scanLoop n bs = c.scan bs := by
  induction bs using c.stream_induction with
  | stop bs h =>
    intro n _
    unfold scan
    rw [c.scanLoop_of_none h, c.scanLoop_of_none h]
  | step a rest ih =>
    intro n hn
    have hpos := c.length_encode_pos a
    rw [List.length_append] at hn
    obtain ⟨k, rfl⟩ : ∃ k, n = k + 1 := ⟨n - 1, by omega⟩
    obtain ⟨m, hm⟩ : ∃ m, (c.encode a ++ rest).length = m + 1 :=
      ⟨(c.encode a ++ rest).length - 1, by rw [List.length_append]; omega⟩
    have hlength := hm
    rw [List.length_append] at hlength
    unfold scan
    rw [hm, c.scanLoop_encode, c.scanLoop_encode, ih k (by omega), ih m (by omega)]

theorem scan_of_none {bs : List β} (h : c.head bs = none) : c.scan bs = ([], bs) :=
  c.scanLoop_of_none h

@[simp] theorem scan_nil : c.scan [] = ([], []) := rfl

theorem scan_encode (a : α) (rest : List β) :
    c.scan (c.encode a ++ rest) = (a :: (c.scan rest).1, (c.scan rest).2) := by
  have hpos := c.length_encode_pos a
  rw [← c.scanLoop_fuel (c.encode a ++ rest) ((c.encode a ++ rest).length + 1) (by omega),
    c.scanLoop_encode, c.scanLoop_fuel rest _ (by rw [List.length_append]; omega)]

theorem scan_concat (as : List α) (rest : List β) :
    c.scan (c.concat as ++ rest) = (as ++ (c.scan rest).1, (c.scan rest).2) := by
  induction as with
  | nil => rfl
  | cons a as ih => rw [concat_cons, List.append_assoc, c.scan_encode, ih, List.cons_append]

/-- A scan splits the stream, and nothing can be read at the place where it stops. -/
theorem scan_spec (bs : List β) :
    bs = c.concat (c.scan bs).1 ++ (c.scan bs).2 ∧ c.head (c.scan bs).2 = none := by
  induction bs using c.stream_induction with
  | stop bs h =>
    rw [c.scan_of_none h]
    exact ⟨rfl, h⟩
  | step a rest ih =>
    rw [c.scan_encode, concat_cons, List.append_assoc]
    exact ⟨congrArg (c.encode a ++ ·) ih.1, ih.2⟩

theorem scan_eq_iff {bs rest : List β} {as : List α} :
    c.scan bs = (as, rest) ↔ bs = c.concat as ++ rest ∧ c.head rest = none := by
  constructor
  · intro h
    have hspec := c.scan_spec bs
    rw [h] at hspec
    exact hspec
  · rintro ⟨rfl, hrest⟩
    rw [c.scan_concat, c.scan_of_none hrest, List.append_nil]

/-- Strings of items are read back as they were written. -/
theorem scan_of_concat (as : List α) : c.scan (c.concat as) = (as, []) :=
  c.scan_eq_iff.mpr ⟨(List.append_nil _).symm, c.head_nil⟩

/-- A stream that is cut holds the items that end before the cut. -/
theorem scan_take (as : List α) (k : Nat) :
    ∃ n, n ≤ as.length ∧ (c.scan ((c.concat as).take k)).1 = as.take n ∧
      ∀ m, m ≤ as.length → ((c.concat (as.take m)).length ≤ k ↔ m ≤ n) := by
  induction as generalizing k with
  | nil =>
    refine ⟨0, Nat.le_refl 0, by simp, fun m hm => ?_⟩
    have hm : m = 0 := Nat.le_zero.mp hm
    subst hm
    simp
  | cons a as ih =>
    by_cases hfits : (c.encode a).length ≤ k
    · obtain ⟨n, hn, hscan, hlengths⟩ := ih (k - (c.encode a).length)
      refine ⟨n + 1, Nat.succ_le_succ hn, ?_, fun m hm => ?_⟩
      · rw [concat_cons, List.take_append, List.take_of_length_le hfits, c.scan_encode, hscan]
        rfl
      · cases m with
        | zero => simp
        | succ m =>
          have hlength := hlengths m (by simpa using hm)
          rw [List.take_succ_cons, concat_cons, List.length_append]
          omega
    · have hcut : c.head ((c.concat (a :: as)).take k) = none := by
        cases hhead : c.head ((c.concat (a :: as)).take k) with
        | none => rfl
        | some found =>
          -- an item in front of the cut would be in front of the whole stream
          have hfront := c.head_eq_some.mp hhead
          have hwhole : c.concat (a :: as) = c.encode found.1 ++ (found.2 ++ (c.concat (a :: as)).drop k) := by
            rw [← List.append_assoc, ← hfront, List.take_append_drop]
          have hitem : a = found.1 := by
            have hheads := congrArg c.head hwhole
            rw [concat_cons, c.head_encode, c.head_encode] at hheads
            exact congrArg Prod.fst (Option.some.inj hheads)
          have hlength := congrArg List.length hfront
          rw [← hitem, List.length_append, List.length_take] at hlength
          omega
      refine ⟨0, Nat.zero_le _, by rw [c.scan_of_none hcut]; rfl, fun m hm => ?_⟩
      cases m with
      | zero => simp
      | succ m =>
        rw [List.take_succ_cons, concat_cons, List.length_append]
        omega

/-- Nothing can be read from the front of a stream that starts with no item. -/
theorem head_take_of_none {bs : List β} (h : c.head bs = none) (k : Nat) : c.head (bs.take k) = none := by
  cases hhead : c.head (bs.take k) with
  | none => rfl
  | some found =>
    have hwhole : bs = c.encode found.1 ++ (found.2 ++ bs.drop k) := by
      rw [← List.append_assoc, ← c.head_eq_some.mp hhead, List.take_append_drop]
    rw [hwhole, c.head_encode] at h
    cases h

/-- Cutting a stream takes items from the end of what is read, and adds none. -/
theorem scan_take_prefix (bs : List β) (k : Nat) : (c.scan (bs.take k)).1 <+: (c.scan bs).1 := by
  obtain ⟨hsplit, hnone⟩ := c.scan_spec bs
  generalize (c.scan bs).1 = as at hsplit ⊢
  generalize (c.scan bs).2 = rest at hsplit hnone
  subst hsplit
  rw [List.take_append]
  rcases Nat.le_total k (c.concat as).length with hk | hk
  · obtain ⟨n, -, hscan, -⟩ := c.scan_take as k
    rw [Nat.sub_eq_zero_of_le hk, List.take_zero, List.append_nil, hscan]
    exact List.take_prefix n as
  · rw [List.take_of_length_le hk, c.scan_concat, c.scan_of_none (c.head_take_of_none hnone _)]
    dsimp only
    exact ⟨[], by rw [List.append_nil, List.append_nil]⟩

/-- The codec of the items with a property; any other item counts as none. -/
def restrict (p : α → Prop) [DecidablePred p] : Codec {a // p a} β where
  encode a := c.encode a.1
  head bs := (c.head bs).bind fun found => if h : p found.1 then some (⟨found.1, h⟩, found.2) else none
  head_eq_some := by
    intro bs a rest
    rw [Option.bind_eq_some_iff]
    constructor
    · rintro ⟨found, hfound, hitem⟩
      split at hitem
      · cases hitem
        exact c.head_eq_some.mp hfound
      · cases hitem
    · rintro rfl
      exact ⟨(a.1, rest), c.head_encode a.1 rest, dif_pos a.2⟩
  encode_ne_nil a := c.encode_ne_nil a.1

section Restrict
variable {p : α → Prop} [DecidablePred p]

theorem concat_restrict (as : List {a // p a}) :
    (c.restrict p).concat as = c.concat (as.map Subtype.val) := by
  induction as with
  | nil => rfl
  | cons a as ih => exact congrArg (c.encode a.1 ++ ·) ih

end Restrict

end Codec

end MicrostructureEngine.Framing
