import Mathlib.Data.List.Basic
import Mathlib.Data.List.InsertIdx
import Mathlib.Data.List.TakeDrop
import Mathlib.Logic.Function.Basic
import Mathlib.Tactic.SplitIfs

/-!
# Best-first lists

A finite map as the list of its entries, the best key first. There is one such list for a map;
setting and removing a key update the map there. A window on the front of a list can follow what is
done to the list as long as nothing from behind the window moves into it.
-/

namespace MicrostructureEngine.BestFirst

open scoped List
set_option autoImplicit false

universe u v
variable {α : Type u} {κ : Type v} [DecidableEq κ]

/-- A strict order, read as "is better than". -/
structure Order (better : κ → κ → Bool) : Prop where
  irrefl : ∀ a, better a a = false
  trans : ∀ {a b c}, better a b = true → better b c = true → better a c = true
  total : ∀ a b, a ≠ b → better a b = true ∨ better b a = true

omit [DecidableEq κ] in
theorem Order.asymm {better : κ → κ → Bool} (order : Order better) {a b : κ} (h : better a b = true) :
    better b a = false := by
  cases hba : better b a with
  | false => rfl
  | true =>
    have hself := order.trans h hba
    rw [order.irrefl] at hself
    cases hself

section Definitions
variable (key : α → κ) (better : κ → κ → Bool)

def Sorted (l : List α) : Prop := l.Pairwise fun a b => better (key a) (key b) = true

/-- The entry of a key. -/
def entryAt (l : List α) (k : κ) : Option α := l.find? fun a => key a == k

/-- Set the entry of a key: in its place, or before the first worse one. -/
def put (a : α) : List α → List α
  | [] => [a]
  | b :: l => if key b = key a then a :: l else if better (key a) (key b) then a :: b :: l else b :: put a l

/-- Remove the entry of a key. -/
def without (k : κ) (l : List α) : List α := l.filter fun a => !(key a == k)

/-- The best `n` entries of a map, best first. -/
def IsBest (n : Nat) (m : κ → Option α) (l : List α) : Prop :=
  ∃ full, Sorted key better full ∧ entryAt key full = m ∧ l = full.take n

end Definitions

variable {key : α → κ} {better : κ → κ → Bool} {l w h : List α} {a b : α} {k : κ} {n : Nat}

/-! ## Entries -/

@[simp] theorem entryAt_nil (k : κ) : entryAt key [] k = none := rfl

theorem entryAt_cons (a : α) (l : List α) :
    entryAt key (a :: l) = Function.update (entryAt key l) (key a) (some a) := by
  funext k
  unfold entryAt
  rw [List.find?_cons]
  by_cases hk : k = key a
  · rw [hk, Function.update_self, beq_self_eq_true]
  · rw [Function.update_of_ne hk, beq_eq_false_iff_ne.mpr (Ne.symm hk)]

theorem entryAt_eq_none_iff : entryAt key l k = none ↔ ∀ a ∈ l, key a ≠ k := by
  unfold entryAt
  rw [List.find?_eq_none]
  simp

theorem key_of_entryAt (h : entryAt key l k = some a) : a ∈ l ∧ key a = k :=
  ⟨List.mem_of_find?_eq_some h, by simpa using List.find?_some h⟩

/-! ## Sorted lists -/

omit [DecidableEq κ] in
theorem Sorted.tail (hs : Sorted key better (a :: l)) : Sorted key better l := (List.pairwise_cons.mp hs).2

omit [DecidableEq κ] in
theorem Sorted.take (hs : Sorted key better l) (n : Nat) : Sorted key better (l.take n) :=
  hs.sublist (List.take_sublist n l)

theorem Sorted.without (hs : Sorted key better l) (k : κ) : Sorted key better (without key k l) :=
  hs.sublist List.filter_sublist

/-! ## Setting and removing an entry -/

theorem mem_of_mem_put : b ∈ put key better a l → b = a ∨ b ∈ l := by
  induction l with
  | nil => simp [put]
  | cons c l ih =>
    unfold put
    split_ifs with hkey hbetter
    · rw [List.mem_cons, List.mem_cons]
      exact Or.imp_right Or.inr
    · rw [List.mem_cons]
      exact id
    · rw [List.mem_cons, List.mem_cons]
      rintro (rfl | hb)
      · exact .inr (.inl rfl)
      · exact (ih hb).imp_right .inr

theorem entryAt_put (a : α) (l : List α) :
    entryAt key (BestFirst.put key better a l) = Function.update (entryAt key l) (key a) (some a) := by
  induction l with
  | nil => exact entryAt_cons a []
  | cons b l ih =>
    unfold BestFirst.put
    split_ifs with hkey hbetter
    · rw [entryAt_cons, entryAt_cons, hkey, Function.update_idem]
    · exact entryAt_cons a (b :: l)
    · rw [entryAt_cons, ih, entryAt_cons, Function.update_comm hkey]

/-- A new key goes before the first entry that it is better than. -/
theorem put_eq_insertIdx (hnew : entryAt key l (key a) = none) :
    put key better a l = l.insertIdx (l.findIdx fun b => better (key a) (key b)) a := by
  induction l with
  | nil => rfl
  | cons b l ih =>
    rw [entryAt_eq_none_iff] at hnew
    have hkey : key b ≠ key a := hnew b List.mem_cons_self
    have hrest : entryAt key l (key a) = none := entryAt_eq_none_iff.mpr fun c hc => hnew c (List.mem_cons_of_mem b hc)
    unfold put
    rw [if_neg hkey, List.findIdx_cons]
    cases hbetter : better (key a) (key b) with
    | true => rfl
    | false =>
      simp only [Bool.false_eq_true, if_false, cond_false]
      rw [ih hrest, List.insertIdx_succ_cons]

/-! ## A window on the front of a list -/

/-- What is set at a key of the window, or before one of its entries, leaves what is behind the window alone. -/
theorem put_append_of_front (hfront : ∃ b ∈ w, key b = key a ∨ better (key a) (key b) = true) :
    put key better a (w ++ h) = put key better a w ++ h := by
  induction w with
  | nil =>
    obtain ⟨b, hb, -⟩ := hfront
    cases hb
  | cons c w ih =>
    rw [List.cons_append]
    unfold put
    split_ifs with hkey hbetter
    · rfl
    · rfl
    · obtain ⟨b, hb, hcase⟩ := hfront
      rcases List.mem_cons.mp hb with rfl | hrest
      · exact absurd hcase (not_or.mpr ⟨hkey, hbetter⟩)
      · rw [ih ⟨b, hrest, hcase⟩, List.cons_append]

/-- What is worse than the window is set behind it. -/
theorem put_append_of_behind (hbehind : ¬ ∃ b ∈ w, key b = key a ∨ better (key a) (key b) = true) :
    put key better a (w ++ h) = w ++ put key better a h := by
  induction w with
  | nil => rfl
  | cons c w ih =>
    have hc : ¬ (key c = key a ∨ better (key a) (key c) = true) := fun hc => hbehind ⟨c, List.mem_cons_self, hc⟩
    have hrest : ¬ ∃ b ∈ w, key b = key a ∨ better (key a) (key b) = true := by
      rintro ⟨b, hb, hcase⟩
      exact hbehind ⟨b, List.mem_cons_of_mem c hb, hcase⟩
    rw [List.cons_append]
    conv_lhs => unfold put
    rw [if_neg (not_or.mp hc).1, if_neg (not_or.mp hc).2, ih hrest, List.cons_append]

theorem without_prefix (k : κ) (hw : w <+: l) : without key k w <+: without key k l := hw.filter _

/-! ## Under a strict order -/

section Laws
variable (order : Order better)
include order

theorem Sorted.head_absent (hs : Sorted key better (a :: l)) : entryAt key l (key a) = none := by
  rw [entryAt_eq_none_iff]
  intro b hb heq
  have hbetter := (List.pairwise_cons.mp hs).1 b hb
  rw [heq, order.irrefl] at hbetter
  cases hbetter

omit [DecidableEq κ] in
theorem Sorted.nodup (hs : Sorted key better l) : (l.map key).Nodup := by
  refine List.pairwise_map.mpr (hs.imp ?_)
  intro a b hab heq
  rw [heq, order.irrefl] at hab
  cases hab

theorem Sorted.put (hs : Sorted key better l) (a : α) : Sorted key better (put key better a l) := by
  induction l with
  | nil => exact List.pairwise_singleton _ _
  | cons b l ih =>
    obtain ⟨hhead, htail⟩ := List.pairwise_cons.mp hs
    unfold BestFirst.put
    split_ifs with hkey hbetter
    · exact List.pairwise_cons.mpr ⟨fun c hc => hkey ▸ hhead c hc, htail⟩
    · refine List.pairwise_cons.mpr ⟨?_, hs⟩
      intro c hc
      rcases List.mem_cons.mp hc with rfl | hrest
      · exact hbetter
      · exact order.trans hbetter (hhead c hrest)
    · refine List.pairwise_cons.mpr ⟨?_, ih htail⟩
      intro c hc
      rcases mem_of_mem_put hc with rfl | hrest
      · exact (order.total _ _ hkey).resolve_right hbetter
      · exact hhead c hrest

/-- Setting a key leaves the best entries of the map that is set there. -/
theorem isBest_put (hs : Sorted key better l) (n : Nat) (a : α) :
    IsBest key better n (Function.update (entryAt key l) (key a) (some a)) ((put key better a l).take n) :=
  ⟨_, hs.put order a, entryAt_put a l, rfl⟩

/-- An entry that is there is set in its place. -/
theorem put_eq_set (hs : Sorted key better l) {i : Nat}
    (hi : (l.findIdx? fun b => key b == key a) = some i) : put key better a l = l.set i a := by
  induction l generalizing i with
  | nil => cases hi
  | cons b l ih =>
    rw [List.findIdx?_cons] at hi
    unfold BestFirst.put
    by_cases hkey : key b = key a
    · rw [if_pos (beq_iff_eq.mpr hkey)] at hi
      cases hi
      rw [if_pos hkey]
      rfl
    · rw [if_neg (by simpa using hkey)] at hi
      obtain ⟨j, hj, rfl⟩ := Option.map_eq_some_iff.mp hi
      obtain ⟨hlt, hat, -⟩ := List.findIdx?_eq_some_iff_getElem.mp hj
      have hbehind := (List.pairwise_cons.mp hs).1 l[j] (List.getElem_mem hlt)
      rw [beq_iff_eq.mp hat] at hbehind
      have hworse : ¬ better (key a) (key b) = true := by
        rw [order.asymm hbehind]
        nofun
      rw [if_neg hkey, if_neg hworse, ih hs.tail hj, List.set_cons_succ]

theorem without_eq_eraseIdx (hs : Sorted key better l) {i : Nat}
    (hi : (l.findIdx? fun b => key b == k) = some i) : without key k l = l.eraseIdx i := by
  induction l generalizing i with
  | nil => cases hi
  | cons b l ih =>
    rw [List.findIdx?_cons] at hi
    by_cases hkey : key b = k
    · rw [if_pos (beq_iff_eq.mpr hkey)] at hi
      cases hi
      have hrest : ∀ c ∈ l, key c ≠ k := hkey ▸ entryAt_eq_none_iff.mp (hs.head_absent order)
      have hkeep : without key k l = l := List.filter_eq_self.mpr fun c hc => by simpa using hrest c hc
      rw [List.eraseIdx_cons_zero, without, List.filter_cons_of_neg (by simp [hkey])]
      exact hkeep
    · rw [if_neg (by simpa using hkey)] at hi
      obtain ⟨j, hj, rfl⟩ := Option.map_eq_some_iff.mp hi
      rw [List.eraseIdx_cons_succ, without, List.filter_cons_of_pos (by simpa using hkey)]
      exact congrArg (List.cons b) (ih hs.tail hj)

/-- The first entry is a new one when no entry is better. -/
theorem singleton_prefix_put (hs : Sorted key better h) :
    [a] <+: BestFirst.put key better a h ↔ ∀ b ∈ h, better (key b) (key a) = false := by
  cases h with
  | nil => simp [BestFirst.put]
  | cons c h =>
    have hrest : ∀ b ∈ h, better (key c) (key b) = true := (List.pairwise_cons.mp hs).1
    unfold BestFirst.put
    by_cases hkey : key c = key a
    · rw [if_pos hkey]
      refine iff_of_true ⟨h, rfl⟩ ?_
      intro b hb
      rcases List.mem_cons.mp hb with rfl | hb
      · rw [hkey]
        exact order.irrefl _
      · exact order.asymm (hkey ▸ hrest b hb)
    · rw [if_neg hkey]
      by_cases hbetter : better (key a) (key c) = true
      · rw [if_pos hbetter]
        refine iff_of_true ⟨c :: h, rfl⟩ ?_
        intro b hb
        rcases List.mem_cons.mp hb with rfl | hb
        · exact order.asymm hbetter
        · exact order.asymm (order.trans hbetter (hrest b hb))
      · rw [if_neg hbetter]
        refine iff_of_false ?_ ?_
        · intro hprefix
          exact hkey (congrArg key (List.cons_prefix_cons.mp hprefix).1).symm
        · intro hnone
          have hca := (order.total _ _ hkey).resolve_right hbetter
          rw [hnone c List.mem_cons_self] at hca
          cases hca

/-- A window of at most `n` entries, updated on its own, stays a window on the updated list: when it is full,
or when nothing behind it is better than what is set. -/
theorem window_put (hs : Sorted key better (w ++ h)) (hlength : w.length ≤ n) :
    (BestFirst.put key better a w).take n <+: BestFirst.put key better a (w ++ h) ↔
      w.length = n ∨ ∀ b ∈ h, better (key b) (key a) = false := by
  obtain ⟨-, hsh, hacross⟩ := List.pairwise_append.mp hs
  by_cases hfront : ∃ b ∈ w, key b = key a ∨ better (key a) (key b) = true
  · rw [put_append_of_front hfront]
    refine iff_of_true ((List.take_prefix n _).trans (List.prefix_append _ h)) (.inr ?_)
    intro c hc
    obtain ⟨b, hb, hcase⟩ := hfront
    have hbc : better (key b) (key c) = true := hacross b hb c hc
    rcases hcase with hkey | hbetter
    · exact order.asymm (hkey ▸ hbc)
    · exact order.asymm (order.trans hbetter hbc)
  · have hend : BestFirst.put key better a w = w ++ [a] := by
      have happend := put_append_of_behind (h := []) hfront
      rwa [List.append_nil] at happend
    rw [hend, put_append_of_behind hfront]
    by_cases hfull : w.length = n
    · rw [← hfull, List.take_left]
      exact iff_of_true (List.prefix_append w _) (.inl rfl)
    · have hroom : (w ++ [a]).length ≤ n := by
        rw [List.length_append, List.length_singleton]
        omega
      rw [List.take_of_length_le hroom, List.prefix_append_right_inj, singleton_prefix_put order hsh]
      exact ⟨.inr, fun hcase => hcase.resolve_left hfull⟩

end Laws

end MicrostructureEngine.BestFirst
