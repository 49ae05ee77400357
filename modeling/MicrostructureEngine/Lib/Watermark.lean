import Mathlib.Data.List.Sort
import Mathlib.Order.Basic

/-!
# Reading a growing log by a watermark

A log grows at its end and its keys never go back. A reader remembers the key of the last entry
that it took and asks for the entries with a larger one, a few at a time. What it took is a part
of the log, in the log's order and nothing twice; it can miss an entry only where the key of that
entry is also the key of one that it took.
-/

namespace MicrostructureEngine.Watermark

set_option autoImplicit false

universe u v
variable {α : Type u} {κ : Type v} [LinearOrder κ] (key : α → κ)

def Ordered (log : List α) : Prop := log.Pairwise fun a b => key a ≤ key b

def passed (mark : κ) (log : List α) : List α := log.filter fun a => key a ≤ mark

def pending (mark : κ) (log : List α) : List α := log.filter fun a => mark < key a

/-- From some entry on, all entries up to the watermark were taken or share their key with one
that was. -/
structure Covers (log sent : List α) (mark : κ) : Prop where
  split : ∃ old mid, passed key mark log = old ++ mid ∧ sent.Sublist mid ∧ ∀ a ∈ mid, ∃ s ∈ sent, key s = key a
  last : sent.getLast?.map key = some mark

section Lists
variable {key} {log batch : List α} {mark : κ}

theorem passed_append (mark : κ) (xs ys : List α) : passed key mark (xs ++ ys) = passed key mark xs ++ passed key mark ys :=
  List.filter_append xs ys

theorem passed_of_le (h : ∀ a ∈ log, key a ≤ mark) : passed key mark log = log :=
  List.filter_eq_self.mpr fun a ha => decide_eq_true (h a ha)

theorem passed_of_lt (h : ∀ a ∈ log, mark < key a) : passed key mark log = [] :=
  List.filter_eq_nil_iff.mpr fun a ha => by simpa using h a ha

theorem passed_pending (h : Ordered key log) (mark : κ) : passed key mark log ++ pending key mark log = log := by
  induction log with
  | nil => rfl
  | cons a log ih =>
    obtain ⟨hhead, htail⟩ := List.pairwise_cons.mp h
    unfold passed pending
    by_cases ha : key a ≤ mark
    · rw [List.filter_cons_of_pos (by simpa using ha), List.filter_cons_of_neg (by simpa using ha), List.cons_append]
      exact congrArg (a :: ·) (ih htail)
    · have hall : ∀ b ∈ log, mark < key b := fun b hb => lt_of_lt_of_le (not_le.mp ha) (hhead b hb)
      rw [List.filter_cons_of_neg (by simpa using ha), List.filter_cons_of_pos (by simpa using not_le.mp ha)]
      rw [show log.filter (fun a => decide (key a ≤ mark)) = [] from passed_of_lt hall,
        List.filter_eq_self.mpr fun b hb => decide_eq_true (hall b hb), List.nil_append]

/-- What stands in front of a watermark that is the last key of a batch's front. -/
theorem passed_batch (h : Ordered key batch) {front : List α} {last : α} (hfront : (front ++ [last]) <+: batch) :
    ∃ ties, passed key (key last) batch = front ++ [last] ++ ties ∧ ∀ a ∈ ties, key a = key last := by
  obtain ⟨rest, rfl⟩ := hfront
  obtain ⟨hfirst, -, hcross⟩ := List.pairwise_append.mp h
  have hle : ∀ a ∈ front ++ [last], key a ≤ key last := by
    intro a ha
    rcases List.mem_append.mp ha with ha | ha
    · exact (List.pairwise_append.mp hfirst).2.2 a ha last List.mem_cons_self
    · rw [List.mem_singleton.mp ha]
  refine ⟨passed key (key last) rest, by rw [passed_append, passed_of_le hle], fun a ha => ?_⟩
  obtain ⟨hmem, hpassed⟩ := List.mem_filter.mp ha
  exact le_antisymm (of_decide_eq_true hpassed) (hcross last (List.mem_append_right _ List.mem_cons_self) a hmem)

end Lists

section Steps
variable {key} {log sent batch : List α} {mark : κ}

/-- The first batch is an end of the log, of which a front is taken. -/
theorem Covers.start (hordered : Ordered key log) (old : List α) {front : List α} {last : α} (hlog : log = old ++ batch)
    (hfront : (front ++ [last]) <+: batch) : Covers key log (front ++ [last]) (key last) := by
  subst hlog
  obtain ⟨hold, hbatch, hcross⟩ := List.pairwise_append.mp hordered
  have hlast : last ∈ batch := hfront.subset (List.mem_append_right _ List.mem_cons_self)
  obtain ⟨ties, hpassed, hties⟩ := passed_batch hbatch hfront
  refine ⟨⟨old, front ++ [last] ++ ties, ?_, List.sublist_append_left _ _, fun a ha => ?_⟩, ?_⟩
  · rw [passed_append, passed_of_le fun a ha => hcross a ha last hlast, hpassed]
  · rcases List.mem_append.mp ha with ha | ha
    · exact ⟨a, ha, rfl⟩
    · exact ⟨last, List.mem_append_right _ List.mem_cons_self, (hties a ha).symm⟩
  · rw [List.getLast?_append, List.getLast?_singleton]
    rfl

theorem Covers.advance (h : Covers key log sent mark) (hordered : Ordered key log) {front : List α} {last : α}
    (hfront : (front ++ [last]) <+: pending key mark log) : Covers key log (sent ++ (front ++ [last])) (key last) := by
  obtain ⟨old, mid, hsplit, hsent, hmid⟩ := h.split
  have hlast : last ∈ pending key mark log := hfront.subset (List.mem_append_right _ List.mem_cons_self)
  have hgrows : mark < key last := of_decide_eq_true (List.mem_filter.mp hlast).2
  have hpending : Ordered key (pending key mark log) := hordered.sublist List.filter_sublist
  obtain ⟨ties, hpassed, hties⟩ := passed_batch hpending hfront
  have hbefore : ∀ a ∈ passed key mark log, key a ≤ key last := fun a ha =>
    le_trans (of_decide_eq_true (List.mem_filter.mp ha).2) hgrows.le
  refine ⟨⟨old, mid ++ (front ++ [last] ++ ties), ?_, ?_, fun a ha => ?_⟩, ?_⟩
  · rw [← passed_pending hordered mark, passed_append, passed_of_le hbefore, hpassed, hsplit, List.append_assoc]
  · exact hsent.append (List.sublist_append_left _ _)
  · rcases List.mem_append.mp ha with ha | ha
    · obtain ⟨s, hs, hkey⟩ := hmid a ha
      exact ⟨s, List.mem_append_left _ hs, hkey⟩
    rcases List.mem_append.mp ha with ha | ha
    · exact ⟨a, List.mem_append_right _ ha, rfl⟩
    · exact ⟨last, List.mem_append_right _ (List.mem_append_right _ List.mem_cons_self), (hties a ha).symm⟩
  · rw [← List.append_assoc, List.getLast?_append, List.getLast?_singleton]
    rfl

theorem Covers.arrive (h : Covers key log sent mark) (a : α) (hordered : Ordered key (log ++ [a])) :
    Covers key (log ++ [a]) sent mark := by
  obtain ⟨old, mid, hsplit, hsent, hmid⟩ := h.split
  by_cases hlate : key a ≤ mark
  · -- the key of the entry is the watermark itself
    obtain ⟨last, hlast, hmark⟩ := Option.map_eq_some_iff.mp h.last
    have hmem : last ∈ log := by
      have hlastMid := hsent.subset (List.mem_of_getLast? hlast)
      have hpassed : last ∈ passed key mark log := by
        rw [hsplit]
        exact List.mem_append_right _ hlastMid
      exact (List.mem_filter.mp hpassed).1
    have hle := (List.pairwise_append.mp hordered).2.2 last hmem a List.mem_cons_self
    refine ⟨⟨old, mid ++ [a], ?_, hsent.trans (List.sublist_append_left _ _), fun b hb => ?_⟩, h.last⟩
    · have hpassed : passed key mark [a] = [a] := passed_of_le fun b hb => List.mem_singleton.mp hb ▸ hlate
      rw [passed_append, hsplit, hpassed, List.append_assoc]
    · rcases List.mem_append.mp hb with hb | hb
      · exact hmid b hb
      · rw [List.mem_singleton.mp hb]
        exact ⟨last, List.mem_of_getLast? hlast, le_antisymm hle (hmark ▸ hlate)⟩
  · refine ⟨⟨old, mid, ?_, hsent, hmid⟩, h.last⟩
    have hpassed : passed key mark [a] = [] :=
      passed_of_lt fun b hb => List.mem_singleton.mp hb ▸ not_le.mp hlate
    rw [passed_append, hsplit, hpassed, List.append_nil]

/-- Where no key comes twice nothing is missed. -/
theorem eq_of_distinct {mid : List α} (hsent : sent.Sublist mid) (hmid : ∀ a ∈ mid, ∃ s ∈ sent, key s = key a)
    (hdistinct : mid.Pairwise fun a b => key a < key b) : mid = sent := by
  have hkeys : (mid.map key).Nodup := by
    rw [List.Nodup, List.pairwise_map]
    exact hdistinct.imp fun hlt => ne_of_lt hlt
  have hsub : mid ⊆ sent := by
    intro a ha
    obtain ⟨s, hs, hkey⟩ := hmid a ha
    rw [← List.inj_on_of_nodup_map hkeys (hsent.subset hs) ha hkey]
    exact hs
  have hnodup : mid.Nodup := hkeys.of_map
  exact (hsent.eq_of_length_le (List.subperm_of_subset hnodup hsub).length_le).symm

end Steps

end MicrostructureEngine.Watermark
