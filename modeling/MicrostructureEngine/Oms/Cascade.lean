import MicrostructureEngine.Oms.Settlement

/-!
# Cascades of held reports

How `settle` depends on the held reports and what it leaves held. With pairwise distinct
keys `(ref, venue_seq)` only the set of reports behind the order's sequence number
matters, reports that arrive later can be appended up front, and nothing that is left is
next in sequence.
-/

namespace MicrostructureEngine

open scoped List
set_option autoImplicit false

def ExecReport.key (r : ExecReport) : BrokerOrderRef × Nat := (r.ref, r.venueSeq)

/-- No two reports of the list claim the same sequence number of the same order. -/
def DistinctKeys (l : List ExecReport) : Prop := (l.map ExecReport.key).Nodup

instance (l : List ExecReport) : Decidable (DistinctKeys l) :=
  inferInstanceAs (Decidable (List.Nodup _))

theorem DistinctKeys.perm {l l' : List ExecReport} (h : DistinctKeys l) (hp : l ~ l') :
    DistinctKeys l' := (hp.map ExecReport.key).nodup_iff.mp h

theorem DistinctKeys.sublist {l l' : List ExecReport} (h : DistinctKeys l') (hs : l.Sublist l') :
    DistinctKeys l := List.Nodup.sublist (hs.map ExecReport.key) h

theorem DistinctKeys.eq_of_key {l : List ExecReport} (h : DistinctKeys l) {r r' : ExecReport}
    (hr : r ∈ l) (hr' : r' ∈ l) (hkey : r.key = r'.key) : r = r' :=
  List.inj_on_of_nodup_map h hr hr' hkey

theorem find_wanted_iff {l : List ExecReport} (h : DistinctKeys l) {ref : BrokerOrderRef} {seq : Nat}
    {r : ExecReport} :
    l.find? (GapPool.wanted ref seq) = some r ↔ r ∈ l ∧ r.ref = ref ∧ r.venueSeq = seq := by
  constructor
  · intro hf
    have hw := GapPool.wanted_iff.mp (List.find?_some hf)
    exact ⟨List.mem_of_find?_eq_some hf, hw.1, hw.2⟩
  · rintro ⟨hmem, rfl, rfl⟩
    cases hf : l.find? (GapPool.wanted r.ref r.venueSeq) with
    | none => exact absurd (GapPool.wanted_iff.mpr ⟨rfl, rfl⟩) (List.find?_eq_none.mp hf r hmem)
    | some r' =>
      have hw := GapPool.wanted_iff.mp (List.find?_some hf)
      have hkey : r'.key = r.key := by simp [ExecReport.key, hw.1, hw.2]
      rw [h.eq_of_key (List.mem_of_find?_eq_some hf) hmem hkey]

theorem nextHeld_eq_none_iff {held : List ExecReport} {x : Order} :
    nextHeld held x = none ↔
      ∀ r ∈ held, ¬ (r.ref = x.ref ∧ r.venueSeq = x.lastAppliedSeq + 1) := by
  unfold nextHeld
  rw [List.find?_eq_none]
  simp only [GapPool.wanted_iff]

/-- A search is blind to the removal of something it does not look for. -/
theorem find_eraseP {p p' : ExecReport → Bool} (h : ∀ r, p r = true → p' r = false)
    (l : List ExecReport) : (l.eraseP p).find? p' = l.find? p' := by
  induction l with
  | nil => rfl
  | cons r l ih =>
    cases hp : p r with
    | true => simp [hp, h r hp]
    | false =>
      cases hp' : p' r with
      | true => simp [hp, hp']
      | false => simp [hp, hp', ih]

theorem find_eraseP_wanted (l : List ExecReport) (ref : BrokerOrderRef) {seq seq' : Nat}
    (h : seq ≠ seq') :
    (l.eraseP (GapPool.wanted ref seq)).find? (GapPool.wanted ref seq') =
      l.find? (GapPool.wanted ref seq') := by
  apply find_eraseP
  intro r hr
  have hw := GapPool.wanted_iff.mp hr
  simp [GapPool.wanted, hw.1, hw.2, h]

/-- Two results that agree on the order and on the reservation. -/
def Settled.Same (t t' : Settled) : Prop := t.after = t'.after ∧ t.delta = t'.delta

theorem consume_same {next next' : List ExecReport → Order → Settled} {held held' : List ExecReport}
    {x : Order} {r : ExecReport}
    (h : ∀ y, (Verdict.applyOne x r).ok = true → (Verdict.applyOne x r).after = some y →
      (next held y).Same (next' held' y)) :
    (consume next held x r).Same (consume next' held' x r) := by
  unfold consume
  dsimp only
  split
  · rename_i hok
    split
    · exact ⟨rfl, rfl⟩
    · rename_i y hy
      obtain ⟨hafter, hdelta⟩ := h y hok hy
      exact ⟨hafter, congrArg ((Verdict.applyOne x r).delta + ·) hdelta⟩
  · exact ⟨rfl, rfl⟩

theorem settleLoop_of_none {held : List ExecReport} {x : Order} (h : nextHeld held x = none) (n : Nat) :
    settleLoop n held x = ⟨some x, 0, held⟩ := by
  cases n with
  | zero => rfl
  | succ n => simp only [settleLoop, h]

theorem settle_of_none {held : List ExecReport} {x : Order} (h : nextHeld held x = none) :
    settle held x = ⟨some x, 0, held⟩ := settleLoop_of_none h _

/-- The order after an in-sequence report is one number further on. -/
theorem applyOne_next {x y : Order} {r : ExecReport} (hok : (Verdict.applyOne x r).ok = true)
    (hy : (Verdict.applyOne x r).after = some y) (hseq : r.venueSeq = x.lastAppliedSeq + 1) :
    y.ref = x.ref ∧ y.lastAppliedSeq = x.lastAppliedSeq + 1 :=
  ⟨Verdict.applyOne_keeps x r y hy, (Verdict.applyOne_seq hok hy).trans hseq⟩

/-- A refused report keeps the order alive at its sequence number. -/
theorem applyOne_refused_spec {x : Order} {r : ExecReport} (hok : (Verdict.applyOne x r).ok = false) :
    ∃ y, (Verdict.applyOne x r).after = some y ∧ y.ref = x.ref ∧
      y.lastAppliedSeq = x.lastAppliedSeq ∧ (Verdict.applyOne x r).delta = 0 := by
  have heq := Verdict.applyOne_refused hok
  rw [heq] at hok ⊢
  obtain ⟨hdelta, hsome⟩ := Verdict.applyKind_inPlace x r hok
  obtain ⟨y, hy⟩ := Option.isSome_iff_exists.mp hsome
  exact ⟨y, hy, Verdict.applyKind_keeps x r y hy, Verdict.applyKind_keepsSeq x r y hy, hdelta⟩

/-- The result depends only on what a search behind the sequence number finds. -/
theorem settleLoop_congr {n m : Nat} {held held' : List ExecReport} {x : Order}
    (hn : held.length ≤ n) (hm : held'.length ≤ m)
    (h : ∀ seq, x.lastAppliedSeq < seq →
      held.find? (GapPool.wanted x.ref seq) = held'.find? (GapPool.wanted x.ref seq)) :
    (settleLoop n held x).Same (settleLoop m held' x) := by
  induction n generalizing m held held' x with
  | zero =>
    have hnil : held = [] := List.length_eq_zero_iff.mp (by omega)
    subst hnil
    have hnone : nextHeld held' x = none := (h _ (Nat.lt_succ_self _)).symm
    rw [settleLoop_of_none hnone m]
    exact ⟨rfl, rfl⟩
  | succ n ih =>
    have hnext : nextHeld held x = nextHeld held' x := h _ (Nat.lt_succ_self _)
    cases hr : nextHeld held x with
    | none =>
      rw [settleLoop_of_none hr, settleLoop_of_none (hnext ▸ hr)]
      exact ⟨rfl, rfl⟩
    | some r =>
      have hr' : nextHeld held' x = some r := hnext ▸ hr
      have hlen := length_eraseP_nextHeld hr
      have hlen' := length_eraseP_nextHeld hr'
      obtain ⟨k, rfl⟩ : ∃ k, m = k + 1 := ⟨m - 1, by omega⟩
      simp only [settleLoop, hr, hr']
      apply consume_same
      intro y hok hy
      obtain ⟨href, hseq⟩ := applyOne_next hok hy (nextHeld_spec hr).2.2
      apply ih (by omega) (by omega)
      intro seq hlt
      rw [href, find_eraseP_wanted _ _ (by omega), find_eraseP_wanted _ _ (by omega)]
      exact h seq (by omega)

/-- Two lists of distinct reports with the same members behind the sequence number. -/
theorem settle_congr {held held' : List ExecReport} {x : Order} (hd : DistinctKeys held)
    (hd' : DistinctKeys held')
    (h : ∀ r, r.ref = x.ref → x.lastAppliedSeq < r.venueSeq → (r ∈ held ↔ r ∈ held')) :
    (settle held x).Same (settle held' x) := by
  apply settleLoop_congr (Nat.le_refl _) (Nat.le_refl _)
  intro seq hlt
  apply Option.ext
  intro r
  rw [find_wanted_iff hd, find_wanted_iff hd']
  constructor
  · rintro ⟨hmem, href, hseq⟩
    exact ⟨(h r href (by omega)).mp hmem, href, hseq⟩
  · rintro ⟨hmem, href, hseq⟩
    exact ⟨(h r href (by omega)).mpr hmem, href, hseq⟩

/-- A report in sequence at the head of the list is the one that is consumed first. -/
theorem settle_cons {held : List ExecReport} {x : Order} {r : ExecReport} (href : r.ref = x.ref)
    (hseq : r.venueSeq = x.lastAppliedSeq + 1) : settle (r :: held) x = arrive held x r := by
  have hw : GapPool.wanted x.ref (x.lastAppliedSeq + 1) r = true := GapPool.wanted_iff.mpr ⟨href, hseq⟩
  have hnext : nextHeld (r :: held) x = some r := by simp [nextHeld, hw]
  have herase : (r :: held).eraseP (GapPool.wanted x.ref (x.lastAppliedSeq + 1)) = held := by
    simp [hw]
  unfold settle
  simp only [List.length_cons, settleLoop, hnext, herase, arrive, consume, settle]

/-- No report of a list of distinct keys is next in sequence once that report is taken out. -/
theorem nextHeld_erased {held : List ExecReport} {x y : Order} {r : ExecReport}
    (hd : DistinctKeys (r :: held)) (href : r.ref = x.ref) (hseq : r.venueSeq = x.lastAppliedSeq + 1)
    (hyref : y.ref = x.ref) (hyseq : y.lastAppliedSeq = x.lastAppliedSeq) :
    nextHeld held y = none := by
  apply nextHeld_eq_none_iff.mpr
  rintro r' hmem ⟨href', hseq'⟩
  have hnotin := (List.nodup_cons.mp hd).1
  apply hnotin
  have hkey : r'.key = r.key := by
    simp only [ExecReport.key, href', hseq', href, hseq, hyref, hyseq]
  exact List.mem_map.mpr ⟨r', hmem, hkey⟩

theorem eraseP_nextHeld_perm {held : List ExecReport} {x : Order} {r : ExecReport}
    (h : nextHeld held x = some r) :
    held ~ r :: held.eraseP (GapPool.wanted x.ref (x.lastAppliedSeq + 1)) := by
  obtain ⟨r', l₁, l₂, hne, hw, heq, herase⟩ :=
    List.exists_of_eraseP (List.mem_of_find?_eq_some h) (List.find?_some h)
  have hr : r' = r := by
    have hfind : held.find? (GapPool.wanted x.ref (x.lastAppliedSeq + 1)) = some r := h
    have hnone : l₁.find? (GapPool.wanted x.ref (x.lastAppliedSeq + 1)) = none :=
      List.find?_eq_none.mpr hne
    rw [heq, List.find?_append, hnone, Option.none_or, List.find?_cons_of_pos hw] at hfind
    exact Option.some.inj hfind
  rw [herase, ← hr, heq]
  exact List.perm_middle

/-- Reports that are yet to come may be counted as held from the start. -/
theorem settleLoop_append {n : Nat} {held later : List ExecReport} {x : Order}
    (hn : held.length ≤ n) (hd : DistinctKeys (held ++ later)) :
    (settle (held ++ later) x).after =
        (settleLoop n held x).after.bind
          (fun y => (settle ((settleLoop n held x).held ++ later) y).after) ∧
      (settle (held ++ later) x).delta = (settleLoop n held x).delta +
        (settleLoop n held x).after.elim 0
          (fun y => (settle ((settleLoop n held x).held ++ later) y).delta) := by
  induction n generalizing held x with
  | zero =>
    have hnil : held = [] := List.length_eq_zero_iff.mp (by omega)
    subst hnil
    simp [settleLoop]
  | succ n ih =>
    cases hr : nextHeld held x with
    | none => simp [settleLoop_of_none hr]
    | some r =>
      -- The report found among the held ones is also found first in the longer list.
      obtain ⟨hmem, href, hseq⟩ := nextHeld_spec hr
      have hlen := length_eraseP_nextHeld hr
      have hperm := (eraseP_nextHeld_perm hr).append_right later
      have hd' : DistinctKeys
          (r :: (held.eraseP (GapPool.wanted x.ref (x.lastAppliedSeq + 1)) ++ later)) := hd.perm hperm
      have hfront := settle_congr (x := x) hd hd' fun r' _ _ => hperm.mem_iff
      rw [settle_cons href hseq] at hfront
      rw [hfront.1, hfront.2]
      simp only [settleLoop, hr, arrive, consume]
      generalize held.eraseP (GapPool.wanted x.ref (x.lastAppliedSeq + 1)) = rest at hlen hd' ⊢
      cases hok : (Verdict.applyOne x r).ok with
      | false =>
        obtain ⟨y, hy, hyref, hyseq, _⟩ := applyOne_refused_spec hok
        have hnone := nextHeld_erased hd' href hseq hyref hyseq
        simp [hy, settle_of_none hnone]
      | true =>
        cases hy : (Verdict.applyOne x r).after with
        | none => simp
        | some y =>
          have hd'' : DistinctKeys (rest ++ later) := hd'.sublist (List.sublist_cons_self _ _)
          obtain ⟨hafter, hdelta⟩ := ih (x := y) (by omega) hd''
          simp only [if_true]
          exact ⟨hafter, by rw [hdelta, Int.add_assoc]⟩

/-- What is left held is part of what was held, and other orders lose nothing. -/
theorem settleLoop_held (n : Nat) (held : List ExecReport) (x : Order) :
    (settleLoop n held x).held.Sublist held ∧
      ∀ r, r.ref ≠ x.ref → (r ∈ (settleLoop n held x).held ↔ r ∈ held) := by
  induction n generalizing held x with
  | zero => exact ⟨List.Sublist.refl _, fun _ _ => Iff.rfl⟩
  | succ n ih =>
    cases hr : nextHeld held x with
    | none =>
      rw [settleLoop_of_none hr]
      exact ⟨List.Sublist.refl _, fun _ _ => Iff.rfl⟩
    | some r =>
      have hsub := List.eraseP_sublist (l := held) (p := GapPool.wanted x.ref (x.lastAppliedSeq + 1))
      have hother : ∀ r', r'.ref ≠ x.ref →
          (r' ∈ held.eraseP (GapPool.wanted x.ref (x.lastAppliedSeq + 1)) ↔ r' ∈ held) := by
        intro r' hne
        apply List.mem_eraseP_of_neg
        simp [GapPool.wanted, hne]
      simp only [settleLoop, hr, consume]
      split
      · split
        · refine ⟨List.filter_sublist.trans hsub, ?_⟩
          intro r' hne
          rw [List.mem_filter, hother r' hne]
          simp [hne]
        · rename_i y hy
          have href := Verdict.applyOne_keeps x r y hy
          obtain ⟨hsub', hmem'⟩ := ih (held.eraseP (GapPool.wanted x.ref (x.lastAppliedSeq + 1))) y
          refine ⟨hsub'.trans hsub, ?_⟩
          intro r' hne
          rw [hmem' r' (by rw [href]; exact hne), hother r' hne]
      · exact ⟨hsub, hother⟩

/-- Nothing is left in sequence. -/
theorem settleLoop_drained {n : Nat} {held : List ExecReport} {x y : Order} (hn : held.length ≤ n)
    (hd : DistinctKeys held) (hy : (settleLoop n held x).after = some y) :
    nextHeld (settleLoop n held x).held y = none := by
  induction n generalizing held x with
  | zero =>
    have hnil : held = [] := List.length_eq_zero_iff.mp (by omega)
    subst hnil
    rfl
  | succ n ih =>
    cases hr : nextHeld held x with
    | none =>
      rw [settleLoop_of_none hr] at hy ⊢
      cases hy
      exact hr
    | some r =>
      obtain ⟨_, href, hseq⟩ := nextHeld_spec hr
      have hlen := length_eraseP_nextHeld hr
      have hd' := hd.perm (eraseP_nextHeld_perm hr)
      simp only [settleLoop, hr, consume] at hy ⊢
      generalize held.eraseP (GapPool.wanted x.ref (x.lastAppliedSeq + 1)) = rest at hlen hd' hy ⊢
      cases hok : (Verdict.applyOne x r).ok with
      | false =>
        obtain ⟨z, hz, hzref, hzseq, _⟩ := applyOne_refused_spec hok
        simp only [hok, Bool.false_eq_true, if_false, hz, Option.some.injEq] at hy ⊢
        subst hy
        exact nextHeld_erased hd' href hseq hzref hzseq
      | true =>
        cases hz : (Verdict.applyOne x r).after with
        | none => simp [hok, hz] at hy
        | some z =>
          simp only [hok, if_true, hz] at hy ⊢
          exact ih (by omega) (hd'.sublist (List.sublist_cons_self _ _)) hy

/-- When everything held for the order lies ahead of it, what is left lies ahead of a gap;
an order that is gone leaves nothing behind. -/
theorem settleLoop_ahead {n : Nat} {held : List ExecReport} {x : Order} (hn : held.length ≤ n)
    (hd : DistinctKeys held) (h : ∀ r ∈ held, r.ref = x.ref → x.lastAppliedSeq < r.venueSeq) :
    ∀ r ∈ (settleLoop n held x).held, r.ref = x.ref →
      ∃ y, (settleLoop n held x).after = some y ∧ y.lastAppliedSeq + 1 < r.venueSeq := by
  induction n generalizing held x with
  | zero =>
    have hnil : held = [] := List.length_eq_zero_iff.mp (by omega)
    subst hnil
    intro r hr
    cases hr
  | succ n ih =>
    cases hr : nextHeld held x with
    | none =>
      rw [settleLoop_of_none hr]
      intro r hmem href
      have hlt := h r hmem href
      have hne : r.venueSeq ≠ x.lastAppliedSeq + 1 :=
        fun he => nextHeld_eq_none_iff.mp hr r hmem ⟨href, he⟩
      exact ⟨x, rfl, by omega⟩
    | some next =>
      obtain ⟨_, hnref, hnseq⟩ := nextHeld_spec hr
      have hlen := length_eraseP_nextHeld hr
      have hperm := eraseP_nextHeld_perm hr
      have hd' := hd.perm hperm
      -- Distinct keys: what stays behind `next` lies beyond it.
      have hrest : ∀ r ∈ held.eraseP (GapPool.wanted x.ref (x.lastAppliedSeq + 1)),
          r.ref = x.ref → x.lastAppliedSeq + 1 < r.venueSeq := by
        intro r hmem href
        have hlt := h r (hperm.mem_iff.mpr (List.mem_cons_of_mem next hmem)) href
        have hnone := nextHeld_erased hd' hnref hnseq rfl rfl
        have hne : r.venueSeq ≠ x.lastAppliedSeq + 1 :=
          fun he => nextHeld_eq_none_iff.mp hnone r hmem ⟨href, he⟩
        omega
      simp only [settleLoop, hr, consume]
      generalize held.eraseP (GapPool.wanted x.ref (x.lastAppliedSeq + 1)) = rest at hlen hd' hrest ⊢
      cases hok : (Verdict.applyOne x next).ok with
      | false =>
        obtain ⟨y, hy, _, hyseq, _⟩ := applyOne_refused_spec hok
        simp only [Bool.false_eq_true, if_false]
        intro r hmem href
        exact ⟨y, hy, by rw [hyseq]; exact hrest r hmem href⟩
      | true =>
        cases hy : (Verdict.applyOne x next).after with
        | none =>
          simp only [if_true]
          intro r hmem href
          simp [href] at hmem
        | some y =>
          obtain ⟨hyref, hyseq⟩ := applyOne_next hok hy hnseq
          simp only [if_true]
          intro r hmem href
          refine ih (by omega) (hd'.sublist (List.sublist_cons_self _ _)) ?_ r hmem
            (href.trans hyref.symm)
          intro r' hmem' href'
          rw [hyseq]
          exact hrest r' hmem' (href'.trans hyref)

/-- A refused report ends nothing. -/
theorem arrive_ends_ok {held : List ExecReport} {x : Order} {report : ExecReport}
    (h : (arrive held x report).after = none) : (Verdict.applyOne x report).ok = true := by
  cases hok : (Verdict.applyOne x report).ok with
  | true => rfl
  | false =>
    obtain ⟨y, hy, _⟩ := applyOne_refused_spec hok
    simp only [arrive, consume, hok, hy, Bool.false_eq_true, if_false] at h
    cases h

theorem arrive_held {held : List ExecReport} {x : Order} {report r : ExecReport}
    (h : r ∈ (arrive held x report).held) : r ∈ held := by
  unfold arrive consume at h
  dsimp only at h
  split at h
  · split at h
    · exact List.mem_of_mem_filter h
    · exact (settleLoop_held _ held _).1.subset h
  · exact h

/-! ## What a cascade applies -/

/-- The reports a cascade applied, and the one it stopped at because it was refused, with the
order as it was then. -/
structure Trace where
  applied : List ExecReport
  refused : Option (Order × ExecReport)

def consumeTrace (next : List ExecReport → Order → Trace) (held : List ExecReport) (x : Order)
    (report : ExecReport) : Trace :=
  let v := Verdict.applyOne x report
  if v.ok then
    match v.after with
    | none => ⟨[report], none⟩
    | some y => ⟨report :: (next held y).applied, (next held y).refused⟩
  else ⟨[], some (x, report)⟩

def settleTrace : Nat → List ExecReport → Order → Trace
  | 0, _, _ => ⟨[], none⟩
  | n + 1, held, x =>
    match nextHeld held x with
    | none => ⟨[], none⟩
    | some r =>
      consumeTrace (settleTrace n) (held.eraseP (GapPool.wanted x.ref (x.lastAppliedSeq + 1))) x r

/-- The trace of `arrive`. -/
def arriveTrace (held : List ExecReport) (x : Order) (report : ExecReport) : Trace :=
  consumeTrace (fun held y => settleTrace held.length held y) held x report

theorem arriveTrace_refused (held : List ExecReport) {x : Order} {report : ExecReport}
    (hok : (Verdict.applyOne x report).ok = false) : (arriveTrace held x report).applied = [] := by
  simp [arriveTrace, consumeTrace, hok]

theorem consumeTrace_mem {next : List ExecReport → Order → Trace} {held : List ExecReport} {x : Order}
    {report a : ExecReport} (hnext : ∀ y, a ∈ (next held y).applied → a ∈ held)
    (ha : a ∈ (consumeTrace next held x report).applied) : a ∈ report :: held := by
  unfold consumeTrace at ha
  dsimp only at ha
  split at ha
  · split at ha
    · exact List.mem_cons.mpr (.inl (List.mem_singleton.mp ha))
    · rcases List.mem_cons.mp ha with rfl | hrest
      · exact List.mem_cons_self
      · exact List.mem_cons_of_mem report (hnext _ hrest)
  · cases ha

theorem settleTrace_mem {n : Nat} {held : List ExecReport} {x : Order} {a : ExecReport}
    (ha : a ∈ (settleTrace n held x).applied) : a ∈ held := by
  induction n generalizing held x with
  | zero => cases ha
  | succ n ih =>
    cases hr : nextHeld held x with
    | none =>
      simp only [settleTrace, hr] at ha
      cases ha
    | some r =>
      simp only [settleTrace, hr] at ha
      rcases List.mem_cons.mp (consumeTrace_mem (fun _ => ih) ha) with rfl | hrest
      · exact (nextHeld_spec hr).1
      · exact List.mem_of_mem_eraseP hrest

/-- Only the report and what was held can be applied. -/
theorem arriveTrace_mem {held : List ExecReport} {x : Order} {report a : ExecReport}
    (ha : a ∈ (arriveTrace held x report).applied) : a ∈ report :: held :=
  consumeTrace_mem (fun _ => settleTrace_mem) ha

/-- The rule for cascades: an assertion that every report at hand keeps on its order, when it is
refused or among the reports applied, holds of what the cascade leaves of the order. -/
theorem settleLoop_invariant {P : Order → Prop} {n : Nat} {held : List ExecReport} {x : Order}
    (hx : P x)
    (hstep : ∀ r ∈ held, ∀ y z, P y → r.ref = y.ref →
      ((Verdict.applyOne y r).ok = true → r ∈ (settleTrace n held x).applied) →
      (Verdict.applyOne y r).after = some z → P z)
    {z : Order} (hz : (settleLoop n held x).after = some z) : P z := by
  induction n generalizing held x with
  | zero =>
    obtain rfl := Option.some.inj hz
    exact hx
  | succ n ih =>
    cases hr : nextHeld held x with
    | none =>
      rw [settleLoop_of_none hr] at hz
      obtain rfl := Option.some.inj hz
      exact hx
    | some r =>
      obtain ⟨hmem, href, _⟩ := nextHeld_spec hr
      simp only [settleTrace, hr, consumeTrace] at hstep
      simp only [settleLoop, hr, consume] at hz
      split at hz
      · rename_i hok
        split at hz
        · cases hz
        · rename_i y hy
          simp only [hok, if_true, hy] at hstep
          refine ih (hstep r hmem x y hx href (fun _ => List.mem_cons_self) hy) ?_ hz
          intro r' hr' v w hv href' hin
          exact hstep r' (List.mem_of_mem_eraseP hr') v w hv href' fun h => List.mem_cons_of_mem r (hin h)
      · rename_i hok
        exact hstep r hmem x z hx href (fun h => absurd h hok) hz

theorem arrive_invariant {P : Order → Prop} {held : List ExecReport} {x : Order} {report : ExecReport}
    (hx : P x) (href : report.ref = x.ref)
    (hstep : ∀ r ∈ report :: held, ∀ y z, P y → r.ref = y.ref →
      ((Verdict.applyOne y r).ok = true → r ∈ (arriveTrace held x report).applied) →
      (Verdict.applyOne y r).after = some z → P z)
    {z : Order} (hz : (arrive held x report).after = some z) : P z := by
  unfold arriveTrace consumeTrace at hstep
  unfold arrive consume at hz
  dsimp only at hstep hz
  split at hz
  · rename_i hok
    split at hz
    · cases hz
    · rename_i y hy
      simp only [hok, if_true, hy] at hstep
      refine settleLoop_invariant
        (hstep report List.mem_cons_self x y hx href (fun _ => List.mem_cons_self) hy) ?_ hz
      intro r hr v w hv href' hin
      exact hstep r (List.mem_cons_of_mem _ hr) v w hv href' fun h => List.mem_cons_of_mem report (hin h)
  · rename_i hok
    exact hstep report List.mem_cons_self x z hx href (fun h => absurd h hok) hz

end MicrostructureEngine
