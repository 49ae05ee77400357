import Mathlib.Algebra.Ring.Nat
import Mathlib.Logic.Function.Basic
import MicrostructureEngine.Lib.BestCell
import MicrostructureEngine.Lib.PartitionPoint
import MicrostructureEngine.Lib.Runs

/-!
# The latency histogram

`record` from any number of threads on the counters of one histogram: each `fetch_add`, load and weak
compare-and-swap is a step of its own, and any call may take the next one. When no call is under way,
the counters, the least and the greatest value are those of the recorded values, and a percentile is
the lower end of the power of two that the value of its rank lies in.
-/

namespace MicrostructureEngine.Telemetry

open BestCell
set_option autoImplicit false

/-- `BucketCount`, as every histogram of the engine has it. -/
def bucketCount : Nat := 64

def bucketLoop : Nat → UInt64 → Nat → Nat
  | 0, _, bucket => bucket
  | left + 1, value, bucket => if value > 1 then bucketLoop left (value >>> 1) (bucket + 1) else bucket

def bucketFor (value : UInt64) : Nat := bucketLoop (bucketCount - 1) value 0

/-- `std::numeric_limits<std::uint64_t>::max()`. -/
def unset : UInt64 := 18446744073709551615

structure Histogram where
  buckets : Nat → UInt64 := fun _ => 0
  count : UInt64 := 0
  sum : UInt64 := 0
  lowest : Cell UInt64 := { value := unset }
  highest : Cell UInt64 := { value := 0 }

/-- Where a call of `record` is. -/
inductive Phase where
  | bucket
  | count
  | sum
  | updateMin (climb : Climb UInt64)
  | updateMax (climb : Climb UInt64)
  | done
  deriving DecidableEq

def below (a b : UInt64) : Bool := decide (a < b)

def above (a b : UInt64) : Bool := decide (a > b)

namespace Histogram

/-- The next step of `record`. -/
def record (h : Histogram) (value : UInt64) (spurious : Bool) (age : Nat) : Phase → Histogram × Phase
  | .bucket =>
    ({ h with buckets := Function.update h.buckets (bucketFor value) (h.buckets (bucketFor value) + 1) }, .count)
  | .count => ({ h with count := h.count + 1 }, .sum)
  | .sum => ({ h with sum := h.sum + value }, .updateMin .loading)
  | .updateMin climb =>
    let next := advance below value h.lowest spurious age climb
    ({ h with lowest := next.1 }, if next.2 = .settled then .updateMax .loading else .updateMin next.2)
  | .updateMax climb =>
    let next := advance above value h.highest spurious age climb
    ({ h with highest := next.1 }, if next.2 = .settled then .done else .updateMax next.2)
  | .done => (h, .done)

def min (h : Histogram) : UInt64 := if h.lowest.value = unset then 0 else h.lowest.value

def max (h : Histogram) : UInt64 := h.highest.value

/-- The loop of `percentile`, from bucket `i` on. -/
def percentileLoop (h : Histogram) (rank : UInt64) : Nat → Nat → UInt64 → UInt64
  | 0, _, _ => h.max
  | left + 1, i, seen =>
    let seen := seen + h.buckets i
    if seen ≥ rank then (if i == 0 then 0 else 1 <<< UInt64.ofNat i)
    else percentileLoop h rank left (i + 1) seen

/-- `rank` is what the quantile makes of the total. -/
def percentile (h : Histogram) (rank : UInt64 → UInt64) : UInt64 :=
  if h.count = 0 then 0 else h.percentileLoop (rank h.count) bucketCount 0 0

end Histogram

structure Call where
  value : UInt64
  phase : Phase := .bucket

structure Recording where
  histogram : Histogram := {}
  calls : List Call := []

inductive Event where
  | call (value : UInt64)
  | advance (i : Nat) (spurious : Bool) (age : Nat)

namespace Recording

def step (s : Recording) : Event → Recording
  | .call value => { s with calls := s.calls ++ [Call.mk value .bucket] }
  | .advance i spurious age =>
    match s.calls[i]? with
    | some c =>
      let next := s.histogram.record c.value spurious age c.phase
      { histogram := next.1, calls := s.calls.set i { c with phase := next.2 } }
    | none => s

/-- The values that have been handed to `record`. -/
def values (s : Recording) : List UInt64 := s.calls.map Call.value

/-- No call is under way. -/
def Quiet (s : Recording) : Prop := ∀ c ∈ s.calls, c.phase = .done

end Recording

/-! ## What the calls have added so far -/

/-- Where the call is with the least value. -/
def Phase.minClimb : Phase → Climb UInt64
  | .bucket | .count | .sum => .loading
  | .updateMin climb => climb
  | .updateMax _ | .done => .settled

def Phase.maxClimb : Phase → Climb UInt64
  | .bucket | .count | .sum | .updateMin _ => .loading
  | .updateMax climb => climb
  | .done => .settled

namespace Call

def bucketed (i : Nat) (c : Call) : Nat :=
  match c.phase with
  | .bucket => 0
  | _ => if bucketFor c.value = i then 1 else 0

def counted (c : Call) : Nat :=
  match c.phase with
  | .bucket | .count => 0
  | _ => 1

def summed (c : Call) : Nat :=
  match c.phase with
  | .bucket | .count | .sum => 0
  | _ => c.value.toNat

def minimising (c : Call) : UInt64 × Climb UInt64 := (c.value, c.phase.minClimb)

def maximising (c : Call) : UInt64 × Climb UInt64 := (c.value, c.phase.maxClimb)

end Call

def total (w : Call → Nat) (calls : List Call) : Nat := (calls.map w).sum

theorem total_append (w : Call → Nat) (calls : List Call) (c : Call) :
    total w (calls ++ [c]) = total w calls + w c := by
  simp [total]

theorem total_set {w : Call → Nat} {calls : List Call} {i : Nat} {c c' : Call} {δ : Nat}
    (hi : calls[i]? = some c) (hw : w c' = w c + δ) : total w (calls.set i c') = total w calls + δ := by
  induction calls generalizing i with
  | nil => cases hi
  | cons a calls ih =>
    cases i with
    | zero =>
      cases hi
      simp only [total, List.set_cons_zero, List.map_cons, List.sum_cons, hw]
      omega
    | succ i =>
      have htail := ih hi
      simp only [total, List.set_cons_succ, List.map_cons, List.sum_cons] at htail ⊢
      omega

theorem preference_below : Preference below where
  irrefl a := by simp [below]
  asymm a b := by
    simp only [below, decide_eq_true_eq, decide_eq_false_iff_not, UInt64.not_lt]
    exact UInt64.le_of_lt
  trans a b c := by
    simp only [below, decide_eq_false_iff_not, UInt64.not_lt]
    exact fun hab hbc => UInt64.le_trans hbc hab

theorem preference_above : Preference above where
  irrefl a := by simp [above]
  asymm a b := by
    simp only [above, decide_eq_true_eq, decide_eq_false_iff_not, gt_iff_lt, UInt64.not_lt]
    exact UInt64.le_of_lt
  trans a b c := by
    simp only [above, decide_eq_false_iff_not, gt_iff_lt, UInt64.not_lt]
    exact UInt64.le_trans

/-! ## One step of one call -/

namespace Histogram

variable (h : Histogram) (value : UInt64) (spurious : Bool) (age : Nat) (phase : Phase)

theorem record_buckets (i : Nat) : ∃ δ : Nat,
    Call.bucketed i ⟨value, (h.record value spurious age phase).2⟩ = Call.bucketed i ⟨value, phase⟩ + δ ∧
      (h.record value spurious age phase).1.buckets i = h.buckets i + UInt64.ofNat δ := by
  cases phase with
  | bucket =>
    refine ⟨if bucketFor value = i then 1 else 0, (Nat.zero_add _).symm, ?_⟩
    by_cases hi : bucketFor value = i
    · subst hi
      simp [record]
    · simp [record, hi, Function.update_of_ne (Ne.symm hi)]
  | count => exact ⟨0, rfl, (UInt64.add_zero _).symm⟩
  | sum => exact ⟨0, rfl, (UInt64.add_zero _).symm⟩
  | updateMin climb =>
    refine ⟨0, ?_, (UInt64.add_zero _).symm⟩
    simp only [record]
    split <;> rfl
  | updateMax climb =>
    refine ⟨0, ?_, (UInt64.add_zero _).symm⟩
    simp only [record]
    split <;> rfl
  | done => exact ⟨0, rfl, (UInt64.add_zero _).symm⟩

theorem record_count : ∃ δ : Nat,
    Call.counted ⟨value, (h.record value spurious age phase).2⟩ = Call.counted ⟨value, phase⟩ + δ ∧
      (h.record value spurious age phase).1.count = h.count + UInt64.ofNat δ := by
  cases phase with
  | bucket => exact ⟨0, rfl, (UInt64.add_zero _).symm⟩
  | count => exact ⟨1, rfl, rfl⟩
  | sum => exact ⟨0, rfl, (UInt64.add_zero _).symm⟩
  | updateMin climb =>
    refine ⟨0, ?_, (UInt64.add_zero _).symm⟩
    simp only [record]
    split <;> rfl
  | updateMax climb =>
    refine ⟨0, ?_, (UInt64.add_zero _).symm⟩
    simp only [record]
    split <;> rfl
  | done => exact ⟨0, rfl, (UInt64.add_zero _).symm⟩

theorem record_sum : ∃ δ : Nat,
    Call.summed ⟨value, (h.record value spurious age phase).2⟩ = Call.summed ⟨value, phase⟩ + δ ∧
      (h.record value spurious age phase).1.sum = h.sum + UInt64.ofNat δ := by
  cases phase with
  | bucket => exact ⟨0, rfl, (UInt64.add_zero _).symm⟩
  | count => exact ⟨0, rfl, (UInt64.add_zero _).symm⟩
  | sum =>
    refine ⟨value.toNat, (Nat.zero_add _).symm, ?_⟩
    rw [UInt64.ofNat_toNat]
    rfl
  | updateMin climb =>
    refine ⟨0, ?_, (UInt64.add_zero _).symm⟩
    simp only [record]
    split <;> rfl
  | updateMax climb =>
    refine ⟨0, ?_, (UInt64.add_zero _).symm⟩
    simp only [record]
    split <;> rfl
  | done => exact ⟨0, rfl, (UInt64.add_zero _).symm⟩

/-- The step leaves the least value alone, or is a step of the loop that lowers it. -/
theorem record_lowest :
    ((h.record value spurious age phase).1.lowest = h.lowest ∧
        (h.record value spurious age phase).2.minClimb = phase.minClimb) ∨
      ((h.record value spurious age phase).1.lowest = (advance below value h.lowest spurious age phase.minClimb).1 ∧
        (h.record value spurious age phase).2.minClimb =
          (advance below value h.lowest spurious age phase.minClimb).2) := by
  cases phase with
  | bucket => exact Or.inl ⟨rfl, rfl⟩
  | count => exact Or.inl ⟨rfl, rfl⟩
  | sum => exact Or.inl ⟨rfl, rfl⟩
  | updateMin climb =>
    refine Or.inr ⟨rfl, ?_⟩
    simp only [record]
    split
    · rename_i hsettled
      exact hsettled.symm
    · rfl
  | updateMax climb =>
    refine Or.inl ⟨rfl, ?_⟩
    simp only [record]
    split <;> rfl
  | done => exact Or.inl ⟨rfl, rfl⟩

theorem record_highest :
    ((h.record value spurious age phase).1.highest = h.highest ∧
        (h.record value spurious age phase).2.maxClimb = phase.maxClimb) ∨
      ((h.record value spurious age phase).1.highest =
          (advance above value h.highest spurious age phase.maxClimb).1 ∧
        (h.record value spurious age phase).2.maxClimb =
          (advance above value h.highest spurious age phase.maxClimb).2) := by
  cases phase with
  | bucket => exact Or.inl ⟨rfl, rfl⟩
  | count => exact Or.inl ⟨rfl, rfl⟩
  | sum => exact Or.inl ⟨rfl, rfl⟩
  | updateMin climb =>
    refine Or.inl ⟨rfl, ?_⟩
    simp only [record]
    split <;> rfl
  | updateMax climb =>
    refine Or.inr ⟨rfl, ?_⟩
    simp only [record]
    split
    · rename_i hsettled
      exact hsettled.symm
    · rfl
  | done => exact Or.inl ⟨rfl, rfl⟩

end Histogram

/-! ## The recording -/

namespace Recording

/-- The counters are what the calls have added, and the two ends are races between them. -/
structure Accounted (s : Recording) : Prop where
  buckets : ∀ i, s.histogram.buckets i = UInt64.ofNat (total (Call.bucketed i) s.calls)
  count : s.histogram.count = UInt64.ofNat (total Call.counted s.calls)
  sum : s.histogram.sum = UInt64.ofNat (total Call.summed s.calls)
  lowest : Race below unset s.histogram.lowest (s.calls.map Call.minimising)
  highest : Race above 0 s.histogram.highest (s.calls.map Call.maximising)

theorem accounted_start : Accounted {} where
  buckets _ := rfl
  count := rfl
  sum := rfl
  lowest := Race.begin below unset
  highest := Race.begin above 0

theorem Accounted.call {s : Recording} (h : s.Accounted) (value : UInt64) : (s.step (.call value)).Accounted where
  buckets i := by
    show s.histogram.buckets i = UInt64.ofNat (total (Call.bucketed i) (s.calls ++ [Call.mk value .bucket]))
    rw [total_append]
    exact h.buckets i
  count := by
    show s.histogram.count = UInt64.ofNat (total Call.counted (s.calls ++ [Call.mk value .bucket]))
    rw [total_append]
    exact h.count
  sum := by
    show s.histogram.sum = UInt64.ofNat (total Call.summed (s.calls ++ [Call.mk value .bucket]))
    rw [total_append]
    exact h.sum
  lowest := by
    show Race below unset s.histogram.lowest ((s.calls ++ [Call.mk value .bucket]).map Call.minimising)
    rw [List.map_append]
    exact h.lowest.join value
  highest := by
    show Race above 0 s.histogram.highest ((s.calls ++ [Call.mk value .bucket]).map Call.maximising)
    rw [List.map_append]
    exact h.highest.join value

/-- A race that the step leaves alone, or takes one step of. -/
theorem race_set {better : UInt64 → UInt64 → Bool} (hp : Preference better) {start : UInt64}
    {cell cell' : Cell UInt64} {calls : List Call} {at' : Call → UInt64 × Climb UInt64}
    (h : Race better start cell (calls.map at')) {i : Nat} {c c' : Call} (hi : calls[i]? = some c)
    {climb climb' : Climb UInt64} (hc : at' c = (c.value, climb)) (hc' : at' c' = (c.value, climb'))
    (spurious : Bool) (age : Nat)
    (hstep : (cell' = cell ∧ climb' = climb) ∨
      (cell' = (advance better c.value cell spurious age climb).1 ∧
        climb' = (advance better c.value cell spurious age climb).2)) :
    Race better start cell' ((calls.set i c').map at') := by
  have hget : (calls.map at')[i]? = some (c.value, climb) := by
    rw [List.getElem?_map, hi, Option.map_some, hc]
  rw [List.map_set, hc']
  rcases hstep with ⟨rfl, rfl⟩ | ⟨rfl, rfl⟩
  · have hsame : (calls.map at').set i (c.value, climb') = calls.map at' := by
      obtain ⟨hlt, hval⟩ := List.getElem?_eq_some_iff.mp hget
      rw [← hval]
      exact List.set_getElem_self hlt
    rw [hsame]
    exact h
  · exact h.advance hp hget spurious age

theorem Accounted.advance {s : Recording} (h : s.Accounted) (i : Nat) (spurious : Bool) (age : Nat) :
    (s.step (.advance i spurious age)).Accounted := by
  unfold Recording.step
  cases hi : s.calls[i]? with
  | none =>
    simp only [hi]
    exact h
  | some c =>
    simp only [hi]
    refine ⟨?_, ?_, ?_, ?_, ?_⟩
    · intro k
      obtain ⟨δ, hw, hnext⟩ := s.histogram.record_buckets c.value spurious age c.phase k
      rw [hnext, total_set hi hw, UInt64.ofNat_add, h.buckets k]
    · obtain ⟨δ, hw, hnext⟩ := s.histogram.record_count c.value spurious age c.phase
      rw [hnext, total_set hi hw, UInt64.ofNat_add, h.count]
    · obtain ⟨δ, hw, hnext⟩ := s.histogram.record_sum c.value spurious age c.phase
      rw [hnext, total_set hi hw, UInt64.ofNat_add, h.sum]
    · exact race_set preference_below h.lowest hi rfl rfl spurious age
        (s.histogram.record_lowest c.value spurious age c.phase)
    · exact race_set preference_above h.highest hi rfl rfl spurious age
        (s.histogram.record_highest c.value spurious age c.phase)

theorem accounted_run (events : List Event) : (Runs.run step {} events).Accounted := by
  apply Runs.invariant_of_step _ accounted_start
  intro s e h
  cases e with
  | call value => exact h.call value
  | advance i spurious age => exact h.advance i spurious age

end Recording

/-! ## The values recorded -/

def Event.recorded : Event → Option UInt64
  | .call value => some value
  | .advance .. => none

namespace Recording

theorem values_step (s : Recording) (e : Event) : (s.step e).values = s.values ++ e.recorded.toList := by
  cases e with
  | call value =>
    show (s.calls ++ [Call.mk value .bucket]).map Call.value = s.values ++ [value]
    rw [List.map_append]
    rfl
  | advance i spurious age =>
    rw [show (Event.advance i spurious age).recorded.toList = [] from rfl, List.append_nil]
    unfold Recording.step
    cases hi : s.calls[i]? with
    | none => simp only [hi]
    | some c =>
      simp only [hi, values, List.map_set]
      have hget : (s.calls.map Call.value)[i]? = some c.value := by
        rw [List.getElem?_map, hi]
        rfl
      obtain ⟨hlt, hval⟩ := List.getElem?_eq_some_iff.mp hget
      rw [← hval]
      exact List.set_getElem_self hlt

theorem values_run (events : List Event) (s : Recording) :
    (Runs.run step s events).values = s.values ++ events.filterMap Event.recorded := by
  induction events generalizing s with
  | nil => exact (List.append_nil _).symm
  | cons e events ih =>
    rw [Runs.run_cons, ih, values_step, List.append_assoc]
    cases e <;> rfl

/-- The values of a whole run, from the empty histogram on. -/
theorem values_recorded (events : List Event) :
    (Runs.run step {} events).values = events.filterMap Event.recorded := by
  rw [values_run]
  exact List.nil_append _

/-- Between calls a weight is a weight of the values. -/
theorem Quiet.total_eq {s : Recording} (h : s.Quiet) {w : Call → Nat} {f : UInt64 → Nat}
    (hw : ∀ value, w ⟨value, .done⟩ = f value) : total w s.calls = (s.values.map f).sum := by
  unfold total values
  rw [List.map_map]
  congr 1
  apply List.map_congr_left
  intro c hc
  rw [Function.comp_apply, ← hw, ← h c hc]

end Recording

theorem sum_countP (f : UInt64 → Bool) (values : List UInt64) :
    (values.map fun v => if f v = true then 1 else 0).sum = values.countP f := by
  induction values with
  | nil => rfl
  | cons v values ih =>
    rw [List.map_cons, List.sum_cons, ih, List.countP_cons]
    omega

theorem bucketLoop_eq {left : Nat} {value : UInt64} (hleft : value.toNat.log2 ≤ left) (bucket : Nat) :
    bucketLoop left value bucket = bucket + value.toNat.log2 := by
  induction left generalizing value bucket with
  | zero =>
    unfold bucketLoop
    omega
  | succ left ih =>
    have hshift : (value >>> 1).toNat = value.toNat / 2 := by
      simp [UInt64.toNat_shiftRight, Nat.shiftRight_eq_div_pow]
    unfold bucketLoop
    by_cases hbig : value > 1
    · have htwo : 2 ≤ value.toNat := hbig
      have hlog : value.toNat.log2 = (value.toNat / 2).log2 + 1 := by
        rw [Nat.log2_def, if_pos htwo]
      rw [if_pos hbig, ih (by rw [hshift]; omega), hshift]
      omega
    · have htwo : ¬ 2 ≤ value.toNat := hbig
      rw [if_neg hbig, Nat.log2_def, if_neg htwo]
      rfl

theorem log2_lt_bucketCount (value : UInt64) : value.toNat.log2 < bucketCount := by
  by_cases hzero : value.toNat = 0
  · rw [hzero, Nat.log2_zero]
    exact Nat.zero_lt_succ _
  · exact (Nat.log2_lt hzero).mpr value.toNat_lt

/-- The bucket of a value is its binary logarithm. -/
theorem bucketFor_eq (value : UInt64) : bucketFor value = value.toNat.log2 := by
  have hleft : value.toNat.log2 ≤ bucketCount - 1 := Nat.le_pred_of_lt (log2_lt_bucketCount value)
  have hlog := bucketLoop_eq hleft 0
  rw [Nat.zero_add] at hlog
  exact hlog

namespace Recording

theorem Accounted.buckets_quiet {s : Recording} (h : s.Accounted) (hquiet : s.Quiet) (i : Nat) :
    s.histogram.buckets i = UInt64.ofNat (s.values.countP fun v => v.toNat.log2 == i) := by
  have hw : ∀ value, Call.bucketed i ⟨value, .done⟩ = if (value.toNat.log2 == i) = true then 1 else 0 := by
    intro value
    simp only [Call.bucketed, bucketFor_eq, beq_iff_eq]
  rw [h.buckets i, hquiet.total_eq hw, sum_countP]

theorem Accounted.count_quiet {s : Recording} (h : s.Accounted) (hquiet : s.Quiet) :
    s.histogram.count = UInt64.ofNat s.values.length := by
  rw [h.count, hquiet.total_eq (f := fun _ => 1) fun _ => rfl]
  simp

/-- Where a race of the calls ends. -/
theorem Quiet.best {s : Recording} (hquiet : s.Quiet) {better : UInt64 → UInt64 → Bool} {start : UInt64}
    {cell : Cell UInt64} {view : Call → UInt64 × Climb UInt64}
    (hview : ∀ value, view ⟨value, .done⟩ = (value, .settled))
    (h : Race better start cell (s.calls.map view)) :
    (∀ v ∈ s.values, better v cell.value = false) ∧ (cell.value = start ∨ cell.value ∈ s.values) := by
  have hcallers : s.calls.map view = s.values.map fun v => (v, .settled) := by
    rw [values, List.map_map]
    apply List.map_congr_left
    intro c hc
    rw [Function.comp_apply, ← hview c.value, ← hquiet c hc]
  rw [hcallers] at h
  have hbest := h.best (by
    intro q hq
    obtain ⟨v, -, rfl⟩ := List.mem_map.mp hq
    rfl)
  rw [List.map_map] at hbest
  constructor
  · intro v hv
    exact hbest.1 (v, .settled) (List.mem_map_of_mem hv)
  · exact hbest.2.imp_right fun hmem => by simpa using hmem

theorem Accounted.min_quiet {s : Recording} (h : s.Accounted) (hquiet : s.Quiet) (hne : s.values ≠ []) :
    s.histogram.lowest.value ∈ s.values ∧ ∀ v ∈ s.values, s.histogram.lowest.value ≤ v := by
  obtain ⟨hbest, hsource⟩ := hquiet.best (fun _ => rfl) h.lowest
  have hleast : ∀ v ∈ s.values, s.histogram.lowest.value ≤ v := by
    intro v hv
    simpa only [below, decide_eq_false_iff_not, UInt64.not_lt] using hbest v hv
  refine ⟨?_, hleast⟩
  rcases hsource with hunset | hmem
  · -- nothing is above the start, so a value that is not below it is the start
    obtain ⟨v, hv⟩ := List.exists_mem_of_ne_nil _ hne
    have hv' : v = s.histogram.lowest.value := by
      apply UInt64.le_antisymm _ (hleast v hv)
      rw [hunset]
      exact Nat.le_of_lt_succ v.toNat_lt
    rwa [← hv']
  · exact hmem

theorem Accounted.max_quiet {s : Recording} (h : s.Accounted) (hquiet : s.Quiet) (hne : s.values ≠ []) :
    s.histogram.max ∈ s.values ∧ ∀ v ∈ s.values, v ≤ s.histogram.max := by
  obtain ⟨hbest, hsource⟩ := hquiet.best (fun _ => rfl) h.highest
  have hgreatest : ∀ v ∈ s.values, v ≤ s.histogram.highest.value := by
    intro v hv
    simpa only [above, decide_eq_false_iff_not, gt_iff_lt, UInt64.not_lt] using hbest v hv
  refine ⟨?_, hgreatest⟩
  rcases hsource with hzero | hmem
  · obtain ⟨v, hv⟩ := List.exists_mem_of_ne_nil _ hne
    have hv' : v = s.histogram.highest.value := by
      apply UInt64.le_antisymm (hgreatest v hv)
      rw [hzero]
      exact Nat.zero_le _
    rwa [Histogram.max, ← hv']
  · exact hmem

/-- When no call is under way, whatever the order of the steps of the calls: the count, the sum and the
buckets are those of the values recorded, and so are the least and the greatest value. A least value of
all ones reads as 0. -/
theorem recorded_exactly (events : List Event) (hquiet : (Runs.run step {} events).Quiet) :
    let h := (Runs.run step {} events).histogram
    let vs := events.filterMap Event.recorded
    h.count = UInt64.ofNat vs.length ∧ h.sum = UInt64.ofNat (vs.map UInt64.toNat).sum ∧
      (∀ i, h.buckets i = UInt64.ofNat (vs.countP fun v => v.toNat.log2 == i)) ∧
      (vs ≠ [] → (∃ m ∈ vs, (∀ v ∈ vs, m ≤ v) ∧ h.min = if m = unset then 0 else m) ∧
        h.max ∈ vs ∧ ∀ v ∈ vs, v ≤ h.max) := by
  have hacc := accounted_run events
  rw [← values_recorded events]
  refine ⟨hacc.count_quiet hquiet, ?_, hacc.buckets_quiet hquiet, ?_⟩
  · rw [hacc.sum, hquiet.total_eq (f := UInt64.toNat) fun _ => rfl]
  intro hne
  obtain ⟨hmem, hleast⟩ := hacc.min_quiet hquiet hne
  exact ⟨⟨_, hmem, hleast, rfl⟩, hacc.max_quiet hquiet hne⟩

/-- Two calls at once: the second reads the least value that the first has already lowered, tries to swap
it in vain, and fails once more for no reason. -/
def contended : List Event :=
  [.call 9, .call 5, .advance 0 false 0, .advance 1 false 0, .advance 0 false 0, .advance 1 false 0,
    .advance 0 false 0, .advance 1 false 0, .advance 0 false 0, .advance 1 false 0, .advance 0 false 0,
    .advance 1 false 1, .advance 1 false 0, .advance 1 true 0, .advance 1 false 0, .advance 0 false 0,
    .advance 1 false 0, .advance 0 false 0, .advance 1 false 0, .advance 1 false 0]

theorem recorded_exactly_contended :
    let h := (Runs.run step {} contended).histogram
    let vs := contended.filterMap Event.recorded
    h.count = UInt64.ofNat vs.length ∧ h.sum = UInt64.ofNat (vs.map UInt64.toNat).sum ∧
      (∀ i, h.buckets i = UInt64.ofNat (vs.countP fun v => v.toNat.log2 == i)) ∧
      (vs ≠ [] → (∃ m ∈ vs, (∀ v ∈ vs, m ≤ v) ∧ h.min = if m = unset then 0 else m) ∧
        h.max ∈ vs ∧ ∀ v ∈ vs, v ≤ h.max) :=
  recorded_exactly contended (by unfold Quiet; decide)

end Recording

/-! ## Percentiles -/

/-- The lower end of a bucket, as `percentile` returns it. -/
def lowerEnd (i : Nat) : UInt64 := if i == 0 then 0 else 1 <<< UInt64.ofNat i

theorem lowerEnd_toNat {i : Nat} (hi : i < bucketCount) : (lowerEnd i).toNat = if i = 0 then 0 else 2 ^ i := by
  unfold lowerEnd
  by_cases hzero : i = 0
  · rw [hzero]
    rfl
  · have hindex : (UInt64.ofNat i).toNat % 64 = i := by
      rw [UInt64.toNat_ofNat', Nat.mod_mod_of_dvd i (by decide)]
      exact Nat.mod_eq_of_lt hi
    rw [beq_eq_false_iff_ne.mpr hzero, if_neg Bool.false_ne_true, if_neg hzero, UInt64.toNat_shiftLeft, hindex,
      Nat.shiftLeft_eq, UInt64.toNat_one, Nat.one_mul]
    exact Nat.mod_eq_of_lt (Nat.pow_lt_pow_right (by decide) hi)

/-- A value is at least the lower end of its bucket, and less than the end of the next one. -/
theorem lowerEnd_bounds (v : UInt64) :
    (lowerEnd v.toNat.log2).toNat ≤ v.toNat ∧ v.toNat < 2 * max 1 (lowerEnd v.toNat.log2).toNat := by
  rw [lowerEnd_toNat (log2_lt_bucketCount v)]
  have hlt : v.toNat < 2 ^ (v.toNat.log2 + 1) := Nat.lt_log2_self
  by_cases hzero : v.toNat.log2 = 0
  · rw [hzero] at hlt
    rw [if_pos hzero]
    omega
  · have hv : v.toNat ≠ 0 := by
      intro hv
      rw [hv, Nat.log2_zero] at hzero
      exact hzero rfl
    have hle := Nat.log2_self_le hv
    rw [if_neg hzero]
    rw [Nat.pow_succ] at hlt
    omega

/-- How many values lie in the buckets below `i`. -/
def underBucket (values : List UInt64) (i : Nat) : Nat := values.countP fun v => decide (v.toNat.log2 < i)

theorem underBucket_succ (values : List UInt64) (i : Nat) :
    underBucket values (i + 1) = underBucket values i + values.countP fun v => v.toNat.log2 == i := by
  induction values with
  | nil => rfl
  | cons v values ih =>
    simp only [underBucket, List.countP_cons, decide_eq_true_eq, beq_iff_eq] at ih ⊢
    rw [ih]
    split <;> split <;> split <;> omega

theorem underBucket_all (values : List UInt64) : underBucket values bucketCount = values.length := by
  unfold underBucket
  rw [List.countP_eq_length]
  intro v hv
  exact decide_eq_true (log2_lt_bucketCount v)

theorem underBucket_le (values : List UInt64) (i : Nat) : underBucket values i ≤ values.length :=
  List.countP_le_length

/-- The loop stops in the bucket in which the running total reaches the rank. -/
theorem percentileLoop_spec {h : Histogram} {values : List UInt64}
    (hbuckets : ∀ i, h.buckets i = UInt64.ofNat (values.countP fun v => v.toNat.log2 == i))
    (hlen : values.length < 2 ^ 64) {rank : UInt64} (hrank : rank.toNat ≤ values.length) {left i : Nat}
    (hleft : i + left = bucketCount) (hbelow : underBucket values i < rank.toNat) :
    ∃ j, underBucket values j < rank.toNat ∧ rank.toNat ≤ underBucket values (j + 1) ∧ j < bucketCount ∧
      h.percentileLoop rank left i (UInt64.ofNat (underBucket values i)) = lowerEnd j := by
  induction left generalizing i with
  | zero =>
    rw [Nat.add_zero] at hleft
    rw [hleft, underBucket_all] at hbelow
    omega
  | succ left ih =>
    have hseen : UInt64.ofNat (underBucket values i) + h.buckets i = UInt64.ofNat (underBucket values (i + 1)) := by
      rw [hbuckets, underBucket_succ, UInt64.ofNat_add]
    have hlt := Nat.lt_of_le_of_lt (underBucket_le values (i + 1)) hlen
    have hreach : UInt64.ofNat (underBucket values (i + 1)) ≥ rank ↔ rank.toNat ≤ underBucket values (i + 1) :=
      UInt64.le_ofNat_iff hlt
    unfold Histogram.percentileLoop
    rw [hseen]
    dsimp only
    by_cases hstop : rank.toNat ≤ underBucket values (i + 1)
    · rw [if_pos (hreach.mpr hstop)]
      exact ⟨i, hbelow, hstop, by omega, rfl⟩
    · rw [if_neg fun hge => hstop (hreach.mp hge)]
      exact ih (by omega) (by omega)

/-- In order, the values of the lower buckets come first. -/
theorem partitioned_sorted (values : List UInt64) (i : Nat) :
    PartitionPoint.Partitioned (fun v : UInt64 => decide (v.toNat.log2 < i)) values.mergeSort := by
  have hsorted : values.mergeSort.Pairwise (fun a b => decide (a ≤ b) = true) := by
    apply List.pairwise_mergeSort
    · intro a b c hab hbc
      exact decide_eq_true (UInt64.le_trans (of_decide_eq_true hab) (of_decide_eq_true hbc))
    · intro a b
      simpa using UInt64.le_total a b
  apply hsorted.imp
  intro a b hab hb
  have hle : a.toNat ≤ b.toNat := of_decide_eq_true hab
  have hlog : a.toNat.log2 ≤ b.toNat.log2 := by
    by_cases hzero : a.toNat = 0
    · rw [hzero, Nat.log2_zero]
      exact Nat.zero_le _
    · rw [Nat.le_log2 (by omega)]
      exact Nat.le_trans (Nat.log2_self_le hzero) hle
  have hlt : b.toNat.log2 < i := of_decide_eq_true hb
  exact decide_eq_true (by omega)

/-- The value of a rank lies in the bucket in which the running total reaches the rank. -/
theorem sorted_bucket {values : List UInt64} {rank j : Nat} {v : UInt64} (hv : values.mergeSort[rank - 1]? = some v)
    (hbelow : underBucket values j < rank) (hreach : rank ≤ underBucket values (j + 1)) : v.toNat.log2 = j := by
  have hiff : ∀ i, v.toNat.log2 < i ↔ rank - 1 < underBucket values i := by
    intro i
    have hlt := (partitioned_sorted values i).splits.lt_iff (List.getElem?_eq_some_iff.mp hv).1
    rw [← List.countP_eq_length_filter, (List.mergeSort_perm values _).countP_eq, PartitionPoint.at?, hv] at hlt
    simpa [underBucket] using hlt
  have h1 := hiff j
  have h2 := hiff (j + 1)
  omega

namespace Recording

/-- A percentile taken while no call is under way is at most the value of its rank and more than half of
it; the values 0 and 1 read as 0. -/
theorem percentile_of_rank (events : List Event) (hquiet : (Runs.run step {} events).Quiet)
    (hlen : (events.filterMap Event.recorded).length < 2 ^ 64) (rank : UInt64 → UInt64)
    (hone : 1 ≤ (rank (Runs.run step {} events).histogram.count).toNat)
    (hrank : (rank (Runs.run step {} events).histogram.count).toNat ≤ (events.filterMap Event.recorded).length) :
    let h := (Runs.run step {} events).histogram
    ∃ v, (events.filterMap Event.recorded).mergeSort[(rank h.count).toNat - 1]? = some v ∧
      (h.percentile rank).toNat ≤ v.toNat ∧ v.toNat < 2 * max 1 (h.percentile rank).toNat := by
  have hacc := accounted_run events
  have hcount := hacc.count_quiet hquiet
  have hbuckets := hacc.buckets_quiet hquiet
  rw [values_recorded] at hcount hbuckets
  dsimp only
  generalize (Runs.run step {} events).histogram = h at hcount hbuckets hone hrank ⊢
  generalize events.filterMap Event.recorded = vs at hcount hbuckets hlen hrank ⊢
  have hsome : h.count ≠ 0 := by
    intro hzero
    rw [hzero] at hcount
    have hmod := congrArg UInt64.toNat hcount
    rw [UInt64.toNat_ofNat_of_lt' hlen] at hmod
    have hnone : vs.length = 0 := hmod.symm
    omega
  have hstart : underBucket vs 0 = 0 := by simp [underBucket]
  obtain ⟨j, hbelow, hreach, hj, hloop⟩ := percentileLoop_spec (i := 0) hbuckets hlen hrank
    (Nat.zero_add bucketCount) (by omega)
  rw [hstart] at hloop
  have hpercentile : h.percentile rank = lowerEnd j := by
    unfold Histogram.percentile
    rw [if_neg hsome]
    exact hloop
  have hindex : (rank h.count).toNat - 1 < vs.mergeSort.length := by
    rw [List.length_mergeSort]
    omega
  refine ⟨vs.mergeSort[(rank h.count).toNat - 1], List.getElem?_eq_getElem hindex, ?_⟩
  rw [hpercentile, ← sorted_bucket (List.getElem?_eq_getElem hindex) hbelow hreach]
  exact lowerEnd_bounds _

theorem percentile_of_rank_contended :
    let h := (Runs.run step {} contended).histogram
    ∃ v, (contended.filterMap Event.recorded).mergeSort[(2 : UInt64).toNat - 1]? = some v ∧
      (h.percentile fun _ => 2).toNat ≤ v.toNat ∧ v.toNat < 2 * max 1 (h.percentile fun _ => 2).toNat :=
  percentile_of_rank contended (by unfold Quiet; decide) (by decide) (fun _ => 2) (by decide) (by decide)

end Recording

end MicrostructureEngine.Telemetry
