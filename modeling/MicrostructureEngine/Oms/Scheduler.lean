import MicrostructureEngine.Lib.Rotation
import MicrostructureEngine.Lib.Runs
import MicrostructureEngine.Oms.RateLimiter

/-!
# Arbitration between strategies

`StrategyScheduler`: one bounded queue for each registered strategy and a cursor that serves
them by deficit round robin. The ring buffer of a slot is a list with its oldest entry
first. `Slot::deficit` is left out: it is only ever set to zero and never read. The proofs
look at `next` through two moves, skipping an idle slot and serving an active one.
-/

namespace MicrostructureEngine

open Probing
set_option autoImplicit false

structure ArbitratedRequest where
  strategy : UInt32 := 0
  venue : UInt64 := 0
  side : Side := .buy
  request : PendingRequest := {}

structure StrategySlot where
  registered : Bool := false
  id : UInt32 := 0
  quantum : Nat := 1
  queue : List ArbitratedRequest := []
  highWater : Nat := 0
  admitted : Nat := 0
  queueFullRejections : Nat := 0

structure StrategyScheduler where
  maxStrategies : Nat
  queueCapacity : Nat
  slots : Nat → StrategySlot := fun _ => {}
  cursor : Nat := 0
  visitDeficit : Int := 0

namespace StrategyScheduler

def findSlot (s : StrategyScheduler) (id : UInt32) : Option Nat :=
  scan s.maxStrategies fun i =>
    if (s.slots i).registered = true ∧ (s.slots i).id = id then some i else none

def freeSlot (s : StrategyScheduler) : Option Nat :=
  scan s.maxStrategies fun i => if (s.slots i).registered = false then some i else none

def setSlot (s : StrategyScheduler) (i : Nat) (slot : StrategySlot) : StrategyScheduler :=
  { s with slots := Function.update s.slots i slot }

def registerStrategy (s : StrategyScheduler) (id : UInt32) (quantum : Nat) :
    Bool × StrategyScheduler :=
  if quantum = 0 then (false, s)
  else if (s.findSlot id).isSome then (false, s)
  else match s.freeSlot with
    | some i =>
      (true, s.setSlot i
        { s.slots i with registered := true, id := id, quantum := quantum, queue := [] })
    | none => (false, s)

def enqueue (s : StrategyScheduler) (id : UInt32) (venue : UInt64) (side : Side)
    (request : PendingRequest) : Bool × StrategyScheduler :=
  match s.findSlot id with
  | none => (false, s)
  | some i =>
    let slot := s.slots i
    if slot.queue.length ≥ s.queueCapacity then
      (false, s.setSlot i { slot with queueFullRejections := slot.queueFullRejections + 1 })
    else
      let queue := slot.queue ++ [⟨id, venue, side, request⟩]
      (true, s.setSlot i { slot with
        queue := queue, highWater := max slot.highWater queue.length })

def activeCount (s : StrategyScheduler) : Nat :=
  ((List.range s.maxStrategies).filter fun i =>
    (s.slots i).registered && !(s.slots i).queue.isEmpty).length

def advance (s : StrategyScheduler) : StrategyScheduler :=
  { s with cursor := (s.cursor + 1) % s.maxStrategies, visitDeficit := 0 }

/-- `next` at a slot with a request to return; `rest` is what stays queued behind it. -/
def serve (s : StrategyScheduler) (rest : List ArbitratedRequest) : StrategyScheduler :=
  let slot := s.slots s.cursor
  let budget := if s.visitDeficit ≤ 0 then (slot.quantum : Int) else s.visitDeficit
  let served := { s.setSlot s.cursor { slot with queue := rest, admitted := slot.admitted + 1 } with
    visitDeficit := budget - 1 }
  if rest = [] ∨ budget - 1 ≤ 0 then served.advance else served

def nextLoop : Nat → StrategyScheduler → Option ArbitratedRequest × StrategyScheduler
  | 0, s => (none, s)
  | scans + 1, s =>
    if (s.slots s.cursor).registered then
      match (s.slots s.cursor).queue with
      | [] => nextLoop scans s.advance
      | out :: rest => (some out, s.serve rest)
    else nextLoop scans s.advance

/-- `next`, with the request it returns. -/
def next (s : StrategyScheduler) : Option ArbitratedRequest × StrategyScheduler :=
  if s.activeCount = 0 then (none, s) else nextLoop s.maxStrategies s

/-- The requests a strategy has queued. -/
def pending (s : StrategyScheduler) (id : UInt32) : List ArbitratedRequest :=
  match s.findSlot id with
  | some i => (s.slots i).queue
  | none => []

def quantumOf (s : StrategyScheduler) (id : UInt32) : Option Nat :=
  (s.findSlot id).map fun i => (s.slots i).quantum

inductive Call where
  | registerStrategy (id : UInt32) (quantum : Nat)
  | enqueue (id : UInt32) (venue : UInt64) (side : Side) (request : PendingRequest)
  | next

def step (s : StrategyScheduler) : Call → StrategyScheduler
  | .registerStrategy id quantum => (s.registerStrategy id quantum).2
  | .enqueue id venue side request => (s.enqueue id venue side request).2
  | .next => s.next.2

/-- The request a call accepts. -/
def accepts (s : StrategyScheduler) : Call → Option ArbitratedRequest
  | .enqueue id venue side request =>
    if (s.enqueue id venue side request).1 then some ⟨id, venue, side, request⟩ else none
  | _ => none

/-- The request a call returns. -/
def returns (s : StrategyScheduler) : Call → Option ArbitratedRequest
  | .next => s.next.1
  | _ => none

def accepted (s : StrategyScheduler) : List Call → List ArbitratedRequest
  | [] => []
  | c :: calls => (s.accepts c).toList ++ accepted (s.step c) calls

def returned (s : StrategyScheduler) : List Call → List ArbitratedRequest
  | [] => []
  | c :: calls => (s.returns c).toList ++ returned (s.step c) calls

/-- How often a strategy is served. -/
def served (s : StrategyScheduler) (calls : List Call) (id : UInt32) : Nat :=
  (s.returned calls).countP fun r => r.strategy == id

/-- The slot has something to serve. -/
def Active (s : StrategyScheduler) (i : Nat) : Prop :=
  (s.slots i).registered = true ∧ (s.slots i).queue ≠ []

structure Inv (s : StrategyScheduler) : Prop where
  cursor : 0 < s.maxStrategies → s.cursor < s.maxStrategies
  single : ∀ i < s.maxStrategies, ∀ j < s.maxStrategies, (s.slots i).registered = true →
    (s.slots j).registered = true → (s.slots i).id = (s.slots j).id → i = j
  vacant : ∀ i, (s.slots i).registered = false → (s.slots i).queue = []
  owned : ∀ i, ∀ r ∈ (s.slots i).queue, r.strategy = (s.slots i).id
  quantum : ∀ i, (s.slots i).registered = true → 0 < (s.slots i).quantum
  budget : 0 ≤ s.visitDeficit
  visit : 0 < s.visitDeficit →
    s.Active s.cursor ∧ s.visitDeficit ≤ (s.slots s.cursor).quantum

theorem findSlot_eq_some {s : StrategyScheduler} {id : UInt32} {i : Nat}
    (h : s.findSlot id = some i) :
    i < s.maxStrategies ∧ (s.slots i).registered = true ∧ (s.slots i).id = id := by
  obtain ⟨k, hk, hhit, _⟩ := scan_eq_some_iff.mp h
  split at hhit
  · rename_i hmatch
    obtain rfl := Option.some.inj hhit
    exact ⟨hk, hmatch⟩
  · cases hhit

theorem findSlot_eq_none {s : StrategyScheduler} {id : UInt32} (h : s.findSlot id = none) {i : Nat}
    (hi : i < s.maxStrategies) (hreg : (s.slots i).registered = true) : (s.slots i).id ≠ id := by
  intro hid
  have := scan_eq_none_iff.mp h i hi
  simp [hreg, hid] at this

theorem freeSlot_eq_some {s : StrategyScheduler} {i : Nat} (h : s.freeSlot = some i) :
    i < s.maxStrategies ∧ (s.slots i).registered = false := by
  obtain ⟨k, hk, hhit, _⟩ := scan_eq_some_iff.mp h
  split at hhit
  · rename_i hfree
    obtain rfl := Option.some.inj hhit
    exact ⟨hk, hfree⟩
  · cases hhit

theorem Inv.findSlot_eq {s : StrategyScheduler} (h : s.Inv) {i : Nat} (hi : i < s.maxStrategies)
    (hreg : (s.slots i).registered = true) : s.findSlot (s.slots i).id = some i := by
  cases hf : s.findSlot (s.slots i).id with
  | none => exact absurd rfl (findSlot_eq_none hf hi hreg)
  | some j =>
    obtain ⟨hj, hjreg, hid⟩ := findSlot_eq_some hf
    rw [h.single j hj i hi hjreg hreg hid]

theorem inv_new (maxStrategies queueCapacity : Nat) :
    Inv { maxStrategies := maxStrategies, queueCapacity := queueCapacity } where
  cursor h := h
  single i _ j _ hreg := by cases hreg
  vacant _ _ := rfl
  owned i r hr := by cases hr
  quantum i hreg := by cases hreg
  budget := le_rfl
  visit h := absurd h (lt_irrefl 0)

variable {s : StrategyScheduler}

theorem registerStrategy_cases (s : StrategyScheduler) (id : UInt32) (quantum : Nat) :
    s.registerStrategy id quantum = (false, s) ∨
    ∃ i, i < s.maxStrategies ∧ (s.slots i).registered = false ∧ 0 < quantum ∧
      s.findSlot id = none ∧ s.registerStrategy id quantum = (true, s.setSlot i
        { s.slots i with registered := true, id := id, quantum := quantum, queue := [] }) := by
  unfold registerStrategy
  split
  · exact .inl rfl
  · rename_i hquantum
    split
    · exact .inl rfl
    · rename_i hnew
      cases hfree : s.freeSlot with
      | none => exact .inl rfl
      | some i =>
        obtain ⟨hi, hreg⟩ := freeSlot_eq_some hfree
        exact .inr ⟨i, hi, hreg, by omega, Option.not_isSome_iff_eq_none.mp hnew, rfl⟩

theorem enqueue_cases (s : StrategyScheduler) (id : UInt32) (venue : UInt64) (side : Side)
    (request : PendingRequest) :
    s.enqueue id venue side request = (false, s) ∨
    ∃ i, s.findSlot id = some i ∧
      ((∃ rejections, s.enqueue id venue side request =
        (false, s.setSlot i { s.slots i with queueFullRejections := rejections })) ∨
      (∃ highWater, s.enqueue id venue side request = (true, s.setSlot i { s.slots i with
        queue := (s.slots i).queue ++ [⟨id, venue, side, request⟩], highWater := highWater }))) := by
  unfold enqueue
  cases hf : s.findSlot id with
  | none => exact .inl rfl
  | some i =>
    right
    refine ⟨i, rfl, ?_⟩
    dsimp only
    split
    · exact .inl ⟨_, rfl⟩
    · exact .inr ⟨_, rfl⟩

section SetSlot
variable {i : Nat} {slot : StrategySlot}

/-- A write that keeps the registration of the slot does not move any strategy. -/
theorem findSlot_setSlot (hreg : slot.registered = (s.slots i).registered)
    (hid : slot.id = (s.slots i).id) (id : UInt32) : (s.setSlot i slot).findSlot id = s.findSlot id := by
  unfold findSlot setSlot
  congr 1
  funext j
  by_cases hj : j = i
  · subst hj
    simp [hreg, hid]
  · simp [Function.update_of_ne hj]

theorem pending_setSlot (hreg : slot.registered = (s.slots i).registered)
    (hid : slot.id = (s.slots i).id) (id : UInt32) :
    (s.setSlot i slot).pending id = if s.findSlot id = some i then slot.queue else s.pending id := by
  unfold pending
  rw [findSlot_setSlot hreg hid]
  cases hf : s.findSlot id with
  | none => simp
  | some j =>
    by_cases hj : j = i
    · subst hj
      simp [setSlot]
    · simp [setSlot, hj]

theorem Inv.setSlot (h : s.Inv) (hreg : slot.registered = (s.slots i).registered)
    (hid : slot.id = (s.slots i).id) (hquantum : slot.quantum = (s.slots i).quantum)
    (hvacant : slot.registered = false → slot.queue = [])
    (howned : ∀ r ∈ slot.queue, r.strategy = slot.id)
    (hvisit : 0 < s.visitDeficit → s.cursor = i → slot.queue ≠ []) : (s.setSlot i slot).Inv := by
  have hat : ∀ j, ((s.setSlot i slot).slots j).registered = (s.slots j).registered ∧
      ((s.setSlot i slot).slots j).id = (s.slots j).id ∧
      ((s.setSlot i slot).slots j).quantum = (s.slots j).quantum := by
    intro j
    by_cases hj : j = i
    · subst hj
      simp [StrategyScheduler.setSlot, hreg, hid, hquantum]
    · simp [StrategyScheduler.setSlot, Function.update_of_ne hj]
  refine ⟨h.cursor, ?_, ?_, ?_, ?_, h.budget, ?_⟩
  · intro j hj k hk hjr hkr hjk
    rw [(hat j).1] at hjr
    rw [(hat k).1] at hkr
    rw [(hat j).2.1, (hat k).2.1] at hjk
    exact h.single j hj k hk hjr hkr hjk
  · intro j hjr
    by_cases hj : j = i
    · subst hj
      simp only [StrategyScheduler.setSlot, Function.update_self] at hjr ⊢
      exact hvacant hjr
    · simp only [StrategyScheduler.setSlot, Function.update_of_ne hj] at hjr ⊢
      exact h.vacant j hjr
  · intro j r hr
    by_cases hj : j = i
    · subst hj
      simp only [StrategyScheduler.setSlot, Function.update_self] at hr ⊢
      exact howned r hr
    · simp only [StrategyScheduler.setSlot, Function.update_of_ne hj] at hr ⊢
      exact h.owned j r hr
  · intro j hjr
    rw [(hat j).1] at hjr
    rw [(hat j).2.2]
    exact h.quantum j hjr
  · intro hbudget
    obtain ⟨⟨hactive, hqueue⟩, hle⟩ := h.visit hbudget
    refine ⟨⟨(hat s.cursor).1.trans hactive, ?_⟩, hle.trans_eq ?_⟩
    · by_cases hj : s.cursor = i
      · simp only [StrategyScheduler.setSlot, hj, Function.update_self]
        exact hvisit hbudget hj
      · simp only [StrategyScheduler.setSlot, Function.update_of_ne hj]
        exact hqueue
    · exact congrArg Nat.cast (hat s.cursor).2.2.symm

end SetSlot

theorem Inv.registerStrategy (h : s.Inv) (id : UInt32) (quantum : Nat) :
    (s.registerStrategy id quantum).2.Inv := by
  rcases s.registerStrategy_cases id quantum with heq | ⟨i, hi, hfree, hquantum, hnew, heq⟩
  · rw [heq]
    exact h
  · rw [heq]
    refine ⟨h.cursor, ?_, ?_, ?_, ?_, h.budget, ?_⟩
    · intro j hj k hk
      simp only [StrategyScheduler.setSlot] at hj hk ⊢
      by_cases hji : j = i <;> by_cases hki : k = i
      · intro _ _ _
        rw [hji, hki]
      · subst hji
        rw [Function.update_self, Function.update_of_ne hki]
        intro _ hkr hid
        exact absurd hid.symm (findSlot_eq_none hnew hk hkr)
      · subst hki
        rw [Function.update_self, Function.update_of_ne hji]
        intro hjr _ hid
        exact absurd hid (findSlot_eq_none hnew hj hjr)
      · rw [Function.update_of_ne hji, Function.update_of_ne hki]
        exact h.single j hj k hk
    · intro j
      simp only [StrategyScheduler.setSlot]
      by_cases hji : j = i
      · rw [hji, Function.update_self]
        exact fun _ => rfl
      · rw [Function.update_of_ne hji]
        exact h.vacant j
    · intro j
      simp only [StrategyScheduler.setSlot]
      by_cases hji : j = i
      · rw [hji, Function.update_self]
        exact fun r hr => absurd hr List.not_mem_nil
      · rw [Function.update_of_ne hji]
        exact h.owned j
    · intro j
      simp only [StrategyScheduler.setSlot]
      by_cases hji : j = i
      · rw [hji, Function.update_self]
        exact fun _ => hquantum
      · rw [Function.update_of_ne hji]
        exact h.quantum j
    · -- the slot under visit is registered already
      intro hbudget
      have hvisit := h.visit hbudget
      have hne : s.cursor ≠ i := by
        rintro rfl
        rw [hvisit.1.1] at hfree
        cases hfree
      simpa only [Active, StrategyScheduler.setSlot, Function.update_of_ne hne] using hvisit

theorem Inv.enqueue (h : s.Inv) (id : UInt32) (venue : UInt64) (side : Side)
    (request : PendingRequest) : (s.enqueue id venue side request).2.Inv := by
  rcases s.enqueue_cases id venue side request with heq | ⟨i, hf, ⟨_, heq⟩ | ⟨_, heq⟩⟩
  · rw [heq]
    exact h
  · rw [heq]
    refine h.setSlot rfl rfl rfl (h.vacant i) (h.owned i) ?_
    rintro hbudget rfl
    exact (h.visit hbudget).1.2
  · rw [heq]
    obtain ⟨_, hreg, hid⟩ := findSlot_eq_some hf
    refine h.setSlot rfl rfl rfl ?_ ?_ ?_
    · intro hvacant
      exact absurd (hreg.symm.trans hvacant) (by decide)
    · intro r hr
      rcases List.mem_append.mp hr with hr | hr
      · exact h.owned i r hr
      · rw [List.mem_singleton.mp hr]
        exact hid.symm
    · intro _ _
      simp

/-- Moving the cursor and setting the budget of the visit. -/
theorem Inv.visiting (h : s.Inv) {cursor : Nat} {budget : Int}
    (hcursor : 0 < s.maxStrategies → cursor < s.maxStrategies) (hbudget : 0 ≤ budget)
    (hvisit : 0 < budget → s.Active cursor ∧ budget ≤ (s.slots cursor).quantum) :
    Inv { s with cursor := cursor, visitDeficit := budget } :=
  ⟨hcursor, h.single, h.vacant, h.owned, h.quantum, hbudget, hvisit⟩

theorem Inv.advance (h : s.Inv) : s.advance.Inv :=
  h.visiting (fun hn => Nat.mod_lt _ hn) le_rfl (fun hpos => absurd hpos (lt_irrefl 0))

/-- What is left of a visit at its next request. -/
def budget (s : StrategyScheduler) : Int :=
  if s.visitDeficit ≤ 0 then ((s.slots s.cursor).quantum : Int) else s.visitDeficit

theorem Inv.budget_pos (h : s.Inv) (hreg : (s.slots s.cursor).registered = true) :
    0 < s.budget ∧ s.budget ≤ (s.slots s.cursor).quantum := by
  have hquantum := h.quantum s.cursor hreg
  unfold StrategyScheduler.budget
  split
  · exact ⟨by omega, le_rfl⟩
  · rename_i hpos
    have hpos' : 0 < s.visitDeficit := by omega
    exact ⟨hpos', (h.visit hpos').2⟩

/-- The slot with its oldest request taken out. -/
def taken (s : StrategyScheduler) (rest : List ArbitratedRequest) : StrategyScheduler :=
  s.setSlot s.cursor { s.slots s.cursor with
    queue := rest, admitted := (s.slots s.cursor).admitted + 1 }

theorem serve_eq (s : StrategyScheduler) (rest : List ArbitratedRequest) :
    s.serve rest = if rest = [] ∨ s.budget - 1 ≤ 0 then (s.taken rest).advance
      else { s.taken rest with visitDeficit := s.budget - 1 } := rfl

theorem Inv.serve (h : s.Inv) {out : ArbitratedRequest} {rest : List ArbitratedRequest}
    (hreg : (s.slots s.cursor).registered = true)
    (hqueue : (s.slots s.cursor).queue = out :: rest) : (s.serve rest).Inv := by
  have hidle : Inv { s with visitDeficit := 0 } :=
    h.visiting h.cursor le_rfl fun hpos => absurd hpos (lt_irrefl 0)
  have htaken : Inv ({ s with visitDeficit := 0 }.taken rest) := by
    refine hidle.setSlot rfl rfl rfl ?_ ?_ (fun hpos => absurd hpos (lt_irrefl 0))
    · intro hvacant
      exact absurd (hreg.symm.trans hvacant) (by decide)
    · intro r hr
      refine h.owned s.cursor r ?_
      rw [hqueue]
      exact List.mem_cons_of_mem out hr
  rw [serve_eq]
  split
  · exact htaken.advance
  · rename_i hgoes
    push Not at hgoes
    have hbudget := h.budget_pos hreg
    refine htaken.visiting h.cursor (by omega) ?_
    intro _
    refine ⟨⟨?_, ?_⟩, ?_⟩
    · simpa [taken, StrategyScheduler.setSlot] using hreg
    · simpa [taken, StrategyScheduler.setSlot] using hgoes.1
    · simp only [taken, StrategyScheduler.setSlot, Function.update_self]
      omega

/-! ## One call of `next` -/

/-- The cursor stands at a slot whose oldest request is `out`. -/
structure Serves (s : StrategyScheduler) (out : ArbitratedRequest) (rest : List ArbitratedRequest) :
    Prop where
  registered : (s.slots s.cursor).registered = true
  queue : (s.slots s.cursor).queue = out :: rest

/-- Only the cursor and the visit differ. -/
structure Moved (s t : StrategyScheduler) : Prop where
  slots : t.slots = s.slots
  maxStrategies : t.maxStrategies = s.maxStrategies

theorem Moved.active {t : StrategyScheduler} (h : Moved s t) {i : Nat} : t.Active i ↔ s.Active i := by
  unfold Active
  rw [h.slots]

theorem nextLoop_succ (scans : Nat) (s : StrategyScheduler) :
    nextLoop (scans + 1) s =
      if (s.slots s.cursor).registered then
        match (s.slots s.cursor).queue with
        | [] => nextLoop scans s.advance
        | out :: rest => (some out, s.serve rest)
      else nextLoop scans s.advance := rfl

theorem nextLoop_idle {scans : Nat} (h : ¬ s.Active s.cursor) :
    nextLoop (scans + 1) s = nextLoop scans s.advance := by
  rw [nextLoop_succ]
  split
  · rename_i hreg
    cases hqueue : (s.slots s.cursor).queue with
    | nil => rfl
    | cons out rest => exact absurd ⟨hreg, by simp [hqueue]⟩ h
  · rfl

theorem nextLoop_serves {scans : Nat} {out : ArbitratedRequest} {rest : List ArbitratedRequest}
    (h : s.Serves out rest) : nextLoop (scans + 1) s = (some out, s.serve rest) := by
  rw [nextLoop_succ, if_pos h.registered, h.queue]

theorem Active.serves (h : s.Active s.cursor) : ∃ out rest, s.Serves out rest := by
  obtain ⟨out, rest, hqueue⟩ := List.exists_cons_of_ne_nil h.2
  exact ⟨out, rest, h.1, hqueue⟩

/-- The rule for the scan: an assertion that survives the skipping of idle slots holds where
the scan stops and serves. The scan reaches any active slot it has enough turns for. -/
theorem nextLoop_rule {P : StrategyScheduler → Prop} {a : Nat}
    (hskip : ∀ t, Moved s t → t.cursor < t.maxStrategies → P t → ¬ t.Active t.cursor → P t.advance)
    (ha : a < s.maxStrategies) (hactive : s.Active a) (scans : Nat) {t : StrategyScheduler}
    (hmoved : Moved s t) (hcursor : t.cursor < t.maxStrategies) (hp : P t)
    (hscans : distance t.maxStrategies t.cursor a < scans) :
    ∃ u out rest, Moved s u ∧ u.cursor < u.maxStrategies ∧ P u ∧ u.Serves out rest ∧
      nextLoop scans t = (some out, u.serve rest) := by
  induction scans generalizing t with
  | zero => omega
  | succ scans ih =>
    by_cases hidle : t.Active t.cursor
    · obtain ⟨out, rest, hserves⟩ := hidle.serves
      exact ⟨t, out, rest, hmoved, hcursor, hp, hserves, nextLoop_serves hserves⟩
    · rw [nextLoop_idle hidle]
      have ha' : a < t.maxStrategies := by
        rw [hmoved.maxStrategies]
        exact ha
      have hne : a ≠ t.cursor := by
        rintro rfl
        exact hidle (hmoved.active.mpr hactive)
      -- every skip brings the active slot one closer
      have hcloser := Rotation.distance_advance hcursor ha' hne
      refine ih ⟨hmoved.slots, hmoved.maxStrategies⟩ (Nat.mod_lt _ (by omega))
        (hskip t hmoved hcursor hp hidle) ?_
      dsimp only [advance]
      omega

theorem activeCount_eq_zero_iff : s.activeCount = 0 ↔ ∀ i < s.maxStrategies, ¬ s.Active i := by
  unfold activeCount Active
  simp [List.filter_eq_nil_iff]

/-- Everything a call of `next` can do. -/
theorem Inv.next_cases (h : s.Inv) {P : StrategyScheduler → Prop} (hp : P s)
    (hskip : ∀ t, Moved s t → t.cursor < t.maxStrategies → P t → ¬ t.Active t.cursor → P t.advance) :
    (s.next = (none, s) ∧ ∀ i < s.maxStrategies, ¬ s.Active i) ∨
    ∃ t out rest, Moved s t ∧ t.cursor < t.maxStrategies ∧ P t ∧ t.Inv ∧ t.Serves out rest ∧
      s.next = (some out, t.serve rest) := by
  unfold next
  by_cases hnone : s.activeCount = 0
  · rw [if_pos hnone]
    exact .inl ⟨rfl, activeCount_eq_zero_iff.mp hnone⟩
  · right
    rw [if_neg hnone]
    rw [activeCount_eq_zero_iff] at hnone
    push Not at hnone
    obtain ⟨a, ha, hactive⟩ := hnone
    have hcursor := h.cursor (by omega)
    obtain ⟨t, out, rest, hmoved, ht, ⟨hpt, hinv⟩, hserves, heq⟩ :=
      nextLoop_rule (P := fun t => P t ∧ t.Inv)
        (fun t hm hc hp hidle => ⟨hskip t hm hc hp.1 hidle, hp.2.advance⟩) ha hactive
        s.maxStrategies ⟨rfl, rfl⟩ hcursor ⟨hp, h⟩ (distance_lt (by omega) _ _)
    exact ⟨t, out, rest, hmoved, ht, hpt, hinv, hserves, heq⟩

theorem Inv.next (h : s.Inv) : s.next.2.Inv := by
  rcases h.next_cases (P := fun _ => True) trivial (fun _ _ _ _ _ => trivial) with
    ⟨heq, _⟩ | ⟨t, out, rest, _, _, _, hinv, hserves, heq⟩
  · rw [heq]
    exact h
  · rw [heq]
    exact hinv.serve hserves.registered hserves.queue

theorem Inv.step (h : s.Inv) (c : Call) : (s.step c).Inv := by
  cases c with
  | registerStrategy id quantum => exact h.registerStrategy id quantum
  | enqueue id venue side request => exact h.enqueue id venue side request
  | next => exact h.next

theorem Inv.run (h : s.Inv) (calls : List Call) : (Runs.run StrategyScheduler.step s calls).Inv :=
  Runs.invariant_of_step (fun _ c hs => hs.step c) h calls

theorem Inv.next_eq_none_iff (h : s.Inv) :
    s.next.1 = none ↔ ∀ i < s.maxStrategies, (s.slots i).queue = [] := by
  rcases h.next_cases (P := fun _ => True) trivial (fun _ _ _ _ _ => trivial) with
    ⟨heq, hidle⟩ | ⟨t, out, rest, hmoved, hcursor, _, _, hserves, heq⟩
  · rw [heq]
    refine ⟨fun _ i hi => ?_, fun _ => rfl⟩
    cases hreg : (s.slots i).registered with
    | false => exact h.vacant i hreg
    | true =>
      by_contra hqueue
      exact hidle i hi ⟨hreg, hqueue⟩
  · rw [heq]
    refine ⟨nofun, fun hempty => ?_⟩
    have hqueue := hserves.queue
    rw [hmoved.slots, hempty t.cursor (hmoved.maxStrategies ▸ hcursor)] at hqueue
    cases hqueue

/-! ## What a call does to the queue of a strategy -/

@[simp] theorem findSlot_advance (id : UInt32) : s.advance.findSlot id = s.findSlot id := rfl

@[simp] theorem slots_advance : s.advance.slots = s.slots := rfl

theorem Moved.findSlot {t : StrategyScheduler} (h : Moved s t) (id : UInt32) :
    t.findSlot id = s.findSlot id := by
  unfold StrategyScheduler.findSlot
  rw [h.slots, h.maxStrategies]

theorem Moved.pending {t : StrategyScheduler} (h : Moved s t) (id : UInt32) :
    t.pending id = s.pending id := by
  unfold StrategyScheduler.pending
  rw [h.findSlot, h.slots]

theorem moved_serve (s : StrategyScheduler) (rest : List ArbitratedRequest) :
    Moved (s.taken rest) (s.serve rest) := by
  rw [serve_eq]
  split
  · exact ⟨rfl, rfl⟩
  · exact ⟨rfl, rfl⟩

theorem pending_taken (s : StrategyScheduler) (rest : List ArbitratedRequest) (id : UInt32) :
    (s.taken rest).pending id = if s.findSlot id = some s.cursor then rest else s.pending id := by
  unfold taken
  rw [pending_setSlot]
  · rfl
  · rfl

theorem Serves.strategy {out : ArbitratedRequest} {rest : List ArbitratedRequest}
    (hserves : s.Serves out rest) (h : s.Inv) : out.strategy = (s.slots s.cursor).id := by
  refine h.owned s.cursor out ?_
  rw [hserves.queue]
  exact List.mem_cons_self

/-- A served strategy loses its oldest request, the others nothing. -/
theorem Serves.pending {out : ArbitratedRequest} {rest : List ArbitratedRequest}
    (hserves : s.Serves out rest) (h : s.Inv) (hcursor : s.cursor < s.maxStrategies) (id : UInt32) :
    s.pending id = (if out.strategy = id then [out] else []) ++ (s.serve rest).pending id := by
  have hfind := h.findSlot_eq hcursor hserves.registered
  rw [(moved_serve s rest).pending, pending_taken, hserves.strategy h]
  by_cases hid : (s.slots s.cursor).id = id
  · subst hid
    rw [if_pos rfl, if_pos hfind]
    unfold StrategyScheduler.pending
    rw [hfind]
    exact hserves.queue
  · have hother : s.findSlot id ≠ some s.cursor := by
      intro hf
      exact hid (findSlot_eq_some hf).2.2
    rw [if_neg hid, if_neg hother, List.nil_append]

/-- The registration of a slot, which no call changes once it is made. -/
def Registered (s : StrategyScheduler) (i : Nat) (id : UInt32) (quantum : Nat) : Prop :=
  i < s.maxStrategies ∧ (s.slots i).registered = true ∧ (s.slots i).id = id ∧
    (s.slots i).quantum = quantum

theorem Registered.setSlot {i j : Nat} {id : UInt32} {quantum : Nat} {slot : StrategySlot}
    (h : s.Registered i id quantum) (hreg : slot.registered = (s.slots j).registered)
    (hid : slot.id = (s.slots j).id) (hquantum : slot.quantum = (s.slots j).quantum) :
    (s.setSlot j slot).Registered i id quantum := by
  unfold Registered StrategyScheduler.setSlot
  by_cases hij : i = j
  · subst hij
    simp only [Function.update_self, hreg, hid, hquantum]
    exact h
  · simp only [Function.update_of_ne hij]
    exact h

theorem Moved.registered {t : StrategyScheduler} (h : Moved s t) {i : Nat} {id : UInt32}
    {quantum : Nat} : t.Registered i id quantum ↔ s.Registered i id quantum := by
  unfold Registered
  rw [h.slots, h.maxStrategies]

theorem Registered.serve {i : Nat} {id : UInt32} {quantum : Nat} (h : s.Registered i id quantum)
    (rest : List ArbitratedRequest) : (s.serve rest).Registered i id quantum := by
  rw [(moved_serve s rest).registered]
  exact h.setSlot rfl rfl rfl

theorem Inv.registered_step (h : s.Inv) {i : Nat} {id : UInt32} {quantum : Nat}
    (hi : s.Registered i id quantum) (c : Call) : (s.step c).Registered i id quantum := by
  cases c with
  | registerStrategy other weight =>
    simp only [StrategyScheduler.step]
    rcases s.registerStrategy_cases other weight with heq | ⟨j, _, hfree, _, _, heq⟩
    · rw [heq]
      exact hi
    · rw [heq]
      have hij : i ≠ j := by
        rintro rfl
        rw [hi.2.1] at hfree
        cases hfree
      unfold Registered StrategyScheduler.setSlot
      simp only [Function.update_of_ne hij]
      exact hi
  | enqueue other venue side request =>
    simp only [StrategyScheduler.step]
    rcases s.enqueue_cases other venue side request with heq | ⟨j, _, ⟨_, heq⟩ | ⟨_, heq⟩⟩
    · rw [heq]
      exact hi
    · rw [heq]
      exact hi.setSlot rfl rfl rfl
    · rw [heq]
      exact hi.setSlot rfl rfl rfl
  | next =>
    simp only [StrategyScheduler.step]
    rcases h.next_cases (P := fun _ => True) trivial (fun _ _ _ _ _ => trivial) with
      ⟨heq, _⟩ | ⟨t, out, rest, hmoved, _, _, _, _, heq⟩
    · rw [heq]
      exact hi
    · rw [heq]
      exact (hmoved.registered.mpr hi).serve rest

theorem Registered.pending (h : s.Inv) {i : Nat} {id : UInt32} {quantum : Nat}
    (hi : s.Registered i id quantum) : s.pending id = (s.slots i).queue := by
  obtain ⟨hlt, hreg, rfl, _⟩ := hi
  unfold StrategyScheduler.pending
  rw [h.findSlot_eq hlt hreg]

theorem Inv.pending_registerStrategy (h : s.Inv) (id other : UInt32) (quantum : Nat) :
    (s.registerStrategy other quantum).2.pending id = s.pending id := by
  have hkept := h.registerStrategy other quantum
  rcases s.registerStrategy_cases other quantum with heq | ⟨i, hi, hfree, _, hnew, heq⟩
  · rw [heq]
  · rw [heq] at hkept ⊢
    cases hf : s.findSlot id with
    | some j =>
      obtain ⟨hj, hreg, hid⟩ := findSlot_eq_some hf
      have hji : j ≠ i := by
        rintro rfl
        rw [hreg] at hfree
        cases hfree
      have hregistered : Registered s j id (s.slots j).quantum := ⟨hj, hreg, hid, rfl⟩
      have hafter := h.registered_step hregistered (.registerStrategy other quantum)
      simp only [StrategyScheduler.step, heq] at hafter
      rw [hafter.pending hkept, hregistered.pending h]
      simp [StrategyScheduler.setSlot, hji]
    | none =>
      have hempty : s.pending id = [] := by
        unfold StrategyScheduler.pending
        rw [hf]
      rw [hempty]
      unfold StrategyScheduler.pending
      split
      · rename_i j hj
        obtain ⟨hlt, hreg, hid⟩ := findSlot_eq_some hj
        by_cases hji : j = i
        · subst hji
          simp [StrategyScheduler.setSlot]
        · simp only [StrategyScheduler.setSlot, Function.update_of_ne hji] at hreg hid hlt
          exact absurd hid (findSlot_eq_none hf hlt hreg)
      · rfl

/-- The requests of one strategy. -/
def forStrategy (id : UInt32) (rs : List ArbitratedRequest) : List ArbitratedRequest :=
  rs.filter fun r => r.strategy == id

theorem forStrategy_append (id : UInt32) (rs us : List ArbitratedRequest) :
    forStrategy id (rs ++ us) = forStrategy id rs ++ forStrategy id us :=
  List.filter_append rs us

/-- One call keeps the balance of accepted, queued and returned requests. -/
theorem Inv.pending_step (h : s.Inv) (c : Call) (id : UInt32) :
    s.pending id ++ forStrategy id (s.accepts c).toList =
      forStrategy id (s.returns c).toList ++ (s.step c).pending id := by
  cases c with
  | registerStrategy other quantum =>
    simp only [accepts, returns, StrategyScheduler.step, h.pending_registerStrategy]
    simp [forStrategy]
  | enqueue other venue side request =>
    simp only [accepts, returns, StrategyScheduler.step]
    rcases s.enqueue_cases other venue side request with heq | ⟨i, hf, ⟨_, heq⟩ | ⟨_, heq⟩⟩
    · simp [heq, forStrategy]
    · rw [heq]
      rw [pending_setSlot]
      · by_cases hi : s.findSlot id = some i
        · simp [forStrategy, StrategyScheduler.pending, hi]
        · simp [forStrategy, hi]
      · rfl
      · rfl
    · rw [heq]
      rw [pending_setSlot]
      · by_cases hid : other = id
        · subst hid
          rw [if_pos hf]
          simp [forStrategy, StrategyScheduler.pending, hf]
        · have hother : s.findSlot id ≠ some i := by
            intro hi
            exact hid ((findSlot_eq_some hf).2.2.symm.trans (findSlot_eq_some hi).2.2)
          rw [if_neg hother]
          simp [forStrategy, hid]
      · rfl
      · rfl
  | next =>
    simp only [accepts, returns, StrategyScheduler.step]
    rcases h.next_cases (P := fun _ => True) trivial (fun _ _ _ _ _ => trivial) with
      ⟨heq, _⟩ | ⟨t, out, rest, hmoved, hcursor, _, hinv, hserves, heq⟩
    · rw [heq]
      simp [forStrategy]
    · rw [heq, ← hmoved.pending, hserves.pending hinv hcursor]
      by_cases hid : out.strategy = id
      · simp [forStrategy, hid]
      · simp [forStrategy, hid]

theorem Inv.pending_run (h : s.Inv) (calls : List Call) (id : UInt32) :
    s.pending id ++ forStrategy id (s.accepted calls) =
      forStrategy id (s.returned calls) ++ (Runs.run StrategyScheduler.step s calls).pending id := by
  induction calls generalizing s with
  | nil => simp [accepted, returned, forStrategy]
  | cons c calls ih =>
    have hhead := h.pending_step c id
    have htail := ih (h.step c)
    rw [accepted, returned, forStrategy_append, forStrategy_append, Runs.run_cons, List.append_assoc,
      ← htail, ← List.append_assoc, ← List.append_assoc, hhead]

end StrategyScheduler

end MicrostructureEngine
