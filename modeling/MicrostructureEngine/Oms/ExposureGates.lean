import MicrostructureEngine.Lib.Runs
import MicrostructureEngine.Oms.Venue

/-!
# New exposure and the gates in front of it

The session, the connection state and the kill switch are looked at when a request is made.
`drain_pending` executes parked requests without looking again, a replace is never held
against the kill switch, and a replace the venue has acknowledged is applied while the
connection is still reconciling. Apart from these no step creates an order or raises a
requested volume while new exposure is forbidden.
-/

namespace MicrostructureEngine

set_option autoImplicit false

theorem Risk.RiskEngine.standingApproval_of_halted {e : Risk.RiskEngine} (h : e.halted = true) :
    e.standingApproval = false := by
  unfold standingApproval check
  cases e.valid with
  | false => rfl
  | true => simp [h]

/-- Every order of `after` was there before, with at least the requested volume. -/
def Contained (before after : BrokerOrderRef → Option Order) : Prop :=
  ∀ ref y, after ref = some y → ∃ x, before ref = some x ∧ y.requestedVolume ≤ x.requestedVolume

namespace Contained
variable {m m' m'' : BrokerOrderRef → Option Order}

theorem refl (m : BrokerOrderRef → Option Order) : Contained m m :=
  fun _ y hy => ⟨y, hy, le_rfl⟩

theorem update (h : Contained m m') {ref : BrokerOrderRef} {y : Option Order}
    (hy : ∀ z, y = some z → ∃ x, m ref = some x ∧ z.requestedVolume ≤ x.requestedVolume) :
    Contained m (Function.update m' ref y) := by
  intro other z hz
  by_cases hother : other = ref
  · subst hother
    rw [Function.update_self] at hz
    exact hy z hz
  · rw [Function.update_of_ne hother] at hz
    exact h other z hz

end Contained

namespace VenueConnection

inductive Event where
  | routeCreate (full : Bool) (ref : BrokerOrderRef) (symbol : Nat) (volume : Int) (nowNs : Nat)
      (out : Completion)
  | routeCancel (full : Bool) (ref : BrokerOrderRef) (nowNs : Nat) (out : Completion)
  | routeReplace (full : Bool) (ref : BrokerOrderRef) (newPrice newVolume : Int) (nowNs : Nat)
      (out : Completion)
  | drainPending (full : Nat → Bool) (nowNs maxN : Nat)
  | setSession (session : SessionConstraints)
  | disconnect
  | beginRecovery
  | runReconciliation (input : ReconciliationInput)
  | haltGlobally (reason : Risk.HaltReason)

def step (c : VenueConnection) : Event → VenueConnection
  | .routeCreate full ref symbol volume nowNs out =>
    (c.routeCreate full ref symbol volume nowNs out).2.2
  | .routeCancel full ref nowNs out => (c.routeCancel full ref nowNs out).2.2
  | .routeReplace full ref newPrice newVolume nowNs out =>
    (c.routeReplace full ref newPrice newVolume nowNs out).2.2
  | .drainPending full nowNs maxN => (drainPending nowNs full maxN c).2
  | .setSession session => c.setSession session
  | .disconnect => c.disconnect
  | .beginRecovery => c.beginRecovery.2
  | .runReconciliation input => (c.runReconciliation input).2
  | .haltGlobally reason => { c with oms := c.oms.haltGlobally reason }

/-- New exposure is forbidden by the connection, the session or the kill switch. -/
def Forbidden (c : VenueConnection) : Prop :=
  c.connectionAllowsNewExposure = false ∨ c.session.allowsNewExposure = false ∨
    c.oms.engine.halted = true

instance (c : VenueConnection) : Decidable c.Forbidden := inferInstanceAs (Decidable (_ ∨ _ ∨ _))

/-- No order is created and no requested volume raised while that is forbidden. -/
def Gated (c : VenueConnection) (e : Event) : Prop :=
  c.Forbidden → Contained c.oms.order (c.step e).oms.order

/-- A replace to this volume does not raise the order it is for. -/
def NotRaising (oms : ShardedOms) (ref : BrokerOrderRef) (volume : Int) : Prop :=
  ∀ x, oms.order ref = some x → volume ≤ x.requestedVolume

/-- A parked request that adds no exposure when it is executed. -/
def Harmless (oms : ShardedOms) (req : PendingRequest) : Prop :=
  match req.kind with
  | .order => oms.engine.standingApproval = false ∨ oms.order req.ref ≠ none
  | .cancel => True
  | .replace => NotRaising oms req.ref req.volume

/-- The steps that no gate covers add nothing. -/
def Respects (c : VenueConnection) : Event → Prop
  | .routeReplace _ ref _ newVolume _ _ =>
    c.oms.engine.halted = true → NotRaising c.oms ref newVolume
  | .drainPending _ nowNs maxN =>
    c.Forbidden → ∀ req ∈ c.limiter.drains nowNs maxN, Harmless c.oms req
  | .runReconciliation input =>
    c.state = .reconciling → ∀ report ∈ input.reports, ∀ r ∈ report :: c.oms.held report.ref,
      r.kind = .replaceAck → NotRaising c.oms r.ref r.volume
  | _ => True

end VenueConnection

section Orders
variable {before : BrokerOrderRef → Option Order} {s : ShardedOms} {full : Bool}
  {ref : BrokerOrderRef} {out : Completion}

theorem Contained.submitTransition (h : Contained before s.order) {target : OrderState}
    (htarget : target.isTerminal = false) :
    Contained before (s.submitTransition full ref target out).2.2.order := by
  rcases s.submitTransition_cases full ref out htarget with ⟨_, x, hx, _, horder, _⟩ | ⟨_, horder⟩
  · rw [horder]
    refine h.update ?_
    rintro z hz
    obtain rfl := Option.some.inj hz
    exact h ref x hx
  · rw [horder]
    exact h

theorem Contained.submitReplace (h : Contained before s.order) {newPrice newVolume : Int}
    (hnot : ∀ x, before ref = some x → newVolume ≤ x.requestedVolume) :
    Contained before (s.submitReplace full ref newPrice newVolume out).2.2.order := by
  rcases s.submitReplace_cases full ref out newPrice newVolume with
    ⟨_, x, hx, _, horder, _⟩ | ⟨_, _, horder⟩
  · rw [horder]
    refine h.update ?_
    rintro z hz
    obtain rfl := Option.some.inj hz
    obtain ⟨w, hw, _⟩ := h ref x hx
    exact ⟨w, hw, hnot w hw⟩
  · rw [horder]
    exact h

theorem Contained.submitCreate (h : Contained before s.order) {symbol : Nat} {volume : Int}
    (hrefused : s.engine.standingApproval = false ∨ s.order ref ≠ none) :
    Contained before (s.submitCreate full ref symbol volume out).2.2.order := by
  rcases s.submitCreate_cases full ref out symbol volume with
    ⟨_, _, happroved, hnone, _⟩ | ⟨_, _, horder⟩
  · rcases hrefused with hhalt | hlive
    · rw [hhalt] at happroved
      cases happroved
    · exact absurd hnone hlive
  · rw [horder]
    exact h

end Orders

/-! ## Parked requests -/

/-- `o` has grown out of `start` without new exposure, and no order has ended. -/
structure Shrunk (start o : ShardedOms) : Prop where
  contained : Contained start.order o.order
  live : ∀ ref, start.order ref ≠ none → o.order ref ≠ none
  engine : o.engine = start.engine

namespace VenueConnection
variable {start : ShardedOms} {c : VenueConnection}

theorem execute_contained (h : Shrunk start c.oms) (full : Bool) {req : PendingRequest}
    (hreq : Harmless start req) : Contained start.order (c.execute full req).oms.order := by
  unfold Harmless at hreq
  unfold execute
  cases hkind : req.kind with
  | order =>
    simp only [hkind] at hreq ⊢
    refine h.contained.submitCreate ?_
    rw [h.engine]
    exact hreq.imp_right (h.live req.ref)
  | cancel =>
    dsimp only
    exact h.contained.submitTransition rfl
  | replace =>
    simp only [hkind] at hreq ⊢
    exact h.contained.submitReplace hreq

theorem execute_shrunk (h : Shrunk start c.oms) (full : Bool) {req : PendingRequest}
    (hreq : Harmless start req) : Shrunk start (c.execute full req).oms where
  contained := execute_contained h full hreq
  live := fun ref hlive => execute_live c full req (h.live ref hlive)
  engine := (execute_engine c full req).trans h.engine

/-- Every released request is held against the system the drain began with. -/
theorem drainPending_shrunk {nowNs n : Nat} {full : Nat → Bool} (h : Shrunk start c.oms)
    (hall : ∀ req ∈ c.limiter.drains nowNs n, Harmless start req) :
    Shrunk start (drainPending nowNs full n c).2.oms :=
  drainPending_invariant (fun _ full _ hc hreq => execute_shrunk hc full hreq) h hall

end VenueConnection

/-! ## Reconciliation -/

/-- A report that raises no order of `m`. -/
def Quiet (m : BrokerOrderRef → Option Order) (r : ExecReport) : Prop :=
  r.kind = .replaceAck → ∀ x, m r.ref = some x → r.volume ≤ x.requestedVolume

theorem Contained.submitReport {before : BrokerOrderRef → Option Order} {s : ShardedOms}
    (h : Contained before s.order) (full : Bool) {report : ExecReport} (out : Completion)
    (hquiet : ∀ r ∈ report :: s.held report.ref, Quiet before r) :
    Contained before (s.submitReport full report out).2.2.order := by
  rcases s.submitReport_cases full out report with
    ⟨_, _, _, hsame⟩ | ⟨_, _, _, _, ⟨_, horder, _⟩ | ⟨x, hx, _, _, horder, _⟩⟩
  · rw [hsame]
    exact h
  · rw [horder]
    exact h
  · rw [horder]
    refine h.update ?_
    intro z hz
    obtain ⟨w, hw, hle⟩ := h report.ref x hx
    have href : x.ref = report.ref := Oms.find_ref _ hx
    -- Through the cascade the order keeps its reference and stays within its first volume.
    have hend : z.ref = report.ref ∧ z.requestedVolume ≤ w.requestedVolume := by
      refine arrive_invariant (P := fun o => o.ref = report.ref ∧ o.requestedVolume ≤ w.requestedVolume)
        ⟨href, hle⟩ href.symm ?_ hz
      rintro r hr y y' ⟨hyref, hyle⟩ hry _ hy'
      refine ⟨(Verdict.applyOne_keeps y r y' hy').trans hyref, ?_⟩
      rcases Verdict.applyOne_volumes hy' with ⟨_, hsame⟩ | ⟨_, _, _, hsame⟩ | ⟨_, hkind, _, _, hvolume⟩
      · rw [hsame]
        exact hyle
      · rw [hsame]
        exact hyle
      · have hw' : before r.ref = some w := by rw [hry, hyref, hw]
        rw [hvolume]
        exact hquiet r hr hkind w hw'
    exact ⟨w, hw, hend.2⟩

/-- What the shards may come to hold while the missed reports are replayed is the reports
themselves, or was held before. -/
theorem submitReport_quiet {m : BrokerOrderRef → Option Order} {s : ShardedOms} (full : Bool)
    {report : ExecReport} {out : Completion} {ref : BrokerOrderRef} (hreport : Quiet m report)
    (hheld : ∀ r ∈ s.held ref, Quiet m r) :
    ∀ r ∈ (s.submitReport full report out).2.2.held ref, Quiet m r := by
  intro r hr
  rcases s.submitReport_cases full out report with ⟨_, _, _, hsame⟩ | ⟨_, _, _, hgrows, _⟩
  · rw [hsame] at hr
    exact hheld r hr
  · rcases hgrows ref r hr with rfl | hold
    · exact hreport
    · exact hheld r hold

namespace VenueConnection

theorem replayReports_contained {before : BrokerOrderRef → Option Order} {reports : List ExecReport}
    {full : Nat → Bool} {s : ShardedOms} {outcome : ReconciliationOutcome}
    (h : Contained before s.order)
    (hquiet : ∀ report ∈ reports, Quiet before report)
    (hheld : ∀ report ∈ reports, ∀ r ∈ s.held report.ref, Quiet before r) :
    Contained before (replayReports full reports s outcome).1.order := by
  induction reports generalizing full s outcome with
  | nil => exact h
  | cons report reports ih =>
    have hreport := hquiet report List.mem_cons_self
    refine ih (h.submitReport (full 0) {} ?_) ?_ ?_
    · intro r hr
      rcases List.mem_cons.mp hr with rfl | hr
      · exact hreport
      · exact hheld report List.mem_cons_self r hr
    · exact fun other hother => hquiet other (List.mem_cons_of_mem _ hother)
    · intro other hother
      exact submitReport_quiet (full 0) hreport (hheld other (List.mem_cons_of_mem _ hother))

theorem collectLocal_order {snapshotCapacity localCapacity : Nat} {full : Nat → Bool}
    {shards : List Nat} {s : ShardedOms} {locals : List OrderSnapshot} :
    (collectLocal snapshotCapacity localCapacity full shards s locals).1.order = s.order := by
  induction shards generalizing full s locals with
  | nil => rfl
  | cons shard shards ih =>
    unfold collectLocal
    dsimp only
    rw [ih]
    exact (s.submitSnapshot_same (full 0) {} shard snapshotCapacity).1

theorem runReconciliation_order (c : VenueConnection) (input : ReconciliationInput) :
    (c.runReconciliation input).2.oms.order =
      if c.state ≠ .reconciling then c.oms.order
      else (replayReports input.full input.reports c.oms {}).1.order := by
  unfold runReconciliation
  split
  · rfl
  · exact collectLocal_order

/-! ## Every step, every run -/

variable {c : VenueConnection}

theorem routeCreate_gated (full : Bool) (ref : BrokerOrderRef) (symbol : Nat) (volume : Int)
    (nowNs : Nat) (out : Completion) : c.Gated (.routeCreate full ref symbol volume nowNs out) := by
  intro hforbidden
  show Contained _ (c.routeCreate full ref symbol volume nowNs out).2.2.oms.order
  rcases c.routeCreate_cases full ref nowNs out symbol volume with
    ⟨_, _, homs⟩ | ⟨hsession, hconnection, _, _, homs⟩
  · rw [homs]
    exact .refl _
  · rw [homs]
    refine Contained.submitCreate (.refl _) (.inl ?_)
    rcases hforbidden with hstate | hclosed | hhalted
    · rw [hconnection] at hstate
      cases hstate
    · rw [hsession] at hclosed
      cases hclosed
    · exact Risk.RiskEngine.standingApproval_of_halted hhalted

theorem routeCancel_gated (full : Bool) (ref : BrokerOrderRef) (nowNs : Nat) (out : Completion) :
    c.Gated (.routeCancel full ref nowNs out) := by
  intro _
  show Contained _ (c.routeCancel full ref nowNs out).2.2.oms.order
  rcases c.routeCancel_cases full ref nowNs out with ⟨_, _, homs⟩ | ⟨_, _, homs⟩
  · rw [homs]
    exact .refl _
  · rw [homs]
    exact Contained.submitTransition (.refl _) rfl

theorem routeReplace_gated (full : Bool) (ref : BrokerOrderRef) (newPrice newVolume : Int)
    (nowNs : Nat) (out : Completion)
    (hrespects : c.Respects (.routeReplace full ref newPrice newVolume nowNs out)) :
    c.Gated (.routeReplace full ref newPrice newVolume nowNs out) := by
  intro hforbidden
  show Contained _ (c.routeReplace full ref newPrice newVolume nowNs out).2.2.oms.order
  rcases c.routeReplace_cases full ref nowNs out newPrice newVolume with
    ⟨_, _, homs⟩ | ⟨hsession, hconnection, _, _, homs⟩
  · rw [homs]
    exact .refl _
  · rw [homs]
    rcases hforbidden with hstate | hclosed | hhalted
    · rw [hconnection] at hstate
      cases hstate
    · rw [hsession] at hclosed
      cases hclosed
    · exact Contained.submitReplace (.refl _) (hrespects hhalted)

theorem drainPending_gated (full : Nat → Bool) (nowNs maxN : Nat)
    (hrespects : c.Respects (.drainPending full nowNs maxN)) :
    c.Gated (.drainPending full nowNs maxN) := by
  intro hforbidden
  have hstart : Shrunk c.oms c.oms := ⟨.refl _, fun _ h => h, rfl⟩
  exact (drainPending_shrunk hstart (hrespects hforbidden)).contained

theorem runReconciliation_gated (input : ReconciliationInput)
    (hrespects : c.Respects (.runReconciliation input)) : c.Gated (.runReconciliation input) := by
  intro _
  show Contained _ (c.runReconciliation input).2.oms.order
  rw [runReconciliation_order]
  split
  · exact .refl _
  · rename_i hstate
    have hquiet := hrespects (not_not.mp hstate)
    refine replayReports_contained (.refl _) ?_ ?_
    · exact fun report hreport => hquiet report hreport report List.mem_cons_self
    · exact fun report hreport r hr => hquiet report hreport r (List.mem_cons_of_mem _ hr)

theorem step_gated (c : VenueConnection) (e : Event) (hrespects : c.Respects e) : c.Gated e := by
  cases e with
  | routeCreate full ref symbol volume nowNs out => exact routeCreate_gated _ _ _ _ _ _
  | routeCancel full ref nowNs out => exact routeCancel_gated _ _ _ _
  | routeReplace full ref newPrice newVolume nowNs out =>
    exact routeReplace_gated _ _ _ _ _ _ hrespects
  | drainPending full nowNs maxN => exact drainPending_gated _ _ _ hrespects
  | runReconciliation input => exact runReconciliation_gated _ hrespects
  | beginRecovery =>
    intro _
    show Contained _ c.beginRecovery.2.oms.order
    unfold beginRecovery
    split <;> exact .refl _
  | setSession session => exact fun _ => .refl _
  | disconnect => exact fun _ => .refl _
  | haltGlobally reason => exact fun _ => .refl _

/-- In a run in which every drain, every replace after the halt and every reconciliation adds
nothing of its own, no step creates an order or raises one while new exposure is forbidden. -/
theorem no_new_exposure_while_forbidden (c : VenueConnection) (events : List Event)
    (h : Runs.Along step Respects c events) : Runs.Along step Gated c events :=
  h.imp step_gated

/-- A venue that takes one order and one cancel a second and parks what comes on top. -/
def throttled : VenueConnection :=
  ({ id := 1, oms := .new 1 Nat.one_pos 4 4 4 4 } : VenueConnection).configureRateLimit
    { ordersPerSec := 1, burstCapacity := 1, cancelsPerSec := 1, cancelBurstCapacity := 1,
      policy := .defer, pendingQueueCapacity := 4 } 0

/-- Two cancels, the second of them parked, drained after the venue is lost. -/
def cancelLater : List Event :=
  [.routeCreate false ⟨1, 1⟩ 0 10 0 {}, .routeCancel false ⟨1, 1⟩ 0 {},
    .routeCancel false ⟨1, 1⟩ 0 {}, .disconnect, .drainPending (fun _ => false) 1000000000 4]

theorem no_new_exposure_cancelled_later :
    Runs.Along step Respects throttled cancelLater ∧ Runs.Along step Gated throttled cancelLater := by
  have hdrains : (Runs.run step throttled (cancelLater.take 4)).limiter.drains 1000000000 4 =
      [{ kind := .cancel, ref := ⟨1, 1⟩ }] := by decide +kernel
  have hrespects : Runs.Along step Respects throttled cancelLater := by
    refine ⟨trivial, trivial, trivial, trivial, ?_, trivial⟩
    intro _ req hreq
    have hreq' : req ∈ (Runs.run step throttled (cancelLater.take 4)).limiter.drains 1000000000 4 := hreq
    rw [hdrains, List.mem_singleton] at hreq'
    subst hreq'
    trivial
  exact ⟨hrespects, no_new_exposure_while_forbidden throttled cancelLater hrespects⟩

/-- The second create is parked, the venue is lost, and the drain creates the order. -/
def createLater : List Event :=
  [.routeCreate false ⟨1, 1⟩ 0 10 0 {}, .routeCreate false ⟨1, 2⟩ 0 5 0 {}, .disconnect,
    .drainPending (fun _ => false) 1000000000 1]

/-- A replace that doubles an order after the kill switch. -/
def replaceHalted : List Event :=
  [.routeCreate false ⟨1, 1⟩ 0 10 0 {}, .haltGlobally .manualKill,
    .routeReplace false ⟨1, 1⟩ 0 20 0 {}]

theorem exposure_added_while_forbidden :
    ¬ Runs.Along step Gated throttled createLater ∧ ¬ Runs.Along step Gated throttled replaceHalted := by
  refine ⟨?_, ?_⟩
  · rintro ⟨_, _, _, hdrain, _⟩
    have hafter : ((Runs.run step throttled createLater).oms.order ⟨1, 2⟩).isSome = true := by
      decide +kernel
    have hbefore : (Runs.run step throttled (createLater.take 3)).oms.order ⟨1, 2⟩ = none := by
      decide +kernel
    have hforbidden : (Runs.run step throttled (createLater.take 3)).Forbidden := .inl (by decide +kernel)
    obtain ⟨y, hy⟩ := Option.isSome_iff_exists.mp hafter
    obtain ⟨x, hx, _⟩ := hdrain hforbidden ⟨1, 2⟩ y hy
    exact nomatch hbefore.symm.trans hx
  · rintro ⟨_, _, hreplace, _⟩
    have hafter : ((Runs.run step throttled replaceHalted).oms.order ⟨1, 1⟩).map
        Order.requestedVolume = some 20 := by decide +kernel
    have hbefore : ((Runs.run step throttled (replaceHalted.take 2)).oms.order ⟨1, 1⟩).map
        Order.requestedVolume = some 10 := by decide +kernel
    have hforbidden : (Runs.run step throttled (replaceHalted.take 2)).Forbidden :=
      .inr (.inr (by decide +kernel))
    obtain ⟨y, hy, hy20⟩ := Option.map_eq_some_iff.mp hafter
    obtain ⟨x, hx, hle⟩ := hreplace hforbidden ⟨1, 1⟩ y hy
    obtain ⟨x', hx', hx10⟩ := Option.map_eq_some_iff.mp hbefore
    obtain rfl := Option.some.inj (hx.symm.trans hx')
    omega

end VenueConnection

end MicrostructureEngine
