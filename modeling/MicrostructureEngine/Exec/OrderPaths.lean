import MicrostructureEngine.Exec.OrderSlots
import Mathlib.Data.List.Chain

/-!
# Orders and the state machine

The broker sets order states without consulting the transition relation. Acknowledgement,
rejection and fills stay inside it. Two of its moves do not: a cancel while the order is still
in flight, and an expiry of an order that is not `acknowledged`. A run without these moves takes
every accepted order along a path of the state machine, and a run with one of them does not.
-/

namespace MicrostructureEngine.Exec

set_option autoImplicit false

open Books PaperBroker

/-- A path of the state machine from `pending_send`, which is terminal at most once. -/
structure LawfulPath (path : List OrderState) : Prop where
  start : path.head? = some .pendingSend
  legal : path.IsChain fun s t => legal s t = true
  once : (path.filter OrderState.isTerminal).length ≤ 1

theorem legal_of_terminal {s t : OrderState} (h : s.isTerminal = true) : legal s t = false := by
  cases s with
  | riskRejected | filled | cancelled | rejected | expired => rfl
  | _ => cases h

/-- No legal step leaves a terminal state, so a legal path has at most one. -/
theorem terminal_once {path : List OrderState} (h : path.IsChain fun s t => legal s t = true) :
    (path.filter OrderState.isTerminal).length ≤ 1 := by
  induction path with
  | nil => exact Nat.zero_le _
  | cons s path ih =>
    cases hs : s.isTerminal with
    | false =>
      rw [List.filter_cons_of_neg (by simp [hs])]
      exact ih h.tail
    | true =>
      cases path with
      | nil => simp [hs]
      | cons t path =>
        have hst := (List.isChain_cons_cons.mp h).1
        rw [legal_of_terminal hs] at hst
        cases hst

theorem isChain_extend {path : List OrderState} {s t : OrderState} (hlast : path.getLast? = some s) :
    (path ++ [t]).IsChain (fun s t => legal s t = true) ↔
      path.IsChain (fun s t => legal s t = true) ∧ legal s t = true := by
  rw [List.isChain_append, hlast]
  simp

/-- Where an order stands between two operations: on a lawful path that ends in its state. -/
structure OnPath (x : OrderSlot) : Prop where
  legal : x.path.IsChain fun s t => legal s t = true
  last : x.path.getLast? = some x.order.state
  phase : x.order.state.isTerminal = true ∨ x.order.state = .sent ∨ x.order.state = .acknowledged ∨
    x.order.state = .partiallyFilled

theorem OnPath.lawful {x : OrderSlot} (h : OnPath x) (hx : isAccepted x = true) :
    LawfulPath x.path :=
  ⟨beq_iff_eq.mp hx, h.legal, terminal_once h.legal⟩

namespace Books

theorem onPath_finished {x : OrderSlot} (h : OnPath x) {terminal : OrderState} (nowNs : Nat)
    (hlegal : MicrostructureEngine.legal x.order.state terminal = true)
    (ht : terminal.isTerminal = true) : OnPath (finished x terminal nowNs) :=
  ⟨(isChain_extend h.last).mpr ⟨h.legal, hlegal⟩, List.getLast?_concat, Or.inl ht⟩

theorem onPath_movedTo {x : OrderSlot} (h : OnPath x) {next : OrderState}
    (hlegal : MicrostructureEngine.legal x.order.state next = true)
    (hnext : next = .acknowledged ∨ next = .partiallyFilled) : OnPath (movedTo x next) :=
  ⟨(isChain_extend h.last).mpr ⟨h.legal, hlegal⟩, List.getLast?_concat, Or.inr (Or.inr hnext)⟩

/-- A move that the state machine does not have breaks the path for good. -/
theorem not_lawful_extend {x : OrderSlot} (h : OnPath x) {next : OrderState}
    {rest : List OrderState} (hillegal : MicrostructureEngine.legal x.order.state next = false) :
    ¬ LawfulPath (x.path ++ next :: rest) := by
  intro hpath
  have hprefix : (x.path ++ [next]).IsChain fun s t => MicrostructureEngine.legal s t = true := by
    have hchain := hpath.legal
    rw [List.append_cons] at hchain
    exact hchain.left_of_append
  rw [isChain_extend h.last, hillegal] at hprefix
  cases hprefix.2

theorem onPath_applyFill {b : Books} {x : OrderSlot} (h : OnPath x) (price volume : Int) (nowNs : Nat)
    (hstate : x.order.state = .acknowledged ∨ x.order.state = .partiallyFilled) :
    OnPath (b.applyFill x price volume nowNs).2 := by
  have hslot := bookFill_slot b x price volume nowNs
  have hcases := applyFill_cases b x price volume nowNs rfl
  generalize b.bookFill x price volume nowNs = p at hslot hcases
  have hp : OnPath p.2 := by
    rw [hslot]
    exact ⟨h.legal, h.last, h.phase⟩
  have hstate' : p.2.order.state = .acknowledged ∨ p.2.order.state = .partiallyFilled := by
    rw [hslot]
    exact hstate
  rcases hcases with ⟨-, heq⟩ | ⟨-, hne, heq⟩ | ⟨-, -, heq⟩
  · rw [heq]
    apply onPath_finished hp nowNs
    · rcases hstate' with hs | hs <;> rw [hs] <;> rfl
    · rfl
  · rw [heq]
    apply onPath_movedTo hp
    · rw [hstate'.resolve_right hne]
      rfl
    · exact Or.inr rfl
  · rw [heq]
    exact hp

theorem Ready.onPath {b : Books} {x : OrderSlot} {nowNs : Nat} {c : Books × OrderSlot}
    (hready : Ready b x nowNs c) (h : OnPath x) : OnPath c.2 := by
  cases hready with
  | standing => exact h
  | acknowledged sent =>
    apply onPath_movedTo h
    · rw [sent]
      rfl
    · exact Or.inl rfl

/-- One turn of the loop keeps an order on its path, if it expires from `acknowledged` only. -/
theorem onPath_processSlot {b : Books} {x : OrderSlot} {nowNs : Nat} (h : OnPath x)
    (hexpiry : x.order.state.isTerminal = false → expiryDue x.order nowNs = true →
      x.order.state = .acknowledged) : OnPath (b.processSlot x nowNs).2 := by
  have hp := processed b x nowNs
  generalize b.processSlot x nowNs = r at hp ⊢
  cases hp with
  | idle => exact h
  | expired live due =>
    apply onPath_finished h nowNs
    · rw [hexpiry live due]
      rfl
    · rfl
  | rejected sent =>
    apply onPath_finished h nowNs
    · rw [sent]
      rfl
    · rfl
  | ready hready => exact hready.onPath h
  | halted hready => exact hready.onPath h
  | filled hready price volume fill =>
    exact onPath_applyFill (hready.onPath h) price volume nowNs fill.state

/-- A due order expires, whatever the books are by then. -/
theorem processSlot_of_due {x : OrderSlot} {nowNs : Nat} (hlive : x.order.state.isTerminal = false)
    (hdue : expiryDue x.order nowNs = true) (b : Books) :
    (b.processSlot x nowNs).2 = finished x .expired nowNs := by
  unfold processSlot
  rw [if_neg (by simp [hlive]), if_pos hdue]
  rfl

/-- The slots after the loop, one by one: each was processed in some state of the books. -/
theorem processSlots_forall₂ (b : Books) (nowNs : Nat) (xs : List OrderSlot) :
    List.Forall₂ (fun x y => ∃ c : Books, y = (c.processSlot x nowNs).2) xs
      (b.processSlots nowNs xs).2 := by
  induction xs generalizing b with
  | nil => exact List.Forall₂.nil
  | cons x xs ih => exact List.Forall₂.cons ⟨b, rfl⟩ (ih _)

end Books

namespace PaperBroker

/-- No accepted order is due to expire in another state than `acknowledged`, and none is
cancelled while it is `sent`. -/
def MovesLegally (b : PaperBroker) : Action → Prop
  | .onQuote symbolId _ _ _ _ tsNs =>
    symbolId < maxSymbols → b.books.halted = false → ∀ x ∈ b.slots, isWorking x = true →
      expiryDue x.order tsNs = true → x.order.state = .acknowledged
  | .cancel ref _ =>
    ∀ s, b.findLive ref = some s → isAccepted s.2 = true → s.2.order.state ≠ .sent
  | _ => True

/-- Every accepted order has gone along a path of the state machine. -/
def PathsLawful (b : PaperBroker) : Prop :=
  ∀ x ∈ b.slots, isAccepted x = true → LawfulPath x.path ∧ x.path.getLast? = some x.order.state

/-- The invariant behind it: orphans have no path to speak of. -/
def SlotOnPath (x : OrderSlot) : Prop := Orphan x ∨ isAccepted x = true ∧ OnPath x

def PathsKept (b : PaperBroker) : Prop := ∀ x ∈ b.slots, SlotOnPath x

theorem PathsKept.lawful {b : PaperBroker} (h : PathsKept b) : PathsLawful b := by
  intro x hx haccepted
  rcases h x hx with horphan | ⟨-, hpath⟩
  · rw [horphan.notAccepted] at haccepted
    cases haccepted
  · exact ⟨hpath.lawful haccepted, hpath.last⟩

theorem onPath_queue {x y : OrderSlot} (hq : SameButQueue x y) (h : OnPath x) : OnPath y := by
  rw [hq]
  exact ⟨h.legal, h.last, h.phase⟩

theorem slotOnPath_queue {x y : OrderSlot} (hq : SameButQueue x y) (h : SlotOnPath x) :
    SlotOnPath y := by
  rcases h with horphan | ⟨haccepted, hpath⟩
  · exact Or.inl (horphan.queue hq)
  · exact Or.inr ⟨hq.sameTerms.accepted haccepted, onPath_queue hq hpath⟩

theorem slotOnPath_processSlot {b : Books} {x : OrderSlot} {nowNs : Nat} (h : SlotOnPath x)
    (hexpiry : isWorking x = true → expiryDue x.order nowNs = true → x.order.state = .acknowledged) :
    SlotOnPath (b.processSlot x nowNs).2 := by
  rcases h with horphan | ⟨haccepted, hpath⟩
  · rw [horphan.processSlot]
    exact Or.inl horphan
  · refine Or.inr ⟨(sameTerms_processSlot b x nowNs).accepted haccepted, ?_⟩
    apply onPath_processSlot hpath
    intro hlive
    apply hexpiry
    simp [isWorking, haccepted, hlive]

/-- The slots of a quote, queue credit and processing together. -/
theorem onQuote_forall₂ {b : PaperBroker} {symbolId : Nat} (hsymbol : symbolId < maxSymbols)
    (hrunning : b.books.halted = false) (bid ask bidSize askSize : Int) (tsNs : Nat) :
    List.Forall₂ (fun x y => ∃ z, SameButQueue x z ∧ ∃ c : Books, y = (c.processSlot z tsNs).2)
      b.slots (b.onQuote symbolId bid ask bidSize askSize tsNs).slots := by
  have hqueue := creditQueue_forall₂ b.books symbolId (b.books.market symbolId) bid ask bidSize askSize
    b.slots
  have hquoted : (b.quoted symbolId bid ask bidSize askSize tsNs).books.halted = false := hrunning
  rw [onQuote_eq hsymbol]
  unfold process
  rw [hquoted]
  exact SlotTable.forall₂_comp hqueue (processSlots_forall₂ _ tsNs _)

theorem path_of_due {x : OrderSlot} {b : Books} {z : OrderSlot} (hq : SameButQueue x z) {tsNs : Nat}
    (hlive : x.order.state.isTerminal = false) (hdue : expiryDue x.order tsNs = true) :
    (b.processSlot z tsNs).2.path = x.path ++ [.expired] := by
  have hlive' : z.order.state.isTerminal = false := by
    rw [hq]
    exact hlive
  have hdue' : expiryDue z.order tsNs = true := by
    rw [hq]
    exact hdue
  rw [processSlot_of_due hlive' hdue']
  rw [hq]
  rfl

/-- The quote keeps every order on its path exactly when no order is due in a wrong state. -/
theorem PathsKept.onQuote {b : PaperBroker} (h : PathsKept b) (symbolId : Nat)
    (bid ask bidSize askSize : Int) (tsNs : Nat)
    (hlegal : b.MovesLegally (.onQuote symbolId bid ask bidSize askSize tsNs)) :
    PathsKept (b.onQuote symbolId bid ask bidSize askSize tsNs) := by
  by_cases hsymbol : symbolId < maxSymbols
  · cases hhalted : b.books.halted with
    | true =>
      rw [onQuote_eq hsymbol]
      have hquoted : (b.quoted symbolId bid ask bidSize askSize tsNs).books.halted = true := hhalted
      have hslots : ∀ x ∈ (b.quoted symbolId bid ask bidSize askSize tsNs).slots, SlotOnPath x :=
        SlotTable.forall_of_forall₂ (P := SlotOnPath) (fun _ _ => slotOnPath_queue)
          (creditQueue_forall₂ _ _ _ _ _ _ _ _) h
      unfold process
      rw [if_pos hquoted]
      exact hslots
    | false =>
      have hexpiry := hlegal hsymbol hhalted
      have hall : ∀ x ∈ b.slots, SlotOnPath x ∧
          (isWorking x = true → expiryDue x.order tsNs = true → x.order.state = .acknowledged) :=
        fun x hx => ⟨h x hx, hexpiry x hx⟩
      refine SlotTable.forall_of_forall₂ ?_ (onQuote_forall₂ hsymbol hhalted bid ask bidSize askSize tsNs)
        hall
      rintro x y ⟨z, hq, c, rfl⟩ ⟨hx, hdue⟩
      apply slotOnPath_processSlot (slotOnPath_queue hq hx)
      rw [hq]
      exact hdue
  · rw [onQuote_of_unknown hsymbol]
    exact h

theorem PathsKept.submit {b : PaperBroker} (h : PathsKept b) (q : OrderRequest) (nowNs : Nat) :
    PathsKept (b.submit q nowNs).2 := by
  rcases submit_cases b q nowNs with ⟨reason, -, heq⟩ | ⟨-, -, heq⟩ | ⟨s, reason, -, halloc, -, heq⟩ |
    ⟨s, -, halloc, -, heq⟩
  · rw [heq]
    exact h
  · rw [heq]
    exact h
  · rw [heq]
    exact (forall_allocate halloc h (Or.inl orphan_default)).1
  · rw [heq]
    refine (forall_allocate halloc h (Or.inl orphan_default)).2 _ (Or.inr ⟨rfl, ?_⟩)
    exact ⟨List.isChain_pair.mpr rfl, rfl, Or.inr (Or.inl rfl)⟩

theorem path_cancelled (b : Books) (ref : BrokerOrderRef) (x : OrderSlot) (nowNs : Nat) :
    (cancelled b ref x nowNs).2.path = x.path ++ [.cancelPending, .cancelled] := by
  have hpath : (cancelled b ref x nowNs).2.path = (x.path ++ [.cancelPending]) ++ [.cancelled] := rfl
  rw [hpath, List.append_assoc]
  rfl

theorem slotOnPath_cancelled {b : Books} {ref : BrokerOrderRef} {x : OrderSlot} (nowNs : Nat)
    (h : SlotOnPath x) (hlive : x.order.state.isTerminal = false)
    (hsent : isAccepted x = true → x.order.state ≠ .sent) :
    SlotOnPath (cancelled b ref x nowNs).2 := by
  rcases h with horphan | ⟨haccepted, hpath⟩
  · left
    have hok : SlotOk 0 (cancelled b ref x nowNs).2 := slotOk_cancelled (SlotOk.orphan horphan) b ref nowNs
    cases hok with
    | orphan ho => exact ho
    | accepted ha =>
      exfalso
      have hn := horphan.notAccepted
      unfold isAccepted at ha hn
      rw [path_cancelled] at ha
      cases hp : x.path with
      | nil =>
        rw [hp] at ha
        cases ha
      | cons s p =>
        rw [hp] at ha hn
        exact absurd ha (by simpa using hn)
  · refine Or.inr ⟨(sameTerms_cancelled b ref x nowNs).accepted haccepted, ?_⟩
    have hlegal : legal x.order.state .cancelPending = true := by
      rcases hpath.phase with ht | hs | hs | hs
      · rw [hlive] at ht
        cases ht
      · exact absurd hs (hsent haccepted)
      · rw [hs]
        rfl
      · rw [hs]
        rfl
    have hpending : (x.path ++ [OrderState.cancelPending]).IsChain fun s t => legal s t = true :=
      (isChain_extend hpath.last).mpr ⟨hpath.legal, hlegal⟩
    refine ⟨?_, List.getLast?_concat, Or.inl rfl⟩
    exact (isChain_extend List.getLast?_concat).mpr ⟨hpending, rfl⟩

theorem PathsKept.cancel {b : PaperBroker} (h : PathsKept b) (ref : BrokerOrderRef) (nowNs : Nat)
    (hlegal : b.MovesLegally (.cancel ref nowNs)) : PathsKept (b.cancel ref nowNs).2 := by
  rcases cancel_cases b ref nowNs with ⟨heq, -⟩ | ⟨l, x, r, hfound, heq⟩
  · rw [heq]
    exact h
  · rw [heq]
    unfold PathsKept at h
    rw [hfound.split] at h
    exact forall_split h fun hx =>
      slotOnPath_cancelled nowNs hx hfound.live (hlegal _ hfound.find)

theorem PathsKept.replace {b : PaperBroker} (h : PathsKept b) (ref : BrokerOrderRef)
    (price volume : Int) (nowNs : Nat) : PathsKept (b.replace ref price volume nowNs).2 := by
  rcases replace_cases b ref price volume nowNs with ⟨heq, -⟩ | ⟨l, x, r, hfound, -, heq⟩
  · rw [heq]
    exact h
  · rw [heq]
    unfold PathsKept at h
    rw [hfound.split] at h
    refine forall_split h fun hx => ?_
    rcases hx with ho | ⟨haccepted, hpath⟩
    · exact Or.inl ⟨ho.notAccepted, ho.ref, ho.expire, ho.state⟩
    · exact Or.inr ⟨haccepted, hpath.legal, hpath.last, hpath.phase⟩

theorem PathsKept.step {b : PaperBroker} (h : PathsKept b) {a : Action} (hlegal : b.MovesLegally a) :
    PathsKept (b.step a) := by
  cases a with
  | setSymbol spec =>
    unfold PaperBroker.step setSymbol
    dsimp only
    split <;> exact h
  | onQuote symbolId bid ask bidSize askSize tsNs =>
    exact h.onQuote symbolId bid ask bidSize askSize tsNs hlegal
  | submit q nowNs => exact h.submit q nowNs
  | cancel ref nowNs => exact h.cancel ref nowNs hlegal
  | replace ref price volume nowNs => exact h.replace ref price volume nowNs

/-- An illegal move shows in the path of the order that made it. -/
theorem PathsKept.broken {b : PaperBroker} (h : PathsKept b) {a : Action} (hillegal : ¬ b.MovesLegally a) :
    ¬ PathsLawful (b.step a) := by
  intro hlawful
  cases a with
  | setSymbol spec => exact hillegal trivial
  | submit q nowNs => exact hillegal trivial
  | replace ref price volume nowNs => exact hillegal trivial
  | onQuote symbolId bid ask bidSize askSize tsNs =>
    apply hillegal
    intro hsymbol hhalted x hx hworking hdue
    have haccepted : isAccepted x = true := (Bool.and_eq_true_iff.mp hworking).1
    have hlive : x.order.state.isTerminal = false := by
      rw [isWorking, haccepted] at hworking
      simpa using hworking
    by_contra hstate
    rcases h x hx with horphan | ⟨-, hpath⟩
    · rw [horphan.notAccepted] at haccepted
      cases haccepted
    · obtain ⟨y, hy, z, hq, c, rfl⟩ := SlotTable.exists_of_forall₂
        (onQuote_forall₂ hsymbol hhalted bid ask bidSize askSize tsNs) hx
      have hterms := hq.sameTerms.trans (sameTerms_processSlot c z tsNs)
      have hbad := (hlawful _ hy (hterms.accepted haccepted)).1
      rw [path_of_due hq hlive hdue] at hbad
      refine not_lawful_extend hpath ?_ hbad
      rcases hpath.phase with ht | hs | hs | hs
      · rw [hlive] at ht
        cases ht
      · rw [hs]
        rfl
      · exact absurd hs hstate
      · rw [hs]
        rfl
  | cancel ref nowNs =>
    apply hillegal
    intro s hfind haccepted hsent
    obtain ⟨l, r, hsplit, hslot, href, hlive⟩ := findLive_eq_some hfind
    have hfound : b.Found ref l s.2 r :=
      ⟨hsplit, hslot ▸ hfind, href, hlive, by rw [hsent]; decide⟩
    rcases cancel_cases b ref nowNs with ⟨-, hnone⟩ | ⟨l', x, r', hfound', heq⟩
    · exact hnone l s.2 r hfound
    · have hsame := Option.some.inj (hfound'.find.symm.trans hfind)
      have hx : x = s.2 := congrArg Prod.snd hsame
      subst hx
      have hpath : OnPath s.2 := by
        rcases h s.2 (by rw [hsplit]; simp) with horphan | ⟨-, hpath⟩
        · rw [horphan.notAccepted] at haccepted
          cases haccepted
        · exact hpath
      have hmem : (cancelled b.books ref s.2 nowNs).2 ∈ (b.cancel ref nowNs).2.slots := by
        rw [heq]
        simp
      have hbad := (hlawful _ hmem ((sameTerms_cancelled b.books ref s.2 nowNs).accepted haccepted)).1
      rw [path_cancelled] at hbad
      refine not_lawful_extend hpath ?_ hbad
      rw [hsent]
      rfl

/-- Every accepted order follows the state machine throughout a run exactly when no step of the
run cancels an order in flight or lets an order expire that is not `acknowledged`. -/
theorem paths_lawful_iff (config : BrokerConfig) (actions : List Action) :
    Runs.Throughout PaperBroker.step PathsLawful (new config) actions ↔
      Runs.Along PaperBroker.step MovesLegally (new config) actions :=
  Runs.throughout_iff_along_of_invariant (fun _ h => PathsKept.lawful h)
    (fun _ _ h hlegal => h.step hlegal) (fun _ _ h hillegal => h.broken hillegal)
    (fun _ hx => by cases hx) actions

/-- A cancel right after the submit moves the order from `sent` to `cancel_pending`. -/
theorem cancel_in_flight_unlawful :
    ¬ PathsLawful (after { initialBalanceMinor := 1000000 }
      [.onQuote 0 100 102 0 0 1, .submit { volume := 3 } 1, .cancel ⟨1, makeLogicalOrderId 0 0 0⟩ 1]) := by
  intro h
  have hpaths : (after { initialBalanceMinor := 1000000 }
      [.onQuote 0 100 102 0 0 1, .submit { volume := 3 } 1,
        .cancel ⟨1, makeLogicalOrderId 0 0 0⟩ 1]).slots.map OrderSlot.path =
      [[.pendingSend, .sent, .cancelPending, .cancelled]] := by decide +kernel
  obtain ⟨x, hx, hpath⟩ := List.mem_map.mp (hpaths ▸ List.mem_singleton_self _)
  have hlawful := (h x hx (by simp [isAccepted, hpath])).1.legal
  rw [hpath] at hlawful
  revert hlawful
  decide

end PaperBroker

end MicrostructureEngine.Exec
