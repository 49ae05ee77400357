/-!
# The best value in a shared cell

Callers raise a cell to the best of their values with a load and a loop of weak compare-and-swap. A
load, and the load of a swap that fails, may return any value that the cell has had; only a swap that
succeeds sees the present one. The cell ends at a value that no caller beats.
-/

namespace MicrostructureEngine.BestCell

set_option autoImplicit false

universe u

/-- The present value, and those before it. -/
structure Cell (α : Type u) where
  value : α
  past : List α := []

/-- Where a caller is: it has not loaded, it compares with what it has seen, or it is through. -/
inductive Climb (α : Type u) where
  | loading
  | trying (current : α)
  | settled
  deriving DecidableEq

/-- What makes `better` an order of preference. -/
structure Preference {α : Type u} (better : α → α → Bool) : Prop where
  irrefl : ∀ a, better a a = false
  asymm : ∀ a b, better a b = true → better b a = false
  trans : ∀ a b c, better a b = false → better b c = false → better a c = false

variable {α : Type u}

namespace Cell

/-- One of the values that the cell has had. -/
def load (c : Cell α) (age : Nat) : α := (c.value :: c.past).getD age c.value

def swap (c : Cell α) (x : α) : Cell α := { value := x, past := c.value :: c.past }

end Cell

/-- One step of a caller with the value `x`. -/
def advance [DecidableEq α] (better : α → α → Bool) (x : α) (c : Cell α) (spurious : Bool) (age : Nat) :
    Climb α → Cell α × Climb α
  | .loading => (c, .trying (c.load age))
  | .trying current =>
    if !better x current then (c, .settled)
    else if current = c.value ∧ spurious = false then (c.swap x, .settled)
    else (c, .trying (c.load age))
  | .settled => (c, .settled)

/-- No earlier value beats the present one. -/
def Cell.Sound (better : α → α → Bool) (c : Cell α) : Prop := ∀ y ∈ c.past, better y c.value = false

/-- What a caller has seen does not beat the cell; nor does its own value once it is through. -/
def Climb.Sound (better : α → α → Bool) (x : α) (c : Cell α) : Climb α → Prop
  | .loading => True
  | .trying current => better current c.value = false
  | .settled => better x c.value = false

theorem map_fst_set {β : Type u} {callers : List (α × β)} {i : Nat} {x : α} {p : β}
    (hi : callers[i]? = some (x, p)) (q : β) : (callers.set i (x, q)).map Prod.fst = callers.map Prod.fst := by
  induction callers generalizing i with
  | nil => rfl
  | cons a callers ih =>
    cases i with
    | zero =>
      cases hi
      rfl
    | succ i =>
      rw [List.set_cons_succ, List.map_cons, List.map_cons, ih hi]

theorem Cell.Sound.load {better : α → α → Bool} (hp : Preference better) {c : Cell α} (h : c.Sound better)
    (age : Nat) : better (c.load age) c.value = false := by
  unfold Cell.load
  rw [List.getD_eq_getElem?_getD]
  cases hget : (c.value :: c.past)[age]? with
  | none => exact hp.irrefl c.value
  | some y =>
    rcases List.mem_cons.mp (List.mem_of_getElem? hget) with rfl | hpast
    · exact hp.irrefl _
    · exact h y hpast

/-- A step leaves the cell as it is, or raises it to the caller's value. -/
theorem advance_value [DecidableEq α] (better : α → α → Bool) (x : α) (c : Cell α) (spurious : Bool)
    (age : Nat) (p : Climb α) :
    (advance better x c spurious age p).1 = c ∨
      better x c.value = true ∧ (advance better x c spurious age p).1 = c.swap x := by
  cases p with
  | loading => exact Or.inl rfl
  | settled => exact Or.inl rfl
  | trying current =>
    unfold advance
    dsimp only
    split
    · exact Or.inl rfl
    rename_i hbetter
    split
    · rename_i hswap
      refine Or.inr ⟨?_, rfl⟩
      rw [← hswap.1]
      simpa using hbetter
    · exact Or.inl rfl

theorem Cell.Sound.swap {better : α → α → Bool} (hp : Preference better) {c : Cell α} (h : c.Sound better)
    {x : α} (hx : better x c.value = true) : (c.swap x).Sound better := by
  intro y hy
  have hvalue := hp.asymm x c.value hx
  rcases List.mem_cons.mp hy with rfl | hpast
  · exact hvalue
  · exact hp.trans y c.value x (h y hpast) hvalue

theorem Cell.Sound.advance [DecidableEq α] {better : α → α → Bool} (hp : Preference better) {c : Cell α}
    (h : c.Sound better) (x : α) (spurious : Bool) (age : Nat) (p : Climb α) :
    (BestCell.advance better x c spurious age p).1.Sound better := by
  rcases advance_value better x c spurious age p with hsame | ⟨hx, hswap⟩
  · rw [hsame]
    exact h
  · rw [hswap]
    exact h.swap hp hx

/-- What another caller has seen still does not beat the cell. -/
theorem Climb.Sound.other [DecidableEq α] {better : α → α → Bool} (hp : Preference better) {c : Cell α}
    {y : α} {q : Climb α} (h : q.Sound better y c) (x : α) (spurious : Bool) (age : Nat) (p : Climb α) :
    q.Sound better y (BestCell.advance better x c spurious age p).1 := by
  rcases advance_value better x c spurious age p with hsame | ⟨hx, hswap⟩
  · rw [hsame]
    exact h
  · rw [hswap]
    have hvalue := hp.asymm x c.value hx
    cases q with
    | loading => trivial
    | trying current => exact hp.trans current c.value x h hvalue
    | settled => exact hp.trans y c.value x h hvalue

theorem Climb.Sound.advance [DecidableEq α] {better : α → α → Bool} (hp : Preference better) {c : Cell α}
    (hc : c.Sound better) {x : α} {p : Climb α} (h : p.Sound better x c) (spurious : Bool) (age : Nat) :
    (BestCell.advance better x c spurious age p).2.Sound better x
      (BestCell.advance better x c spurious age p).1 := by
  cases p with
  | loading => exact hc.load hp age
  | settled => exact h
  | trying current =>
    unfold BestCell.advance
    dsimp only
    split
    · rename_i hbetter
      exact hp.trans x current c.value (by simpa using hbetter) h
    split
    · exact hp.irrefl x
    · exact hc.load hp age

/-! ## The callers together -/

/-- The cell started at `start`, and `callers` are the values and where they are. -/
structure Race (better : α → α → Bool) (start : α) (c : Cell α) (callers : List (α × Climb α)) : Prop where
  sound : c.Sound better
  climbs : ∀ q ∈ callers, q.2.Sound better q.1 c
  source : c.value = start ∨ c.value ∈ callers.map Prod.fst

namespace Race

variable {better : α → α → Bool} {start : α} {c : Cell α} {callers : List (α × Climb α)}

theorem begin (better : α → α → Bool) (start : α) : Race better start { value := start } [] where
  sound := by
    intro y hy
    cases hy
  climbs := by
    intro q hq
    cases hq
  source := Or.inl rfl

theorem join (h : Race better start c callers) (x : α) : Race better start c (callers ++ [(x, .loading)]) where
  sound := h.sound
  climbs := by
    intro q hq
    rcases List.mem_append.mp hq with hold | hnew
    · exact h.climbs q hold
    · rw [List.mem_singleton.mp hnew]
      trivial
  source := by
    rw [List.map_append]
    exact h.source.imp_right (List.mem_append_left _)

theorem advance [DecidableEq α] (hp : Preference better) (h : Race better start c callers) {i : Nat} {x : α}
    {p : Climb α} (hi : callers[i]? = some (x, p)) (spurious : Bool) (age : Nat) :
    Race better start (BestCell.advance better x c spurious age p).1
      (callers.set i (x, (BestCell.advance better x c spurious age p).2)) where
  sound := h.sound.advance hp x spurious age p
  climbs := by
    intro q hq
    rcases List.mem_or_eq_of_mem_set hq with hold | rfl
    · exact (h.climbs q hold).other hp x spurious age p
    · exact (h.climbs (x, p) (List.mem_of_getElem? hi)).advance hp h.sound spurious age
  source := by
    rw [map_fst_set hi]
    rcases advance_value better x c spurious age p with hsame | ⟨-, hswap⟩
    · rw [hsame]
      exact h.source
    · rw [hswap]
      exact Or.inr (List.mem_map_of_mem (List.mem_of_getElem? hi))

/-- Once all are through, no value beats what the cell ends at, which is one of theirs unless none of
them beats its start. -/
theorem best (h : Race better start c callers) (hsettled : ∀ q ∈ callers, q.2 = .settled) :
    (∀ q ∈ callers, better q.1 c.value = false) ∧ (c.value = start ∨ c.value ∈ callers.map Prod.fst) := by
  refine ⟨?_, h.source⟩
  intro q hq
  have hclimb := h.climbs q hq
  rw [hsettled q hq] at hclimb
  exact hclimb

end Race

end MicrostructureEngine.BestCell
