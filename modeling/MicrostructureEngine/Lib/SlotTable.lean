import Mathlib.Algebra.BigOperators.Group.List.Basic
import Mathlib.Algebra.Ring.Int.Defs
import Mathlib.Data.List.Forall2

/-!
# Tables of reused slots

A fixed-capacity table keeps the slots it has used so far as a list. A lookup returns the
first slot with a property, an allocation takes the first vacant slot or else the next
unused one, and a write goes to a slot by its number. Every specification splits the list
at the slot concerned, so that sums, counts and quantifiers over the table follow by `simp`.
-/

namespace MicrostructureEngine.SlotTable

set_option autoImplicit false

universe u v
variable {α : Type u} {β : Type v}

/-- The first slot whose content satisfies `p`, with that content. -/
def locate (p : α → Bool) : List α → Option (Nat × α)
  | [] => none
  | a :: l => if p a then some (0, a) else (locate p l).map fun r => (r.1 + 1, r.2)

/-- The slot the next allocation writes, in the table with that slot in use. -/
def allocate (vacant : α → Bool) (capacity : Nat) (fresh : α) (l : List α) : Option (Nat × List α) :=
  match locate vacant l with
  | some r => some (r.1, l)
  | none => if l.length ≥ capacity then none else some (l.length, l ++ [fresh])

theorem locate_eq_some {p : α → Bool} {l : List α} {r : Nat × α} (h : locate p l = some r) :
    ∃ l₁ l₂, l = l₁ ++ r.2 :: l₂ ∧ r.1 = l₁.length ∧ p r.2 = true ∧ ∀ a ∈ l₁, p a = false := by
  induction l generalizing r with
  | nil => cases h
  | cons a l ih =>
    unfold locate at h
    split at h
    · rename_i hp
      cases h
      exact ⟨[], l, rfl, rfl, hp, fun a ha => absurd ha List.not_mem_nil⟩
    · rename_i hp
      obtain ⟨r', hr', rfl⟩ := Option.map_eq_some_iff.mp h
      obtain ⟨l₁, l₂, rfl, hlen, hp', hfirst⟩ := ih hr'
      refine ⟨a :: l₁, l₂, rfl, by simp [hlen], hp', ?_⟩
      intro b hb
      rcases List.mem_cons.mp hb with rfl | hb
      · exact Bool.eq_false_iff.mpr hp
      · exact hfirst b hb

/-- What a lookup answers is in the slot that it answers. -/
theorem getElem?_of_locate {p : α → Bool} {l : List α} {slot : Nat} {a : α} (h : locate p l = some (slot, a)) :
    l[slot]? = some a ∧ p a = true := by
  obtain ⟨l₁, l₂, hsplit, hslot, hp, -⟩ := locate_eq_some h
  dsimp only at hsplit hslot hp
  refine ⟨?_, hp⟩
  rw [hsplit, hslot]
  simp

/-- A lookup passes over a prefix of slots that it does not look for. -/
theorem locate_split {p : α → Bool} {l₁ l₂ : List α} {a : α} (h : ∀ b ∈ l₁, p b = false)
    (ha : p a = true) : locate p (l₁ ++ a :: l₂) = some (l₁.length, a) := by
  induction l₁ with
  | nil =>
    simp only [List.nil_append, locate]
    rw [if_pos ha]
    rfl
  | cons b l₁ ih =>
    have hb := h b List.mem_cons_self
    simp only [List.cons_append, locate, hb]
    rw [ih fun c hc => h c (List.mem_cons_of_mem b hc)]
    rfl

theorem locate_eq_none_iff {p : α → Bool} {l : List α} :
    locate p l = none ↔ ∀ a ∈ l, p a = false := by
  induction l with
  | nil => simp [locate]
  | cons a l ih =>
    cases hp : p a with
    | true => simp [locate, hp]
    | false => simp [locate, hp, ih]

/-- What an allocation found: a vacant slot in use, or the next unused one. -/
theorem allocate_eq_some {vacant : α → Bool} {capacity : Nat} {fresh : α} {l : List α}
    {r : Nat × List α} (h : allocate vacant capacity fresh l = some r) :
    (∃ l₁ a l₂, l = l₁ ++ a :: l₂ ∧ r = (l₁.length, l) ∧ vacant a = true) ∨
    ((∀ a ∈ l, vacant a = false) ∧ l.length < capacity ∧ r = (l.length, l ++ [fresh])) := by
  unfold allocate at h
  cases hl : locate vacant l with
  | some q =>
    simp only [hl, Option.some.injEq] at h
    obtain ⟨l₁, l₂, hsplit, hlen, hv, -⟩ := locate_eq_some hl
    exact Or.inl ⟨l₁, q.2, l₂, hsplit, by rw [← h, hlen], hv⟩
  | none =>
    simp only [hl] at h
    split at h
    · cases h
    · rename_i hroom
      cases h
      exact Or.inr ⟨locate_eq_none_iff.mp hl, by omega, rfl⟩

theorem allocate_eq_none_iff {vacant : α → Bool} {capacity : Nat} {fresh : α} {l : List α} :
    allocate vacant capacity fresh l = none ↔
      (∀ a ∈ l, vacant a = false) ∧ capacity ≤ l.length := by
  unfold allocate
  rw [← locate_eq_none_iff]
  cases hl : locate vacant l with
  | some q => simp
  | none => simp

/-- An allocation and the write that follows it replace one vacant entry, or append one. -/
theorem allocate_set {vacant : α → Bool} {capacity : Nat} {fresh : α} {l : List α}
    {r : Nat × List α} (h : allocate vacant capacity fresh l = some r) (b : α) :
    (∃ l₁ a l₂, l = l₁ ++ a :: l₂ ∧ vacant a = true ∧ r.2.set r.1 b = l₁ ++ b :: l₂) ∨
    (r.2.set r.1 b = l ++ [b] ∧ l.length < capacity) := by
  rcases allocate_eq_some h with ⟨l₁, a, l₂, hl, rfl, hv⟩ | ⟨-, hroom, rfl⟩
  · exact Or.inl ⟨l₁, a, l₂, hl, hv, by simp [hl]⟩
  · exact Or.inr ⟨by simp, hroom⟩

/-- A weight that vacant slots and fresh ones do not carry grows by the weight written. -/
theorem sum_allocate_set {vacant : α → Bool} {capacity : Nat} {fresh : α} {l : List α}
    {r : Nat × List α} (h : allocate vacant capacity fresh l = some r) (b : α) (w : α → Int)
    (hw : ∀ a, vacant a = true → w a = 0) :
    ((r.2.set r.1 b).map w).sum = (l.map w).sum + w b := by
  rcases allocate_set h b with ⟨l₁, a, l₂, rfl, hv, hset⟩ | ⟨hset, -⟩
  · simp only [hset, List.map_append, List.map_cons, List.sum_append, List.sum_cons, hw a hv]
    omega
  · simp [hset]

/-! ## What the slots show -/

section Shown

variable {f : α → Option β}

theorem filterMap_cons_toList (a : α) (l : List α) :
    (a :: l).filterMap f = (f a).toList ++ l.filterMap f := by
  rw [List.filterMap_cons]
  cases f a with
  | none => rfl
  | some b => rfl

theorem filterMap_split (l₁ l₂ : List α) (a : α) :
    (l₁ ++ a :: l₂).filterMap f = l₁.filterMap f ++ ((f a).toList ++ l₂.filterMap f) := by
  rw [List.filterMap_append, filterMap_cons_toList]

/-- An allocation alone shows nothing new; the write that follows it shows what it writes, between
what was shown before and behind it. -/
theorem filterMap_allocate {vacant : α → Bool} {capacity : Nat} {fresh : α} {l : List α}
    {r : Nat × List α} (h : allocate vacant capacity fresh l = some r)
    (hvacant : ∀ a, vacant a = true → f a = none) (hfresh : f fresh = none) (b : α) :
    r.2.filterMap f = l.filterMap f ∧
      ∃ l₁ l₂, l.filterMap f = l₁ ++ l₂ ∧ (r.2.set r.1 b).filterMap f = l₁ ++ ((f b).toList ++ l₂) := by
  constructor
  · rcases allocate_eq_some h with ⟨l₁, a, l₂, -, rfl, -⟩ | ⟨-, -, rfl⟩
    · rfl
    · rw [filterMap_split, hfresh]
      exact List.append_nil _
  · rcases allocate_set h b with ⟨l₁, a, l₂, rfl, hv, hset⟩ | ⟨hset, -⟩
    · refine ⟨l₁.filterMap f, l₂.filterMap f, ?_, ?_⟩
      · rw [filterMap_split, hvacant a hv]
        rfl
      · rw [hset, filterMap_split]
    · refine ⟨l.filterMap f, [], (List.append_nil _).symm, ?_⟩
      rw [hset, filterMap_split]
      rfl

end Shown

/-! ## Tables that change slot by slot -/

section Pointwise

variable {γ : Type u} {R : α → β → Prop} {xs : List α} {ys : List β}

/-- A property of single slots carries over a pointwise change. -/
theorem forall_of_forall₂ {P : α → Prop} {Q : β → Prop} (h : ∀ x y, R x y → P x → Q y)
    (hr : List.Forall₂ R xs ys) (hp : ∀ x ∈ xs, P x) : ∀ y ∈ ys, Q y := by
  induction hr with
  | nil =>
    intro y hy
    cases hy
  | cons hxy _ ih =>
    rw [List.forall_mem_cons] at hp ⊢
    exact ⟨h _ _ hxy hp.1, ih hp.2⟩

theorem exists_of_forall₂ (h : List.Forall₂ R xs ys) {x : α} (hx : x ∈ xs) : ∃ y ∈ ys, R x y := by
  induction h with
  | nil => cases hx
  | cons hxy _ ih =>
    rcases List.mem_cons.mp hx with rfl | hx
    · exact ⟨_, List.mem_cons_self, hxy⟩
    · obtain ⟨y, hy, hr⟩ := ih hx
      exact ⟨y, List.mem_cons_of_mem _ hy, hr⟩

theorem filterMap_of_forall₂ {δ : Type u} {f : α → Option δ} {g : β → Option δ}
    (h : ∀ x y, R x y → g y = f x) (hr : List.Forall₂ R xs ys) : ys.filterMap g = xs.filterMap f := by
  induction hr with
  | nil => rfl
  | cons hxy _ ih => rw [filterMap_cons_toList, filterMap_cons_toList, h _ _ hxy, ih]

/-- A pointwise change splits where the table does. -/
theorem forall₂_split {l₁ l₂ : List α} (h : List.Forall₂ R (l₁ ++ l₂) ys) :
    ∃ ys₁ ys₂, ys = ys₁ ++ ys₂ ∧ List.Forall₂ R l₁ ys₁ ∧ List.Forall₂ R l₂ ys₂ := by
  induction l₁ generalizing ys with
  | nil => exact ⟨[], ys, rfl, List.Forall₂.nil, h⟩
  | cons a l₁ ih =>
    cases h with
    | cons hab hrest =>
      obtain ⟨ys₁, ys₂, rfl, h₁, h₂⟩ := ih hrest
      exact ⟨_ :: ys₁, ys₂, rfl, List.Forall₂.cons hab h₁, h₂⟩

theorem forall₂_comp {S : β → γ → Prop} {zs : List γ} (h : List.Forall₂ R xs ys)
    (h' : List.Forall₂ S ys zs) : List.Forall₂ (fun x z => ∃ y, R x y ∧ S y z) xs zs := by
  induction h generalizing zs with
  | nil =>
    cases h'
    exact List.Forall₂.nil
  | cons hxy _ ih =>
    cases h' with
    | cons hyz h' => exact List.Forall₂.cons ⟨_, hxy, hyz⟩ (ih h')

end Pointwise

end MicrostructureEngine.SlotTable
