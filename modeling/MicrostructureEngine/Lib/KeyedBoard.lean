import Mathlib.Data.List.Nodup
import Mathlib.Logic.Function.Basic

/-!
# Boards of keyed entries

A list in which no two entries have the same key, and a partial function from keys, as two views of
one finite map. Replacing or dropping an entry of the list, and adding one, updates the function at
one key.
-/

namespace MicrostructureEngine.KeyedBoard

set_option autoImplicit false

universe u v
variable {α : Type u} {κ : Type v} {key : α → κ} {l r : List α} {a : α} {t : Option α}

/-- An entry that is replaced by one of the same key, or dropped, leaves the other entries alone. -/
theorem mem_replace (hunique : ((l ++ a :: r).map key).Nodup) (ht : ∀ b, t = some b → key b = key a)
    (b : α) :
    (key b = key a → (b ∈ l ++ (t.toList ++ r) ↔ t = some b)) ∧
      (key b ≠ key a → (b ∈ l ++ (t.toList ++ r) ↔ b ∈ l ++ a :: r)) := by
  rw [List.map_append, List.map_cons, List.nodup_middle, List.nodup_cons, ← List.map_append] at hunique
  constructor
  · intro heq
    have hlr : b ∉ l ∧ b ∉ r := by
      rw [← not_or, ← List.mem_append]
      exact fun hmem => hunique.1 (heq ▸ List.mem_map_of_mem hmem)
    simp [hlr.1, hlr.2]
  · intro hne
    have hb : b ≠ a := by
      rintro rfl
      exact hne rfl
    have hbt : b ∉ t.toList := fun hmem => hne (ht b (Option.mem_toList.mp hmem))
    simp [hb, hbt]

theorem nodup_replace (hunique : ((l ++ a :: r).map key).Nodup)
    (ht : ∀ b, t = some b → key b = key a) : ((l ++ (t.toList ++ r)).map key).Nodup := by
  cases t with
  | none =>
    refine hunique.sublist ?_
    simp
  | some b => simpa [ht b rfl] using hunique

/-- The list and the function hold the same entries. -/
structure Shows (key : α → κ) (board : List α) (f : κ → Option α) : Prop where
  unique : (board.map key).Nodup
  keyed : ∀ k b, f k = some b → key b = k
  exact : ∀ b, b ∈ board ↔ f (key b) = some b

namespace Shows

variable [DecidableEq κ] {f : κ → Option α} {board : List α}

omit [DecidableEq κ] in
theorem empty : Shows key [] fun _ => none where
  unique := List.nodup_nil
  keyed := fun _ _ h => nomatch h
  exact := fun _ => ⟨fun h => absurd h List.not_mem_nil, fun h => nomatch h⟩

omit [DecidableEq κ] in
theorem absent (h : Shows key board f) {k : κ} (hk : ∀ b ∈ board, key b ≠ k) : f k = none := by
  cases hf : f k with
  | none => rfl
  | some b =>
    have hkey := h.keyed k b hf
    subst hkey
    exact absurd rfl (hk b ((h.exact b).mpr hf))

theorem replace (h : Shows key (l ++ a :: r) f) (ht : ∀ b, t = some b → key b = key a) :
    Shows key (l ++ (t.toList ++ r)) (Function.update f (key a) t) where
  unique := nodup_replace h.unique ht
  keyed := by
    intro k b hb
    by_cases hk : k = key a
    · subst hk
      rw [Function.update_self] at hb
      exact ht b hb
    · rw [Function.update_of_ne hk] at hb
      exact h.keyed k b hb
  exact := by
    intro b
    obtain ⟨hsame, hother⟩ := mem_replace h.unique ht b
    by_cases hk : key b = key a
    · rw [hk, Function.update_self]
      exact hsame hk
    · rw [Function.update_of_ne hk, hother hk]
      exact h.exact b

theorem insert (h : Shows key (l ++ r) f) (ha : f (key a) = none) :
    Shows key (l ++ a :: r) (Function.update f (key a) (some a)) where
  unique := by
    rw [List.map_append, List.map_cons, List.nodup_middle, List.nodup_cons, ← List.map_append]
    refine ⟨fun hmem => ?_, h.unique⟩
    obtain ⟨b, hb, hkey⟩ := List.mem_map.mp hmem
    have hf := (h.exact b).mp hb
    rw [hkey, ha] at hf
    cases hf
  keyed := by
    intro k b hb
    by_cases hk : k = key a
    · subst hk
      rw [Function.update_self, Option.some.injEq] at hb
      rw [hb]
    · rw [Function.update_of_ne hk] at hb
      exact h.keyed k b hb
  exact := by
    intro b
    rw [List.perm_middle.mem_iff, List.mem_cons, h.exact b]
    by_cases hk : key b = key a
    · rw [hk, Function.update_self, ha, Option.some.injEq]
      simp [eq_comm]
    · rw [Function.update_of_ne hk]
      refine or_iff_right ?_
      rintro rfl
      exact hk rfl

end Shows

end MicrostructureEngine.KeyedBoard
