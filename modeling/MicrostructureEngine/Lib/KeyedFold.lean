import Mathlib.Data.List.Basic
import Mathlib.Logic.Function.Basic

/-!
# Folds by key

A fold over rows that rewrites the entry of each row's key is, at one key, the fold over the rows of that
key. A map that collects its rows has all of them in their order, and one that keeps a row has the last;
with distinct keys that is the only one.
-/

namespace MicrostructureEngine.KeyedFold

set_option autoImplicit false

universe u v w
variable {τ : Type u} {κ : Type v} [DecidableEq κ] {β : Type w}

theorem foldl_update_apply (key : τ → κ) (step : β → τ → β) (rows : List τ) (m : κ → β) (k : κ) :
    rows.foldl (fun m r => Function.update m (key r) (step (m (key r)) r)) m k =
      (rows.filter fun r => key r = k).foldl step (m k) := by
  induction rows generalizing m with
  | nil => rfl
  | cons r rows ih =>
    rw [List.foldl_cons, ih]
    by_cases hk : key r = k
    · rw [List.filter_cons_of_pos (by simpa using hk), List.foldl_cons, ← hk, Function.update_self]
    · rw [List.filter_cons_of_neg (by simpa using hk), Function.update_of_ne (Ne.symm hk)]

/-- A map whose entries collect what their rows carry. -/
theorem getD_foldl_collect (key : τ → κ) {value : τ → β} {step : Option (List β) → τ → Option (List β)}
    (hstep : ∀ entry r, step entry r = some (entry.getD [] ++ [value r])) (rows : List τ) (m : κ → Option (List β))
    (k : κ) :
    (rows.foldl (fun m r => Function.update m (key r) (step (m (key r)) r)) m k).getD [] =
      (m k).getD [] ++ (rows.filter fun r => key r = k).map value := by
  rw [foldl_update_apply]
  generalize (rows.filter fun r => key r = k) = found, m k = entry
  induction found generalizing entry with
  | nil => exact (List.append_nil _).symm
  | cons r found ih =>
    rw [List.foldl_cons, ih, hstep, Option.getD_some, List.append_assoc, List.map_cons, List.singleton_append]

/-- An entry that keeps the last row. -/
theorem foldl_last (rows : List τ) (entry : Option τ) :
    rows.foldl (fun _ r => some r) entry = rows.getLast?.or entry := by
  induction rows generalizing entry with
  | nil => rfl
  | cons r rows ih =>
    rw [List.foldl_cons, ih, List.getLast?_cons]
    cases rows.getLast? with
    | none => rfl
    | some a => rfl

theorem filter_key_eq_toList {key : τ → κ} {rows : List τ} (h : (rows.map key).Nodup) (k : κ) :
    (rows.filter fun r => key r = k) = (rows.filter fun r => key r = k).getLast?.toList := by
  have hdistinct : (rows.filter fun r => key r = k).Pairwise fun a b => key a ≠ key b :=
    (List.pairwise_map.mp h).filter _
  have hkey : ∀ r ∈ rows.filter fun r => key r = k, key r = k := fun r hr => by
    simpa using (List.mem_filter.mp hr).2
  generalize (rows.filter fun r => key r = k) = found at hdistinct hkey
  match found with
  | [] => rfl
  | [r] => rfl
  | r :: r' :: rest =>
    refine absurd ?_ ((List.pairwise_cons.mp hdistinct).1 r' (List.mem_cons_self ..))
    rw [hkey r (List.mem_cons_self ..), hkey r' (List.mem_cons_of_mem _ (List.mem_cons_self ..))]

end MicrostructureEngine.KeyedFold
