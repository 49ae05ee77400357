import Mathlib
import MicrostructureEngine.Dashboard.Analytics
import MicrostructureEngine.Evaluation.NoLookAhead
import MicrostructureEngine.Lib.KeyedFold

/-!
# The joins

Both programs collect the ticks of a symbol in the order of the rows. The text under which the dashboard
keeps a quality row tells time and symbol apart, since the number in front has no bar; where no two rows
share both, its lookup is the harness's join.
-/

namespace MicrostructureEngine.Dashboard

open Evaluation (TickRow SignalRow QualityRow RawSignal TickSeries seriesOf loadTicks joinRow joined)
open KeyedFold
set_option autoImplicit false

universe u
variable {α : Type u}

/-! ## Ticks -/

theorem seriesOf_loadTicks (rows : List (TickRow α)) (symbol : String) :
    seriesOf (loadTicks rows) symbol = (rows.filter fun r => r.symbol = symbol).map fun r => ⟨r.ts, r.price⟩ := by
  exact getD_foldl_collect (fun r : TickRow α => r.symbol) (fun _ _ => rfl) rows (fun _ => none) symbol

theorem pushRow_eq {τ : Type u} (entry : Option (List τ)) (r : τ) :
    pushRow entry r = some (entry.getD [] ++ [id r]) := by
  cases entry with
  | none => rfl
  | some arr => rfl

theorem bySymbol_getD {τ : Type u} (symbolOf : τ → String) (rows : List τ) (symbol : String) :
    (bySymbol symbolOf rows symbol).getD [] = rows.filter fun r => symbolOf r = symbol :=
  (getD_foldl_collect symbolOf pushRow_eq rows (fun _ => none) symbol).trans (List.map_id _)

/-! ## Keys -/

theorem bar_notMem_digits (n : Nat) : '|' ∉ n.repr.toList := by
  intro hmem
  rw [Nat.toList_repr] at hmem
  have hdigit := Nat.isDigit_of_mem_toDigits (by decide) (by decide) hmem
  revert hdigit
  decide

theorem bar_notMem_toString (ts : Int) : '|' ∉ (toString ts).toList := by
  rw [Int.toString_eq_repr]
  cases ts with
  | ofNat n => exact bar_notMem_digits n
  | negSucc n =>
    show '|' ∉ ("-" ++ (n + 1).repr).toList
    rw [String.toList_append]
    intro hmem
    cases List.mem_append.mp hmem with
    | inl h =>
      revert h
      decide
    | inr h => exact bar_notMem_digits (n + 1) h

/-- Two texts that agree agree up to their first separator, and behind it. -/
theorem append_cons_inj {x y v w : List Char} {sep : Char} (hx : sep ∉ x) (hy : sep ∉ y)
    (h : x ++ sep :: v = y ++ sep :: w) : x = y ∧ v = w := by
  induction x generalizing y with
  | nil =>
    cases y with
    | nil => exact ⟨rfl, (List.cons.inj h).2⟩
    | cons b y => exact absurd (List.mem_cons.mpr (Or.inl (List.cons.inj h).1)) hy
  | cons a x ih =>
    cases y with
    | nil => exact absurd (List.mem_cons.mpr (Or.inl (List.cons.inj h).1.symm)) hx
    | cons b y =>
      obtain ⟨rfl, htail⟩ := List.cons.inj h
      obtain ⟨rfl, hrest⟩ := ih (List.not_mem_of_not_mem_cons hx) (List.not_mem_of_not_mem_cons hy) htail
      exact ⟨rfl, hrest⟩

theorem keyOf_inj {ts ts' : Int} {symbol symbol' : String} :
    keyOf ts symbol = keyOf ts' symbol' ↔ ts = ts' ∧ symbol = symbol' := by
  constructor
  · intro h
    have hlist := congrArg String.toList h
    unfold keyOf at hlist
    rw [String.toList_append, String.toList_append, String.toList_append, String.toList_append, List.append_assoc,
      List.append_assoc] at hlist
    obtain ⟨hts, hsymbol⟩ := append_cons_inj (bar_notMem_toString ts) (bar_notMem_toString ts') hlist
    rw [Int.toString_eq_repr, Int.toString_eq_repr] at hts
    exact ⟨Int.repr_injective (String.toList_injective hts), String.toList_injective hsymbol⟩
  · rintro ⟨rfl, rfl⟩
    rfl

/-! ## Quality rows -/

def DistinctQuality (quality : List Quality) : Prop := (quality.map fun q => (q.ts, q.symbol)).Nodup

theorem DistinctQuality.keys {quality : List Quality} (h : DistinctQuality quality) :
    (quality.map fun q => keyOf q.ts q.symbol).Nodup := by
  refine List.pairwise_map.mpr ((List.pairwise_map.mp h).imp fun {a b} hab hkey => hab ?_)
  obtain ⟨hts, hsymbol⟩ := keyOf_inj.mp hkey
  rw [hts, hsymbol]

/-- The rows that join a signal are what the lookup finds. -/
theorem DistinctQuality.joins {quality : List Quality} (h : DistinctQuality quality) (s : Signal) :
    (quality.filter fun q => q.symbol = s.symbol ∧ q.ts = s.ts) =
      (qualityByKey quality (keyOf s.ts s.symbol)).toList := by
  have hsame : (quality.filter fun q => q.symbol = s.symbol ∧ q.ts = s.ts) =
      quality.filter fun q => keyOf q.ts q.symbol = keyOf s.ts s.symbol := by
    refine List.filter_congr fun q _ => decide_eq_decide.mpr ?_
    rw [keyOf_inj]
    exact And.comm
  have hlookup : qualityByKey quality (keyOf s.ts s.symbol) =
      (quality.filter fun q => keyOf q.ts q.symbol = keyOf s.ts s.symbol).getLast? := by
    unfold qualityByKey
    rw [foldl_update_apply (fun q : Quality => keyOf q.ts q.symbol) (fun _ q => some q), foldl_last]
    exact Option.or_none
  rw [hsame, hlookup]
  exact filter_key_eq_toList h.keys _

end MicrostructureEngine.Dashboard
