import MicrostructureEngine.Lib.KeyedBoard
import MicrostructureEngine.Oms.Resolution

/-!
# The order reconciliation as a comparison of sets

Both lists are sorted by reference and merged. Where no list names a reference twice, what is
written is a board with one row for each reference that occurs: the row of a reference depends on
what the two lists hold for it, not on where they hold it.
-/

namespace MicrostructureEngine

open scoped List
set_option autoImplicit false

namespace OrderReconciler

/-- The entry of a reference. -/
def entryOf (rows : List OrderSnapshot) (ref : BrokerOrderRef) : Option OrderSnapshot :=
  rows.find? fun o => o.ref == ref

/-- The row a reference should have, if it occurs on either side. -/
def expectedRow (locals venue : List OrderSnapshot) (ref : BrokerOrderRef) : Option OrderReconcileResult :=
  match entryOf locals ref, entryOf venue ref with
  | none, none => none
  | some _, none => some ⟨ref, .localOnly⟩
  | none, some _ => some ⟨ref, .venueOnly⟩
  | some l, some v =>
    some ⟨ref,
      if l.state ≠ v.state then .stateMismatch
      else if l.requestedVolume ≠ v.requestedVolume ∨ l.filledVolume ≠ v.filledVolume then .volumeMismatch
      else .matched⟩

/-- Rows in strictly ascending order of their references. -/
def Ascending (rows : List OrderSnapshot) : Prop := rows.Pairwise fun a b => a.ref.rank < b.ref.rank

/-! ## Entries -/

section Entries
variable {rows : List OrderSnapshot} {o : OrderSnapshot} {ref : BrokerOrderRef}

theorem entryOf_cons_self (o : OrderSnapshot) (rows : List OrderSnapshot) : entryOf (o :: rows) o.ref = some o := by
  simp [entryOf]

theorem entryOf_cons_of_ne (h : ref ≠ o.ref) : entryOf (o :: rows) ref = entryOf rows ref := by
  simp [entryOf, Ne.symm h]

theorem entryOf_eq_none (h : ∀ a ∈ rows, a.ref ≠ ref) : entryOf rows ref = none := by
  unfold entryOf
  rw [List.find?_eq_none]
  intro a ha
  simpa using h a ha

theorem entryOf_eq_some_iff (hdistinct : (rows.map OrderSnapshot.ref).Nodup) :
    entryOf rows ref = some o ↔ o ∈ rows ∧ o.ref = ref := by
  constructor
  · intro h
    exact ⟨List.mem_of_find?_eq_some h, by simpa using List.find?_some h⟩
  · rintro ⟨hmem, rfl⟩
    cases hfind : entryOf rows o.ref with
    | none => exact absurd (List.find?_eq_none.mp hfind o hmem) (by simp)
    | some a =>
      have ha := List.mem_of_find?_eq_some hfind
      have href : a.ref = o.ref := by simpa using List.find?_some hfind
      rw [List.inj_on_of_nodup_map hdistinct ha hmem href]

/-- An entry is found wherever the list holds it. -/
theorem entryOf_perm {rows' : List OrderSnapshot} (hdistinct : (rows.map OrderSnapshot.ref).Nodup)
    (h : rows' ~ rows) (ref : BrokerOrderRef) : entryOf rows' ref = entryOf rows ref := by
  have hdistinct' : (rows'.map OrderSnapshot.ref).Nodup := (h.map OrderSnapshot.ref).nodup_iff.mpr hdistinct
  apply Option.ext
  intro o
  rw [entryOf_eq_some_iff hdistinct, entryOf_eq_some_iff hdistinct', h.mem_iff]

theorem expectedRow_perm {locals locals' venue venue' : List OrderSnapshot}
    (hlocal : (locals.map OrderSnapshot.ref).Nodup) (hvenue : (venue.map OrderSnapshot.ref).Nodup)
    (hl : locals' ~ locals) (hv : venue' ~ venue) : expectedRow locals' venue' = expectedRow locals venue := by
  funext ref
  unfold expectedRow
  rw [entryOf_perm hlocal hl, entryOf_perm hvenue hv]

theorem Ascending.tail (h : Ascending (o :: rows)) : Ascending rows := (List.pairwise_cons.mp h).2

/-- What comes before the head of an ascending list is not in it. -/
theorem Ascending.entryOf_below (h : Ascending (o :: rows)) (href : ref.rank < o.ref.rank) :
    entryOf (o :: rows) ref = none := by
  apply entryOf_eq_none
  intro a ha heq
  rcases List.mem_cons.mp ha with rfl | hrest
  · rw [heq] at href
    exact Nat.lt_irrefl _ href
  · have hlater := (List.pairwise_cons.mp h).1 a hrest
    rw [heq] at hlater
    omega

theorem Ascending.entryOf_head (h : Ascending (o :: rows)) : entryOf rows o.ref = none := by
  apply entryOf_eq_none
  intro a ha heq
  have hlater := (List.pairwise_cons.mp h).1 a ha
  rw [heq] at hlater
  exact Nat.lt_irrefl _ hlater

theorem sorted_ascending (hdistinct : (rows.map OrderSnapshot.ref).Nodup) : Ascending (sorted rows) := by
  have hnodup : ((sorted rows).map OrderSnapshot.ref).Nodup :=
    ((sorted_perm rows).map OrderSnapshot.ref).nodup_iff.mpr hdistinct
  have hne : (sorted rows).Pairwise fun a b => a.ref ≠ b.ref := List.pairwise_map.mp hnodup
  refine ((sorted_pairwise rows).and hne).imp ?_
  rintro a b ⟨hle, hab⟩
  have hrank := (notByRef_iff a b).mp hle
  have hdiffer : a.ref.rank ≠ b.ref.rank := fun heq => hab (BrokerOrderRef.rank_inj heq)
  omega

end Entries

/-! ## The merge -/

/-- The rows are those of the references that occur. -/
abbrev Tells (rows : List OrderReconcileResult) (locals venue : List OrderSnapshot) : Prop :=
  KeyedBoard.Shows OrderReconcileResult.ref rows (expectedRow locals venue)

/-- One row goes to the reference in front, which does not occur behind it. -/
theorem Tells.cons {rows : List OrderReconcileResult} {locals venue locals' venue' : List OrderSnapshot}
    (h : Tells rows locals' venue') (row : OrderReconcileResult)
    (hnone : entryOf locals' row.ref = none ∧ entryOf venue' row.ref = none)
    (hrow : expectedRow locals venue row.ref = some row)
    (hother : ∀ ref, ref ≠ row.ref →
      entryOf locals ref = entryOf locals' ref ∧ entryOf venue ref = entryOf venue' ref) :
    Tells (row :: rows) locals venue := by
  have habsent : expectedRow locals' venue' row.ref = none := by
    unfold expectedRow
    rw [hnone.1, hnone.2]
  have hupdate : Function.update (expectedRow locals' venue') row.ref (some row) = expectedRow locals venue := by
    funext ref
    by_cases href : ref = row.ref
    · rw [href, Function.update_self, hrow]
    · rw [Function.update_of_ne href]
      unfold expectedRow
      rw [(hother ref href).1, (hother ref href).2]
  have hinsert := KeyedBoard.Shows.insert (l := []) h habsent
  rw [hupdate] at hinsert
  exact hinsert

/-- One case for each of the three ways the loops advance; the induction is on the room that is
left in the output. -/
theorem merge_tells {n : Nat} {ls vs : List OrderSnapshot} (hl : Ascending ls) (hv : Ascending vs)
    (hroom : ls.length + vs.length ≤ n) : Tells (merge n ls vs) ls vs := by
  induction n generalizing ls vs with
  | zero =>
    obtain ⟨rfl, rfl⟩ : ls = [] ∧ vs = [] := by
      rw [← List.length_eq_zero_iff, ← List.length_eq_zero_iff]
      omega
    exact KeyedBoard.Shows.empty
  | succ n ih =>
    cases ls with
    | nil =>
      cases vs with
      | nil => exact KeyedBoard.Shows.empty
      | cons v vs =>
        refine (ih hl hv.tail ?_).cons ⟨v.ref, .venueOnly⟩ ⟨rfl, hv.entryOf_head⟩ ?_ ?_
        · simpa using hroom
        · unfold expectedRow
          rw [entryOf_cons_self]
          rfl
        · exact fun ref href => ⟨rfl, entryOf_cons_of_ne href⟩
    | cons l ls =>
      cases vs with
      | nil =>
        refine (ih hl.tail hv ?_).cons ⟨l.ref, .localOnly⟩ ⟨hl.entryOf_head, rfl⟩ ?_ ?_
        · simpa using hroom
        · unfold expectedRow
          rw [entryOf_cons_self]
          rfl
        · exact fun ref href => ⟨entryOf_cons_of_ne href, rfl⟩
      | cons v vs =>
        rw [List.length_cons, List.length_cons] at hroom
        unfold merge
        split_ifs with href hbefore
        · -- Both sides name the reference.
          refine (ih hl.tail hv.tail (by omega)).cons _ ⟨hl.entryOf_head, ?_⟩ ?_ ?_
          · dsimp only
            rw [href]
            exact hv.entryOf_head
          · have hvenue : entryOf (v :: vs) l.ref = some v := by rw [href, entryOf_cons_self]
            unfold expectedRow commonStatus
            dsimp only
            rw [entryOf_cons_self, hvenue]
            simp only [or_comm]
          · intro ref hne
            exact ⟨entryOf_cons_of_ne hne, entryOf_cons_of_ne (href ▸ hne)⟩
        · have hlt := (byRef_iff l v).mp hbefore
          refine (ih hl.tail hv (by rw [List.length_cons]; omega)).cons ⟨l.ref, .localOnly⟩
            ⟨hl.entryOf_head, hv.entryOf_below hlt⟩ ?_ ?_
          · unfold expectedRow
            dsimp only
            rw [entryOf_cons_self, hv.entryOf_below hlt]
          · exact fun ref hne => ⟨entryOf_cons_of_ne hne, rfl⟩
        · have hle : ¬ l.ref.rank < v.ref.rank := fun h => hbefore ((byRef_iff l v).mpr h)
          have hne : l.ref.rank ≠ v.ref.rank := fun h => href (BrokerOrderRef.rank_inj h)
          have hlt : v.ref.rank < l.ref.rank := by omega
          refine (ih hl hv.tail (by rw [List.length_cons]; omega)).cons ⟨v.ref, .venueOnly⟩
            ⟨hl.entryOf_below hlt, hv.entryOf_head⟩ ?_ ?_
          · unfold expectedRow
            dsimp only
            rw [entryOf_cons_self, hl.entryOf_below hlt]
          · exact fun ref hne => ⟨rfl, entryOf_cons_of_ne hne⟩

theorem compare_tells {locals venue : List OrderSnapshot} {outCapacity : Nat}
    (hlocal : (locals.map OrderSnapshot.ref).Nodup) (hvenue : (venue.map OrderSnapshot.ref).Nodup)
    (hroom : locals.length + venue.length ≤ outCapacity) :
    Tells (compare locals venue outCapacity) locals venue := by
  have hmerge := merge_tells (n := outCapacity) (sorted_ascending hlocal) (sorted_ascending hvenue) (by
    rw [(sorted_perm locals).length_eq, (sorted_perm venue).length_eq]
    exact hroom)
  unfold Tells at hmerge
  rw [expectedRow_perm hlocal hvenue (sorted_perm locals) (sorted_perm venue)] at hmerge
  exact hmerge

/-- The rows written are one for each reference that occurs, with the status that the two entries
ask for, and the order of the lists makes no difference. -/
theorem compare_exact (locals venue : List OrderSnapshot) (outCapacity : Nat)
    (hlocal : (locals.map OrderSnapshot.ref).Nodup) (hvenue : (venue.map OrderSnapshot.ref).Nodup)
    (hroom : locals.length + venue.length ≤ outCapacity) :
    let rows := compare locals venue outCapacity
    (rows.map OrderReconcileResult.ref).Nodup ∧
      (∀ row, row ∈ rows ↔ expectedRow locals venue row.ref = some row) ∧
      ∀ locals' venue', locals' ~ locals → venue' ~ venue → compare locals' venue' outCapacity = rows := by
  dsimp only
  have htells := compare_tells hlocal hvenue hroom
  refine ⟨htells.unique, htells.exact, ?_⟩
  intro locals' venue' hl hv
  have hlocal' : (locals'.map OrderSnapshot.ref).Nodup := (hl.map OrderSnapshot.ref).nodup_iff.mpr hlocal
  have hvenue' : (venue'.map OrderSnapshot.ref).Nodup := (hv.map OrderSnapshot.ref).nodup_iff.mpr hvenue
  have hsortedLocal : sorted locals' = sorted locals := (sorted_eq_iff hlocal').mpr hl
  have hsortedVenue : sorted venue' = sorted venue := (sorted_eq_iff hvenue').mpr hv
  unfold compare
  unfold sorted at hsortedLocal hsortedVenue
  rw [hsortedLocal, hsortedVenue]

/-- A reference on each side alone, one that agrees and one that does not. -/
theorem compare_exact_four :
    let locals : List OrderSnapshot := [⟨⟨1, 3⟩, .sent, 5, 0⟩, ⟨⟨1, 1⟩, .sent, 5, 0⟩, ⟨⟨1, 2⟩, .sent, 5, 0⟩]
    let venue : List OrderSnapshot := [⟨⟨2, 1⟩, .sent, 5, 0⟩, ⟨⟨1, 2⟩, .sent, 5, 0⟩, ⟨⟨1, 3⟩, .sent, 5, 2⟩]
    let rows := compare locals venue 6
    (locals.map OrderSnapshot.ref).Nodup ∧ (venue.map OrderSnapshot.ref).Nodup ∧
      (rows.map OrderReconcileResult.ref).Nodup ∧
      (∀ row, row ∈ rows ↔ expectedRow locals venue row.ref = some row) ∧
      ∀ locals' venue', locals' ~ locals → venue' ~ venue → compare locals' venue' 6 = rows :=
  ⟨by decide, by decide, compare_exact _ _ 6 (by decide) (by decide) (by decide)⟩

end OrderReconciler

end MicrostructureEngine
