import MicrostructureEngine.Feed.Tailing

/-!
# What a tailer passes over

A tailer of a directory that does not change delivers the records of its segments up to the
first segment that stops it: one that is compressed only, or whose records end at bytes that are
neither a record nor a clean stop. It passes every other segment, also one that it cannot open,
one with zero bytes in front of its boundary, and one behind which an index is missing.
-/

namespace MicrostructureEngine

set_option autoImplicit false

namespace RecordReader
variable {ρ : Type} (K : RecordReader ρ) (D : Directory)

def Stops (d : SegmentDescriptor) : Prop :=
  d.encoding ≠ .raw ∨ ∃ f, D.file d.path = some f ∧ f.Openable ∧ ¬ EndsHere (K.rest f)

/-- The segment can be read, and these records are its frames up to its committed boundary. -/
def Whole (d : SegmentDescriptor) (records : List ρ) : Prop :=
  d.encoding = .raw ∧ ∃ f frames, D.file d.path = some f ∧ f.Openable ∧ f.Covers frames ∧
    frames.map K.ofFrame = records.map some

/-- The next segment of the run, if there is one, has the next index. -/
def Followed (k : Nat) (d : SegmentDescriptor) : Prop :=
  ∀ next, (SegmentCatalog.segmentsOf D)[k + 1]? = some next → next.index = d.index + 1

def found (d : SegmentDescriptor) : List ρ :=
  match D.file d.path with
  | none => []
  | some f => if f.Openable then K.records f else []

def foundLog : List (List ρ) := (SegmentCatalog.segmentsOf D).map (K.found D)

section Segment
variable {K D} {d : SegmentDescriptor} {records : List ρ}

theorem Whole.found_eq (h : K.Whole D d records) : ¬ K.Stops D d ∧ K.found D d = records := by
  obtain ⟨hraw, f, frames, hfile, hopen, hcovers, hframes⟩ := h
  have hwidth : ∀ f ∈ frames, f.payload.length = K.width := by
    intro frame hframe
    obtain ⟨record, -, hrecord⟩ := List.mem_map.mp (hframes ▸ List.mem_map_of_mem hframe)
    unfold RecordReader.ofFrame at hrecord
    by_contra hne
    rw [dif_neg hne] at hrecord
    cases hrecord
  have hrecords : frames.filterMap K.ofFrame = records := by
    have hid := congrArg (List.filterMap id) hframes
    rwa [List.filterMap_map, List.filterMap_map, Function.id_comp, Function.id_comp, List.filterMap_some] at hid
  have hregion : f.region = frameCodec.concat frames := by
    have hscan := hcovers.scan_eq
    have hsplit := (frameCodec.scan_spec f.region).1
    rw [show frameCodec.scan f.region = (frames, []) from hscan, List.append_nil] at hsplit
    exact hsplit
  obtain ⟨hfound, hrest⟩ := records_of_region hregion hwidth
  constructor
  · rintro (hcompressed | ⟨f', hfile', -, hends⟩)
    · exact hcompressed hraw
    · rw [hfile] at hfile'
      cases hfile'
      rw [hrest] at hends
      exact hends rfl
  · unfold found
    rw [hfile]
    dsimp only
    rw [if_pos hopen, hfound, hrecords]

end Segment

end RecordReader

namespace Tailer
variable {ρ : Type} {K : RecordReader ρ} {D : Directory}

/-- A pass over a segment buffers what follows the cursor; only a segment that stops the tailer
makes it answer `corrupt`. -/
theorem fill_cases {d : SegmentDescriptor} (hd : d ∈ SegmentCatalog.segmentsOf D) (consumed : Nat) :
    (K.Stops D d ∧ ∃ buffer, fill K D d consumed [] = (.corrupt, buffer)) ∨
      (∃ record rest, record :: rest <+: (K.found D d).drop consumed ∧
        fill K D d consumed [] = (.ok, record :: rest)) ∨
      (¬ K.Stops D d ∧ (K.found D d).drop consumed = [] ∧ fill K D d consumed [] = (.idle, [])) := by
  by_cases hraw : d.encoding = .raw
  · obtain ⟨f, hfile⟩ := SegmentCatalog.exists_file hd
    have hfound : K.found D d = if f.Openable then K.records f else [] := by
      unfold RecordReader.found
      rw [hfile]
    rw [fill_spec K hraw hfile, hfound]
    have hpasses : (f.Openable → EndsHere (K.rest f)) → ¬ K.Stops D d := by
      rintro hends (hcompressed | ⟨f', hfile', hopen, hnot⟩)
      · exact hcompressed hraw
      · rw [hfile] at hfile'
        cases hfile'
        exact hnot (hends hopen)
    by_cases hopen : f.Openable
    · rw [if_pos hopen, if_pos hopen]
      unfold batch
      generalize (K.records f).drop consumed = fresh
      by_cases hfull : bufferCapacity ≤ fresh.length
      · rw [if_pos hfull]
        cases fresh with
        | nil => exact absurd hfull (Nat.not_le.mpr (Nat.succ_pos _))
        | cons record rest =>
          exact .inr (.inl ⟨record, rest.take (bufferCapacity - 1),
            (List.prefix_cons_inj record).mpr (List.take_prefix _ _), rfl⟩)
      · rw [if_neg hfull]
        by_cases hends : EndsHere (K.rest f)
        · rw [if_pos hends]
          cases fresh with
          | nil => exact .inr (.inr ⟨hpasses fun _ => hends, rfl, rfl⟩)
          | cons record rest => exact .inr (.inl ⟨record, rest, List.prefix_rfl, rfl⟩)
        · rw [if_neg hends]
          exact .inl ⟨.inr ⟨f, hfile, hopen, hends⟩, fresh, rfl⟩
    · rw [if_neg hopen, if_neg hopen]
      exact .inr (.inr ⟨hpasses fun h => absurd h hopen, List.drop_nil, rfl⟩)
  · refine .inl ⟨.inl hraw, [], ?_⟩
    unfold fill
    exact if_pos hraw

structure Stands (K : RecordReader ρ) (D : Directory) (delivered : List ρ) (t : Tailer ρ) : Prop where
  within : SegmentedLog.Within (K.foundLog D) t.cursor.segmentIndex t.cursor.recordsConsumed
  delivered : SegmentedLog.upTo (K.foundLog D) t.cursor.segmentIndex t.cursor.recordsConsumed = delivered
  pending : t.corrupt = false → t.pending <+:
    ((K.foundLog D).getD t.cursor.segmentIndex []).drop t.cursor.recordsConsumed
  passed : ∀ i < t.cursor.segmentIndex, ∀ d, (SegmentCatalog.segmentsOf D)[i]? = some d → ¬ K.Stops D d
  stopped : t.corrupt = true → ∀ d, (SegmentCatalog.segmentsOf D)[t.cursor.segmentIndex]? = some d → K.Stops D d

section Calls
variable {delivered : List ρ} {t : Tailer ρ}

theorem Stands.deliver (h : Stands K D delivered t) (hhealthy : t.corrupt = false) {record : ρ} {rest : List ρ}
    (hpending : record :: rest <+:
      ((K.foundLog D).getD t.cursor.segmentIndex []).drop t.cursor.recordsConsumed) :
    Stands K D (delivered ++ [record]) { t with
      cursor := { t.cursor with recordsConsumed := t.cursor.recordsConsumed + 1 }
      pending := rest
      total := t.total + 1 } := by
  obtain ⟨more, hmore⟩ := hpending
  rw [List.cons_append] at hmore
  obtain ⟨hwithin, hupTo, hdrop⟩ := SegmentedLog.upTo_item h.within hmore.symm
  rw [h.delivered] at hupTo
  refine ⟨hwithin, hupTo, fun _ => ⟨more, hdrop.symm⟩, h.passed, ?_⟩
  intro hcorrupt
  exact Bool.noConfusion (hhealthy.symm.trans hcorrupt)

theorem Stands.rescan (h : Stands K D delivered t) :
    t.rescan (some D) = .goesOn { t with catalog := (SegmentCatalog.scan (some D)).2 } := by
  have hcursor := h.within.1
  have hlog : (K.foundLog D).length = (SegmentCatalog.segmentsOf D).length := List.length_map _
  have hsome : (SegmentCatalog.segmentsOf D).isEmpty = false := by
    rw [← Bool.not_eq_true, List.isEmpty_iff_length_eq_zero]
    omega
  unfold Tailer.rescan
  rw [SegmentCatalog.scan_some]
  dsimp only
  rw [hsome, if_neg (by decide), if_neg (by omega)]

/-- A pass delivers the next record, stops at a segment that makes it stop, goes to the next
segment, or comes to the end of the last one. -/
theorem Stands.read_cases (h : Stands K D delivered t) (hhealthy : t.corrupt = false) (hpending : t.pending = [])
    (hcatalog : t.catalog.segments = SegmentCatalog.segmentsOf D) :
    (∃ record rest, t.read K D = t.deliver record rest ∧ record :: rest <+:
      ((K.foundLog D).getD t.cursor.segmentIndex []).drop t.cursor.recordsConsumed) ∨
    (∃ buffer, t.read K D = .returns .corrupt none { t with pending := buffer, corrupt := true } ∧
      Stands K D delivered { t with pending := buffer, corrupt := true }) ∨
    (t.read K D = .goesOn { t with cursor := ⟨t.cursor.segmentIndex + 1, 0⟩, pending := [] } ∧
      Stands K D delivered { t with cursor := ⟨t.cursor.segmentIndex + 1, 0⟩, pending := [] }) ∨
    (t.read K D = .returns .idle none { t with pending := [] } ∧ Stands K D delivered { t with pending := [] } ∧
      delivered = (K.foundLog D).flatten ∧ t.cursor.segmentIndex + 1 = (SegmentCatalog.segmentsOf D).length ∧
      ∀ d ∈ SegmentCatalog.segmentsOf D, ¬ K.Stops D d) := by
  have hcursor := h.within.1
  have hlog : (K.foundLog D).length = (SegmentCatalog.segmentsOf D).length := List.length_map _
  obtain ⟨d, hd⟩ : ∃ d, (SegmentCatalog.segmentsOf D)[t.cursor.segmentIndex]? = some d :=
    ⟨_, List.getElem?_eq_getElem (by omega)⟩
  have hfound : (K.foundLog D).getD t.cursor.segmentIndex [] = K.found D d := by
    unfold RecordReader.foundLog
    rw [List.getD_eq_getElem?_getD, List.getElem?_map, hd]
    rfl
  unfold Tailer.read
  rw [hcatalog, hd, hpending]
  dsimp only
  rcases fill_cases (List.mem_of_getElem? hd) t.cursor.recordsConsumed with
    ⟨hstops, buffer, hfill⟩ | ⟨record, rest, hpre, hfill⟩ | ⟨hpasses, hfresh, hfill⟩
  · rw [hfill]
    refine .inr (.inl ⟨buffer, rfl, h.within, h.delivered, fun hfine => Bool.noConfusion hfine, h.passed, ?_⟩)
    intro _ d' hd'
    dsimp only at hd'
    rw [hd] at hd'
    cases hd'
    exact hstops
  · rw [hfill]
    exact .inl ⟨record, rest, rfl, hfound ▸ hpre⟩
  · rw [hfill]
    dsimp only
    rw [← hfound] at hfresh
    have hend : t.cursor.recordsConsumed = ((K.foundLog D).getD t.cursor.segmentIndex []).length :=
      Nat.le_antisymm h.within.2 (List.drop_eq_nil_iff.mp hfresh)
    have hpassed : ∀ i < t.cursor.segmentIndex + 1, ∀ d', (SegmentCatalog.segmentsOf D)[i]? = some d' →
        ¬ K.Stops D d' := by
      intro i hi d' hd'
      rcases Nat.lt_or_ge i t.cursor.segmentIndex with hlt | hge
      · exact h.passed i hlt d' hd'
      · have heq : i = t.cursor.segmentIndex := by omega
        rw [heq, hd] at hd'
        cases hd'
        exact hpasses
    have hstopped : ∀ {P : Prop}, t.corrupt = true → P :=
      fun hcorrupt => Bool.noConfusion (hhealthy.symm.trans hcorrupt)
    by_cases hnext : t.cursor.segmentIndex + 1 < (SegmentCatalog.segmentsOf D).length
    · obtain ⟨hwithin, hupTo⟩ := SegmentedLog.upTo_next (K.foundLog D) (by omega) hend
      exact .inr (.inr (.inl ⟨if_pos hnext, hwithin, hupTo.trans h.delivered, fun _ => List.nil_prefix, hpassed,
        fun hcorrupt => hstopped hcorrupt⟩))
    · have hlast := SegmentedLog.upTo_last h.within (by omega) hfresh
      refine .inr (.inr (.inr ⟨if_neg hnext, ⟨h.within, h.delivered, fun _ => List.nil_prefix, h.passed,
        fun hcorrupt => hstopped hcorrupt⟩, h.delivered.symm.trans hlast, by omega, ?_⟩))
      intro d' hd'
      obtain ⟨i, hi⟩ := List.mem_iff_getElem?.mp hd'
      have hlt := (List.getElem?_eq_some_iff.mp hi).1
      exact hpassed i (by omega) d' hi

/-- A call delivers the next record, stops for good, or comes to the end of the last segment. -/
theorem Stands.nextLoop (n : Nat) : ∀ {t : Tailer ρ}, Stands K D delivered t →
    (K.foundLog D).length < t.cursor.segmentIndex + n →
    let answer := Tailer.nextLoop K D n t
    Stands K D (delivered ++ answer.2.1.toList) answer.2.2 ∧
      ((answer.1 = .ok ∧ ∃ record, answer.2.1 = some record) ∨
        (answer.1 = .corrupt ∧ answer.2.1 = none ∧ answer.2.2.corrupt = true) ∨
        (answer.1 = .idle ∧ answer.2.1 = none ∧ delivered = (K.foundLog D).flatten ∧
          answer.2.2.cursor.segmentIndex + 1 = (SegmentCatalog.segmentsOf D).length ∧
          ∀ d ∈ SegmentCatalog.segmentsOf D, ¬ K.Stops D d)) := by
  induction n with
  | zero =>
    intro t h hfuel
    exact absurd h.within.1 (by omega)
  | succ n ih =>
    intro t h hfuel answer
    have hnone : delivered ++ (none : Option ρ).toList = delivered := List.append_nil _
    have hanswer : answer = Tailer.nextLoop K D (n + 1) t := rfl
    unfold Tailer.nextLoop at hanswer
    cases hcorrupt : t.corrupt with
    | true =>
      have hcall : t.call = .returns .corrupt none t := if_pos hcorrupt
      rw [hcall] at hanswer
      dsimp only at hanswer
      rw [hanswer]
      dsimp only
      rw [hnone]
      exact ⟨h, .inr (.inl ⟨rfl, rfl, hcorrupt⟩)⟩
    | false =>
      cases hpending : t.pending with
      | cons record rest =>
        have hcall : t.call = t.deliver record rest := by
          unfold Tailer.call
          rw [hcorrupt, hpending]
          rfl
        have hdeliver := h.deliver hcorrupt (hpending ▸ h.pending hcorrupt)
        rw [hcall] at hanswer
        rw [hanswer]
        exact ⟨hdeliver, .inl ⟨rfl, record, rfl⟩⟩
      | nil =>
        have hcall : t.call = .goesOn t := by
          unfold Tailer.call
          rw [hcorrupt, hpending]
          rfl
        have hlisted : Stands K D delivered { t with catalog := (SegmentCatalog.scan (some D)).2 } :=
          ⟨h.within, h.delivered, h.pending, h.passed, h.stopped⟩
        rw [hcall] at hanswer
        dsimp only at hanswer
        rw [h.rescan] at hanswer
        dsimp only at hanswer
        rcases hlisted.read_cases hcorrupt hpending rfl with
          ⟨record, rest, hread, hbuffer⟩ | ⟨buffer, hread, hstands⟩ | ⟨hread, hstands⟩ |
            ⟨hread, hstands, hall, hlast, hpasses⟩
        · have hdeliver := hlisted.deliver hcorrupt hbuffer
          rw [hread] at hanswer
          rw [hanswer]
          exact ⟨hdeliver, .inl ⟨rfl, record, rfl⟩⟩
        · rw [hread] at hanswer
          dsimp only at hanswer
          rw [hanswer]
          dsimp only
          rw [hnone]
          exact ⟨hstands, .inr (.inl ⟨rfl, rfl, rfl⟩)⟩
        · rw [hread] at hanswer
          rw [hanswer]
          refine ih hstands ?_
          dsimp only
          omega
        · rw [hread] at hanswer
          dsimp only at hanswer
          rw [hanswer]
          dsimp only
          rw [hnone]
          exact ⟨hstands, .inr (.inr ⟨rfl, rfl, hall, hlast, hpasses⟩)⟩

theorem Stands.next (h : Stands K D delivered t) :
    let answer := t.next K D
    Stands K D (delivered ++ answer.2.1.toList) answer.2.2 ∧
      ((answer.1 = .ok ∧ ∃ record, answer.2.1 = some record) ∨
        (answer.1 = .corrupt ∧ answer.2.1 = none ∧ answer.2.2.corrupt = true) ∨
        (answer.1 = .idle ∧ answer.2.1 = none ∧ delivered = (K.foundLog D).flatten ∧
          answer.2.2.cursor.segmentIndex + 1 = (SegmentCatalog.segmentsOf D).length ∧
          ∀ d ∈ SegmentCatalog.segmentsOf D, ¬ K.Stops D d)) := by
  have hlog : (K.foundLog D).length = (SegmentCatalog.segmentsOf D).length := List.length_map _
  have hle := SegmentCatalog.length_segmentsOf_le D
  exact h.nextLoop (D.files.length + 1) (by omega)

end Calls

/-! ## Runs of calls -/

def after (K : RecordReader ρ) (D : Directory) (t : Tailer ρ) (n : Nat) : Tailer ρ :=
  Outputs.after (fun (t : Tailer ρ) (_ : Unit) => (((t.next K D).1, (t.next K D).2.1), (t.next K D).2.2)) t
    (List.replicate n ())

theorem after_succ (t : Tailer ρ) (n : Nat) : t.after K D (n + 1) = ((t.after K D n).next K D).2.2 := by
  unfold after
  rw [List.replicate_succ', Outputs.after_append]
  rfl

theorem answers_succ (t : Tailer ρ) (n : Nat) :
    t.answers K D (n + 1) =
      t.answers K D n ++ [(((t.after K D n).next K D).1, ((t.after K D n).next K D).2.1)] := by
  unfold answers
  rw [List.replicate_succ', Outputs.outputs_append]
  rfl

def delivered (K : RecordReader ρ) (D : Directory) (t : Tailer ρ) (n : Nat) : List ρ :=
  (t.answers K D n).filterMap Prod.snd

theorem delivered_succ (t : Tailer ρ) (n : Nat) :
    t.delivered K D (n + 1) = t.delivered K D n ++ ((t.after K D n).next K D).2.1.toList := by
  unfold delivered
  rw [answers_succ, List.filterMap_append]
  cases ((t.after K D n).next K D).2.1 with
  | none => rfl
  | some record => rfl

section Runs
variable {t : Tailer ρ}

theorem Stands.after (h : Stands K D [] t) (n : Nat) : Stands K D (t.delivered K D n) (t.after K D n) := by
  induction n with
  | zero => exact h
  | succ n ih =>
    rw [after_succ, delivered_succ]
    exact ih.next.1

theorem Stands.ends (h : Stands K D [] t) : ∃ n, (t.after K D (n + 1)).corrupt = true ∨
    ((t.answers K D (n + 1)).getLast? = some (.idle, none) ∧
      (t.after K D (n + 1)).cursor.segmentIndex + 1 = (SegmentCatalog.segmentsOf D).length) := by
  by_contra hnever
  rw [not_exists] at hnever
  have hlength : ∀ n, (t.delivered K D n).length = n := by
    intro n
    induction n with
    | zero => rfl
    | succ n ih =>
      have hcall := hnever n
      rw [not_or, after_succ, answers_succ, List.getLast?_concat] at hcall
      rcases (h.after n).next.2 with ⟨-, record, hout⟩ | ⟨-, -, hcorrupt⟩ | ⟨hidle, hout, -, hlast, -⟩
      · rw [delivered_succ, hout, List.length_append, ih]
        rfl
      · exact absurd hcorrupt hcall.1
      · refine absurd ⟨?_, hlast⟩ hcall.2
        rw [hidle, hout]
  have hstands := h.after ((K.foundLog D).flatten.length + 1)
  have hpre := (SegmentedLog.upTo_prefix hstands.within).length_le
  rw [hstands.delivered, hlength] at hpre
  omega

end Runs

/-! ## Failing closed -/

/-- The records are those of all segments up to their committed boundaries, and no index is
missing. -/
def Complete (K : RecordReader ρ) (D : Directory) (delivered : List ρ) : Prop :=
  ∃ parts, List.Forall₂ (K.Whole D) (SegmentCatalog.segmentsOf D) parts ∧
    (SegmentCatalog.segmentsOf D).IsChain (fun a b => b.index = a.index + 1) ∧ delivered = parts.flatten

/-- Over any number of calls, the tailer has moved on only past segments that it read completely
and behind which no index is missing; and when a call answers that there is nothing more,
everything that is committed was delivered. -/
def FailsClosed (K : RecordReader ρ) (D : Directory) : Prop :=
  ∀ n, let t : Tailer ρ := openDirectory (some D)
    (∀ k < (t.after K D n).cursor.segmentIndex, ∀ d, (SegmentCatalog.segmentsOf D)[k]? = some d →
      (∃ records, K.Whole D d records) ∧ RecordReader.Followed D k d) ∧
    (∀ answer, (t.answers K D n).getLast? = some answer → answer.1 = .idle ∨ answer.1 = .endOfData →
      Complete K D (t.delivered K D n))

/-- Every segment up to the first one that stops a tailer is complete, and no index is missing up
to that one. -/
def ReadsWhole (K : RecordReader ρ) (D : Directory) : Prop :=
  ∀ k d, (SegmentCatalog.segmentsOf D)[k]? = some d →
    (∀ i ≤ k, ∀ d', (SegmentCatalog.segmentsOf D)[i]? = some d' → ¬ K.Stops D d') →
      (∃ records, K.Whole D d records) ∧ RecordReader.Followed D k d

theorem stands_open (h : SegmentCatalog.segmentsOf D ≠ []) : Stands K D [] (openDirectory (some D)) where
  within := by
    refine ⟨?_, Nat.zero_le _⟩
    show 0 < (K.foundLog D).length
    unfold RecordReader.foundLog
    rw [List.length_map]
    exact List.length_pos_iff.mpr h
  delivered := rfl
  pending _ := List.nil_prefix
  passed i hi := absurd hi (Nat.not_lt_zero i)
  stopped hcorrupt := Bool.noConfusion hcorrupt

theorem after_empty (h : SegmentCatalog.segmentsOf D = []) (n : Nat) :
    ((openDirectory (some D) : Tailer ρ).after K D n).cursor.segmentIndex = 0 ∧
      ∀ answer, ((openDirectory (some D) : Tailer ρ).answers K D n).getLast? = some answer →
        answer.1 = .catalogError := by
  have hnext : ∀ t : Tailer ρ, t.corrupt = false → t.pending = [] → t.cursor.segmentIndex = 0 →
      (t.next K D).1 = .catalogError ∧ (t.next K D).2.2.corrupt = false ∧ (t.next K D).2.2.pending = [] ∧
        (t.next K D).2.2.cursor.segmentIndex = 0 := by
    intro t hhealthy hpending hcursor
    have hcall : t.call = .goesOn t := by
      unfold call
      rw [hhealthy, hpending]
      rfl
    have hrescan : t.rescan (some D) =
        .returns .catalogError none { t with catalog := (SegmentCatalog.scan (some D)).2 } := by
      unfold rescan
      rw [SegmentCatalog.scan_some, h]
      rfl
    unfold next nextLoop
    rw [hcall]
    dsimp only
    rw [hrescan]
    exact ⟨rfl, hhealthy, hpending, hcursor⟩
  have hafter : ∀ n, ((openDirectory (some D) : Tailer ρ).after K D n).corrupt = false ∧
      ((openDirectory (some D) : Tailer ρ).after K D n).pending = [] ∧
        ((openDirectory (some D) : Tailer ρ).after K D n).cursor.segmentIndex = 0 := by
    intro n
    induction n with
    | zero => exact ⟨rfl, rfl, rfl⟩
    | succ n ih =>
      rw [after_succ]
      exact (hnext _ ih.1 ih.2.1 ih.2.2).2
  refine ⟨(hafter n).2.2, ?_⟩
  cases n with
  | zero =>
    intro answer hanswer
    cases hanswer
  | succ n =>
    intro answer hanswer
    rw [answers_succ, List.getLast?_concat] at hanswer
    cases hanswer
    exact (hnext _ (hafter n).1 (hafter n).2.1 (hafter n).2.2).1

/-- If no segment stops the tailer and all are complete, what it finds is all that is committed. -/
theorem ReadsWhole.complete (h : ReadsWhole K D) (hpasses : ∀ d ∈ SegmentCatalog.segmentsOf D, ¬ K.Stops D d) :
    Complete K D (K.foundLog D).flatten := by
  have hall : ∀ k d, (SegmentCatalog.segmentsOf D)[k]? = some d →
      (∃ records, K.Whole D d records) ∧ RecordReader.Followed D k d :=
    fun k d hd => h k d hd fun i _ d' hd' => hpasses d' (List.mem_of_getElem? hd')
  refine ⟨K.foundLog D, ?_, ?_, rfl⟩
  · unfold RecordReader.foundLog
    rw [List.forall₂_map_right_iff, List.forall₂_same]
    intro d hd
    obtain ⟨k, hk⟩ := List.mem_iff_getElem?.mp hd
    obtain ⟨⟨records, hwhole⟩, -⟩ := hall k d hk
    rw [hwhole.found_eq.2]
    exact hwhole
  · rw [List.isChain_iff_getElem]
    intro k hk
    exact (hall k _ (List.getElem?_eq_getElem (Nat.lt_of_succ_lt hk))).2 _ (List.getElem?_eq_getElem hk)

/-- A tailer fails closed exactly where every segment up to the first one that stops it is
complete and no index is missing up to that one. -/
theorem failsClosed_iff (K : RecordReader ρ) (D : Directory) : FailsClosed K D ↔ ReadsWhole K D := by
  constructor
  · intro hclosed k d hd hpasses
    have hsome : SegmentCatalog.segmentsOf D ≠ [] := by
      intro hnil
      rw [hnil] at hd
      cases hd
    have hopen := stands_open (K := K) hsome
    obtain ⟨n, hend⟩ := hopen.ends
    obtain ⟨hpassed, hfinal⟩ := hclosed (n + 1)
    rcases hend with hcorrupt | ⟨hlast, -⟩
    · have hstands := hopen.after (n + 1)
      have hcursor := hstands.within.1
      have hlog : (K.foundLog D).length = (SegmentCatalog.segmentsOf D).length := List.length_map _
      have hstops := hstands.stopped hcorrupt _ (List.getElem?_eq_getElem (hlog ▸ hcursor))
      refine hpassed k ?_ d hd
      by_contra hge
      exact hpasses _ (Nat.not_lt.mp hge) _ (List.getElem?_eq_getElem (hlog ▸ hcursor)) hstops
    · obtain ⟨parts, hparts, hchain, -⟩ := hfinal _ hlast (.inl rfl)
      obtain ⟨hlt, hget⟩ := List.getElem?_eq_some_iff.mp hd
      have hlength := hparts.length_eq
      have hwhole := hparts.get hlt (hlength ▸ hlt)
      rw [List.get_eq_getElem, hget] at hwhole
      refine ⟨⟨_, hwhole⟩, ?_⟩
      intro next hnext
      obtain ⟨hlt', hget'⟩ := List.getElem?_eq_some_iff.mp hnext
      have hstep := List.isChain_iff_getElem.mp hchain k hlt'
      rwa [hget, hget'] at hstep
  · intro hwhole n t
    by_cases hnil : SegmentCatalog.segmentsOf D = []
    · obtain ⟨hcursor, hanswer⟩ := after_empty (K := K) hnil n
      refine ⟨fun k hk => absurd hk (by rw [show (t.after K D n).cursor.segmentIndex = 0 from hcursor]; omega), ?_⟩
      intro answer hlast hstatus
      rw [hanswer answer hlast] at hstatus
      rcases hstatus with hstatus | hstatus
      · cases hstatus
      · cases hstatus
    · have hopen := stands_open (K := K) hnil
      refine ⟨?_, ?_⟩
      · intro k hk d hd
        exact hwhole k d hd fun i hi d' hd' => (hopen.after n).passed i (Nat.lt_of_le_of_lt hi hk) d' hd'
      · intro answer hlast hstatus
        cases n with
        | zero => cases hlast
        | succ n =>
          rw [answers_succ, List.getLast?_concat] at hlast
          cases hlast
          rcases (hopen.after n).next.2 with ⟨hok, -⟩ | ⟨hcorrupt, -⟩ | ⟨-, hout, hall, -, hpasses⟩
          · rw [show (((t.after K D n).next K D).1) = _ from hok] at hstatus
            rcases hstatus with hstatus | hstatus
            · cases hstatus
            · cases hstatus
          · rw [show (((t.after K D n).next K D).1) = _ from hcorrupt] at hstatus
            rcases hstatus with hstatus | hstatus
            · cases hstatus
            · cases hstatus
          · have hdelivered : t.delivered K D (n + 1) = (K.foundLog D).flatten := by
              rw [delivered_succ, show ((t.after K D n).next K D).2.1 = none from hout, ← hall]
              exact List.append_nil _
            rw [hdelivered]
            exact hwhole.complete hpasses

end Tailer

theorem tailers_fail_closed_iff (D : Directory) :
    (Tailer.FailsClosed ExecutionWalTailer.reader D ↔ Tailer.ReadsWhole ExecutionWalTailer.reader D) ∧
      (Tailer.FailsClosed WalTailer.reader D ↔ Tailer.ReadsWhole WalTailer.reader D) :=
  ⟨Tailer.failsClosed_iff _ D, Tailer.failsClosed_iff _ D⟩

/-! ## A segment without a header -/

/-- A sealed segment whose file is empty, and an intact one behind it. -/
def headlessRun : Directory where
  files := [(⟨0, .raw⟩, []),
    (⟨1, .raw⟩, (finalizeHeader .zeroed).image ++ [])]

section Headless
variable {ρ : Type} (K : RecordReader ρ)

theorem segmentsOf_headlessRun : SegmentCatalog.segmentsOf headlessRun =
    headlessRun.files.map (SegmentCatalog.describe headlessRun) :=
  Draining.sortByStamp_of_sorted (.cons (by
    intro d hd
    rw [List.mem_singleton.mp hd]
    exact Nat.zero_le _) (List.pairwise_singleton _ _))

theorem headlessRun_passed : ∀ d ∈ SegmentCatalog.segmentsOf headlessRun,
    ¬ K.Stops headlessRun d ∧ K.found headlessRun d = [] := by
  have hends : ∀ f : SegmentFile, f.region = [] → ¬ ¬ EndsHere (K.rest f) ∧ K.records f = [] := by
    intro f hregion
    obtain ⟨hrecords, hrest⟩ := RecordReader.records_of_region (K := K)
      (hregion.trans frameCodec.concat_nil.symm) fun frame hframe => absurd hframe List.not_mem_nil
    rw [hrest, hrecords]
    exact ⟨not_not.mpr rfl, rfl⟩
  have hfound : ∀ d f, headlessRun.file d.path = some f → f.region = [] ∨ ¬ f.Openable →
      d.encoding = .raw → ¬ K.Stops headlessRun d ∧ K.found headlessRun d = [] := by
    intro d f hfile hempty hraw
    constructor
    · rintro (hcompressed | ⟨f', hfile', hopen, hstops⟩)
      · exact hcompressed hraw
      · rw [hfile] at hfile'
        cases hfile'
        rcases hempty with hregion | hclosed
        · exact (hends f hregion).1 hstops
        · exact hclosed hopen
    · unfold RecordReader.found
      rw [hfile]
      dsimp only
      split
      · rename_i hopen
        rcases hempty with hregion | hclosed
        · exact (hends f hregion).2
        · exact absurd hopen hclosed
      · rfl
  intro d hd
  rw [segmentsOf_headlessRun] at hd
  obtain ⟨entry, hentry, rfl⟩ := List.mem_map.mp hd
  rcases List.mem_cons.mp hentry with rfl | hentry
  · exact hfound _ ⟨[], none⟩ rfl (.inr (SegmentFile.not_openable_nil none)) rfl
  · rw [List.mem_singleton.mp hentry]
    refine hfound _ ⟨_, none⟩ rfl (.inl ?_) rfl
    unfold SegmentFile.region
    rw [SegmentFile.data_header]
    rfl

/-- The first call comes to the second segment and answers that there is nothing to deliver. -/
theorem headlessRun_skipped :
    let t : Tailer ρ := .openDirectory (some headlessRun)
    t.answers K headlessRun 1 = [(.idle, none)] ∧ (t.after K headlessRun 1).cursor.segmentIndex = 1 ∧
      ¬ Tailer.FailsClosed K headlessRun := by
  intro t
  have hsegments := segmentsOf_headlessRun
  have hlength : (SegmentCatalog.segmentsOf headlessRun).length = 2 := by
    rw [hsegments]
    rfl
  have hopen : Tailer.Stands K headlessRun [] t := Tailer.stands_open (by
    rw [hsegments]
    exact List.cons_ne_nil _ _)
  have hpassed := headlessRun_passed K
  have hnothing : (K.foundLog headlessRun).flatten = [] := by
    rw [List.flatten_eq_nil_iff]
    intro part hpart
    obtain ⟨d, hd, rfl⟩ := List.mem_map.mp hpart
    exact (hpassed d hd).2
  have hnext : (t.next K headlessRun).1 = .idle ∧ (t.next K headlessRun).2.1 = none ∧
      (t.next K headlessRun).2.2.cursor.segmentIndex + 1 = 2 := by
    obtain ⟨hstands, hanswer⟩ := hopen.next
    rcases hanswer with ⟨-, record, hout⟩ | ⟨-, -, hcorrupt⟩ | ⟨hidle, hout, -, hlast, -⟩
    · have hpre := SegmentedLog.upTo_prefix hstands.within
      rw [hstands.delivered, hout, hnothing] at hpre
      exact absurd (List.prefix_nil.mp hpre) (List.cons_ne_nil _ _)
    · have hcursor := hstands.within.1
      have hlog : (K.foundLog headlessRun).length = (SegmentCatalog.segmentsOf headlessRun).length :=
        List.length_map _
      have hget := List.getElem?_eq_getElem (hlog ▸ hcursor)
      exact absurd (hstands.stopped hcorrupt _ hget) (hpassed _ (List.mem_of_getElem? hget)).1
    · exact ⟨hidle, hout, hlast.trans hlength⟩
  refine ⟨?_, ?_, ?_⟩
  · show [((t.next K headlessRun).1, (t.next K headlessRun).2.1)] = _
    rw [hnext.1, hnext.2.1]
  · exact Nat.succ.inj hnext.2.2
  · rw [Tailer.failsClosed_iff]
    intro hwhole
    have hfirst : (SegmentCatalog.segmentsOf headlessRun)[0]? =
        some (SegmentCatalog.describe headlessRun (⟨0, .raw⟩, [])) := by
      rw [hsegments]
      rfl
    obtain ⟨⟨records, -, f, frames, hfile, hopenable, -⟩, -⟩ :=
      hwhole 0 _ hfirst fun i _ d hd => (hpassed d (List.mem_of_getElem? hd)).1
    cases hfile
    exact SegmentFile.not_openable_nil none hopenable

end Headless

theorem tailers_skip_segment :
    (Tailer.answers ExecutionWalTailer.reader headlessRun (.openDirectory (some headlessRun)) 1 = [(.idle, none)] ∧
      ¬ Tailer.FailsClosed ExecutionWalTailer.reader headlessRun) ∧
    (Tailer.answers WalTailer.reader headlessRun (.openDirectory (some headlessRun)) 1 = [(.idle, none)] ∧
      ¬ Tailer.FailsClosed WalTailer.reader headlessRun) := by
  obtain ⟨hexecution, -, hsilent⟩ := headlessRun_skipped ExecutionWalTailer.reader
  obtain ⟨hevents, -, hsilent'⟩ := headlessRun_skipped WalTailer.reader
  exact ⟨⟨hexecution, hsilent⟩, hevents, hsilent'⟩

end MicrostructureEngine
