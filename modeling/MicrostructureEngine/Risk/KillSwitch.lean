import MicrostructureEngine.Lib.DurableFiles
import MicrostructureEngine.Risk.Engine

/-!
# The kill switch

The halt that has to outlive the process: the engine writes a file, and does not start where it finds
one. `trip` is the POSIX branch of the source, as the list of what it does to the disk under the
answers of the system calls; power may be lost after any of these.
-/

namespace MicrostructureEngine.Risk

open Durable (Disk Op)

set_option autoImplicit false

/-- The enumerator's underlying value. -/
def HaltReason.code : HaltReason → Nat
  | none => 0
  | dailyLoss => 1
  | drawdown => 2
  | consecutiveLosses => 3
  | feedStale => 4
  | sequenceGap => 5
  | backpressure => 6
  | latency => 7
  | rejectRate => 8
  | disconnected => 9
  | reconciliation => 10
  | instanceLock => 11
  | staleEpoch => 12
  | disk => 13
  | manualKill => 14
  | controlKill => 15

namespace KillSwitch

structure Record where
  reason : HaltReason
  timestampNs : UInt64
  metric : Int
  deriving DecidableEq, Repr

/-- The line of the file. -/
def line (r : Record) : List Char :=
  ("\x7b\"reason\":" ++ toString r.reason.code ++ ",\"timestamp_ns\":" ++ toString r.timestampNs ++
    ",\"metric\":" ++ toString r.metric ++ "\x7d\n").toList

/-- What the system calls answer. `writes` has the bytes that each write takes; nothing, or no further
write, is a failure. -/
structure Answers where
  directories : Bool := true
  opens : Bool := true
  writes : List Nat
  syncs : Bool := true
  closes : Bool := true
  renames : Bool := true
  unlinks : Bool := true
  dirOpens : Bool := true
  dirSyncs : Bool := true
  deriving DecidableEq, Repr

def temporary (path : String) : String := path ++ ".tmp"

/-- The loop writes on where the last write left off. -/
def writeLoop (tmp : String) : List Nat → List Char → List (Op String Char) × Bool
  | _, [] => ([], true)
  | [], _ :: _ => ([], false)
  | 0 :: _, _ :: _ => ([], false)
  | w :: writes, data =>
    let r := writeLoop tmp writes (data.drop w)
    (.append tmp (data.take w) :: r.1, r.2)

def trip (path : String) (r : Record) (a : Answers) : List (Op String Char) × Bool :=
  let tmp := temporary path
  let data := line r
  let discard : List (Op String Char) := if a.unlinks then [.unlink tmp] else []
  if !a.directories then ([], false)
  else if data.length = 0 ∨ data.length ≥ 192 then ([], false)
  else if !a.opens then ([], false)
  else
    let w := writeLoop tmp a.writes data
    if !w.2 then (.create tmp :: w.1 ++ discard, false)
    else if !a.syncs then (.create tmp :: w.1 ++ discard, false)
    else if !a.closes || !a.renames then (.create tmp :: w.1 ++ [.sync tmp] ++ discard, false)
    else if !a.dirOpens || !a.dirSyncs then (.create tmp :: w.1 ++ [.sync tmp, .rename tmp path], false)
    else (.create tmp :: w.1 ++ [.sync tmp, .rename tmp path, .syncDir], true)

/-! ## The host -/

/-- `tripped` and `records` are history and not in the source: whether a trip has returned true, and
what the trips were called with. -/
structure Host where
  disk : Disk String Char := {}
  tripped : Bool := false
  records : List Record := []

/-- A trip that runs to its end, a trip that loses power after its first operations, and a loss of
power with no trip under way. -/
inductive Event where
  | trip (r : Record) (a : Answers)
  | cut (r : Record) (a : Answers) (after which : Nat) (garbage : Nat → List Char)
  | crash (which : Nat) (garbage : Nat → List Char)

namespace Host

def step (path : String) (h : Host) : Event → Host
  | .trip r a =>
    { disk := Runs.run Disk.step h.disk (KillSwitch.trip path r a).1
      tripped := h.tripped || (KillSwitch.trip path r a).2
      records := r :: h.records }
  | .cut r a after which garbage =>
    { h with
      disk := (Runs.run Disk.step h.disk ((KillSwitch.trip path r a).1.take after)).crash which garbage
      records := r :: h.records }
  | .crash which garbage => { h with disk := h.disk.crash which garbage }

end Host

/-! ## What a trip does -/

theorem temporary_ne (path : String) : temporary path ≠ path := by
  intro heq
  have hlength := congrArg String.length heq
  unfold temporary at hlength
  rw [String.length_append] at hlength
  have hsuffix : (".tmp" : String).length = 4 := by decide
  omega

/-- The loop only appends, and what it appends adds up. -/
theorem writeLoop_spec (tmp : String) (writes : List Nat) (data : List Char) :
    ∃ parts : List (List Char), (writeLoop tmp writes data).1 = parts.map (Op.append tmp) ∧
      ((writeLoop tmp writes data).2 = true → parts.flatten = data) := by
  induction writes generalizing data with
  | nil =>
    cases data with
    | nil => exact ⟨[], rfl, fun _ => rfl⟩
    | cons c cs => exact ⟨[], rfl, nofun⟩
  | cons w writes ih =>
    cases data with
    | nil => exact ⟨[], by cases w <;> rfl, fun _ => rfl⟩
    | cons c cs =>
      cases w with
      | zero => exact ⟨[], rfl, nofun⟩
      | succ n =>
        obtain ⟨parts, hops, hall⟩ := ih ((c :: cs).drop (n + 1))
        refine ⟨(c :: cs).take (n + 1) :: parts, ?_, ?_⟩
        · show Op.append tmp ((c :: cs).take (n + 1)) :: (writeLoop tmp writes ((c :: cs).drop (n + 1))).1 = _
          rw [hops]
          rfl
        · intro hdone
          rw [List.flatten_cons, hall hdone, List.take_append_drop]

theorem discard_permits (P : List Char → Prop) (tmp path : String) (unlinks : Bool) (d : Disk String Char) :
    Runs.Along Disk.step (Disk.Permits P tmp path) d (if unlinks then [.unlink tmp] else []) := by
  cases unlinks with
  | true => exact ⟨rfl, trivial⟩
  | false => trivial

/-- The rename is only reached with the whole line written and synchronised. -/
theorem renames_permits (path : String) {data : List Char} {tmp : String} {d : Disk String Char}
    (h : d.Holds tmp data) :
    Runs.Along Disk.step (Disk.Permits (· = data) tmp path) d [.sync tmp, .rename tmp path, .syncDir] :=
  ⟨rfl, ⟨rfl, rfl, h.sync (P := (· = data)) rfl⟩, trivial, trivial⟩

/-- A trip only replaces the file as a whole, and by its own line; a trip that returns true has
replaced it and synchronised the directory. -/
theorem trip_spec (path : String) (r : Record) (a : Answers) (d : Disk String Char) :
    Runs.Along Disk.step (Disk.Permits (· = line r) (temporary path) path) d (trip path r a).1 ∧
      ((trip path r a).2 = true → (Runs.run Disk.step d (trip path r a).1).Present path) := by
  obtain ⟨parts, hops, hall⟩ := writeLoop_spec (temporary path) a.writes (line r)
  obtain ⟨halong, hholds⟩ := Disk.written (· = line r) (temporary path) path d parts
  unfold trip
  dsimp only
  rw [hops]
  split
  · exact ⟨trivial, nofun⟩
  split
  · exact ⟨trivial, nofun⟩
  split
  · exact ⟨trivial, nofun⟩
  split
  · exact ⟨Runs.along_append.mpr ⟨halong, discard_permits _ _ _ _ _⟩, nofun⟩
  rename_i hwritten
  rw [hall (by simpa using hwritten)] at hholds
  have hrename := renames_permits path hholds
  split
  · exact ⟨Runs.along_append.mpr ⟨halong, discard_permits _ _ _ _ _⟩, nofun⟩
  split
  · rw [List.append_assoc]
    exact ⟨Runs.along_append.mpr ⟨halong, rfl, discard_permits _ _ _ _ _⟩, nofun⟩
  split
  · exact ⟨Runs.along_append.mpr ⟨halong, hrename.1, hrename.2.1, trivial⟩, nofun⟩
  · refine ⟨Runs.along_append.mpr ⟨halong, hrename⟩, fun _ => ?_⟩
    rw [Runs.run, List.foldl_append]
    exact Disk.present_syncDir (hholds.synced.rename path)

/-! ## Over trips and losses of power -/

/-- What holds of the host at all times: the file, whichever comes back, is the whole line of a trip,
and there is one once a trip has returned true. -/
structure Host.Sound (path : String) (h : Host) : Prop where
  guarded : h.disk.Guarded (fun data => ∃ r ∈ h.records, data = line r) (temporary path) path
  present : h.tripped = true → h.disk.Present path

theorem Host.Sound.replaced {path : String} {h : Host} (hs : h.Sound path) (r : Record)
    {ops : List (Op String Char)}
    (hops : Runs.Along Disk.step (Disk.Permits (· = line r) (temporary path) path) h.disk ops) :
    (Runs.run Disk.step h.disk ops).Guarded (fun data => ∃ r' ∈ r :: h.records, data = line r')
        (temporary path) path ∧
      (h.tripped = true → (Runs.run Disk.step h.disk ops).Present path) := by
  have hgrown : h.disk.Guarded (fun data => ∃ r' ∈ r :: h.records, data = line r') (temporary path) path := by
    apply hs.guarded.imp
    rintro data ⟨r', hmem, hdata⟩
    exact ⟨r', List.mem_cons_of_mem r hmem, hdata⟩
  have hpermits : Runs.Along Disk.step
      (Disk.Permits (fun data => ∃ r' ∈ r :: h.records, data = line r') (temporary path) path) h.disk ops := by
    apply hops.imp
    intro d op hop
    cases op with
    | rename a b =>
      obtain ⟨ha, hb, hready⟩ := hop
      refine ⟨ha, hb, fun i hi => ?_⟩
      obtain ⟨hkept, hline⟩ := hready i hi
      exact ⟨hkept, r, List.mem_cons_self, hline⟩
    | create | append | sync | unlink | syncDir => exact hop
  refine ⟨hgrown.run (temporary_ne path) hpermits, ?_⟩
  intro htripped
  exact (hs.present htripped).run (temporary_ne path) hpermits

theorem Host.Sound.step {path : String} {h : Host} (hs : h.Sound path) (e : Event) :
    (h.step path e).Sound path := by
  cases e with
  | trip r a =>
    obtain ⟨hops, hpresent⟩ := trip_spec path r a h.disk
    obtain ⟨hguarded, hkeeps⟩ := hs.replaced r hops
    refine ⟨hguarded, ?_⟩
    intro htripped
    rcases Bool.or_eq_true_iff.mp htripped with hbefore | hnow
    · exact hkeeps hbefore
    · exact hpresent hnow
  | cut r a after which garbage =>
    have hops := (trip_spec path r a h.disk).1
    rw [← List.take_append_drop after (trip path r a).1] at hops
    obtain ⟨hguarded, hkeeps⟩ := hs.replaced r (Runs.along_append.mp hops).1
    exact ⟨hguarded.crash which garbage, fun htripped => (hkeeps htripped).crash which garbage⟩
  | crash which garbage =>
    exact ⟨hs.guarded.crash which garbage, fun htripped => (hs.present htripped).crash which garbage⟩

/-- A host whose directory is empty. -/
theorem sound_new (path : String) : Host.Sound path {} := by
  have hnone : ∀ dir, ({} : Disk String Char).Shows dir → ∀ n i, dir n ≠ some i := by
    intro dir hdir n i hi
    rw [List.mem_singleton.mp hdir] at hi
    cases hi
  refine ⟨⟨?_, ?_, nofun, ?_⟩, nofun⟩
  · intro dir hdir n i hi
    exact absurd hi (hnone dir hdir n i)
  · intro dir hdir i hi
    exact absurd hi (hnone dir hdir _ i)
  · intro dir hdir i hi
    exact absurd hi (hnone dir hdir path i)

def manualKill : Record := { reason := .manualKill, timestampNs := 7, metric := -9 }

end KillSwitch

end MicrostructureEngine.Risk
