import Mathlib.Logic.Function.Basic
import MicrostructureEngine.Lib.Runs

/-!
# Files that survive a loss of power

A directory of names and the files they name, with what of both is on the medium. A file keeps its
content through a loss of power once it has been synchronised and until it is written again; any other
content may come back as anything. Of the directory, one of the states that it has had since it was
last synchronised comes back. The rules are those of replacing a file as a whole: write another one,
synchronise it, rename it, synchronise the directory.
-/

namespace MicrostructureEngine.Durable

set_option autoImplicit false

universe u v

/-- `past` has the earlier states of the directory that the medium may still have, `kept` the files
whose content is on the medium, and `next` is above the number of every file. -/
structure Disk (N : Type u) (β : Type v) where
  dir : N → Option Nat := fun _ => none
  past : List (N → Option Nat) := []
  content : Nat → List β := fun _ => []
  kept : Nat → Bool := fun _ => true
  next : Nat := 0

inductive Op (N : Type u) (β : Type v) where
  | create (n : N)
  | append (n : N) (data : List β)
  | sync (n : N)
  | rename (a b : N)
  | unlink (n : N)
  | syncDir

namespace Disk

variable {N : Type u} {β : Type v}

/-- What a reader finds under a name. -/
def read (d : Disk N β) (n : N) : Option (List β) := (d.dir n).map d.content

def link (d : Disk N β) (dir : N → Option Nat) : Disk N β := { d with dir := dir, past := d.dir :: d.past }

/-- Opened for writing from nothing: an existing file is emptied. -/
def create [DecidableEq N] (d : Disk N β) (n : N) : Disk N β :=
  match d.dir n with
  | some i =>
    { d with content := Function.update d.content i [], kept := Function.update d.kept i false }
  | none =>
    { d.link (Function.update d.dir n (some d.next)) with
      content := Function.update d.content d.next []
      kept := Function.update d.kept d.next false
      next := d.next + 1 }

def append (d : Disk N β) (n : N) (data : List β) : Disk N β :=
  match d.dir n with
  | some i =>
    { d with
      content := Function.update d.content i (d.content i ++ data)
      kept := Function.update d.kept i false }
  | none => d

def sync (d : Disk N β) (n : N) : Disk N β :=
  match d.dir n with
  | some i => { d with kept := Function.update d.kept i true }
  | none => d

def rename [DecidableEq N] (d : Disk N β) (a b : N) : Disk N β :=
  match d.dir a with
  | some i => d.link (Function.update (Function.update d.dir a none) b (some i))
  | none => d

def unlink [DecidableEq N] (d : Disk N β) (n : N) : Disk N β := d.link (Function.update d.dir n none)

def syncDir (d : Disk N β) : Disk N β := { d with past := [] }

def step [DecidableEq N] (d : Disk N β) : Op N β → Disk N β
  | .create n => d.create n
  | .append n data => d.append n data
  | .sync n => d.sync n
  | .rename a b => d.rename a b
  | .unlink n => d.unlink n
  | .syncDir => d.syncDir

/-- After a loss of power: one of the directories that the medium may have, and what it makes of the
files that it does not keep. -/
def crash (d : Disk N β) (which : Nat) (garbage : Nat → List β) : Disk N β :=
  { dir := (d.dir :: d.past).getD which d.dir
    content := fun i => if d.kept i then d.content i else garbage i
    next := d.next }

/-- The directories that a loss of power may bring back. -/
def Shows (d : Disk N β) (dir : N → Option Nat) : Prop := dir ∈ d.dir :: d.past

/-! ## A name and the one that replaces it -/

/-- Whatever comes back, `path` names nothing or a kept file with a content in `P`, and the file that
is being written under `tmp` has never been under `path`. -/
structure Guarded (P : List β → Prop) (tmp path : N) (d : Disk N β) : Prop where
  fresh : ∀ dir, d.Shows dir → ∀ n i, dir n = some i → i < d.next
  apart : ∀ dir, d.Shows dir → ∀ i, dir tmp = some i → dir path ≠ some i
  clear : ∀ i, d.dir tmp = some i → ∀ dir, d.Shows dir → dir path ≠ some i
  safe : ∀ dir, d.Shows dir → ∀ i, dir path = some i → d.kept i = true ∧ P (d.content i)

/-- Whatever comes back, `path` names a file. -/
def Present (path : N) (d : Disk N β) : Prop := ∀ dir, d.Shows dir → (dir path).isSome = true

variable {P : List β → Prop} {tmp path : N} {d : Disk N β}

theorem shows_self (d : Disk N β) : d.Shows d.dir := List.mem_cons_self

theorem shows_link {dir dir' : N → Option Nat} (h : (d.link dir).Shows dir') : dir' = dir ∨ d.Shows dir' :=
  List.mem_cons.mp h

/-- The file under `tmp` is written to, which changes nothing of the directory. -/
theorem Guarded.write (h : d.Guarded P tmp path) {i : Nat} (htmp : d.dir tmp = some i) (data : List β)
    (keep : Bool) :
    Guarded P tmp path { d with
      content := Function.update d.content i data, kept := Function.update d.kept i keep } := by
  refine ⟨h.fresh, h.apart, h.clear, ?_⟩
  intro dir hdir j hj
  have hne : j ≠ i := by
    rintro rfl
    exact h.clear j htmp dir hdir hj
  obtain ⟨hkept, hP⟩ := h.safe dir hdir j hj
  constructor
  · show Function.update d.kept i keep j = true
    rw [Function.update_of_ne hne]
    exact hkept
  · show P (Function.update d.content i data j)
    rw [Function.update_of_ne hne]
    exact hP

theorem Guarded.create [DecidableEq N] (h : d.Guarded P tmp path) (hne : tmp ≠ path) :
    (d.create tmp).Guarded P tmp path := by
  unfold Disk.create
  cases htmp : d.dir tmp with
  | some i => exact h.write htmp [] false
  | none =>
    have hpath : ∀ dir, d.Shows dir → dir path ≠ some d.next := by
      intro dir hdir hnext
      exact absurd (h.fresh dir hdir path d.next hnext) (Nat.lt_irrefl _)
    have hsame : Function.update d.dir tmp (some d.next) path = d.dir path :=
      Function.update_of_ne (Ne.symm hne) _ _
    have hnew : ∀ {n i}, Function.update d.dir tmp (some d.next) n = some i →
        (n = tmp ∧ i = d.next) ∨ d.dir n = some i := by
      intro n i hi
      by_cases hn : n = tmp
      · subst hn
        rw [Function.update_self] at hi
        exact Or.inl ⟨rfl, (Option.some.inj hi).symm⟩
      · rw [Function.update_of_ne hn] at hi
        exact Or.inr hi
    have hback : ∀ dir, (d.link (Function.update d.dir tmp (some d.next))).Shows dir →
        ∀ i, dir path = some i → ∃ dir', d.Shows dir' ∧ dir' path = some i := by
      intro dir hdir i hi
      rcases shows_link hdir with rfl | hold
      · exact ⟨d.dir, shows_self d, hsame ▸ hi⟩
      · exact ⟨dir, hold, hi⟩
    refine ⟨?_, ?_, ?_, ?_⟩
    · intro dir hdir n i hi
      rcases shows_link hdir with hlinked | hold
      · rw [hlinked] at hi
        rcases hnew hi with ⟨-, rfl⟩ | hheld
        · exact Nat.lt_succ_self _
        · exact Nat.lt_succ_of_lt (h.fresh d.dir (shows_self d) n i hheld)
      · exact Nat.lt_succ_of_lt (h.fresh dir hold n i hi)
    · intro dir hdir i hi hi'
      obtain ⟨dir', hdir', hpath'⟩ := hback dir hdir i hi'
      rcases shows_link hdir with hlinked | hold
      · rw [hlinked] at hi
        rcases hnew hi with ⟨-, rfl⟩ | hheld
        · exact hpath dir' hdir' hpath'
        · exact absurd (htmp.symm.trans hheld) nofun
      · exact h.apart dir hold i hi hi'
    · intro i hi dir hdir hi'
      obtain ⟨dir', hdir', hpath'⟩ := hback dir hdir i hi'
      rcases hnew hi with ⟨-, rfl⟩ | hheld
      · exact hpath dir' hdir' hpath'
      · exact absurd (htmp.symm.trans hheld) nofun
    · intro dir hdir i hi
      obtain ⟨dir', hdir', hi'⟩ := hback dir hdir i hi
      have hni : i ≠ d.next := by
        rintro rfl
        exact hpath dir' hdir' hi'
      obtain ⟨hkept, hP⟩ := h.safe dir' hdir' i hi'
      constructor
      · show Function.update d.kept d.next false i = true
        rw [Function.update_of_ne hni]
        exact hkept
      · show P (Function.update d.content d.next [] i)
        rw [Function.update_of_ne hni]
        exact hP

theorem Guarded.append (h : d.Guarded P tmp path) (data : List β) :
    (d.append tmp data).Guarded P tmp path := by
  unfold Disk.append
  cases htmp : d.dir tmp with
  | none => exact h
  | some i => exact h.write htmp (d.content i ++ data) false

theorem Guarded.sync (h : d.Guarded P tmp path) : (d.sync tmp).Guarded P tmp path := by
  unfold Disk.sync
  cases htmp : d.dir tmp with
  | none => exact h
  | some i =>
    have hwrite := h.write htmp (d.content i) true
    rwa [Function.update_eq_self] at hwrite

theorem Guarded.unlink [DecidableEq N] (h : d.Guarded P tmp path) (hne : tmp ≠ path) :
    (d.unlink tmp).Guarded P tmp path := by
  have hsame : Function.update d.dir tmp none path = d.dir path := Function.update_of_ne (Ne.symm hne) _ _
  refine ⟨?_, ?_, ?_, ?_⟩
  · intro dir hdir n i hi
    rcases shows_link hdir with rfl | hold
    · by_cases hn : n = tmp
      · subst hn
        rw [Function.update_self] at hi
        cases hi
      · rw [Function.update_of_ne hn] at hi
        exact h.fresh d.dir (shows_self d) n i hi
    · exact h.fresh dir hold n i hi
  · intro dir hdir i hi
    rcases shows_link hdir with rfl | hold
    · rw [Function.update_self] at hi
      cases hi
    · exact h.apart dir hold i hi
  · intro i hi
    change Function.update d.dir tmp none tmp = some i at hi
    rw [Function.update_self] at hi
    cases hi
  · intro dir hdir i hi
    rcases shows_link hdir with rfl | hold
    · rw [hsame] at hi
      exact h.safe d.dir (shows_self d) i hi
    · exact h.safe dir hold i hi

/-- The replacement: what is renamed is kept, and its content is one that `path` may show. -/
theorem Guarded.rename [DecidableEq N] (h : d.Guarded P tmp path) (hne : tmp ≠ path)
    (hready : ∀ i, d.dir tmp = some i → d.kept i = true ∧ P (d.content i)) :
    (d.rename tmp path).Guarded P tmp path := by
  unfold Disk.rename
  cases htmp : d.dir tmp with
  | none => exact h
  | some i =>
    have hgone : Function.update (Function.update d.dir tmp none) path (some i) tmp = none := by
      rw [Function.update_of_ne hne, Function.update_self]
    refine ⟨?_, ?_, ?_, ?_⟩
    · intro dir hdir n j hj
      rcases shows_link hdir with rfl | hold
      · by_cases hpath : n = path
        · subst hpath
          rw [Function.update_self] at hj
          cases hj
          exact h.fresh d.dir (shows_self d) tmp i htmp
        · rw [Function.update_of_ne hpath] at hj
          by_cases hn : n = tmp
          · subst hn
            rw [Function.update_self] at hj
            cases hj
          · rw [Function.update_of_ne hn] at hj
            exact h.fresh d.dir (shows_self d) n j hj
      · exact h.fresh dir hold n j hj
    · intro dir hdir j hj
      rcases shows_link hdir with rfl | hold
      · rw [hgone] at hj
        cases hj
      · exact h.apart dir hold j hj
    · intro j hj
      change Function.update (Function.update d.dir tmp none) path (some i) tmp = some j at hj
      rw [hgone] at hj
      cases hj
    · intro dir hdir j hj
      rcases shows_link hdir with rfl | hold
      · rw [Function.update_self] at hj
        cases hj
        exact hready i htmp
      · exact h.safe dir hold j hj

theorem shows_syncDir {dir : N → Option Nat} (h : d.syncDir.Shows dir) : d.Shows dir := by
  rw [List.mem_singleton.mp h]
  exact shows_self d

theorem Guarded.syncDir (h : d.Guarded P tmp path) : d.syncDir.Guarded P tmp path :=
  ⟨fun dir hdir => h.fresh dir (shows_syncDir hdir), fun dir hdir => h.apart dir (shows_syncDir hdir),
    fun i hi dir hdir => h.clear i hi dir (shows_syncDir hdir), fun dir hdir => h.safe dir (shows_syncDir hdir)⟩

/-- What a loss of power brings back is one of the directories that it may bring back. -/
theorem shows_crash {which : Nat} {garbage : Nat → List β} {dir : N → Option Nat}
    (h : (d.crash which garbage).Shows dir) : d.Shows dir := by
  rw [List.mem_singleton.mp h]
  show (d.dir :: d.past).getD which d.dir ∈ d.dir :: d.past
  rw [List.getD_eq_getElem?_getD]
  cases hget : (d.dir :: d.past)[which]? with
  | none => exact shows_self d
  | some dir' => exact List.mem_of_getElem? hget

theorem Guarded.crash (h : d.Guarded P tmp path) (which : Nat) (garbage : Nat → List β) :
    (d.crash which garbage).Guarded P tmp path := by
  have hback : d.Shows (d.crash which garbage).dir := shows_crash (shows_self _)
  refine ⟨fun dir hdir => h.fresh dir (shows_crash hdir), fun dir hdir => h.apart dir (shows_crash hdir),
    ?_, ?_⟩
  · intro i hi dir hdir
    rw [List.mem_singleton.mp hdir]
    exact h.apart _ hback i hi
  · intro dir hdir i hi
    obtain ⟨hkept, hP⟩ := h.safe dir (shows_crash hdir) i hi
    refine ⟨rfl, ?_⟩
    show P (if d.kept i then d.content i else garbage i)
    rw [hkept, if_pos rfl]
    exact hP

theorem Guarded.imp {Q : List β → Prop} (h : d.Guarded P tmp path) (himp : ∀ x, P x → Q x) :
    d.Guarded Q tmp path :=
  ⟨h.fresh, h.apart, h.clear, fun dir hdir i hi => (h.safe dir hdir i hi).imp id (himp _)⟩

/-! ## The file being written -/

/-- The file under `tmp` has been written this far. -/
def Holds (tmp : N) (data : List β) (d : Disk N β) : Prop := ∃ i, d.dir tmp = some i ∧ d.content i = data

theorem holds_create [DecidableEq N] (d : Disk N β) (tmp : N) : (d.create tmp).Holds tmp [] := by
  unfold Disk.create
  cases htmp : d.dir tmp with
  | some i => exact ⟨i, htmp, Function.update_self _ _ _⟩
  | none => exact ⟨d.next, Function.update_self _ _ _, Function.update_self _ _ _⟩

theorem Holds.append {data : List β} (h : d.Holds tmp data) (more : List β) :
    (d.append tmp more).Holds tmp (data ++ more) := by
  obtain ⟨i, htmp, rfl⟩ := h
  unfold Disk.append
  rw [htmp]
  exact ⟨i, htmp, Function.update_self _ _ _⟩

/-- Renamed, the name that is replaced has a file. -/
theorem Holds.rename [DecidableEq N] {data : List β} (h : d.Holds tmp data) (path : N) :
    ((d.rename tmp path).dir path).isSome = true := by
  obtain ⟨i, htmp, -⟩ := h
  unfold Disk.rename
  rw [htmp]
  show (Function.update (Function.update d.dir tmp none) path (some i) path).isSome = true
  rw [Function.update_self]
  rfl

theorem Holds.synced {data : List β} (h : d.Holds tmp data) : (d.sync tmp).Holds tmp data := by
  obtain ⟨i, htmp, hdata⟩ := h
  unfold Disk.sync
  rw [htmp]
  exact ⟨i, htmp, hdata⟩

/-- Synchronised, it is ready to be renamed. -/
theorem Holds.sync {data : List β} (h : d.Holds tmp data) (hP : P data) :
    ∀ i, (d.sync tmp).dir tmp = some i → (d.sync tmp).kept i = true ∧ P ((d.sync tmp).content i) := by
  obtain ⟨j, htmp, rfl⟩ := h
  unfold Disk.sync
  rw [htmp]
  intro i hi
  cases htmp.symm.trans hi
  exact ⟨Function.update_self _ _ _, hP⟩

/-! ## Replacing a file -/

/-- The operations of a replacement: on `tmp` anything, and the rename when `tmp` is ready. -/
def Permits (P : List β → Prop) (tmp path : N) (d : Disk N β) : Op N β → Prop
  | .create n | .append n _ | .sync n | .unlink n => n = tmp
  | .rename a b => a = tmp ∧ b = path ∧ ∀ i, d.dir tmp = some i → d.kept i = true ∧ P (d.content i)
  | .syncDir => True

theorem Guarded.step [DecidableEq N] (h : d.Guarded P tmp path) (hne : tmp ≠ path) {op : Op N β}
    (hop : d.Permits P tmp path op) : (d.step op).Guarded P tmp path := by
  cases op with
  | create n =>
    cases hop
    exact h.create hne
  | append n data =>
    cases hop
    exact h.append data
  | sync n =>
    cases hop
    exact h.sync
  | unlink n =>
    cases hop
    exact h.unlink hne
  | rename a b =>
    obtain ⟨rfl, rfl, hready⟩ := hop
    exact h.rename hne hready
  | syncDir => exact h.syncDir

theorem Guarded.run [DecidableEq N] (h : d.Guarded P tmp path) (hne : tmp ≠ path) {ops : List (Op N β)}
    (hops : Runs.Along Disk.step (Permits P tmp path) d ops) :
    (Runs.run Disk.step d ops).Guarded P tmp path :=
  Runs.run_invariant (I := fun d => d.Guarded P tmp path) (fun _ _ hd hop => hd.step hne hop) h hops

/-- The file as it is written: created, appended to piece by piece. -/
theorem written [DecidableEq N] (P : List β → Prop) (tmp path : N) (d : Disk N β) (parts : List (List β)) :
    Runs.Along Disk.step (Permits P tmp path) d (.create tmp :: parts.map (Op.append tmp)) ∧
      (Runs.run Disk.step d (.create tmp :: parts.map (Op.append tmp))).Holds tmp parts.flatten := by
  have happends : ∀ (d : Disk N β) (data : List β), d.Holds tmp data →
      Runs.Along Disk.step (Permits P tmp path) d (parts.map (Op.append tmp)) ∧
        (Runs.run Disk.step d (parts.map (Op.append tmp))).Holds tmp (data ++ parts.flatten) := by
    induction parts with
    | nil =>
      intro d data hd
      rw [List.flatten_nil, List.append_nil]
      exact ⟨trivial, hd⟩
    | cons part parts ih =>
      intro d data hd
      obtain ⟨halong, hholds⟩ := ih (d.append tmp part) (data ++ part) (hd.append part)
      rw [List.append_assoc] at hholds
      exact ⟨⟨rfl, halong⟩, hholds⟩
  obtain ⟨halong, hholds⟩ := happends (d.create tmp) [] (holds_create d tmp)
  exact ⟨⟨rfl, halong⟩, hholds⟩

/-! ## A name that is never given up -/

theorem Present.link (h : d.Present path) {dir : N → Option Nat} (hdir : (dir path).isSome = true) :
    (d.link dir).Present path := by
  intro dir' hdir'
  rcases shows_link hdir' with rfl | hold
  · exact hdir
  · exact h dir' hold

/-- No operation on the other name, and no replacement, takes `path` away. -/
theorem Present.step [DecidableEq N] (h : d.Present path) (hne : tmp ≠ path) {op : Op N β}
    (hop : d.Permits P tmp path op) : (d.step op).Present path := by
  have hother : ∀ x, (Function.update d.dir tmp x path).isSome = true := by
    intro x
    rw [Function.update_of_ne (Ne.symm hne)]
    exact h d.dir (shows_self d)
  cases op with
  | create n =>
    cases hop
    show (d.create tmp).Present path
    unfold Disk.create
    cases d.dir tmp with
    | some i => exact h
    | none => exact h.link (hother _)
  | append n data =>
    show (d.append n data).Present path
    unfold Disk.append
    cases d.dir n with
    | some i => exact h
    | none => exact h
  | sync n =>
    show (d.sync n).Present path
    unfold Disk.sync
    cases d.dir n with
    | some i => exact h
    | none => exact h
  | unlink n =>
    cases hop
    exact h.link (hother _)
  | rename a b =>
    obtain ⟨rfl, rfl, -⟩ := hop
    show (d.rename a b).Present b
    unfold Disk.rename
    cases d.dir a with
    | none => exact h
    | some i =>
      apply h.link
      rw [Function.update_self]
      rfl
  | syncDir => exact fun dir hdir => h dir (shows_syncDir hdir)

theorem Present.run [DecidableEq N] (h : d.Present path) (hne : tmp ≠ path) {ops : List (Op N β)}
    (hops : Runs.Along Disk.step (Permits P tmp path) d ops) : (Runs.run Disk.step d ops).Present path :=
  Runs.run_invariant (I := fun d => d.Present path) (fun _ _ hd hop => hd.step hne hop) h hops

theorem Present.crash (h : d.Present path) (which : Nat) (garbage : Nat → List β) :
    (d.crash which garbage).Present path :=
  fun dir hdir => h dir (shows_crash hdir)

/-- Once the directory is synchronised the name that it has is there for good. -/
theorem present_syncDir (h : (d.dir path).isSome = true) : d.syncDir.Present path := by
  intro dir hdir
  rw [List.mem_singleton.mp hdir]
  exact h

end Disk

end MicrostructureEngine.Durable
