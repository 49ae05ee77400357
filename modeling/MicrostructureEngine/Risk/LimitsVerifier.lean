import MicrostructureEngine.Lib.BlockStream
import MicrostructureEngine.Lib.Outputs
import MicrostructureEngine.Risk.Engine

/-!
# Verified limits

`limits_verifier.hpp`: the running digest `Sha256`, which takes its input in pieces of any length,
and the check of the limits file that a desk makes before it starts. However the input is cut, the
digest is the one of the padded message, block by block; the file passes exactly if all of it could
be read and its digest is the expected one.
-/

namespace MicrostructureEngine.Risk

set_option autoImplicit false
open BlockStream (Absorber absorbAll blocks place)

/-! ## Blocks -/

/-- The working variables of a block, and the words `h_` between two blocks. -/
structure HashWords where
  a : UInt32
  b : UInt32
  c : UInt32
  d : UInt32
  e : UInt32
  f : UInt32
  g : UInt32
  z : UInt32
  deriving DecidableEq, Repr

def HashWords.initial : HashWords :=
  { a := 0x6a09e667, b := 0xbb67ae85, c := 0x3c6ef372, d := 0xa54ff53a,
    e := 0x510e527f, f := 0x9b05688c, g := 0x1f83d9ab, z := 0x5be0cd19 }

def HashWords.toList (h : HashWords) : List UInt32 := [h.a, h.b, h.c, h.d, h.e, h.f, h.g, h.z]

def roundConstants : List UInt32 :=
  [0x428a2f98, 0x71374491, 0xb5c0fbcf, 0xe9b5dba5, 0x3956c25b, 0x59f111f1, 0x923f82a4, 0xab1c5ed5,
   0xd807aa98, 0x12835b01, 0x243185be, 0x550c7dc3, 0x72be5d74, 0x80deb1fe, 0x9bdc06a7, 0xc19bf174,
   0xe49b69c1, 0xefbe4786, 0x0fc19dc6, 0x240ca1cc, 0x2de92c6f, 0x4a7484aa, 0x5cb0a9dc, 0x76f988da,
   0x983e5152, 0xa831c66d, 0xb00327c8, 0xbf597fc7, 0xc6e00bf3, 0xd5a79147, 0x06ca6351, 0x14292967,
   0x27b70a85, 0x2e1b2138, 0x4d2c6dfc, 0x53380d13, 0x650a7354, 0x766a0abb, 0x81c2c92e, 0x92722c85,
   0xa2bfe8a1, 0xa81a664b, 0xc24b8b70, 0xc76c51a3, 0xd192e819, 0xd6990624, 0xf40e3585, 0x106aa070,
   0x19a4c116, 0x1e376c08, 0x2748774c, 0x34b0bcb5, 0x391c0cb3, 0x4ed8aa4a, 0x5b9cca4f, 0x682e6ff3,
   0x748f82ee, 0x78a5636f, 0x84c87814, 0x8cc70208, 0x90befffa, 0xa4506ceb, 0xbef9a3f7, 0xc67178f2]

def ro (x : UInt32) (n : UInt32) : UInt32 := (x >>> n) ||| (x <<< (32 - n))

def blockWord (p : List UInt8) (i : Nat) : UInt32 :=
  ((p.getD (i * 4) 0).toUInt32 <<< 24) ||| ((p.getD (i * 4 + 1) 0).toUInt32 <<< 16) |||
    ((p.getD (i * 4 + 2) 0).toUInt32 <<< 8) ||| (p.getD (i * 4 + 3) 0).toUInt32

/-- `w[i]`, from the words in front of it. -/
def nextWord (w : List UInt32) : UInt32 :=
  let far := w.getD (w.length - 15) 0
  let near := w.getD (w.length - 2) 0
  w.getD (w.length - 16) 0 + (ro far 7 ^^^ ro far 18 ^^^ (far >>> 3)) + w.getD (w.length - 7) 0 +
    (ro near 17 ^^^ ro near 19 ^^^ (near >>> 10))

def schedule (p : List UInt8) : List UInt32 :=
  (List.range 48).foldl (fun w _ => w ++ [nextWord w]) ((List.range 16).map (blockWord p))

def turnWords (h : HashWords) (kw : UInt32 × UInt32) : HashWords :=
  let t1 := h.z + (ro h.e 6 ^^^ ro h.e 11 ^^^ ro h.e 25) + ((h.e &&& h.f) ^^^ (~~~h.e &&& h.g)) + kw.1 + kw.2
  let t2 := (ro h.a 2 ^^^ ro h.a 13 ^^^ ro h.a 22) + ((h.a &&& h.b) ^^^ (h.a &&& h.c) ^^^ (h.b &&& h.c))
  { a := t1 + t2, b := h.a, c := h.b, d := h.c, e := h.d + t1, f := h.e, g := h.f, z := h.g }

def block (h : HashWords) (p : List UInt8) : HashWords :=
  let v := (roundConstants.zip (schedule p)).foldl turnWords h
  { a := h.a + v.a, b := h.b + v.b, c := h.c + v.c, d := h.d + v.d,
    e := h.e + v.e, f := h.f + v.f, g := h.g + v.g, z := h.z + v.z }

/-- The words of a digest, each with its high byte first. -/
def digestBytes (h : HashWords) : List UInt8 :=
  h.toList.flatMap fun w => (List.range 4).map fun j => (w >>> UInt32.ofNat (24 - j * 8)).toUInt8

def lengthBytes (bits : UInt64) : List UInt8 :=
  (List.range 8).map fun i => (bits >>> UInt64.ofNat ((7 - i) * 8)).toUInt8

@[simp] theorem length_lengthBytes (bits : UInt64) : (lengthBytes bits).length = 8 := rfl

/-! ## The running digest -/

structure Sha256 where
  h : HashWords
  buf : List UInt8
  digest : List UInt8
  used : Nat
  bytes : UInt64
  done : Bool

namespace Sha256

def new : Sha256 :=
  { h := .initial, buf := List.replicate 64 0, digest := List.replicate 32 0, used := 0, bytes := 0, done := false }

/-- Bytes written into the buffer behind those it holds. -/
def put (x : Sha256) (bytes : List UInt8) : Sha256 :=
  { x with buf := place x.buf x.used bytes, used := x.used + bytes.length }

def flush (x : Sha256) : Sha256 := { x with h := block x.h x.buf, used := 0 }

/-- What a turn of the loop of `update` does with the bytes it takes. -/
def fill (x : Sha256) (bytes : List UInt8) : Sha256 :=
  if x.used + bytes.length = 64 then (x.put bytes).flush else x.put bytes

/-- As many bytes as fit into the buffer, at least one. -/
def fits (x : Sha256) (data : List UInt8) : Nat :=
  if data.length < 64 - x.used then data.length else 64 - x.used

def updateLoop : Nat → Sha256 → List UInt8 → Sha256
  | 0, x, _ => x
  | fuel + 1, x, data =>
    if data.isEmpty then x
    else updateLoop fuel (x.fill (data.take (x.fits data))) (data.drop (x.fits data))

def update (x : Sha256) (data : List UInt8) : Sha256 × Bool :=
  if x.done then (x, false)
  else (updateLoop data.length { x with bytes := x.bytes + UInt64.ofNat data.length } data, true)

def finish (x : Sha256) : Sha256 × List UInt8 :=
  if x.done then (x, x.digest)
  else
    let bits := x.bytes * 8
    let marked := x.put [0x80]
    let opened := if marked.used > 56 then (marked.put (List.replicate (64 - marked.used) 0)).flush else marked
    let filled := opened.put (List.replicate (56 - opened.used) 0)
    let last := filled.put (lengthBytes bits)
    let h := block last.h last.buf
    ({ last with h := h, digest := digestBytes h, done := true }, digestBytes h)

end Sha256

def sha256 (s : List UInt8) : List UInt8 := ((Sha256.new.update s).1.finish).2

def verify (bytes expected : List UInt8) (l : Limits) (approved : Bool) : Bool :=
  selfTest l && (approved || sha256 bytes == expected)

/-- A file as it can be read: the bytes in front of its end or of a read error. -/
structure LimitsFile where
  bytes : List UInt8
  readError : Bool
  closes : Bool

/-- Nothing is handed over when nothing was read. -/
def Sha256.takeRead (x : Sha256) (got : List UInt8) : Sha256 × Bool :=
  if got.isEmpty then (x, true) else x.update got

/-- The read loop of `verify_file`; a read that comes back short is the last one. -/
def readLoop : Nat → Sha256 → List UInt8 → Sha256 × Bool
  | 0, x, _ => (x, false)
  | fuel + 1, x, rest =>
    let got := rest.take 4096
    let y := x.takeRead got
    if !y.2 then (y.1, false)
    else if got.length < 4096 then (y.1, true)
    else readLoop fuel y.1 (rest.drop 4096)

def verifyFile (opens : String → Option LimitsFile) (path : Option String) (expected : List UInt8) (l : Limits) :
    Bool :=
  match path with
  | none => false
  | some path =>
    if !selfTest l then false
    else
      match opens path with
      | none => false
      | some f =>
        let x := readLoop (f.bytes.length + 1) .new f.bytes
        let ok := x.2 && !f.readError
        let ok := ok && f.closes
        ok && x.1.finish.2 == expected

/-! ## The padded message -/

/-- A marker, zeros, and the length in bits; what is padded ends with a block. -/
def padding (length : Nat) : List UInt8 :=
  0x80 :: (List.replicate ((119 - length % 64) % 64) 0 ++ lengthBytes (UInt64.ofNat length * 8))

/-- The digest of a message, from the blocks of the padded message. -/
def messageDigest (msg : List UInt8) : List UInt8 :=
  digestBytes ((blocks 64 (msg ++ padding msg.length)).foldl block .initial)

def Sha256.fresh : Absorber HashWords UInt8 64 := ⟨.initial, [], Nat.zero_lt_succ 63⟩

theorem padded_length (msg : List UInt8) : ∃ count, (msg ++ padding msg.length).length = 64 * count := by
  have hlength : (msg ++ padding msg.length).length = msg.length + ((119 - msg.length % 64) % 64 + 9) := by
    unfold padding
    rw [List.length_append, List.length_cons, List.length_append, List.length_replicate, length_lengthBytes]
  refine ⟨(msg.length + ((119 - msg.length % 64) % 64 + 9)) / 64, ?_⟩
  rw [hlength]
  omega

/-- The digest, with the message absorbed byte by byte. -/
theorem messageDigest_eq (msg : List UInt8) :
    messageDigest msg =
      digestBytes (absorbAll block (absorbAll block Sha256.fresh msg) (padding msg.length)).state := by
  obtain ⟨count, hcount⟩ := padded_length msg
  have hblocks := (BlockStream.absorbAll_blocks block count .initial (Nat.zero_lt_succ 63) _ hcount).1
  unfold messageDigest
  rw [← BlockStream.absorbAll_append]
  exact congrArg digestBytes hblocks.symm

namespace Sha256

/-! ## The buffer as a block in the making -/

/-- What the buffer holds is what is pending of the stream `a`. -/
structure Views (x : Sha256) (a : Absorber HashWords UInt8 64) : Prop where
  size : x.buf.length = 64
  state : a.state = x.h
  pending : a.pending = x.buf.take x.used
  room : x.used < 64

variable {x : Sha256} {a : Absorber HashWords UInt8 64} {msg data : List UInt8}

theorem Views.length (h : x.Views a) : a.pending.length = x.used := by
  rw [h.pending, List.length_take, h.size]
  exact Nat.min_eq_left (Nat.le_of_lt h.room)

theorem Views.put (h : x.Views a) (hroom : x.used + data.length < 64) :
    (x.put data).Views (absorbAll block a data) := by
  obtain ⟨hstate, hpending⟩ := BlockStream.absorbAll_short block a data (by rwa [h.length])
  have hused : x.used ≤ x.buf.length := by
    rw [h.size]
    exact Nat.le_of_lt h.room
  exact
    { size := (BlockStream.length_place (by rw [h.size]; omega)).trans h.size
      state := hstate.trans h.state
      pending := by
        rw [hpending, h.pending]
        exact (BlockStream.take_place hused).symm
      room := hroom }

/-- The block that is full once `data` is written. -/
theorem Views.block_put (h : x.Views a) (hfull : x.used + data.length = 64) :
    (absorbAll block a data).state = block x.h (x.put data).buf ∧ (absorbAll block a data).pending = [] := by
  obtain ⟨hstate, hpending⟩ := BlockStream.absorbAll_full block a data (by rwa [h.length])
  have hused : x.used ≤ x.buf.length := by
    rw [h.size]
    exact Nat.le_of_lt h.room
  have hbuffer : (x.put data).buf = x.buf.take x.used ++ data := by
    rw [← BlockStream.take_place hused, hfull]
    symm
    apply List.take_of_length_le
    rw [BlockStream.length_place (by rw [h.size]; omega), h.size]
  rw [hbuffer, hstate, h.state, h.pending]
  exact ⟨rfl, hpending⟩

theorem Views.flush (h : x.Views a) (hfull : x.used + data.length = 64) :
    (x.put data).flush.Views (absorbAll block a data) := by
  obtain ⟨hstate, hpending⟩ := h.block_put hfull
  exact
    { size := (BlockStream.length_place (by rw [h.size]; omega)).trans h.size
      state := hstate
      pending := hpending
      room := Nat.zero_lt_succ 63 }

theorem put_put (h : x.used ≤ x.buf.length) (xs ys : List UInt8) : (x.put xs).put ys = x.put (xs ++ ys) := by
  unfold put
  simp only [BlockStream.place_append h, List.length_append, Nat.add_assoc]

/-! ## Pieces -/

theorem fill_frame (x : Sha256) (bytes : List UInt8) : (x.fill bytes).bytes = x.bytes ∧ (x.fill bytes).done = x.done := by
  unfold fill
  split
  · unfold flush put
    exact ⟨rfl, rfl⟩
  · unfold put
    exact ⟨rfl, rfl⟩

theorem updateLoop_frame (fuel : Nat) (x : Sha256) (data : List UInt8) :
    (updateLoop fuel x data).bytes = x.bytes ∧ (updateLoop fuel x data).done = x.done := by
  induction fuel generalizing x data with
  | zero => exact ⟨rfl, rfl⟩
  | succ fuel ih =>
    unfold updateLoop
    split
    case isTrue => exact ⟨rfl, rfl⟩
    case isFalse =>
      obtain ⟨hbytes, hdone⟩ := ih (x.fill (data.take (x.fits data))) (data.drop (x.fits data))
      obtain ⟨hturnBytes, hturnDone⟩ := fill_frame x (data.take (x.fits data))
      exact ⟨hbytes.trans hturnBytes, hdone.trans hturnDone⟩

theorem fits_le (x : Sha256) (data : List UInt8) : x.fits data ≤ data.length ∧ x.fits data ≤ 64 - x.used := by
  unfold fits
  split
  all_goals omega

theorem fits_pos (hroom : x.used < 64) (hdata : data ≠ []) : 0 < x.fits data := by
  have hpos : 0 < data.length := List.length_pos_iff.mpr hdata
  unfold fits
  split
  all_goals omega

theorem Views.fill (h : x.Views a) (hroom : x.used + data.length ≤ 64) :
    (x.fill data).Views (absorbAll block a data) := by
  unfold Sha256.fill
  split
  case isTrue hfull => exact h.flush hfull
  case isFalse hopen => exact h.put (Nat.lt_of_le_of_ne hroom hopen)

/-- Every turn of the loop takes a byte at least, so that as many turns as bytes are enough. -/
theorem Views.updateLoop (fuel : Nat) :
    ∀ (x : Sha256) (a : Absorber HashWords UInt8 64) (data : List UInt8), data.length ≤ fuel → x.Views a →
      (Sha256.updateLoop fuel x data).Views (absorbAll block a data) := by
  induction fuel with
  | zero =>
    intro x a data hfuel h
    rw [List.length_eq_zero_iff.mp (Nat.le_zero.mp hfuel)]
    exact h
  | succ fuel ih =>
    intro x a data hfuel h
    unfold Sha256.updateLoop
    split
    case isTrue hempty =>
      rw [List.isEmpty_iff.mp hempty]
      exact h
    case isFalse hmore =>
      have hroom := h.room
      have hpos : 0 < x.fits data := fits_pos hroom fun hnil => hmore (List.isEmpty_iff.mpr hnil)
      obtain ⟨hdata, hbuffer⟩ := fits_le x data
      have hturn : (x.fill (data.take (x.fits data))).Views (absorbAll block a (data.take (x.fits data))) := by
        apply h.fill
        rw [List.length_take]
        omega
      have hall := BlockStream.absorbAll_append block a (data.take (x.fits data)) (data.drop (x.fits data))
      rw [List.take_append_drop] at hall
      rw [hall]
      apply ih _ _ _ _ hturn
      rw [List.length_drop]
      omega

/-- The digest in the making has taken exactly `msg`. -/
structure Holds (x : Sha256) (msg : List UInt8) : Prop where
  views : x.Views (absorbAll block fresh msg)
  count : x.bytes = UInt64.ofNat msg.length
  running : x.done = false

theorem new_holds : Sha256.new.Holds [] where
  views := ⟨rfl, rfl, rfl, Nat.zero_lt_succ 63⟩
  count := rfl
  running := rfl

theorem Holds.update (h : x.Holds msg) (data : List UInt8) :
    (x.update data).2 = true ∧ (x.update data).1.Holds (msg ++ data) := by
  unfold Sha256.update
  rw [if_neg (by rw [h.running]; exact Bool.false_ne_true)]
  obtain ⟨hbytes, hdone⟩ :=
    updateLoop_frame data.length { x with bytes := x.bytes + UInt64.ofNat data.length } data
  have hviews : { x with bytes := x.bytes + UInt64.ofNat data.length }.Views (absorbAll block fresh msg) :=
    ⟨h.views.size, h.views.state, h.views.pending, h.views.room⟩
  refine ⟨rfl, ?_, ?_, hdone.trans h.running⟩
  · rw [BlockStream.absorbAll_append]
    exact hviews.updateLoop data.length _ _ data (Nat.le_refl _)
  · rw [hbytes, List.length_append, UInt64.ofNat_add, ← h.count]

/-! ## The last block -/

theorem finish_done (h : x.done = false) : x.finish.1.done = true ∧ x.finish.1.digest = x.finish.2 := by
  unfold finish
  rw [if_neg (by rw [h]; exact Bool.false_ne_true)]
  exact ⟨rfl, rfl⟩

/-- The bytes written behind the message are the padding; a block that the marker and the zeros
fill goes in front of the one with the length. -/
theorem Holds.finish (h : x.Holds msg) : x.finish.2 = messageDigest msg := by
  have hviews := h.views
  have hroom := hviews.room
  have hbuffer : x.used ≤ x.buf.length := by
    rw [hviews.size]
    exact Nat.le_of_lt hroom
  have hused : x.used = msg.length % 64 := by
    rw [← hviews.length, BlockStream.length_pending]
    exact congrArg (· % 64) (Nat.zero_add _)
  have hbits : x.bytes * 8 = UInt64.ofNat msg.length * 8 := congrArg (· * 8) h.count
  have hmarked : (x.put [0x80]).used = x.used + 1 := rfl
  rw [messageDigest_eq]
  unfold Sha256.finish
  rw [if_neg (by rw [h.running]; exact Bool.false_ne_true), hbits]
  dsimp only
  apply congrArg digestBytes
  symm
  split
  case isTrue hlate =>
    -- The length does not fit any more: the zeros fill this block, and 56 of them start the next.
    rw [hmarked] at hlate
    have hzeros : (119 - msg.length % 64) % 64 = (64 - (x.used + 1)) + 56 := by omega
    rw [hmarked, put_put hbuffer]
    have hfirst : x.used + ([0x80] ++ List.replicate (64 - (x.used + 1)) (0 : UInt8)).length = 64 := by
      rw [List.length_append, List.length_singleton, List.length_replicate]
      omega
    have hopened := hviews.flush hfirst
    have hempty : (x.put ([0x80] ++ List.replicate (64 - (x.used + 1)) 0)).flush.used = 0 := rfl
    have hlast : (x.put ([0x80] ++ List.replicate (64 - (x.used + 1)) 0)).flush.used +
        (List.replicate 56 0 ++ lengthBytes (UInt64.ofNat msg.length * 8)).length = 64 := by
      rw [List.length_append, List.length_replicate, length_lengthBytes]
      rfl
    have hpadding : padding msg.length = ([0x80] ++ List.replicate (64 - (x.used + 1)) 0) ++
        (List.replicate 56 0 ++ lengthBytes (UInt64.ofNat msg.length * 8)) := by
      unfold padding
      rw [hzeros, List.replicate_add, List.append_assoc, List.append_assoc]
      rfl
    rw [hempty, put_put (by rw [hempty]; exact Nat.zero_le _), hpadding, BlockStream.absorbAll_append]
    exact (hopened.block_put hlast).1
  case isFalse hearly =>
    rw [hmarked] at hearly
    have hzeros : (119 - msg.length % 64) % 64 = 56 - (x.used + 1) := by omega
    have hlast : x.used + ([0x80] ++ (List.replicate (56 - (x.used + 1)) 0 ++
        lengthBytes (UInt64.ofNat msg.length * 8))).length = 64 := by
      rw [List.length_append, List.length_append, List.length_singleton, List.length_replicate, length_lengthBytes]
      omega
    have hpadding : padding msg.length = [0x80] ++ (List.replicate (56 - (x.used + 1)) 0 ++
        lengthBytes (UInt64.ofNat msg.length * 8)) := by
      unfold padding
      rw [hzeros]
      rfl
    rw [hmarked, put_put hbuffer, put_put hbuffer, List.append_assoc, hpadding]
    exact (hviews.block_put hlast).1

end Sha256

/-! ## Calls in any order -/

inductive DigestCall where
  | update (data : List UInt8)
  | finish

inductive DigestAnswer where
  | taken (accepted : Bool)
  | digest (bytes : List UInt8)

def Sha256.call (x : Sha256) : DigestCall → DigestAnswer × Sha256
  | .update data => (.taken (x.update data).2, (x.update data).1)
  | .finish => (.digest x.finish.2, x.finish.1)

/-- What the digest is for: a message that grows until it is sealed, and its digest. -/
structure Message where
  text : List UInt8
  isSealed : Bool

def Message.call (m : Message) : DigestCall → DigestAnswer × Message
  | .update data =>
    if m.isSealed then (.taken false, m) else (.taken true, { m with text := m.text ++ data })
  | .finish => (.digest (messageDigest m.text), { m with isSealed := true })

/-- An open digest has taken the text; a sealed one keeps its answer. -/
def Sha256.Stands (x : Sha256) (m : Message) : Prop :=
  (m.isSealed = false ∧ x.Holds m.text) ∨ (m.isSealed = true ∧ x.done = true ∧ x.digest = messageDigest m.text)

theorem Sha256.Stands.call {x : Sha256} {m : Message} (h : x.Stands m) (c : DigestCall) :
    (x.call c).1 = (m.call c).1 ∧ (x.call c).2.Stands (m.call c).2 := by
  rcases h with ⟨hopen, hholds⟩ | ⟨hsealed, hdone, hdigest⟩
  · cases c with
    | update data =>
      obtain ⟨htaken, hnext⟩ := hholds.update data
      have hcall : m.call (.update data) = (.taken true, { m with text := m.text ++ data }) := by
        unfold Message.call
        exact if_neg (by rw [hopen]; exact Bool.false_ne_true)
      rw [hcall]
      exact ⟨congrArg DigestAnswer.taken htaken, .inl ⟨hopen, hnext⟩⟩
    | finish =>
      obtain ⟨hdone, hdigest⟩ := Sha256.finish_done hholds.running
      exact ⟨congrArg DigestAnswer.digest hholds.finish, .inr ⟨rfl, hdone, hdigest.trans hholds.finish⟩⟩
  · cases c with
    | update data =>
      have hupdate : x.update data = (x, false) := if_pos hdone
      have hcode : x.call (.update data) = (.taken false, x) :=
        congrArg (fun y : Sha256 × Bool => (DigestAnswer.taken y.2, y.1)) hupdate
      have hcall : m.call (.update data) = (.taken false, m) := if_pos hsealed
      rw [hcall, hcode]
      exact ⟨rfl, .inr ⟨hsealed, hdone, hdigest⟩⟩
    | finish =>
      have hfinish : x.finish = (x, x.digest) := if_pos hdone
      have hcode : x.call .finish = (.digest x.digest, x) :=
        congrArg (fun y : Sha256 × List UInt8 => (DigestAnswer.digest y.2, y.1)) hfinish
      rw [hcode]
      exact ⟨congrArg DigestAnswer.digest hdigest, .inr ⟨rfl, hdone, hdigest⟩⟩

/-- However a message is cut into pieces and whatever is called when, the running digest answers
like the message it stands for: its pieces are taken until the first `finish`, and every `finish`
gives the digest of the padded message. -/
theorem digest_of_pieces (calls : List DigestCall) :
    Outputs.outputs Sha256.call .new calls = Outputs.outputs Message.call ⟨[], false⟩ calls := by
  apply (Outputs.outputs_of_simulation (R := Sha256.Stands) ?_ ?_ calls).1
  · intro x m c h
    exact h.call c
  · exact .inl ⟨rfl, Sha256.new_holds⟩

/-! ## The limits file -/

theorem sha256_eq (s : List UInt8) : sha256 s = messageDigest s := by
  have hnext := (Sha256.new_holds.update s).2
  rw [List.nil_append] at hnext
  exact hnext.finish

/-- Sound limits pass with an approval, or with the digest that is expected. -/
theorem verify_iff (bytes expected : List UInt8) (l : Limits) (approved : Bool) :
    verify bytes expected l approved = true ↔
      selfTest l = true ∧ (approved = true ∨ messageDigest bytes = expected) := by
  unfold verify
  rw [sha256_eq, Bool.and_eq_true, Bool.or_eq_true, beq_iff_eq]

theorem Sha256.Holds.takeRead {x : Sha256} {msg : List UInt8} (h : x.Holds msg) (got : List UInt8) :
    (x.takeRead got).2 = true ∧ (x.takeRead got).1.Holds (msg ++ got) := by
  unfold Sha256.takeRead
  split
  case isTrue hempty =>
    rw [List.isEmpty_iff.mp hempty, List.append_nil]
    exact ⟨rfl, h⟩
  case isFalse => exact h.update got

/-- The read loop takes the whole file. -/
theorem readLoop_holds (fuel : Nat) :
    ∀ (x : Sha256) (msg rest : List UInt8), rest.length < fuel → x.Holds msg →
      (readLoop fuel x rest).2 = true ∧ (readLoop fuel x rest).1.Holds (msg ++ rest) := by
  induction fuel with
  | zero => exact fun _ _ _ hfuel => absurd hfuel (Nat.not_lt_zero _)
  | succ fuel ih =>
    intro x msg rest hfuel h
    obtain ⟨htaken, hnext⟩ := h.takeRead (rest.take 4096)
    unfold readLoop
    dsimp only
    rw [if_neg (by rw [htaken]; exact Bool.false_ne_true)]
    split
    case isTrue hshort =>
      have hwhole : rest.take 4096 = rest := by
        apply List.take_of_length_le
        rw [List.length_take] at hshort
        omega
      rw [hwhole] at hnext ⊢
      exact ⟨rfl, hnext⟩
    case isFalse hfull =>
      have hrest : (rest.drop 4096).length < fuel := by
        rw [List.length_take] at hfull
        rw [List.length_drop]
        omega
      have hall := ih _ _ _ hrest hnext
      rwa [List.append_assoc, List.take_append_drop] at hall

/-- The limits file passes exactly if the limits are sound, the file opens, all of it is read, it
closes, and its digest is the expected one. -/
theorem verifyFile_iff (opens : String → Option LimitsFile) (path : Option String) (expected : List UInt8)
    (l : Limits) :
    verifyFile opens path expected l = true ↔
      selfTest l = true ∧ ∃ name f, path = some name ∧ opens name = some f ∧ f.readError = false ∧
        f.closes = true ∧ messageDigest f.bytes = expected := by
  unfold verifyFile
  cases path with
  | none =>
    constructor
    · intro h
      cases h
    · rintro ⟨-, name, f, hpath, -⟩
      cases hpath
  | some name =>
    dsimp only
    cases hself : selfTest l with
    | false =>
      constructor
      · intro h
        cases h
      · rintro ⟨h, -⟩
        cases h
    | true =>
      cases hopen : opens name with
      | none =>
        constructor
        · intro h
          cases h
        · rintro ⟨-, name', f, hpath, hfile, -⟩
          cases hpath
          rw [hopen] at hfile
          cases hfile
      | some f =>
        obtain ⟨hread, hholds⟩ :=
          readLoop_holds (f.bytes.length + 1) .new [] f.bytes (Nat.lt_succ_self _) Sha256.new_holds
        rw [List.nil_append] at hholds
        have hdigest := hholds.finish
        simp only [Bool.not_true, Bool.false_eq_true, if_false, hread, hdigest, Bool.true_and, Bool.and_eq_true,
          Bool.not_eq_true', beq_iff_eq, true_and]
        constructor
        · rintro ⟨⟨herror, hcloses⟩, hexpected⟩
          exact ⟨name, f, rfl, hopen, herror, hcloses, hexpected⟩
        · rintro ⟨name', f', hpath, hfile, herror, hcloses, hexpected⟩
          cases hpath
          cases hopen.symm.trans hfile
          exact ⟨⟨herror, hcloses⟩, hexpected⟩

end MicrostructureEngine.Risk
