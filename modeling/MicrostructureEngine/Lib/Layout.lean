import Mathlib.Data.List.GetD
import Mathlib.Logic.Equiv.Defs
import MicrostructureEngine.Lib.LittleEndian

/-!
# Packed records

A layout writes a value with a fixed number of bytes and reads it back; every string of that
many bytes is the writing of one value. The fields of a packed record stand one behind the
other with nothing between them, so a record has a layout when its fields have.
-/

namespace MicrostructureEngine

set_option autoImplicit false

universe u v

structure Layout (α : Type u) where
  width : Nat
  write : α → List UInt8
  read : List UInt8 → α
  length_write : ∀ a, (write a).length = width
  read_write : ∀ a, read (write a) = a
  write_read : ∀ bs, bs.length = width → write (read bs) = bs

namespace Layout
variable {α : Type u} {β : Type v}

def pair (l : Layout α) (r : Layout β) : Layout (α × β) where
  width := l.width + r.width
  write a := l.write a.1 ++ r.write a.2
  read bs := (l.read (bs.take l.width), r.read (bs.drop l.width))
  length_write a := by rw [List.length_append, l.length_write, r.length_write]
  read_write := by
    rintro ⟨a, b⟩
    rw [List.take_left' (l.length_write a), List.drop_left' (l.length_write a), l.read_write, r.read_write]
  write_read bs h := by
    have hl : (bs.take l.width).length = l.width := by
      rw [List.length_take]
      omega
    have hr : (bs.drop l.width).length = r.width := by
      rw [List.length_drop]
      omega
    rw [l.write_read _ hl, r.write_read _ hr, List.take_append_drop]

/-- The same bytes for another view of the value. -/
def map (l : Layout α) (e : α ≃ β) : Layout β where
  width := l.width
  write b := l.write (e.symm b)
  read bs := e (l.read bs)
  length_write b := l.length_write (e.symm b)
  read_write b := by rw [l.read_write, e.apply_symm_apply]
  write_read bs h := by rw [e.symm_apply_apply, l.write_read bs h]

/-- An array of bytes stands for itself. -/
def bytes (n : Nat) : Layout (Vector UInt8 n) where
  width := n
  write v := v.toList
  read bs := Vector.ofFn fun i => bs.getD i 0
  length_write _ := Vector.length_toList
  read_write v := by
    apply Vector.ext
    intro i hi
    rw [Vector.getElem_ofFn, List.getD_eq_getElem _ 0 (Vector.length_toList.symm ▸ hi), Vector.getElem_toList]
  write_read bs h := by
    apply List.ext_getElem
    · rw [Vector.length_toList, h]
    · intro i hi hbs
      rw [Vector.getElem_toList, Vector.getElem_ofFn, List.getD_eq_getElem _ 0 hbs]

/-- A word of `n` bytes, its low byte first. -/
def word (n : Nat) : Layout (BitVec (8 * n)) where
  width := n
  write v := LittleEndian.encode n v.toNat
  read bs := BitVec.ofNat (8 * n) (LittleEndian.decode bs)
  length_write v := LittleEndian.length_encode n v.toNat
  read_write v := by
    have hv : v.toNat < 256 ^ n := by
      rw [show 256 = 2 ^ 8 from rfl, ← Nat.pow_mul]
      exact v.isLt
    rw [LittleEndian.decode_encode_of_lt hv, BitVec.ofNat_toNat, BitVec.setWidth_eq]
  write_read bs h := by
    have hbs := LittleEndian.decode_lt bs
    rw [show 256 = 2 ^ 8 from rfl, ← Nat.pow_mul, h] at hbs
    rw [BitVec.toNat_ofNat, Nat.mod_eq_of_lt hbs, ← h, LittleEndian.encode_decode]

def u8 : Layout UInt8 := (word 1).map ⟨UInt8.ofBitVec, UInt8.toBitVec, fun _ => rfl, fun _ => rfl⟩

def u16 : Layout UInt16 := (word 2).map ⟨UInt16.ofBitVec, UInt16.toBitVec, fun _ => rfl, fun _ => rfl⟩

def u32 : Layout UInt32 := (word 4).map ⟨UInt32.ofBitVec, UInt32.toBitVec, fun _ => rfl, fun _ => rfl⟩

def u64 : Layout UInt64 := (word 8).map ⟨UInt64.ofBitVec, UInt64.toBitVec, fun _ => rfl, fun _ => rfl⟩

/-- Two's complement. -/
def i64 : Layout Int64 := (word 8).map ⟨Int64.ofBitVec, Int64.toBitVec, fun _ => rfl, fun _ => rfl⟩

variable (l : Layout α)

theorem read_append (a : α) (rest : List UInt8) : l.read ((l.write a ++ rest).take l.width) = a := by
  rw [List.take_left' (l.length_write a), l.read_write]

theorem drop_append (a : α) (rest : List UInt8) : (l.write a ++ rest).drop l.width = rest :=
  List.drop_left' (l.length_write a)

/-- Enough bytes begin with the value that is read from them. -/
theorem write_read_append {bs : List UInt8} (h : l.width ≤ bs.length) :
    l.write (l.read (bs.take l.width)) ++ bs.drop l.width = bs := by
  have htake : (bs.take l.width).length = l.width := by
    rw [List.length_take]
    omega
  rw [l.write_read _ htake, List.take_append_drop]

end Layout

end MicrostructureEngine
