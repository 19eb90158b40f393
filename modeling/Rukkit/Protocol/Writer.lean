import Rukkit.Lib.BigEndian
import Rukkit.Protocol.Types
import Rukkit.Protocol.Varint

/-!
# Packet writer

The model of `rukkit-protocol/src/writer.rs`.  A writer is modelled by the bytes
it appends.  Floats are their bit patterns, so that `NaN` payloads are kept apart.
-/

namespace Rukkit.Protocol

open Rukkit.Lib

/-- A 128-bit identifier. -/
abbrev Uuid := BitVec 128

/-- The cast `usize as i32`, which drops the high bits. -/
def asI32 (n : Nat) : Int32 := Int32.ofNat n

/-- `str::as_bytes`. -/
def utf8 (s : String) : Bytes := s.toByteArray.data.toList

def writeU8 (value : UInt8) : Bytes := [value]

def writeI8 (value : Int8) : Bytes := [value.toUInt8]

/-- A single byte, 0 or 1. -/
def writeBool (value : Bool) : Bytes := [if value then 1 else 0]

def writeU16 (value : UInt16) : Bytes := BigEndian.toBytes 2 value.toNat

def writeI16 (value : Int16) : Bytes := BigEndian.toBytes 2 value.toUInt16.toNat

def writeI32 (value : Int32) : Bytes := BigEndian.toBytes 4 value.toUInt32.toNat

def writeI64 (value : Int64) : Bytes := BigEndian.toBytes 8 value.toUInt64.toNat

def writeU64 (value : UInt64) : Bytes := BigEndian.toBytes 8 value.toNat

def writeF32 (bits : UInt32) : Bytes := BigEndian.toBytes 4 bits.toNat

def writeF64 (bits : UInt64) : Bytes := BigEndian.toBytes 8 bits.toNat

/-- Length-prefixed UTF-8. -/
def writeString (value : String) : Bytes := writeVarint (asI32 value.utf8ByteSize) ++ utf8 value

def writeIdentifier (value : String) : Bytes := writeString value

def writeUuid (value : Uuid) : Bytes := BigEndian.toBytes 16 value.toNat

def writeBytes (value : Bytes) : Bytes := value

def writeByteArray (value : Bytes) : Bytes := writeVarint (asI32 value.length) ++ value

def writeOption {α : Type} (value : Option α) (f : α → Bytes) : Bytes :=
  match value with
  | some v => writeBool true ++ f v
  | none => writeBool false

def writePosition (value : BlockPos) : Bytes := writeI64 value.encode

/-- A length-prefixed array. -/
def writeArray {α : Type} (items : List α) (f : α → Bytes) : Bytes :=
  writeVarint (asI32 items.length) ++ items.flatMap f

/-! ## Lengths and casts -/

theorem toInt_asI32 {n : Nat} (h : n < 2 ^ 31) : (asI32 n).toInt = n := by
  exact Int32.toInt_ofNat_of_lt h

theorem not_asI32_neg {n : Nat} (h : n < 2 ^ 31) : ¬ asI32 n < 0 := by
  rw [Int32.lt_iff_toInt_lt, toInt_asI32 h]
  simp

theorem toNatClampNeg_asI32 {n : Nat} (h : n < 2 ^ 31) : (asI32 n).toNatClampNeg = n := by
  rw [← Int32.toNat_toInt, toInt_asI32 h, Int.toNat_natCast]

theorem asI32_ne_zero {n : Nat} (h : n < 2 ^ 31) (hpos : n ≠ 0) : asI32 n ≠ 0 := by
  intro hzero
  have hnat := toNatClampNeg_asI32 h
  rw [hzero] at hnat
  exact hpos hnat.symm

theorem length_utf8 (s : String) : (utf8 s).length = s.utf8ByteSize := by
  rfl

theorem length_writeString (s : String) :
    (writeString s).length ≤ maxVarintBytes + s.utf8ByteSize := by
  have := length_writeVarint_le (asI32 s.utf8ByteSize)
  rw [writeString, List.length_append, length_utf8]
  omega

end Rukkit.Protocol
