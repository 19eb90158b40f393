import Rukkit.Protocol.CheckedReader

/-!
# Sessions with a reader

A session is whatever a caller does with one reader: it calls an operation, sees the
result, a failure included, and goes on.  The operations that take a closure run another
session for it.
-/

namespace Rukkit.Protocol

open Rukkit.Lib Rukkit.Lib.Checked

/-- The operations of a reader that take no closure, by what they return. -/
inductive ReadOp : Type → Type
  | remaining : ReadOp Nat
  | isEmpty : ReadOp Bool
  | peekRest : ReadOp Bytes
  | u8 : ReadOp UInt8
  | i8 : ReadOp Int8
  | bool : ReadOp Bool
  | u16 : ReadOp UInt16
  | i16 : ReadOp Int16
  | i32 : ReadOp Int32
  | i64 : ReadOp Int64
  | u64 : ReadOp UInt64
  | f32 : ReadOp UInt32
  | f64 : ReadOp UInt64
  | varint : ReadOp Int32
  | varlong : ReadOp Int64
  | length (max : Nat) : ReadOp Nat
  | string (maxChars : Nat) : ReadOp String
  | identifier : ReadOp String
  | uuid : ReadOp Uuid
  | bytes (n : Nat) : ReadOp Bytes
  | byteArray (max : Nat) : ReadOp Bytes
  | readRemaining : ReadOp Bytes
  | position : ReadOp BlockPos
  | chunkPos : ReadOp ChunkPos
  | expectFinished (state : String) (id : Int32) : ReadOp Unit

namespace ReadOp

def checked {α : Type} : ReadOp α → CheckedReader α
  | remaining => Checked.remaining
  | isEmpty => do return (← Checked.remaining) == 0
  | peekRest => Checked.peekRest
  | u8 => Checked.readU8
  | i8 => Checked.readI8
  | bool => Checked.readBool
  | u16 => Checked.readU16
  | i16 => Checked.readI16
  | i32 => Checked.readI32
  | i64 => Checked.readI64
  | u64 => Checked.readU64
  | f32 => Checked.readF32
  | f64 => Checked.readF64
  | varint => Checked.readVarintValue
  | varlong => Checked.readVarlongValue
  | length max => Checked.readLength max
  | string maxChars => Checked.readString maxChars
  | identifier => Checked.readIdentifier
  | uuid => Checked.readUuid
  | bytes n => Checked.readBytes n
  | byteArray max => Checked.readByteArray max
  | readRemaining => Checked.readRemaining
  | position => Checked.readPosition
  | chunkPos => Checked.readChunkPos
  | expectFinished state id => Checked.expectFinished state id

def total {α : Type} : ReadOp α → Reader α
  | remaining => fun r => .ok r.remaining r
  | isEmpty => fun r => .ok (r.remaining == 0) r
  | peekRest => fun r => .ok r.peekRest r
  | u8 => readU8
  | i8 => readI8
  | bool => readBool
  | u16 => readU16
  | i16 => readI16
  | i32 => readI32
  | i64 => readI64
  | u64 => readU64
  | f32 => readF32
  | f64 => readF64
  | varint => readVarintValue
  | varlong => readVarlongValue
  | length max => readLength max
  | string maxChars => readString maxChars
  | identifier => readIdentifier
  | uuid => readUuid
  | bytes n => readBytes n
  | byteArray max => readByteArray max
  | readRemaining => Protocol.readRemaining
  | position => readPosition
  | chunkPos => readChunkPos
  | expectFinished state id => Protocol.expectFinished state id

theorem follows {α : Type} (op : ReadOp α) : Follows op.checked op.total := by
  cases op with
  | remaining => exact fun r => ⟨Checked.remaining_exec r, le_refl r⟩
  | isEmpty => exact fun r => ⟨exec_bind_ok (Checked.remaining_exec r), le_refl r⟩
  | peekRest => exact fun r => ⟨Checked.peekRest_exec r, le_refl r⟩
  | u8 => exact Checked.readU8_follows
  | i8 => exact Checked.readI8_follows
  | bool => exact Checked.readBool_follows
  | u16 => exact Checked.readU16_follows
  | i16 => exact Checked.readI16_follows
  | i32 => exact Checked.readI32_follows
  | i64 => exact Checked.readI64_follows
  | u64 => exact Checked.readU64_follows
  | f32 => exact Checked.readF32_follows
  | f64 => exact Checked.readF64_follows
  | varint => exact Checked.readVarintValue_follows
  | varlong => exact Checked.readVarlongValue_follows
  | length max => exact Checked.readLength_follows max
  | string maxChars => exact Checked.readString_follows maxChars
  | identifier => exact Checked.readIdentifier_follows
  | uuid => exact Checked.readUuid_follows
  | bytes n => exact Checked.readBytes_follows n
  | byteArray max => exact Checked.readByteArray_follows max
  | readRemaining => exact Checked.readRemaining_follows
  | position => exact Checked.readPosition_follows
  | chunkPos => exact Checked.readChunkPos_follows
  | expectFinished state id => exact Checked.expectFinished_follows state id

end ReadOp

/-- An array whose closure keeps a state of its own is its length followed by the
sessions of the items. -/
inductive Session : Type → Type 1
  | finish {α : Type} (result : Except ProtocolError α) : Session α
  | read {α β : Type} (op : ReadOp α) (next : Except ProtocolError α → Session β) : Session β
  | option {α β : Type} (f : Session α) (next : Except ProtocolError (Option α) → Session β) :
      Session β
  | array {α β : Type} (max : Nat) (f : Session α)
      (next : Except ProtocolError (List α) → Session β) : Session β

namespace Session

def checked {α : Type} : Session α → CheckedReader α
  | finish (.ok a) => pure a
  | finish (.error e) => throw e
  | read op next => do
      let result ← op.checked.attempt
      (next result).checked
  | option f next => do
      let result ← (Checked.readOption f.checked).attempt
      (next result).checked
  | array max f next => do
      let result ← (Checked.readArray max f.checked).attempt
      (next result).checked

def total {α : Type} : Session α → Reader α
  | finish (.ok a) => pure a
  | finish (.error e) => throw e
  | read op next => do
      let result ← Reading.attempt op.total
      (next result).total
  | option f next => do
      let result ← Reading.attempt (readOption f.total)
      (next result).total
  | array max f next => do
      let result ← Reading.attempt (readArray max f.total)
      (next result).total

theorem follows {α : Type} (session : Session α) : Follows session.checked session.total := by
  induction session with
  | finish result =>
      cases result with
      | ok a => exact Tracks.pure a
      | error e => exact Tracks.throw e
  | read op next ih => exact op.follows.attempt.bind ih
  | option f next hf ih => exact (Checked.readOption_follows hf).attempt.bind ih
  | array max f next hf ih => exact (Checked.readArray_follows hf max).attempt.bind ih

end Session

namespace Cursor

/-- `t` can be left behind by reads from `c`. -/
structure Advances (c t : Cursor) : Prop where
  buf_eq : t.buf = c.buf
  le_pos : c.pos ≤ t.pos
  pos_le : t.pos ≤ t.buf.length

end Cursor

/-- A read that follows one of the model does not panic, returns, and keeps the cursor. -/
theorem Follows.advances {α : Type} {c : CheckedReader α} {m : Reader α} (h : Follows c m)
    (r : PacketReader) : ∃ result t, c.exec r.cursor = some (result, t) ∧ r.cursor.Advances t := by
  obtain ⟨hexec, hle⟩ := h r
  cases hresult : m r with
  | ok a t =>
      rw [hresult] at hexec hle
      exact ⟨.ok a, t.cursor, hexec, hle.1.symm, hle.2, t.pos_le⟩
  | error e t =>
      rw [hresult] at hexec hle
      exact ⟨.error e, t.cursor, hexec, hle.1.symm, hle.2, t.pos_le⟩

end Rukkit.Protocol
