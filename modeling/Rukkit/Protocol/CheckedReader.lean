import Rukkit.Lib.Checked
import Rukkit.Protocol.Reader

/-!
# Packet reader with its panics

The reader again, with every slice, index and subtraction of `reader.rs` and `varint.rs`
as an operation that panics out of range, over a cursor that may point anywhere.  Each
read follows the one of the model: from a cursor inside its buffer it does not panic,
and it leaves the cursor no further back and inside.
-/

namespace Rukkit.Protocol

open Rukkit.Lib Rukkit.Lib.Checked

/-- A reader's fields, without the invariant. -/
structure Cursor where
  buf : Bytes
  pos : Nat

abbrev CheckedReader := Checked ProtocolError Cursor

namespace PacketReader

def cursor (r : PacketReader) : Cursor := { buf := r.buf, pos := r.pos }

/-- The same buffer, no further back. -/
instance : Preorder PacketReader where
  le r t := r.buf = t.buf ∧ r.pos ≤ t.pos
  le_refl r := ⟨rfl, Nat.le_refl _⟩
  le_trans _ _ _ h h' := ⟨h.1.trans h'.1, Nat.le_trans h.2 h'.2⟩

end PacketReader

/-- The checked read does what the one of the model does, in range. -/
abbrev Follows {α : Type} (c : CheckedReader α) (m : Reader α) : Prop :=
  Tracks PacketReader.cursor c m

namespace Checked

/-! ## Varints -/

/-- The read loop: `byte = buf[i]` for the indices below the limit. -/
def readGroups {w : Nat} (buf : Bytes) : (turns : Nat) → (value : BitVec w) → (shift i : Nat) →
    Option (Option (BitVec w × Nat))
  | 0, _, _, _ => some none
  | turns + 1, value, shift, i => do
      let byte ← buf[i]?
      -- shifting a word by its width or more panics too
      if w ≤ shift then none
      else
        let value := value ||| ((byte &&& 0x7F).toBitVec.setWidth w <<< shift)
        if byte &&& 0x80 = 0 then some (some (value, i + 1))
        else readGroups buf turns value (shift + 7) (i + 1)

theorem readGroups_eq {w : Nat} (buf : Bytes) : ∀ (turns : Nat) (value : BitVec w) (shift i : Nat),
    i + turns ≤ buf.length → shift + 7 * turns < w + 7 →
      readGroups buf turns value shift i =
        some (Protocol.readGroups turns (buf.drop i) value shift i) := by
  intro turns
  induction turns with
  | zero =>
      intro value shift i _ _
      rw [readGroups, Protocol.readGroups]
      exact fun _ _ _ h => by cases h
  | succ turns ih =>
      intro value shift i hlength hshift
      have hi : i < buf.length := by omega
      rw [readGroups, List.getElem?_eq_getElem hi, List.drop_eq_getElem_cons hi,
        Protocol.readGroups]
      change (if w ≤ shift then _ else _) = _
      rw [if_neg (by omega)]
      split
      · rfl
      · exact ih _ _ _ (by omega) (by omega)

def readVarint (buf : Bytes) : Outcome ProtocolError (Int32 × Nat) := do
  let limit := if buf.length < maxVarintBytes then buf.length else maxVarintBytes
  match ← readGroups buf limit 0#32 0 0 with
  | some (value, used) => return (Int32.ofBitVec value, used)
  | none =>
      if buf.length < maxVarintBytes then throw (.unexpectedEof 1 0)
      else throw (.varIntTooLong maxVarintBytes)

def readVarlong (buf : Bytes) : Outcome ProtocolError (Int64 × Nat) := do
  let limit := if buf.length < maxVarlongBytes then buf.length else maxVarlongBytes
  match ← readGroups buf limit 0#64 0 0 with
  | some (value, used) => return (Int64.ofBitVec value, used)
  | none =>
      if buf.length < maxVarlongBytes then throw (.unexpectedEof 1 0)
      else throw (.varIntTooLong maxVarlongBytes)

theorem readVarint_eq (buf : Bytes) : readVarint buf = some (Protocol.readVarint buf) := by
  have hgroups := readGroups_eq buf
    (if buf.length < maxVarintBytes then buf.length else maxVarintBytes) 0#32 0 0
    (by split <;> omega) (by unfold maxVarintBytes; split <;> omega)
  rw [List.drop_zero] at hgroups
  simp only [readVarint, Protocol.readVarint, hgroups]
  cases Protocol.readGroups _ buf 0#32 0 0 with
  | some result => rfl
  | none =>
      dsimp only
      split <;> rfl

theorem readVarlong_eq (buf : Bytes) : readVarlong buf = some (Protocol.readVarlong buf) := by
  have hgroups := readGroups_eq buf
    (if buf.length < maxVarlongBytes then buf.length else maxVarlongBytes) 0#64 0 0
    (by split <;> omega) (by unfold maxVarlongBytes; split <;> omega)
  rw [List.drop_zero] at hgroups
  simp only [readVarlong, Protocol.readVarlong, hgroups]
  cases Protocol.readGroups _ buf 0#64 0 0 with
  | some result => rfl
  | none =>
      dsimp only
      split <;> rfl

/-! ## Reads -/

/-- Bytes not yet consumed. -/
def remaining : CheckedReader Nat := do
  let r ← get
  sub r.buf.length r.pos

/-- The unread tail. -/
def peekRest : CheckedReader Bytes := do
  let r ← get
  sliceFrom r.buf r.pos

/-- The next `n` bytes.  `pos + n` is guarded against wrapping in the source, with the
error of the bounds check. -/
def take (n : Nat) : CheckedReader Bytes := do
  let r ← get
  let stop := r.pos + n
  if r.buf.length < stop then
    let available ← sub r.buf.length r.pos
    throw (.unexpectedEof n available)
  else
    let bytes ← slice r.buf r.pos stop
    set { r with pos := stop }
    return bytes

def takeArray (width : Nat) : CheckedReader Bytes := do
  let bytes ← take width
  copyFromSlice width bytes

def readU8 : CheckedReader UInt8 := do
  let bytes ← take 1
  bytes[0]?

def readI8 : CheckedReader Int8 := do
  return (← readU8).toInt8

def readBool : CheckedReader Bool := do
  return (← readU8) != 0

def readU16 : CheckedReader UInt16 := do
  return UInt16.ofNat (BigEndian.toNat (← takeArray 2))

def readI16 : CheckedReader Int16 := do
  return (UInt16.ofNat (BigEndian.toNat (← takeArray 2))).toInt16

def readI32 : CheckedReader Int32 := do
  return (UInt32.ofNat (BigEndian.toNat (← takeArray 4))).toInt32

def readI64 : CheckedReader Int64 := do
  return (UInt64.ofNat (BigEndian.toNat (← takeArray 8))).toInt64

def readU64 : CheckedReader UInt64 := do
  return UInt64.ofNat (BigEndian.toNat (← takeArray 8))

def readF32 : CheckedReader UInt32 := do
  return UInt32.ofNat (BigEndian.toNat (← takeArray 4))

def readF64 : CheckedReader UInt64 := do
  return UInt64.ofNat (BigEndian.toNat (← takeArray 8))

/-- A number that `read` finds at the front of the unread tail. -/
def readFront {α : Type} (read : Bytes → Outcome ProtocolError (α × Nat)) : CheckedReader α := do
  let r ← get
  let rest ← sliceFrom r.buf r.pos
  let (value, used) ← call (read rest)
  set { r with pos := r.pos + used }
  return value

def readVarintValue : CheckedReader Int32 := readFront readVarint

def readVarlongValue : CheckedReader Int64 := readFront readVarlong

def readLength (max : Nat) : CheckedReader Nat := do
  let raw ← readVarintValue
  if raw < 0 then throw (.negativeLength raw)
  let len := raw.toNatClampNeg
  if max < len then throw (.lengthLimitExceeded len max)
  return len

def readString (maxChars : Nat) : CheckedReader String := do
  let len ← readLength (maxChars * 3)
  let bytes ← take len
  match String.fromUTF8? (ByteArray.mk bytes.toArray) with
  | none => throw .invalidUtf8
  | some s =>
      let chars := s.length
      if maxChars < chars then throw (.stringTooManyChars chars maxChars)
      return s

def readIdentifier : CheckedReader String := readString defaultMaxStringLen

def readUuid : CheckedReader Uuid := do
  return BitVec.ofNat 128 (BigEndian.toNat (← takeArray 16))

def readBytes (n : Nat) : CheckedReader Bytes := take n

def readByteArray (max : Nat) : CheckedReader Bytes := do
  let len ← readLength max
  take len

def readRemaining : CheckedReader Bytes := do
  let r ← get
  let rest ← sliceFrom r.buf r.pos
  set { r with pos := r.buf.length }
  return rest

def readPosition : CheckedReader BlockPos := do
  return BlockPos.decode (← readI64)

def readChunkPos : CheckedReader ChunkPos := do
  return ChunkPos.fromLong (← readI64)

def readOption {α : Type} (f : CheckedReader α) : CheckedReader (Option α) := do
  if ← readBool then return some (← f) else return none

/-- The room is reserved first, by the bytes that remain. -/
def readArray {α : Type} (max : Nat) (f : CheckedReader α) : CheckedReader (List α) := do
  let len ← readLength max
  let _ ← remaining
  replicate f len

def expectFinished (state : String) (id : Int32) : CheckedReader Unit := do
  let left ← remaining
  if left ≠ 0 then throw (.trailingBytes state id (← remaining))

/-! ## Every read stays in range -/

section Primitives

variable (r : PacketReader)

theorem sub_cursor : sub r.cursor.buf.length r.cursor.pos = some r.remaining := sub_eq r.pos_le

theorem sliceFrom_cursor : sliceFrom r.cursor.buf r.cursor.pos = some r.peekRest :=
  sliceFrom_eq r.pos_le

theorem slice_cursor {n : Nat} (h : r.pos + n ≤ r.buf.length) :
    slice r.cursor.buf r.cursor.pos (r.cursor.pos + n) = some (r.peekRest.take n) := slice_eq h

theorem remaining_exec : remaining.exec r.cursor = some (.ok r.remaining, r.cursor) := by
  rw [remaining, exec_get_bind, sub_cursor]
  rfl

theorem peekRest_exec : peekRest.exec r.cursor = some (.ok r.peekRest, r.cursor) := by
  rw [peekRest, exec_get_bind, sliceFrom_cursor]
  rfl

theorem take_follows (n : Nat) : Follows (take n) (Protocol.take n) := by
  intro r
  by_cases hfit : r.cursor.pos + n ≤ r.cursor.buf.length
  · have htotal : Protocol.take n r =
        .ok (r.peekRest.take n) { r with pos := r.pos + n, pos_le := hfit } := dif_pos hfit
    constructor
    · rw [htotal, take, exec_get_bind]
      dsimp only
      rw [if_neg (Nat.not_lt.mpr hfit), exec_lift_bind (slice_cursor r hfit), exec_set_bind]
      rfl
    · rw [htotal]
      exact ⟨rfl, Nat.le_add_right _ _⟩
  · have htotal : Protocol.take n r = .error (.unexpectedEof n r.remaining) r := dif_neg hfit
    constructor
    · rw [htotal, take, exec_get_bind]
      dsimp only
      rw [if_pos (Nat.not_le.mp hfit), exec_lift_bind (sub_cursor r)]
      rfl
    · rw [htotal]
      exact le_refl r

theorem takeArray_follows (width : Nat) : Follows (takeArray width) (Protocol.take width) := by
  intro r
  obtain ⟨hexec, hle⟩ := take_follows width r
  refine ⟨?_, hle⟩
  cases htotal : Protocol.take width r with
  | ok bytes t =>
      rw [htotal] at hexec
      rw [takeArray, exec_bind_ok hexec, copyFromSlice_eq (take_eq_ok htotal)]
      rfl
  | error e t =>
      rw [htotal] at hexec
      rw [takeArray, exec_bind_error hexec]
      rfl

theorem readU8_follows : Follows readU8 Protocol.readU8 := by
  intro r
  refine (take_follows 1 r).bind ?_
  intro bytes t htake
  have hlength := take_eq_ok htake
  obtain ⟨byte, rfl⟩ := List.length_eq_one_iff.mp hlength
  exact TracksAt.pure byte t

/-- What a read of a number at the front of the tail does to the cursor. -/
def frontOutcome {α : Type} (found : Except ProtocolError (α × Nat)) (r : Cursor) :
    Except ProtocolError α × Cursor :=
  match found with
  | .ok (value, used) => (.ok value, { r with pos := r.pos + used })
  | .error e => (.error e, r)

theorem readFront_follows {α : Type} {read : Bytes → Outcome ProtocolError (α × Nat)}
    {total : Bytes → Except ProtocolError (α × Nat)} {m : Reader α}
    (hread : ∀ buf, read buf = some (total buf))
    (hm : ∀ r, outcome PacketReader.cursor (m r) = frontOutcome (total r.peekRest) r.cursor) :
    Follows (readFront read) m := by
  intro r
  have hcall := exec_call (hread r.peekRest) r.cursor
  have hend := hm r
  constructor
  · rw [hend, readFront, exec_get_bind, exec_lift_bind (sliceFrom_cursor r)]
    cases hfound : total r.peekRest with
    | ok found =>
        rw [hfound] at hcall
        rw [exec_bind_ok hcall]
        rfl
    | error e =>
        rw [hfound] at hcall
        rw [exec_bind_error hcall]
        rfl
  · have hcursor : (lastState (m r)).cursor = (frontOutcome (total r.peekRest) r.cursor).2 := by
      rw [← hend]
      cases m r <;> rfl
    have hbuf : (lastState (m r)).buf = (frontOutcome (total r.peekRest) r.cursor).2.buf :=
      congrArg Cursor.buf hcursor
    have hpos : (lastState (m r)).pos = (frontOutcome (total r.peekRest) r.cursor).2.pos :=
      congrArg Cursor.pos hcursor
    cases hfound : total r.peekRest with
    | ok found =>
        rw [hfound] at hbuf hpos
        exact ⟨hbuf.symm, hpos ▸ Nat.le_add_right _ _⟩
    | error e =>
        rw [hfound] at hbuf hpos
        exact ⟨hbuf.symm, hpos ▸ Nat.le_refl _⟩

theorem readVarintValue_follows : Follows readVarintValue Protocol.readVarintValue := by
  apply readFront_follows readVarint_eq
  intro r
  unfold Protocol.readVarintValue
  split <;> (rename_i hread; exact congrArg (frontOutcome · r.cursor) hread.symm)

theorem readVarlongValue_follows : Follows readVarlongValue Protocol.readVarlongValue := by
  apply readFront_follows readVarlong_eq
  intro r
  unfold Protocol.readVarlongValue
  split <;> (rename_i hread; exact congrArg (frontOutcome · r.cursor) hread.symm)

theorem readI8_follows : Follows readI8 Protocol.readI8 := readU8_follows.bind_pure _

theorem readBool_follows : Follows readBool Protocol.readBool := readU8_follows.bind_pure _

theorem readU16_follows : Follows readU16 Protocol.readU16 := (takeArray_follows 2).bind_pure _

theorem readI16_follows : Follows readI16 Protocol.readI16 := (takeArray_follows 2).bind_pure _

theorem readI32_follows : Follows readI32 Protocol.readI32 := (takeArray_follows 4).bind_pure _

theorem readI64_follows : Follows readI64 Protocol.readI64 := (takeArray_follows 8).bind_pure _

theorem readU64_follows : Follows readU64 Protocol.readU64 := (takeArray_follows 8).bind_pure _

theorem readF32_follows : Follows readF32 Protocol.readF32 := (takeArray_follows 4).bind_pure _

theorem readF64_follows : Follows readF64 Protocol.readF64 := (takeArray_follows 8).bind_pure _

theorem readUuid_follows : Follows readUuid Protocol.readUuid := (takeArray_follows 16).bind_pure _

theorem readPosition_follows : Follows readPosition Protocol.readPosition :=
  readI64_follows.bind_pure _

theorem readChunkPos_follows : Follows readChunkPos Protocol.readChunkPos :=
  readI64_follows.bind_pure _

theorem readLength_follows (max : Nat) : Follows (readLength max) (Protocol.readLength max) := by
  refine readVarintValue_follows.bind ?_
  intro raw
  dsimp only
  split
  · exact Tracks.throw_bind _ _ _
  · split
    · exact Tracks.throw_bind _ _ _
    · exact Tracks.pure _

theorem readBytes_follows (n : Nat) : Follows (readBytes n) (Protocol.readBytes n) :=
  take_follows n

theorem readByteArray_follows (max : Nat) :
    Follows (readByteArray max) (Protocol.readByteArray max) :=
  (readLength_follows max).bind take_follows

theorem readString_follows (maxChars : Nat) :
    Follows (readString maxChars) (Protocol.readString maxChars) := by
  refine (readLength_follows _).bind ?_
  intro len
  refine (take_follows len).bind ?_
  intro bytes
  cases String.fromUTF8? (ByteArray.mk bytes.toArray) with
  | none => exact Tracks.throw _
  | some s =>
      dsimp only
      split
      · exact Tracks.throw_bind _ _ _
      · exact Tracks.pure _

theorem readIdentifier_follows : Follows readIdentifier Protocol.readIdentifier :=
  readString_follows _

theorem readRemaining_follows : Follows readRemaining Protocol.readRemaining := by
  intro r
  refine ⟨?_, rfl, r.pos_le⟩
  rw [readRemaining, exec_get_bind, exec_lift_bind (sliceFrom_cursor r)]
  rfl

/-- Reserving room reads nothing. -/
theorem remaining_bind {α : Type} {c : CheckedReader α} {m : Reader α} (h : Follows c m) :
    Follows (do let _ ← remaining; c) m := by
  intro r
  refine ⟨?_, (h r).le⟩
  rw [exec_bind_ok (remaining_exec r)]
  exact (h r).exec_eq

theorem expectFinished_follows (state : String) (id : Int32) :
    Follows (expectFinished state id) (Protocol.expectFinished state id) := by
  intro r
  unfold expectFinished Protocol.expectFinished
  constructor
  · rw [exec_bind_ok (remaining_exec r)]
    split
    · rw [exec_bind_ok (remaining_exec r)]
      rfl
    · rfl
  · split <;> exact le_refl r

section Nested

variable {α : Type} {c : CheckedReader α} {m : Reader α} (h : Follows c m)

include h

theorem readOption_follows : Follows (readOption c) (Protocol.readOption m) := by
  refine readBool_follows.bind ?_
  intro present
  split
  · exact h.bind_pure some
  · exact Tracks.pure none

theorem readArray_follows (max : Nat) : Follows (readArray max c) (Protocol.readArray max m) :=
  (readLength_follows max).bind fun len => remaining_bind (h.replicate len)

end Nested

end Primitives

end Checked

end Rukkit.Protocol
