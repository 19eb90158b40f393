import Rukkit.Lib.Reading
import Rukkit.Protocol.Writer

/-!
# Packet reader

The model of `rukkit-protocol/src/reader.rs`: a cursor over a byte slice.  Every
read is bounds-checked; a read that fails leaves the cursor where it had got to.
-/

namespace Rukkit.Protocol

open Rukkit.Lib Rukkit.Lib.Reading

/-- Default limit on string length, in characters. -/
def defaultMaxStringLen : Nat := 32767

structure PacketReader where
  buf : Bytes
  pos : Nat
  pos_le : pos ≤ buf.length

abbrev Reader := EStateM ProtocolError PacketReader

namespace PacketReader

def new (buf : Bytes) : PacketReader := { buf := buf, pos := 0, pos_le := Nat.zero_le _ }

/-- Bytes not yet consumed. -/
def remaining (r : PacketReader) : Nat := r.buf.length - r.pos

/-- The unread tail, without consuming it. -/
def peekRest (r : PacketReader) : Bytes := r.buf.drop r.pos

@[simp] theorem peekRest_new (buf : Bytes) : (new buf).peekRest = buf := rfl

theorem length_peekRest (r : PacketReader) : r.peekRest.length = r.remaining := by
  rw [peekRest, List.length_drop, remaining]

end PacketReader

/-- The next `n` bytes.  The source also guards `pos + n` against wrapping, with
the same error. -/
def take (n : Nat) : Reader Bytes := fun r =>
  if h : r.pos + n ≤ r.buf.length then
    .ok (r.peekRest.take n) { r with pos := r.pos + n, pos_le := h }
  else .error (.unexpectedEof n r.remaining) r

def readU8 : Reader UInt8 := do
  return (← take 1).headD 0

def readI8 : Reader Int8 := do
  return (← readU8).toInt8

/-- Any non-zero byte counts as true, matching vanilla. -/
def readBool : Reader Bool := do
  return (← readU8) != 0

def readU16 : Reader UInt16 := do
  return UInt16.ofNat (BigEndian.toNat (← take 2))

def readI16 : Reader Int16 := do
  return (UInt16.ofNat (BigEndian.toNat (← take 2))).toInt16

def readI32 : Reader Int32 := do
  return (UInt32.ofNat (BigEndian.toNat (← take 4))).toInt32

def readI64 : Reader Int64 := do
  return (UInt64.ofNat (BigEndian.toNat (← take 8))).toInt64

def readU64 : Reader UInt64 := do
  return UInt64.ofNat (BigEndian.toNat (← take 8))

def readF32 : Reader UInt32 := do
  return UInt32.ofNat (BigEndian.toNat (← take 4))

def readF64 : Reader UInt64 := do
  return UInt64.ofNat (BigEndian.toNat (← take 8))

def readVarintValue : Reader Int32 := fun r =>
  match h : readVarint r.peekRest with
  | .ok (value, used) =>
      .ok value { r with
        pos := r.pos + used
        pos_le := by
          have hused := (readVarint_used h).2.2
          have := r.pos_le
          rw [r.length_peekRest, PacketReader.remaining] at hused
          omega }
  | .error e => .error e r

def readVarlongValue : Reader Int64 := fun r =>
  match h : readVarlong r.peekRest with
  | .ok (value, used) =>
      .ok value { r with
        pos := r.pos + used
        pos_le := by
          have hused := (readVarlong_used h).2.2
          have := r.pos_le
          rw [r.length_peekRest, PacketReader.remaining] at hused
          omega }
  | .error e => .error e r

/-- Reads a VarInt length prefix, rejecting negatives and anything over `max`. -/
def readLength (max : Nat) : Reader Nat := do
  let raw ← readVarintValue
  if raw < 0 then throw (.negativeLength raw)
  let len := raw.toNatClampNeg
  if max < len then throw (.lengthLimitExceeded len max)
  return len

/-- Reads a string limited to `maxChars` characters: first the byte prefix against
three bytes a character, then the characters of the decoded string. -/
def readString (maxChars : Nat) : Reader String := do
  let len ← readLength (maxChars * 3)
  let bytes ← take len
  match String.fromUTF8? (ByteArray.mk bytes.toArray) with
  | none => throw .invalidUtf8
  | some s =>
      let chars := s.length
      if maxChars < chars then throw (.stringTooManyChars chars maxChars)
      return s

def readIdentifier : Reader String := readString defaultMaxStringLen

def readUuid : Reader Uuid := do
  return BitVec.ofNat 128 (BigEndian.toNat (← take 16))

def readBytes (n : Nat) : Reader Bytes := take n

def readByteArray (max : Nat) : Reader Bytes := do
  take (← readLength max)

/-- Consumes and returns everything left. -/
def readRemaining : Reader Bytes := fun r =>
  .ok r.peekRest { r with pos := r.buf.length, pos_le := Nat.le_refl _ }

def readPosition : Reader BlockPos := do
  return BlockPos.decode (← readI64)

def readChunkPos : Reader ChunkPos := do
  return ChunkPos.fromLong (← readI64)

def readOption {α : Type} (f : Reader α) : Reader (Option α) := do
  if ← readBool then return some (← f) else return none

/-- Reads a length-prefixed array. -/
def readArray {α : Type} (max : Nat) (f : Reader α) : Reader (List α) := do
  replicateM f (← readLength max)

/-- Fails unless the whole buffer has been consumed. -/
def expectFinished (state : String) (id : Int32) : Reader Unit := fun r =>
  if r.remaining ≠ 0 then .error (.trailingBytes state id r.remaining) r else .ok () r

/-! ## What the readers read -/

/-- The reader turns `w` into `a` and consumes nothing else. -/
abbrev ReadsAs {α : Type} (m : Reader α) (w : Bytes) (a : α) : Prop :=
  Reads PacketReader.peekRest m w a

theorem take_reads (bytes : Bytes) : ReadsAs (take bytes.length) bytes bytes := by
  intro r suffix hr
  have hlength := congrArg List.length hr
  rw [r.length_peekRest, List.length_append, PacketReader.remaining] at hlength
  have hpos := r.pos_le
  have hfit : r.pos + bytes.length ≤ r.buf.length := by omega
  refine ⟨{ r with pos := r.pos + bytes.length, pos_le := hfit }, ?_, ?_⟩
  · rw [take, dif_pos hfit, hr, List.take_left]
  · rw [PacketReader.peekRest, ← List.drop_drop]
    change r.peekRest.drop bytes.length = suffix
    rw [hr, List.drop_left]

theorem take_eq_ok {n : Nat} {r t : PacketReader} {bytes : Bytes} (h : take n r = .ok bytes t) :
    bytes.length = n := by
  unfold take at h
  split at h
  · rename_i hfit
    cases h
    rw [List.length_take, r.length_peekRest, PacketReader.remaining]
    omega
  · cases h

theorem readU8_eq_ok {r t : PacketReader} {byte : UInt8} (h : readU8 r = .ok byte t) :
    t.buf = r.buf ∧ t.pos = r.pos + 1 := by
  obtain ⟨bytes, htake, -⟩ := bind_pure_eq_ok h
  unfold take at htake
  split at htake
  · cases htake
    exact ⟨rfl, rfl⟩
  · cases htake

theorem readU8_of_empty {r : PacketReader} (h : r.remaining = 0) :
    readU8 r = .error (.unexpectedEof 1 0) r := by
  have htake : take 1 r = .error (.unexpectedEof 1 r.remaining) r := by
    rw [PacketReader.remaining] at h
    exact dif_neg (by omega)
  rw [h] at htake
  change EStateM.bind (take 1) _ r = _
  rw [EStateM.bind, htake]

theorem takeArray_reads {α : Type} (width : Nat) {n : Nat} (f : Nat → α) (hn : n < 256 ^ width) :
    ReadsAs (do return f (BigEndian.toNat (← take width))) (BigEndian.toBytes width n) (f n) := by
  have htake := take_reads (BigEndian.toBytes width n)
  rw [BigEndian.length_toBytes] at htake
  have h := htake.bind_pure (f := fun bytes => f (BigEndian.toNat bytes))
  rwa [BigEndian.toNat_toBytes_of_lt hn] at h

theorem readU8_reads (value : UInt8) : ReadsAs readU8 (writeU8 value) value := by
  have h := (take_reads [value]).bind_pure (f := fun bytes => bytes.headD 0)
  exact h

theorem readI8_reads (value : Int8) : ReadsAs readI8 (writeI8 value) value := by
  have h := (readU8_reads value.toUInt8).bind_pure (f := fun b => b.toInt8)
  exact h

theorem readBool_reads (value : Bool) : ReadsAs readBool (writeBool value) value := by
  have h := (readU8_reads (if value then 1 else 0)).bind_pure (f := fun b => b != 0)
  cases value <;> exact h

theorem readU16_reads (value : UInt16) : ReadsAs readU16 (writeU16 value) value := by
  have h := takeArray_reads 2 UInt16.ofNat value.toNat_lt
  rwa [UInt16.ofNat_toNat] at h

theorem readI16_reads (value : Int16) : ReadsAs readI16 (writeI16 value) value := by
  have h := takeArray_reads 2 (fun n => (UInt16.ofNat n).toInt16)
    value.toUInt16.toNat_lt
  rwa [UInt16.ofNat_toNat] at h

theorem readI32_reads (value : Int32) : ReadsAs readI32 (writeI32 value) value := by
  have h := takeArray_reads 4 (fun n => (UInt32.ofNat n).toInt32)
    value.toUInt32.toNat_lt
  rwa [UInt32.ofNat_toNat] at h

theorem readI64_reads (value : Int64) : ReadsAs readI64 (writeI64 value) value := by
  have h := takeArray_reads 8 (fun n => (UInt64.ofNat n).toInt64)
    value.toUInt64.toNat_lt
  rwa [UInt64.ofNat_toNat] at h

theorem readU64_reads (value : UInt64) : ReadsAs readU64 (writeU64 value) value := by
  have h := takeArray_reads 8 UInt64.ofNat value.toNat_lt
  rwa [UInt64.ofNat_toNat] at h

theorem readF32_reads (bits : UInt32) : ReadsAs readF32 (writeF32 bits) bits := by
  have h := takeArray_reads 4 UInt32.ofNat bits.toNat_lt
  rwa [UInt32.ofNat_toNat] at h

theorem readF64_reads (bits : UInt64) : ReadsAs readF64 (writeF64 bits) bits := by
  have h := takeArray_reads 8 UInt64.ofNat bits.toNat_lt
  rwa [UInt64.ofNat_toNat] at h

theorem readUuid_reads (value : Uuid) : ReadsAs readUuid (writeUuid value) value := by
  have h := takeArray_reads 16 (BitVec.ofNat 128) (value.isLt.trans_le (by decide))
  rwa [BitVec.ofNat_toNat, BitVec.setWidth_eq] at h

theorem readVarint_reads (value : Int32) :
    ReadsAs readVarintValue (writeVarint value) value := by
  intro r suffix hr
  have hread : readVarint r.peekRest = .ok (value, (writeVarint value).length) := by
    rw [hr]
    exact readVarint_writeVarint value suffix
  unfold readVarintValue
  split
  · rename_i v used h
    have heq := h.symm.trans hread
    simp only [Except.ok.injEq, Prod.mk.injEq] at heq
    obtain ⟨rfl, rfl⟩ := heq
    refine ⟨_, rfl, ?_⟩
    rw [PacketReader.peekRest, ← List.drop_drop]
    change r.peekRest.drop _ = suffix
    rw [hr, List.drop_left]
  · rename_i e h
    rw [hread] at h
    simp at h

theorem readLength_reads {n max : Nat} (hn : n ≤ max) (hmax : n < 2 ^ 31) :
    ReadsAs (readLength max) (writeVarint (asI32 n)) n := by
  intro r suffix hr
  obtain ⟨t, ht, hrest⟩ := readVarint_reads (asI32 n) r suffix hr
  refine ⟨t, ?_, hrest⟩
  change EStateM.bind readVarintValue _ r = _
  rw [EStateM.bind, ht]
  simp only [if_neg (not_asI32_neg hmax), toNatClampNeg_asI32 hmax,
    if_neg (by omega : ¬ max < n)]
  rfl

theorem readPosition_reads {value : BlockPos} (h : value.InRange) :
    ReadsAs readPosition (writePosition value) value := by
  have hread := (readI64_reads value.encode).bind_pure (f := BlockPos.decode)
  rwa [BlockPos.decode_encode h] at hread

theorem readOption_none {α : Type} (f : Reader α) :
    ReadsAs (readOption f) (writeBool false) none := by
  rw [← List.append_nil (writeBool false)]
  apply (readBool_reads false).bind
  exact Reads.pure none

theorem readOption_some {α : Type} {f : Reader α} {w : Bytes} {value : α}
    (h : ReadsAs f w value) : ReadsAs (readOption f) (writeBool true ++ w) (some value) := by
  apply (readBool_reads true).bind
  exact h.bind_pure

theorem readArray_reads {α : Type} {f : Reader α} {write : α → Bytes} {items : List α} {max : Nat}
    (hlength : items.length ≤ max) (hmax : items.length < 2 ^ 31)
    (h : ∀ item ∈ items, ReadsAs f (write item) item) :
    ReadsAs (readArray max f) (writeArray items write) items :=
  (readLength_reads hlength hmax).bind (Reads.replicateM items h)

theorem fromUTF8_utf8 (s : String) :
    String.fromUTF8? (ByteArray.mk (utf8 s).toArray) = some s := by
  rw [utf8, Array.toArray_toList, String.fromUTF8?, dif_pos s.isValidUTF8]
  rfl

theorem readString_reads {s : String} {maxChars : Nat} (hchars : s.length ≤ maxChars)
    (hbytes : s.utf8ByteSize ≤ maxChars * 3) (hsize : s.utf8ByteSize < 2 ^ 31) :
    ReadsAs (readString maxChars) (writeString s) s := by
  apply (readLength_reads hbytes hsize).bind
  have htake := take_reads (utf8 s)
  rw [length_utf8] at htake
  rw [← List.append_nil (utf8 s)]
  apply htake.bind
  rw [fromUTF8_utf8]
  simp only [if_neg (by omega : ¬ maxChars < s.length)]
  exact Reads.pure s

/-- The string is within the reader's limit. -/
structure FitsString (maxChars : Nat) (s : String) : Prop where
  chars : s.length ≤ maxChars
  bytes : s.utf8ByteSize ≤ maxChars * 3

theorem FitsString.reads {s : String} {maxChars : Nat} (h : FitsString maxChars s)
    (hmax : maxChars ≤ defaultMaxStringLen) : ReadsAs (readString maxChars) (writeString s) s := by
  have hbytes := h.bytes
  apply readString_reads h.chars hbytes
  unfold defaultMaxStringLen at hmax
  omega

theorem readIdentifier_reads {s : String} (h : FitsString defaultMaxStringLen s) :
    ReadsAs readIdentifier (writeIdentifier s) s := h.reads (Nat.le_refl _)

/-! ## What a string limit admits -/

/-- What `take` returns is the front of the input, and it leaves the rest. -/
theorem peekRest_of_take {n : Nat} {r t : PacketReader} {bytes : Bytes}
    (h : take n r = .ok bytes t) : r.peekRest = bytes ++ t.peekRest := by
  unfold take at h
  split at h
  · cases h
    have hrest : r.buf.drop (r.pos + n) = r.peekRest.drop n := by
      rw [PacketReader.peekRest, List.drop_drop]
    change _ = r.peekRest.take n ++ r.buf.drop (r.pos + n)
    rw [hrest, List.take_append_drop]
  · cases h

theorem readLength_eq_ok {max len : Nat} {r t : PacketReader}
    (h : readLength max r = .ok len t) :
    ∃ raw, readVarintValue r = .ok raw t ∧ ¬ raw < 0 ∧ len = raw.toNatClampNeg ∧ len ≤ max := by
  obtain ⟨raw, mid, hraw, hrest⟩ := bind_eq_ok h
  by_cases hneg : raw < 0
  · simp only [if_pos hneg] at hrest
    cases hrest
  simp only [if_neg hneg] at hrest
  by_cases hmax : max < raw.toNatClampNeg
  · simp only [if_pos hmax] at hrest
    cases hrest
  · simp only [if_neg hmax] at hrest
    cases hrest
    exact ⟨raw, hraw, hneg, rfl, Nat.le_of_not_lt hmax⟩

theorem readString_eq_ok {maxChars : Nat} {r t : PacketReader} {s : String}
    (h : readString maxChars r = .ok s t) :
    ∃ len bytes mid, readLength (maxChars * 3) r = .ok len mid ∧ take len mid = .ok bytes t ∧
      String.fromUTF8? (ByteArray.mk bytes.toArray) = some s ∧ s.length ≤ maxChars := by
  obtain ⟨len, mid, hlen, hrest⟩ := bind_eq_ok h
  obtain ⟨bytes, mid', hbytes, hdecode⟩ := bind_eq_ok hrest
  refine ⟨len, bytes, mid, hlen, ?_⟩
  cases hutf8 : String.fromUTF8? (ByteArray.mk bytes.toArray) with
  | none =>
      simp only [hutf8] at hdecode
      cases hdecode
  | some s' =>
      simp only [hutf8] at hdecode
      by_cases hchars : maxChars < s'.length
      · simp only [if_pos hchars] at hdecode
        cases hdecode
      · simp only [if_neg hchars] at hdecode
        cases hdecode
        exact ⟨hbytes, rfl, Nat.le_of_not_lt hchars⟩

/-- A string that is read off a written one was announced by the prefix: the prefix of
the written string, reduced to 31 bits and a sign, is the number of bytes taken. -/
theorem readString_written {s s' : String} {maxChars : Nat} {suffix : Bytes} {r t : PacketReader}
    (hr : r.peekRest = writeString s ++ suffix) (h : readString maxChars r = .ok s' t) :
    ∃ bytes, bytes.length = (asI32 s.utf8ByteSize).toNatClampNeg ∧
      bytes.length ≤ maxChars * 3 ∧ utf8 s ++ suffix = bytes ++ t.peekRest ∧
      String.fromUTF8? (ByteArray.mk bytes.toArray) = some s' ∧ s'.length ≤ maxChars := by
  obtain ⟨len, bytes, mid, hlen, htake, hdecode, hchars⟩ := readString_eq_ok h
  obtain ⟨raw, hraw, -, rfl, hmax⟩ := readLength_eq_ok hlen
  rw [writeString, List.append_assoc] at hr
  obtain ⟨mid', hmid, hrest⟩ := readVarint_reads (asI32 s.utf8ByteSize) r _ hr
  rw [hraw] at hmid
  cases hmid
  have hlength := take_eq_ok htake
  refine ⟨bytes, hlength, by omega, ?_, hdecode, hchars⟩
  rw [← peekRest_of_take htake, hrest]

/-- For strings whose size the prefix can announce, the string itself is the only one
that comes back, and its two limits are the reader's. -/
theorem readString_written_eq {s s' : String} {maxChars : Nat} {suffix : Bytes}
    {r t : PacketReader} (hsize : s.utf8ByteSize < 2 ^ 31)
    (hr : r.peekRest = writeString s ++ suffix) (h : readString maxChars r = .ok s' t) :
    s' = s ∧ t.peekRest = suffix ∧ s.length ≤ maxChars ∧ s.utf8ByteSize ≤ maxChars * 3 := by
  obtain ⟨bytes, hlength, hmax, hsplit, hdecode, hchars⟩ := readString_written hr h
  rw [toNatClampNeg_asI32 hsize] at hlength
  obtain ⟨rfl, rfl⟩ := List.append_inj hsplit ((length_utf8 s).trans hlength.symm)
  rw [fromUTF8_utf8, Option.some.injEq] at hdecode
  rw [← hdecode] at hchars ⊢
  rw [length_utf8] at hmax
  exact ⟨rfl, rfl, hchars, hmax⟩

/-- No `i32` announces more than `2 ^ 31 - 1` bytes. -/
theorem toNatClampNeg_lt (n : Int32) : n.toNatClampNeg < 2 ^ 31 := by
  rw [← Int32.toNat_toInt]
  have := n.toInt_lt
  omega

/-- A string comes back, with what follows it left, exactly when it keeps both limits of the
reader and its size fits the prefix; nothing else is ever read in place of a string whose size
fits. -/
theorem readString_writeString_iff (s : String) (maxChars : Nat) (suffix : Bytes) :
    ((∃ t, readString maxChars (PacketReader.new (writeString s ++ suffix)) = .ok s t ∧
        t.peekRest = suffix) ↔
      s.length ≤ maxChars ∧ s.utf8ByteSize ≤ maxChars * 3 ∧ s.utf8ByteSize < 2 ^ 31) ∧
    (s.utf8ByteSize < 2 ^ 31 → ∀ s' t,
      readString maxChars (PacketReader.new (writeString s ++ suffix)) = .ok s' t →
        s' = s ∧ t.peekRest = suffix) := by
  have hnew := PacketReader.peekRest_new (writeString s ++ suffix)
  constructor
  · constructor
    · rintro ⟨t, hread, hrest⟩
      by_cases hsize : s.utf8ByteSize < 2 ^ 31
      · obtain ⟨-, -, hchars, hbytes⟩ := readString_written_eq hsize hnew hread
        exact ⟨hchars, hbytes, hsize⟩
      · -- a prefix that wrapped announces fewer bytes than there are, so some are left over
        obtain ⟨bytes, hlength, -, hsplit, -⟩ := readString_written hnew hread
        have hshort := toNatClampNeg_lt (asI32 s.utf8ByteSize)
        have hcount := congrArg List.length hsplit
        rw [List.length_append, List.length_append, length_utf8, hrest] at hcount
        omega
    · rintro ⟨hchars, hbytes, hsize⟩
      exact readString_reads hchars hbytes hsize _ suffix hnew
  · intro hsize s' t hread
    obtain ⟨hs, hrest, -⟩ := readString_written_eq hsize hnew hread
    exact ⟨hs, hrest⟩

/-- Two characters of four bytes need a limit of three characters, by the bytes alone. -/
theorem readString_writeString_iff_wide :
    ∀ s' t, readString 3 (PacketReader.new (writeString "😀😀" ++ [7])) = .ok s' t →
      s' = "😀😀" ∧ t.peekRest = [7] :=
  (readString_writeString_iff "😀😀" 3 [7]).2 (by decide)

/-- The character limit alone does not decide: a character of four bytes is over the three that
its limit allows. -/
theorem readString_refuses_wide :
    ¬ ∀ (s : String) (maxChars : Nat) (suffix : Bytes),
      ((∃ s' t, readString maxChars (PacketReader.new (writeString s ++ suffix)) = .ok s' t) ↔
        s.length ≤ maxChars) ∧
      ∀ s' t, readString maxChars (PacketReader.new (writeString s ++ suffix)) = .ok s' t →
        s' = s ∧ t.peekRest = suffix := by
  intro h
  have hsize : "😀".utf8ByteSize = 4 := by decide
  obtain ⟨s', t, hread⟩ := (h "😀" 1 []).1.mpr (by decide)
  obtain ⟨-, -, -, hbytes⟩ := readString_written_eq (by omega)
    (PacketReader.peekRest_new (writeString "😀" ++ [])) hread
  omega

end Rukkit.Protocol
