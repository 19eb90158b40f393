import Rukkit.Protocol.CheckedReader
import Rukkit.Protocol.Nbt

/-!
# Binary NBT with its panics

The decoders of `nbt.rs` over the checked reader.  The string decoder indexes its bytes and
subtracts surrogate bases; the tag decoder recurses down to its depth check.  Neither loop
has a bound of its own, so that a run that does not return shows as one that panics does.
-/

namespace Rukkit.Protocol

open Rukkit.Lib Rukkit.Lib.Checked

namespace Checked

/-! ## Modified UTF-8 -/

/-- `a - b` of code units. -/
def subUnit (a b : UInt32) : Option UInt32 := if b ≤ a then some (a - b) else none

/-- The low surrogate that has to follow the high one at index `i`. -/
def readLowSurrogate (bytes : Bytes) (i : Nat) : Except ProtocolError UInt32 :=
  match bytes[i + 3]? with
  | none => .error (.nbt "unpaired high surrogate")
  | some lead =>
      if lead &&& 0xF0 ≠ 0xE0 then .error (.nbt "unpaired high surrogate")
      else do
        let low ← readUnit bytes lead (i + 3)
        if 0xDC00 ≤ low ∧ low < 0xE000 then return low
        else throw (.nbt "unpaired high surrogate")

/-- One turn of the decoding loop at index `i`, where `b` stands. -/
def decodeModifiedChar (bytes : Bytes) (i : Nat) (b : UInt8) :
    Outcome ProtocolError (Char × Nat) :=
  if b < 0x80 then return (Char.ofNat b.toNat, 1)
  else if b &&& 0xE0 = 0xC0 then do
    let tail ← continuation bytes (i + 1)
    let c ← charFromU32 ((b &&& 0x1F).toUInt32 <<< 6 ||| tail)
    return (c, 2)
  else if b &&& 0xF0 = 0xE0 then do
    let unit ← readUnit bytes b i
    if 0xD800 ≤ unit ∧ unit < 0xDC00 then
      let low ← readLowSurrogate bytes i
      let high ← subUnit unit 0xD800
      let low ← subUnit low 0xDC00
      let c ← charFromU32 ((0x10000 : UInt32) + (high <<< 10) + low)
      return (c, 6)
    else if 0xDC00 ≤ unit ∧ unit < 0xE000 then throw (.nbt "unpaired low surrogate")
    else
      let c ← charFromU32 unit
      return (c, 3)
  else throw (.nbt "invalid modified UTF-8 lead byte")

/-- `while i < bytes.len()`, with the characters so far in `out`. -/
def decodeModifiedTurn (bytes : Bytes) :
    Nat × List Char → Outcome ProtocolError (Nat × List Char ⊕ List Char)
  | (i, out) =>
    if bytes.length ≤ i then return .inr out
    else do
      let b ← (bytes[i]? : Option UInt8)
      let (c, used) ← decodeModifiedChar bytes i b
      return .inl (i + used, out ++ [c])

def decodeModifiedChars (bytes : Bytes) (i : Nat) (out : List Char) :
    Outcome ProtocolError (List Char) :=
  Outcome.loop (decodeModifiedTurn bytes) (i, out)

def decodeModifiedUtf8 (bytes : Bytes) : Outcome ProtocolError String := do
  return String.ofList (← decodeModifiedChars bytes 0 [])

def readModifiedUtf8 : CheckedReader String := do
  let len ← readU16
  let bytes ← readBytes len.toNat
  call (decodeModifiedUtf8 bytes)

section Strings

variable (bytes : Bytes) (i : Nat)

theorem continuation_drop (j : Nat) :
    continuation (bytes.drop i) j = continuation bytes (i + j) := by
  rw [continuation, continuation, List.getElem?_drop]

theorem readUnit_drop (lead : UInt8) (j : Nat) :
    readUnit (bytes.drop i) lead j = readUnit bytes lead (i + j) := by
  rw [readUnit, readUnit, continuation_drop, continuation_drop]
  rfl

theorem readLowSurrogate_drop :
    Protocol.readLowSurrogate (bytes.drop i) = readLowSurrogate bytes i := by
  rw [Protocol.readLowSurrogate, readLowSurrogate, List.getElem?_drop]
  cases bytes[i + 3]? with
  | none => rfl
  | some lead => simp only [readUnit_drop]

theorem le_of_readLowSurrogate {low : UInt32} (h : readLowSurrogate bytes i = .ok low) :
    0xDC00 ≤ low := by
  unfold readLowSurrogate at h
  split at h
  · cases h
  · split at h
    · cases h
    · obtain ⟨unit, -, hrange⟩ := Outcome.except_bind_eq_ok h
      split at hrange
      · rename_i hlow
        cases hrange
        exact hlow.1
      · cases hrange

theorem subUnit_eq {a b : UInt32} (h : b ≤ a) : subUnit a b = some (a - b) := if_pos h

/-- The two subtractions stay in range: both surrogates were compared before. -/
theorem decodeModifiedChar_eq (b : UInt8) :
    decodeModifiedChar bytes i b = some (Protocol.decodeModifiedChar (bytes.drop i) b) := by
  unfold decodeModifiedChar Protocol.decodeModifiedChar
  split
  · rfl
  · split
    · rw [continuation_drop]
      refine Outcome.bind_except fun tail _ => ?_
      refine Outcome.bind_except fun c _ => ?_
      rfl
    · split
      · rw [readUnit_drop, readLowSurrogate_drop, Nat.add_zero]
        refine Outcome.bind_except fun unit _ => ?_
        by_cases hhigh : 0xD800 ≤ unit ∧ unit < 0xDC00
        · rw [if_pos hhigh, if_pos hhigh]
          refine Outcome.bind_except fun low hlow => ?_
          rw [Outcome.bind_option (subUnit_eq hhigh.1),
            Outcome.bind_option (subUnit_eq (le_of_readLowSurrogate bytes i hlow))]
          refine Outcome.bind_except fun c _ => ?_
          rfl
        · rw [if_neg hhigh, if_neg hhigh]
          split
          · rfl
          · refine Outcome.bind_except fun c _ => ?_
            rfl
      · rfl

/-- Every turn takes a byte. -/
theorem decodeModifiedChar_used {suffix : Bytes} {b : UInt8} {c : Char} {used : Nat}
    (h : Protocol.decodeModifiedChar suffix b = .ok (c, used)) : 0 < used := by
  unfold Protocol.decodeModifiedChar at h
  split at h
  · cases h
    decide
  · split at h
    · obtain ⟨tail, -, htail⟩ := Outcome.except_bind_eq_ok h
      obtain ⟨c', -, hc⟩ := Outcome.except_bind_eq_ok htail
      cases hc
      decide
    · split at h
      · obtain ⟨unit, -, hunit⟩ := Outcome.except_bind_eq_ok h
        split at hunit
        · obtain ⟨low, -, hlow⟩ := Outcome.except_bind_eq_ok hunit
          obtain ⟨c', -, hc⟩ := Outcome.except_bind_eq_ok hlow
          cases hc
          decide
        · split at hunit
          · cases hunit
          · obtain ⟨c', -, hc⟩ := Outcome.except_bind_eq_ok hunit
            cases hc
            decide
      · cases h

theorem decodeModifiedTurn_eq {i : Nat} {out : List Char} (hlt : i < bytes.length) :
    decodeModifiedTurn bytes (i, out) = some do
      let (c, used) ← Protocol.decodeModifiedChar (bytes.drop i) bytes[i]
      return .inl (i + used, out ++ [c]) := by
  rw [decodeModifiedTurn, if_neg (Nat.not_le.mpr hlt),
    Outcome.bind_option (List.getElem?_eq_getElem hlt)]
  exact Outcome.bind_eq (decodeModifiedChar_eq bytes i _) fun _ _ => rfl

theorem decodeModifiedChars_eq (i : Nat) (out : List Char) : decodeModifiedChars bytes i out =
    some ((out ++ ·) <$> Protocol.decodeModifiedChars (bytes.drop i)) := by
  induction hleft : bytes.length - i using Nat.strong_induction_on generalizing i out with
  | h left ih =>
      by_cases hend : bytes.length ≤ i
      · rw [decodeModifiedChars, Outcome.loop_eq, decodeModifiedTurn, if_pos hend,
          List.drop_eq_nil_of_le hend, Protocol.decodeModifiedChars]
        exact congrArg (some ∘ Except.ok) (List.append_nil out).symm
      · have hlt : i < bytes.length := Nat.not_le.mp hend
        rw [decodeModifiedChars, Outcome.loop_eq, decodeModifiedTurn_eq bytes hlt,
          List.drop_eq_getElem_cons hlt, Protocol.decodeModifiedChars,
          ← List.drop_eq_getElem_cons hlt]
        cases hchar : Protocol.decodeModifiedChar (bytes.drop i) bytes[i] with
        | error e => rfl
        | ok result =>
            obtain ⟨c, used⟩ := result
            have hused := decodeModifiedChar_used hchar
            have hrest : (bytes.drop (i + 1)).drop (used - 1) = bytes.drop (i + used) := by
              rw [List.drop_drop]
              congr 1
              omega
            change decodeModifiedChars bytes (i + used) (out ++ [c]) = some ((out ++ ·) <$>
              (Protocol.decodeModifiedChars ((bytes.drop (i + 1)).drop (used - 1)) >>=
                fun chars => pure (c :: chars)))
            rw [ih _ (by omega) (i + used) _ rfl, hrest]
            cases Protocol.decodeModifiedChars (bytes.drop (i + used)) with
            | error e => rfl
            | ok chars => exact congrArg (some ∘ Except.ok) (List.append_cons out c chars).symm

theorem decodeModifiedUtf8_eq :
    decodeModifiedUtf8 bytes = some (Protocol.decodeModifiedUtf8 bytes) := by
  have hchars := decodeModifiedChars_eq bytes 0 []
  rw [List.drop_zero, show (([] : List Char) ++ ·) = id from funext List.nil_append, id_map]
    at hchars
  exact Outcome.bind_eq hchars fun _ _ => rfl

theorem readModifiedUtf8_follows : Follows readModifiedUtf8 Protocol.readModifiedUtf8 := by
  refine readU16_follows.bind fun len => ?_
  refine (readBytes_follows len.toNat).bind fun bytes => ?_
  intro r
  have hcall := exec_call (decodeModifiedUtf8_eq bytes) r.cursor
  cases hdecode : Protocol.decodeModifiedUtf8 bytes with
  | ok s =>
      rw [hdecode] at hcall
      exact ⟨hcall, le_refl r⟩
  | error e =>
      rw [hdecode] at hcall
      exact ⟨hcall, le_refl r⟩

end Strings

/-! ## Tags -/

def readNbtLen : CheckedReader Nat := do
  let len ← readI32
  if len < 0 then throw (.negativeLength len)
  let len := len.toNatClampNeg
  if maxArrayLen < len then throw (.lengthLimitExceeded len maxArrayLen)
  return len

/-- The loop of a compound, which has no bound of its own; `read` reads a value. -/
def readEntries (read : UInt8 → CheckedReader NbtTag) (compound : List (String × NbtTag)) :
    CheckedReader (List (String × NbtTag)) :=
  loop (fun compound => do
    let entryType ← readU8
    if entryType = tagEnd then return .inr compound
    else
      let name ← readModifiedUtf8
      let value ← read entryType
      return .inl (nbtInsert compound name value)) compound

def readPayload (typeId : UInt8) (depth : Nat) : CheckedReader NbtTag :=
  if maxDepth < depth then throw (.nbtTooDeep maxDepth)
  else
    match typeId with
    | tagByte => do return .byte (← readI8)
    | tagShort => do return .short (← readI16)
    | tagInt => do return .int (← readI32)
    | tagLong => do return .long (← readI64)
    | tagFloat => do return .float (← readF32)
    | tagDouble => do return .double (← readF64)
    | tagByteArray => do
        let len ← readNbtLen
        let bytes ← readBytes len
        return .byteArray (bytes.map UInt8.toInt8)
    | tagString => do return .string (← readModifiedUtf8)
    | tagList => do
        let elementType ← readU8
        let len ← readNbtLen
        if elementType = tagEnd ∧ 0 < len then throw (.nbt "non-empty list of TAG_End")
        else
          let _ ← remaining
          let items ← replicate (readPayload elementType (depth + 1)) len
          return .list elementType items
    | tagCompound => do
        let entries ← readEntries (fun entryType => readPayload entryType (depth + 1)) []
        return .compound entries
    | tagIntArray => do
        let len ← readNbtLen
        let _ ← remaining
        return .intArray (← replicate readI32 len)
    | tagLongArray => do
        let len ← readNbtLen
        let _ ← remaining
        return .longArray (← replicate readI64 len)
    | other => throw (.invalidEnum "NBT tag type" other.toUInt64.toInt64)
termination_by maxDepth + 1 - depth

def readNetwork : CheckedReader NbtTag := do
  let typeId ← readU8
  if typeId = tagEnd then throw (.nbt "root tag is TAG_End")
  else readPayload typeId 0

def readNamed : CheckedReader (String × NbtTag) := do
  let typeId ← readU8
  if typeId = tagEnd then throw (.nbt "root tag is TAG_End")
  else
    let name ← readModifiedUtf8
    return (name, ← readPayload typeId 0)

theorem readNbtLen_follows : Follows readNbtLen Protocol.readNbtLen := by
  refine readI32_follows.bind fun len => ?_
  split
  · exact Tracks.throw_bind _ _ _
  · dsimp only
    split
    · exact Tracks.throw_bind _ _ _
    · exact Tracks.pure _

/-- Every turn of the loop takes a byte, so it ends when the buffer does. -/
theorem readEntries_follows {checkedRead : UInt8 → CheckedReader NbtTag}
    {read : UInt8 → Reader NbtTag} (hread : ∀ typeId, Follows (checkedRead typeId) (read typeId)) :
    ∀ (turns : Nat) (compound : List (String × NbtTag)) (r : PacketReader), r.remaining ≤ turns →
      TracksAt PacketReader.cursor (readEntries checkedRead compound)
        (Protocol.readEntries read turns compound) r := by
  intro turns
  induction turns with
  | zero =>
      intro compound r hturns
      have hread := (readU8_follows r).exec_eq
      rw [readU8_of_empty (Nat.le_zero.mp hturns)] at hread
      rw [readEntries, loop_eq, bind_assoc]
      exact ⟨exec_bind_error hread, le_refl r⟩
  | succ turns ih =>
      intro compound r hturns
      rw [readEntries, loop_eq, bind_assoc, Protocol.readEntries]
      refine (readU8_follows r).bind fun entryType t htype => ?_
      split
      · exact TracksAt.pure _ _
      · rw [bind_assoc]
        refine (readModifiedUtf8_follows t).bind fun name u hname => ?_
        rw [bind_assoc]
        refine (hread entryType u).bind fun value v hvalue => ?_
        apply ih
        obtain ⟨hbuf, hpos⟩ := readU8_eq_ok htype
        obtain ⟨hbuf', hpos'⟩ := (readModifiedUtf8_follows t).le_of_ok hname
        obtain ⟨hbuf'', hpos''⟩ := (hread entryType u).le_of_ok hvalue
        rw [PacketReader.remaining] at hturns ⊢
        rw [← hbuf'', ← hbuf', hbuf]
        omega

theorem readPayload_follows : ∀ (levels depth : Nat), levels + depth = maxDepth + 1 →
    ∀ typeId, Follows (readPayload typeId depth) (Protocol.readPayload levels typeId) := by
  intro levels
  induction levels with
  | zero =>
      intro depth hdepth typeId
      rw [readPayload.eq_def, if_pos (by omega)]
      exact Tracks.throw _
  | succ levels ih =>
      intro depth hdepth typeId
      have hread := ih (depth + 1) (by omega)
      rw [readPayload.eq_def, if_neg (by omega)]
      split <;> rw [Protocol.readPayload]
      · exact readI8_follows.bind_pure _
      · exact readI16_follows.bind_pure _
      · exact readI32_follows.bind_pure _
      · exact readI64_follows.bind_pure _
      · exact readF32_follows.bind_pure _
      · exact readF64_follows.bind_pure _
      · exact readNbtLen_follows.bind fun len => (readBytes_follows len).bind_pure _
      · exact readModifiedUtf8_follows.bind_pure _
      · refine readU8_follows.bind fun elementType => ?_
        refine readNbtLen_follows.bind fun len => ?_
        split
        · exact Tracks.throw _
        · exact remaining_bind (((hread elementType).replicate len).bind_pure _)
      · refine Tracks.bind_pure (fun r => ?_) _
        have hentries := readEntries_follows hread r.remaining [] r (Nat.le_refl _)
        exact ⟨hentries.exec_eq, hentries.le⟩
      · exact readNbtLen_follows.bind fun len =>
          remaining_bind ((readI32_follows.replicate len).bind_pure _)
      · exact readNbtLen_follows.bind fun len =>
          remaining_bind ((readI64_follows.replicate len).bind_pure _)
      · exact Tracks.throw _
      all_goals assumption

theorem readNetwork_follows : Follows readNetwork Protocol.readNetwork := by
  refine readU8_follows.bind fun typeId => ?_
  split
  · exact Tracks.throw _
  · exact readPayload_follows (maxDepth + 1) 0 rfl typeId

theorem readNamed_follows : Follows readNamed Protocol.readNamed := by
  refine readU8_follows.bind fun typeId => ?_
  split
  · exact Tracks.throw _
  · refine readModifiedUtf8_follows.bind fun name => ?_
    exact (readPayload_follows (maxDepth + 1) 0 rfl typeId).bind_pure _

end Checked

end Rukkit.Protocol
