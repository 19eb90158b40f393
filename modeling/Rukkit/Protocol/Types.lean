import Rukkit.Lib.Words
import Rukkit.Protocol.Error

/-!
# Small value types

The model of `rukkit-protocol/src/types.rs`: positions packed into one 64-bit word,
and the game mode.
-/

namespace Rukkit.Protocol

open Rukkit.Lib

/-- A block position in world space. -/
structure BlockPos where
  x : Int32
  y : Int32
  z : Int32
deriving DecidableEq, Repr

namespace BlockPos

/-- Packs into the wire representation: 26 bits of X, 26 of Z and 12 of Y, from the
most significant bit down. -/
def encode (p : BlockPos) : Int64 :=
  ((p.x.toInt64 &&& (0x3FFFFFF : Int64)) <<< 38) |||
    ((p.z.toInt64 &&& (0x3FFFFFF : Int64)) <<< 12) |||
    (p.y.toInt64 &&& (0xFFF : Int64))

/-- Unpacks from the wire representation, sign-extending each field. -/
def decode (packed : Int64) : BlockPos where
  x := (packed >>> 38).toInt32
  y := ((packed <<< 52) >>> 52).toInt32
  z := ((packed <<< 26) >>> 38).toInt32

end BlockPos

/-- A chunk column coordinate. -/
structure ChunkPos where
  x : Int32
  z : Int32
deriving DecidableEq, Repr

namespace ChunkPos

/-- Packs both coordinates into one word. -/
def toLong (p : ChunkPos) : Int64 :=
  (p.x.toInt64 &&& (0xFFFFFFFF : Int64)) ||| ((p.z.toInt64 &&& (0xFFFFFFFF : Int64)) <<< 32)

def fromLong (packed : Int64) : ChunkPos where
  x := packed.toInt32
  z := (packed >>> 32).toInt32

/-- Chebyshev distance in chunks.  Arithmetic wraps, as in a release build. -/
def chebyshevDistance (p q : ChunkPos) : Int32 :=
  let dx := (p.x - q.x).abs
  let dz := (p.z - q.z).abs
  if dx > dz then dx else dz

end ChunkPos

/-- The chunk column containing this block. -/
def BlockPos.chunk (p : BlockPos) : ChunkPos where
  x := p.x >>> 4
  z := p.z >>> 4

/-- A player's interaction mode. -/
inductive GameMode where
  | survival
  | creative
  | adventure
  | spectator
deriving DecidableEq, Repr

namespace GameMode

def fromId (id : Int32) : Except ProtocolError GameMode :=
  if id = 0 then .ok .survival
  else if id = 1 then .ok .creative
  else if id = 2 then .ok .adventure
  else if id = 3 then .ok .spectator
  else .error (.invalidEnum "GameMode" id.toInt64)

def id : GameMode → UInt8
  | survival => 0
  | creative => 1
  | adventure => 2
  | spectator => 3

theorem fromId_id (mode : GameMode) : fromId mode.id.toUInt32.toInt32 = .ok mode := by
  cases mode <;> rfl

end GameMode

/-! ## Packed positions -/

namespace BlockPos

/-- The coordinates fit their fields. -/
structure InRange (p : BlockPos) : Prop where
  x : -2 ^ 25 ≤ p.x.toInt ∧ p.x.toInt < 2 ^ 25
  y : -2 ^ 11 ≤ p.y.toInt ∧ p.y.toInt < 2 ^ 11
  z : -2 ^ 25 ≤ p.z.toInt ∧ p.z.toInt < 2 ^ 25

theorem toBitVec_encode (p : BlockPos) :
    p.encode.toBitVec =
      p.x.toBitVec.setWidth 26 ++ p.z.toBitVec.setWidth 26 ++ p.y.toBitVec.setWidth 12 := by
  have hwide : 0x3FFFFFF#64 = (BitVec.allOnes 26).setWidth 64 := by decide
  have hnarrow : 0xFFF#64 = (BitVec.allOnes 12).setWidth 64 := by decide
  change ((p.x.toBitVec.signExtend 64 &&& 0x3FFFFFF#64) <<< 38) |||
    ((p.z.toBitVec.signExtend 64 &&& 0x3FFFFFF#64) <<< 12) |||
    (p.y.toBitVec.signExtend 64 &&& 0xFFF#64) = _
  rw [hwide, hnarrow]
  apply BitVec.eq_of_getLsbD_eq
  intro i hi
  simp only [BitVec.getLsbD_or, BitVec.getLsbD_shiftLeft, BitVec.getLsbD_and,
    BitVec.getLsbD_signExtend, BitVec.getLsbD_append, BitVec.getLsbD_setWidth,
    BitVec.getLsbD_allOnes]
  grind

theorem toBitVec_decode_x (packed : Int64) :
    (decode packed).x.toBitVec = (packed.toBitVec.extractLsb' 38 26).signExtend 32 := by
  rw [← Words.signedField_eq _ _ (by decide) (by decide), BitVec.shiftLeft_zero]
  exact Int64.toBitVec_toInt32 _

theorem toBitVec_decode_y (packed : Int64) :
    (decode packed).y.toBitVec = (packed.toBitVec.extractLsb' 0 12).signExtend 32 := by
  rw [← Words.signedField_eq _ _ (by decide) (by decide)]
  exact Int64.toBitVec_toInt32 _

theorem toBitVec_decode_z (packed : Int64) :
    (decode packed).z.toBitVec = (packed.toBitVec.extractLsb' 12 26).signExtend 32 := by
  rw [← Words.signedField_eq _ _ (by decide) (by decide)]
  exact Int64.toBitVec_toInt32 _

/-! A packed coordinate comes back as its signed residue; what the other two are makes
no difference to it. -/

theorem toInt_decode_encode_x (p : BlockPos) :
    (decode p.encode).x.toInt = p.x.toInt.bmod (2 ^ 26) := by
  rw [← Int32.toInt_toBitVec, toBitVec_decode_x, toBitVec_encode,
    BitVec.extractLsb'_append_eq_of_le (by decide), BitVec.extractLsb'_append_eq_left]
  exact Words.toInt_signExtend_setWidth p.x.toBitVec (by decide)

theorem toInt_decode_encode_y (p : BlockPos) :
    (decode p.encode).y.toInt = p.y.toInt.bmod (2 ^ 12) := by
  rw [← Int32.toInt_toBitVec, toBitVec_decode_y, toBitVec_encode,
    BitVec.extractLsb'_append_eq_right]
  exact Words.toInt_signExtend_setWidth p.y.toBitVec (by decide)

theorem toInt_decode_encode_z (p : BlockPos) :
    (decode p.encode).z.toInt = p.z.toInt.bmod (2 ^ 26) := by
  rw [← Int32.toInt_toBitVec, toBitVec_decode_z, toBitVec_encode,
    BitVec.extractLsb'_append_eq_of_le (by decide), BitVec.extractLsb'_append_eq_right]
  exact Words.toInt_signExtend_setWidth p.z.toBitVec (by decide)

theorem ext_toInt {p q : BlockPos} (hx : p.x.toInt = q.x.toInt) (hy : p.y.toInt = q.y.toInt)
    (hz : p.z.toInt = q.z.toInt) : p = q :=
  BlockPos.mk.injEq .. |>.mpr
    ⟨Int32.toInt_inj.mp hx, Int32.toInt_inj.mp hy, Int32.toInt_inj.mp hz⟩

theorem decode_encode_eq_iff (p : BlockPos) : decode p.encode = p ↔ p.InRange := by
  constructor
  · intro h
    have hx := toInt_decode_encode_x p
    have hy := toInt_decode_encode_y p
    have hz := toInt_decode_encode_z p
    rw [h] at hx hy hz
    exact ⟨Words.bmod_two_pow_eq_self_iff.mp hx.symm, Words.bmod_two_pow_eq_self_iff.mp hy.symm,
      Words.bmod_two_pow_eq_self_iff.mp hz.symm⟩
  · intro h
    apply ext_toInt
    · rw [toInt_decode_encode_x]
      exact Words.bmod_two_pow_eq_self_iff.mpr h.x
    · rw [toInt_decode_encode_y]
      exact Words.bmod_two_pow_eq_self_iff.mpr h.y
    · rw [toInt_decode_encode_z]
      exact Words.bmod_two_pow_eq_self_iff.mpr h.z

theorem decode_encode {p : BlockPos} (hp : p.InRange) : decode p.encode = p :=
  (decode_encode_eq_iff p).mpr hp

/-- The three fields fill the word, so none of it is lost in a position. -/
theorem encode_decode (packed : Int64) : (decode packed).encode = packed := by
  rw [← Int64.toBitVec_inj, toBitVec_encode, toBitVec_decode_x, toBitVec_decode_y,
    toBitVec_decode_z]
  apply BitVec.eq_of_getLsbD_eq
  intro i hi
  simp only [BitVec.getLsbD_append, BitVec.getLsbD_setWidth, BitVec.getLsbD_signExtend,
    BitVec.getLsbD_extractLsb']
  grind

end BlockPos

namespace ChunkPos

theorem toBitVec_toLong (p : ChunkPos) : p.toLong.toBitVec = p.z.toBitVec ++ p.x.toBitVec := by
  have hlow : 0xFFFFFFFF#64 = (BitVec.allOnes 32).setWidth 64 := by decide
  change (p.x.toBitVec.signExtend 64 &&& 0xFFFFFFFF#64) |||
    ((p.z.toBitVec.signExtend 64 &&& 0xFFFFFFFF#64) <<< 32) = _
  rw [hlow]
  apply BitVec.eq_of_getLsbD_eq
  intro i hi
  simp only [BitVec.getLsbD_or, BitVec.getLsbD_shiftLeft, BitVec.getLsbD_and,
    BitVec.getLsbD_signExtend, BitVec.getLsbD_append, BitVec.getLsbD_setWidth,
    BitVec.getLsbD_allOnes]
  grind

theorem toBitVec_fromLong_x (packed : Int64) :
    (fromLong packed).x.toBitVec = packed.toBitVec.setWidth 32 :=
  (Int64.toBitVec_toInt32 packed).trans
    (BitVec.signExtend_eq_setWidth_of_le _ (by decide))

theorem toBitVec_fromLong_z (packed : Int64) :
    (fromLong packed).z.toBitVec = (packed.toBitVec.sshiftRight 32).setWidth 32 :=
  (Int64.toBitVec_toInt32 _).trans (BitVec.signExtend_eq_setWidth_of_le _ (by decide))

theorem fromLong_toLong (p : ChunkPos) : fromLong p.toLong = p := by
  have hx : (fromLong p.toLong).x = p.x := by
    rw [← Int32.toBitVec_inj, toBitVec_fromLong_x, toBitVec_toLong]
    exact BitVec.setWidth_append_eq_right
  have hz : (fromLong p.toLong).z = p.z := by
    rw [← Int32.toBitVec_inj, toBitVec_fromLong_z, toBitVec_toLong]
    apply BitVec.eq_of_getLsbD_eq
    intro i hi
    simp only [BitVec.getLsbD_setWidth, BitVec.getLsbD_sshiftRight, BitVec.getLsbD_append]
    grind
  exact ChunkPos.mk.injEq .. |>.mpr ⟨hx, hz⟩

theorem toLong_fromLong (packed : Int64) : (fromLong packed).toLong = packed := by
  rw [← Int64.toBitVec_inj, toBitVec_toLong, toBitVec_fromLong_x, toBitVec_fromLong_z]
  apply BitVec.eq_of_getLsbD_eq
  intro i hi
  simp only [BitVec.getLsbD_append, BitVec.getLsbD_setWidth, BitVec.getLsbD_sshiftRight]
  grind

end ChunkPos

/-- Packing loses nothing either way, up to the width of a field: every word is the packing
of the position it unpacks to, the positions that survive are those in range, and any other
comes back with each coordinate reduced by itself.  Two chunks never share a key. -/
theorem packed_positions :
    (∀ packed : Int64, (BlockPos.decode packed).encode = packed) ∧
    (∀ p : BlockPos, BlockPos.decode p.encode = p ↔
      (-2 ^ 25 ≤ p.x.toInt ∧ p.x.toInt < 2 ^ 25) ∧ (-2 ^ 25 ≤ p.z.toInt ∧ p.z.toInt < 2 ^ 25) ∧
        (-2 ^ 11 ≤ p.y.toInt ∧ p.y.toInt < 2 ^ 11)) ∧
    (∀ p : BlockPos, (BlockPos.decode p.encode).x.toInt = p.x.toInt.bmod (2 ^ 26) ∧
      (BlockPos.decode p.encode).y.toInt = p.y.toInt.bmod (2 ^ 12) ∧
      (BlockPos.decode p.encode).z.toInt = p.z.toInt.bmod (2 ^ 26)) ∧
    (∀ p : ChunkPos, ChunkPos.fromLong p.toLong = p) ∧
    (∀ packed : Int64, (ChunkPos.fromLong packed).toLong = packed) ∧
    Function.Injective ChunkPos.toLong := by
  have hrange (p : BlockPos) : p.InRange ↔
      (-2 ^ 25 ≤ p.x.toInt ∧ p.x.toInt < 2 ^ 25) ∧ (-2 ^ 25 ≤ p.z.toInt ∧ p.z.toInt < 2 ^ 25) ∧
        (-2 ^ 11 ≤ p.y.toInt ∧ p.y.toInt < 2 ^ 11) := by
    constructor
    · intro h
      exact ⟨h.x, h.z, h.y⟩
    · intro h
      exact ⟨h.1, h.2.2, h.2.1⟩
  have hinjective : Function.Injective ChunkPos.toLong :=
    Function.LeftInverse.injective ChunkPos.fromLong_toLong
  have hresidues (p : BlockPos) := And.intro (BlockPos.toInt_decode_encode_x p)
    (And.intro (BlockPos.toInt_decode_encode_y p) (BlockPos.toInt_decode_encode_z p))
  exact ⟨BlockPos.encode_decode,
    fun p => (BlockPos.decode_encode_eq_iff p).trans (hrange p),
    hresidues, ChunkPos.fromLong_toLong, ChunkPos.toLong_fromLong, hinjective⟩

end Rukkit.Protocol
