import Rukkit.Lib.Grid
import Rukkit.Protocol.Types
import Rukkit.World.ChunkAddressing

/-!
# View distance

The chunk of a block and the distance of chunks in `rukkit-protocol/src/types.rs`: what the
32-bit distance says about how far apart two blocks are.
-/

namespace Rukkit.World

open Rukkit.Lib.Grid Rukkit.Protocol

/-- Where a chunk is among the chunks. -/
def coords (p : ChunkPos) : Int × Int := (p.x.toInt, p.z.toInt)

/-- Where a block is, seen from above. -/
def ground (p : BlockPos) : Int × Int := (p.x.toInt, p.z.toInt)

theorem coords_injective : Function.Injective coords := by
  intro p q h
  obtain ⟨hx, hz⟩ := Prod.mk.inj h
  exact ChunkPos.mk.injEq .. |>.mpr ⟨Int32.toInt_inj.mp hx, Int32.toInt_inj.mp hz⟩

/-- A chunk is a cell of side 16, below zero too. -/
theorem coords_chunk (p : BlockPos) : coords p.chunk = cell 16 (ground p) :=
  Prod.ext (toInt_shiftRight_four p.x) (toInt_shiftRight_four p.z)

theorem toInt_abs_sub {a b : Int32} (h : (a.toInt - b.toInt).natAbs < 2 ^ 31) :
    (a - b).abs.toInt = (a.toInt - b.toInt).natAbs := by
  have hsub : (a - b).toInt = a.toInt - b.toInt := by
    rw [Int32.toInt_sub, Int.bmod_eq_of_le (by omega) (by omega)]
  have hne : (a - b).toBitVec ≠ BitVec.intMin 32 := by
    intro heq
    have hmin : (a - b).toInt = -2 ^ 31 := congrArg BitVec.toInt heq
    omega
  change ((a - b).toBitVec.abs).toInt = _
  rw [BitVec.toInt_abs_eq_natAbs_of_ne_intMin hne]
  change (((a - b).toInt.natAbs : Nat) : Int) = _
  rw [hsub]

/-- The distance is the true one wherever that fits it. -/
theorem toInt_chebyshevDistance {p q : ChunkPos} (h : reach (coords p) (coords q) < 2 ^ 31) :
    (p.chebyshevDistance q).toInt = reach (coords p) (coords q) := by
  have hreach : reach (coords p) (coords q) =
      max (p.x.toInt - q.x.toInt).natAbs (p.z.toInt - q.z.toInt).natAbs := rfl
  have hx := toInt_abs_sub (a := p.x) (b := q.x) (by omega)
  have hz := toInt_abs_sub (a := p.z) (b := q.z) (by omega)
  rw [ChunkPos.chebyshevDistance]
  split
  · rename_i hlt
    rw [gt_iff_lt, Int32.lt_iff_toInt_lt] at hlt
    omega
  · rename_i hle
    rw [gt_iff_lt, Int32.lt_iff_toInt_lt] at hle
    omega

theorem chebyshevDistance_eq_iff (p q : ChunkPos) :
    (p.chebyshevDistance q).toInt = reach (coords p) (coords q) ↔
      reach (coords p) (coords q) < 2 ^ 31 := by
  constructor
  · intro h
    have hlt := (p.chebyshevDistance q).toInt_lt
    omega
  · exact toInt_chebyshevDistance

/-- Chunks that have blocks are never too far apart. -/
theorem toInt_chebyshevDistance_chunk (a b : BlockPos) :
    (a.chunk.chebyshevDistance b.chunk).toInt =
      reach (cell 16 (ground a)) (cell 16 (ground b)) := by
  rw [← coords_chunk, ← coords_chunk]
  apply toInt_chebyshevDistance
  have hax := a.x.toInt_lt
  have hax' := a.x.le_toInt
  have hbx := b.x.toInt_lt
  have hbx' := b.x.le_toInt
  have haz := a.z.toInt_lt
  have haz' := a.z.le_toInt
  have hbz := b.z.toInt_lt
  have hbz' := b.z.le_toInt
  rw [coords_chunk, coords_chunk, reach, cell, cell, ground, ground]
  dsimp only
  omega

/-- The 32-bit distance is exact as long as it can be, and on the chunks of blocks it always
is: there it is a metric, a chunk being the blocks of a cell of side 16, and two blocks are as
far apart as their chunks, up to the size of one. -/
theorem view_distance_metric :
    (∀ p q : ChunkPos, (p.chebyshevDistance q).toInt = reach (coords p) (coords q) ↔
      reach (coords p) (coords q) < 2 ^ 31) ∧
    (∀ (b : BlockPos) (p : ChunkPos), b.chunk = p ↔
      (16 * p.x.toInt ≤ b.x.toInt ∧ b.x.toInt < 16 * p.x.toInt + 16) ∧
        16 * p.z.toInt ≤ b.z.toInt ∧ b.z.toInt < 16 * p.z.toInt + 16) ∧
    (∀ a b : BlockPos, a.chunk.chebyshevDistance b.chunk = 0 ↔ a.chunk = b.chunk) ∧
    (∀ a b : BlockPos,
      a.chunk.chebyshevDistance b.chunk = b.chunk.chebyshevDistance a.chunk) ∧
    (∀ a b c : BlockPos, (a.chunk.chebyshevDistance c.chunk).toInt ≤
      (a.chunk.chebyshevDistance b.chunk).toInt + (b.chunk.chebyshevDistance c.chunk).toInt) ∧
    ∀ a b : BlockPos,
      16 * (a.chunk.chebyshevDistance b.chunk).toInt < reach (ground a) (ground b) + 16 ∧
        reach (ground a) (ground b) < 16 * (a.chunk.chebyshevDistance b.chunk).toInt + 16 := by
  refine ⟨chebyshevDistance_eq_iff, ?_, ?_, ?_, ?_, ?_⟩
  · intro b p
    rw [← coords_injective.eq_iff, coords_chunk, Prod.ext_iff, cell, coords, ground]
    dsimp only
    omega
  · intro a b
    rw [← Int32.toInt_inj, toInt_chebyshevDistance_chunk, ← coords_injective.eq_iff, coords_chunk,
      coords_chunk, ← reach_eq_zero_iff]
    exact Int.natCast_eq_zero
  · intro a b
    rw [← Int32.toInt_inj, toInt_chebyshevDistance_chunk, toInt_chebyshevDistance_chunk,
      reach_comm]
  · intro a b c
    rw [toInt_chebyshevDistance_chunk, toInt_chebyshevDistance_chunk,
      toInt_chebyshevDistance_chunk]
    exact Int.ofNat_le.mpr (reach_triangle _ _ _)
  · intro a b
    rw [toInt_chebyshevDistance_chunk]
    exact reach_cell _ _ (by decide)

end Rukkit.World
