import Mathlib.Algebra.Order.Group.Int
import Mathlib.Algebra.Order.Ring.Int

/-!
# Distances in a grid

Positions of the plane, the square cells they are in, and their distance as the larger one of
those along the two axes.
-/

namespace Rukkit.Lib.Grid

/-- The larger of the distances along the two axes. -/
def reach (p q : Int × Int) : Nat := max (p.1 - q.1).natAbs (p.2 - q.2).natAbs

/-- The position of the cell of side `n` that a position is in. -/
def cell (n : Int) (p : Int × Int) : Int × Int := (p.1 / n, p.2 / n)

section Reach

variable (p q r : Int × Int)

theorem reach_comm : reach p q = reach q p := by
  unfold reach
  omega

theorem reach_eq_zero_iff : reach p q = 0 ↔ p = q := by
  rw [Prod.ext_iff]
  unfold reach
  omega

theorem reach_triangle : reach p r ≤ reach p q + reach q r := by
  unfold reach
  omega

/-- Along one axis, the cells of two positions are about as far apart as the positions. -/
theorem natAbs_sub_div {n : Int} (hn : 0 < n) (a b : Int) :
    n * (a / n - b / n).natAbs < (a - b).natAbs + n ∧
      ((a - b).natAbs : Int) < n * (a / n - b / n).natAbs + n := by
  have ha := Int.mul_ediv_add_emod a n
  have hb := Int.mul_ediv_add_emod b n
  have ha₀ := Int.emod_nonneg a hn.ne'
  have hb₀ := Int.emod_nonneg b hn.ne'
  have ha₁ := Int.emod_lt_of_pos a hn
  have hb₁ := Int.emod_lt_of_pos b hn
  generalize a / n = i at *
  generalize b / n = j at *
  have hprod : n * (i - j).natAbs = (n * i - n * j).natAbs := by
    rw [← Int.mul_sub, Int.natAbs_mul, Int.natCast_mul, Int.natAbs_of_nonneg hn.le]
  rw [hprod]
  omega

theorem reach_cell {n : Int} (hn : 0 < n) :
    n * reach (cell n p) (cell n q) < reach p q + n ∧
      (reach p q : Int) < n * reach (cell n p) (cell n q) + n := by
  obtain ⟨hx, hx'⟩ := natAbs_sub_div hn p.1 q.1
  obtain ⟨hz, hz'⟩ := natAbs_sub_div hn p.2 q.2
  unfold reach cell
  dsimp only
  rcases Nat.le_total (p.1 / n - q.1 / n).natAbs (p.2 / n - q.2 / n).natAbs with hle | hle
  · have hmul := Int.mul_le_mul_of_nonneg_left (Int.ofNat_le.mpr hle) hn.le
    rw [max_eq_right hle]
    omega
  · have hmul := Int.mul_le_mul_of_nonneg_left (Int.ofNat_le.mpr hle) hn.le
    rw [max_eq_left hle]
    omega

end Reach

end Rukkit.Lib.Grid
