import Rukkit.Lib.Windows

/-!
# Tick metrics

The model of `rukkit-server/src/tick.rs`: the window of recent tick times, the lifetime
counters, and which sample the tail figures report.  The conversions to floating point
milliseconds are left out.
-/

namespace Rukkit.Server

open Rukkit.Lib

/-- A span of time, in nanoseconds. -/
abbrev Duration := Nat

/-- Rolling tick-time statistics. -/
structure TickMetrics where
  window : List Duration
  capacity : Nat
  target : Duration
  totalTicks : UInt64
  overrunTicks : UInt64
deriving DecidableEq, Repr

namespace TickMetrics

/-- Keeps `capacity` recent samples; `none` is the panic on none. -/
def new (target : Duration) (capacity : Nat) : Option TickMetrics :=
  if 0 < capacity then
    some { window := [], capacity, target, totalTicks := 0, overrunTicks := 0 }
  else none

variable (m : TickMetrics)

/-- Records how long one tick's work took. -/
def record (elapsed : Duration) : TickMetrics :=
  { m with
    window := (if m.window.length = m.capacity then m.window.tail else m.window) ++ [elapsed]
    totalTicks := m.totalTicks + 1
    overrunTicks := if m.target < elapsed then m.overrunTicks + 1 else m.overrunTicks }

def samples : Nat := m.window.length

/-- The sample `max_mspt` reports, if there is one. -/
def maxSample : Option Duration := m.window.max?

/-- The sample `percentile_mspt` reports, if there is one.  The rank is the float
`(p.clamp(0.0, 1.0) * len).ceil() as usize`, which is at most `len`. -/
def percentileSample (rank : Nat) : Option Duration :=
  if m.window.isEmpty then none
  else
    let sorted := m.window.mergeSort (· ≤ ·)
    sorted[min (rank - 1) (sorted.length - 1)]?

/-! ## Whole histories -/

variable {m} {target : Duration} {capacity : Nat} {ticks : List Duration}

/-- The metrics after a history of ticks. -/
def after (target : Duration) (capacity : Nat) (ticks : List Duration) : TickMetrics where
  window := ticks.drop (ticks.length - capacity)
  capacity := capacity
  target := target
  totalTicks := UInt64.ofNat ticks.length
  overrunTicks := UInt64.ofNat (ticks.countP (target < ·))

theorem new_eq_some (h : new target capacity = some m) :
    0 < capacity ∧ m = after target capacity [] := by
  unfold new at h
  split at h
  · rename_i hpos
    refine ⟨hpos, ?_⟩
    rw [← Option.some.inj h]
    simp [after]
  · cases h

/-- One more tick. -/
theorem record_after (hpos : 0 < capacity) (elapsed : Duration) :
    (after target capacity ticks).record elapsed = after target capacity (ticks ++ [elapsed]) := by
  have hwindow : pushWindow capacity (ticks.drop (ticks.length - capacity)) elapsed =
      (ticks ++ [elapsed]).drop ((ticks ++ [elapsed]).length - capacity) := by
    rw [← foldl_pushWindow hpos, ← foldl_pushWindow hpos, List.foldl_append]
    rfl
  have htotal : UInt64.ofNat ticks.length + 1 = UInt64.ofNat (ticks ++ [elapsed]).length := by
    rw [List.length_append, UInt64.ofNat_add]
    rfl
  have hoverrun : (if target < elapsed then UInt64.ofNat (ticks.countP (target < ·)) + 1
      else UInt64.ofNat (ticks.countP (target < ·))) =
        UInt64.ofNat ((ticks ++ [elapsed]).countP (target < ·)) := by
    rw [List.countP_append, List.countP_singleton]
    by_cases hlate : target < elapsed
    · rw [if_pos hlate, if_pos (decide_eq_true hlate), UInt64.ofNat_add]
      rfl
    · rw [if_neg hlate, if_neg (by simpa using hlate)]
      rfl
  unfold after
  rw [← hwindow, ← htotal, ← hoverrun]
  rfl

theorem foldl_record (hpos : 0 < capacity) (ticks : List Duration) :
    ticks.foldl record (after target capacity []) = after target capacity ticks := by
  induction ticks using List.reverseRecOn with
  | nil => rfl
  | append_singleton ticks elapsed ih => rw [List.foldl_append, ih, ← record_after hpos]; rfl

/-- After any history the window holds the last ticks, as many as fit, while the counters
have counted all of them, and the largest sample of the window is the one reported. -/
theorem history_recorded (hnew : new target capacity = some m) (ticks : List Duration) :
    ticks.foldl record m = after target capacity ticks ∧
      (ticks.foldl record m).samples = min ticks.length capacity ∧
      ∀ sample, (ticks.foldl record m).maxSample = some sample ↔
        sample ∈ ticks.drop (ticks.length - capacity) ∧
          ∀ other ∈ ticks.drop (ticks.length - capacity), other ≤ sample := by
  obtain ⟨hpos, rfl⟩ := new_eq_some hnew
  rw [foldl_record hpos]
  refine ⟨rfl, ?_, ?_⟩
  · rw [samples, after, List.length_drop]
    omega
  · intro sample
    exact List.max?_eq_some_iff

theorem history_recorded_three : ∃ m, new 50 2 = some m ∧
    [100, 10, 20].foldl record m = after 50 2 [100, 10, 20] ∧
    ([100, 10, 20].foldl record m).samples = 2 ∧
    ([100, 10, 20].foldl record m).maxSample = some 20 := by
  have hnew : new 50 2 = some ⟨[], 2, 50, 0, 0⟩ := rfl
  obtain ⟨hafter, hsamples, hmax⟩ := history_recorded hnew [100, 10, 20]
  exact ⟨_, hnew, hafter, hsamples, (hmax 20).mpr (by decide)⟩

example : after 50 2 [100, 10, 20] = ⟨[10, 20], 2, 50, 3, 1⟩ := by decide

/-- The sample reported for a rank is the nearest-rank percentile of the window: it is one of
the last ticks, and a bound holds for it exactly if it holds for as many of them as the rank
says, or for one if that is none. -/
theorem percentile_nearest_rank (hnew : new target capacity = some m) (hticks : ticks ≠ [])
    {rank : Nat} (hrank : rank ≤ (ticks.foldl record m).samples) :
    ∃ sample, (ticks.foldl record m).percentileSample rank = some sample ∧
      sample ∈ ticks.drop (ticks.length - capacity) ∧
      (∀ bound, sample ≤ bound ↔
        max rank 1 ≤ (ticks.drop (ticks.length - capacity)).countP (· ≤ bound)) ∧
      (rank = (ticks.foldl record m).samples →
        (ticks.foldl record m).maxSample = some sample) := by
  obtain ⟨hpos, rfl⟩ := new_eq_some hnew
  rw [foldl_record hpos] at hrank ⊢
  have hwindow : 0 < (after target capacity ticks).window.length := by
    have hlength := List.length_pos_iff.mpr hticks
    rw [after, List.length_drop]
    omega
  have hlast : rank - 1 ≤ (after target capacity ticks).window.length - 1 :=
    Nat.sub_le_sub_right hrank 1
  have hbelow : rank - 1 < (after target capacity ticks).window.length := by omega
  obtain ⟨sample, hsample, hheld⟩ := sampleOfRank_spec hbelow
  refine ⟨sample, ?_, hheld.mem, ?_, ?_⟩
  · have hne : (after target capacity ticks).window.isEmpty = false := by
      rw [List.isEmpty_eq_false_iff]
      exact List.ne_nil_of_length_pos hwindow
    rw [percentileSample, hne, if_neg Bool.false_ne_true]
    dsimp only
    rw [List.length_mergeSort, Nat.min_eq_left hlast]
    exact hsample
  · intro bound
    have hiff := hheld.le_iff (b := bound)
    rw [hiff, ← Nat.succ_le_iff]
    change rank - 1 + 1 ≤ _ ↔ max rank 1 ≤ _
    rw [show rank - 1 + 1 = max rank 1 by omega]
    rfl
  · rintro rfl
    exact List.max?_eq_some_iff.mpr ⟨hheld.mem, fun other hother => hheld.le_of_last hother⟩

/-- A spike among fast ticks is out of reach of the median and is the last percentile. -/
theorem percentile_nearest_rank_spike : ∃ m median last, new 50 100 = some m ∧
    ([1, 500, 1].foldl record m).percentileSample 2 = some median ∧ median ≤ 1 ∧
    ([1, 500, 1].foldl record m).percentileSample 3 = some last ∧ ¬ last ≤ 499 := by
  have hnew : new 50 100 = some ⟨[], 100, 50, 0, 0⟩ := rfl
  obtain ⟨median, hmedian, -, hle, -⟩ := percentile_nearest_rank hnew
    (List.cons_ne_nil 1 [500, 1]) (show 2 ≤ _ by decide)
  obtain ⟨last, hlast, -, hle', -⟩ := percentile_nearest_rank hnew
    (List.cons_ne_nil 1 [500, 1]) (show 3 ≤ _ by decide)
  exact ⟨_, median, last, hnew, hmedian, (hle 1).mpr (by decide), hlast,
    (hle' 499).not.mpr (by decide)⟩

end TickMetrics

end Rukkit.Server
