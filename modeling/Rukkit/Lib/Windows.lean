import Mathlib.Data.List.Sort
import Mathlib.Data.List.Induction

/-!
# Sliding windows and order statistics

The last few of a sequence of samples, kept by dropping the oldest, and the sample of a
given rank among them.
-/

namespace Rukkit.Lib

variable {α : Type*}

/-! ## The window -/

/-- A sample enters; the oldest leaves once there are `capacity`. -/
def pushWindow (capacity : Nat) (window : List α) (a : α) : List α :=
  (if window.length = capacity then window.tail else window) ++ [a]

/-- The window holds the last samples, as many as fit. -/
theorem foldl_pushWindow {capacity : Nat} (hpos : 0 < capacity) (samples : List α) :
    samples.foldl (pushWindow capacity) [] = samples.drop (samples.length - capacity) := by
  induction samples using List.reverseRecOn with
  | nil => simp
  | append_singleton samples a ih =>
      rw [List.foldl_append, List.foldl_cons, List.foldl_nil, ih, pushWindow, List.length_drop,
        List.length_append, List.length_singleton]
      by_cases hfull : capacity ≤ samples.length
      · have hlast : samples.length + 1 - capacity ≤ samples.length := by omega
        rw [if_pos (by omega), List.tail_drop, List.drop_append_of_le_length hlast]
        congr 2
        omega
      · have hroom : samples.length - capacity = 0 ∧ samples.length + 1 - capacity = 0 := by omega
        rw [if_neg (by omega), hroom.1, hroom.2, List.drop_zero, List.drop_zero]

/-! ## Checkpoints -/

/-- The samples so far, at every `n`-th of them. -/
def checkpoints (n : Nat) (samples : List α) : List (List α) :=
  (List.range (samples.length / n)).map fun k => samples.take (n * (k + 1))

theorem checkpoints_snoc {n : Nat} (hpos : 0 < n) (samples : List α) (a : α) :
    checkpoints n (samples ++ [a]) = checkpoints n samples ++
      if (samples.length + 1) % n = 0 then [samples ++ [a]] else [] := by
  have hold : ∀ k ∈ List.range (samples.length / n),
      (samples ++ [a]).take (n * (k + 1)) = samples.take (n * (k + 1)) := by
    intro k hk
    rw [List.mem_range, Nat.lt_iff_add_one_le, Nat.le_div_iff_mul_le hpos] at hk
    rw [Nat.mul_comm n]
    exact List.take_append_of_le_length hk
  unfold checkpoints
  rw [List.length_append, List.length_singleton]
  by_cases hfull : (samples.length + 1) % n = 0
  · have hlast : n * (samples.length / n + 1) = (samples ++ [a]).length := by
      rw [List.length_append, List.length_singleton, ← Nat.succ_div_of_mod_eq_zero hfull]
      exact Nat.mul_div_cancel' (Nat.dvd_of_mod_eq_zero hfull)
    rw [if_pos hfull, Nat.succ_div_of_mod_eq_zero hfull, List.range_succ, List.map_append,
      List.map_congr_left hold, List.map_singleton, hlast, List.take_length]
  · rw [if_neg hfull, Nat.succ_div_of_mod_ne_zero hfull, List.map_congr_left hold,
      List.append_nil]

/-! ## Order statistics -/

variable [LinearOrder α]

/-- `a` has `k` samples before it in some sorted order: at most `k` are smaller and more than
`k` are not larger. -/
structure HasRank (samples : List α) (k : Nat) (a : α) : Prop where
  mem : a ∈ samples
  smaller : samples.countP (· < a) ≤ k
  notLarger : k < samples.countP (· ≤ a)

namespace HasRank

variable {samples samples' : List α} {k : Nat} {a b : α}

theorem perm (h : HasRank samples k a) (hperm : samples.Perm samples') : HasRank samples' k a where
  mem := hperm.mem_iff.mp h.mem
  smaller := hperm.countP_eq _ ▸ h.smaller
  notLarger := hperm.countP_eq _ ▸ h.notLarger

/-- A bound holds for the sample exactly if it holds for more than `k` samples. -/
theorem le_iff (ha : HasRank samples k a) : a ≤ b ↔ k < samples.countP (· ≤ b) := by
  constructor
  · intro hle
    refine ha.notLarger.trans_le (List.countP_mono_left ?_)
    intro c _ hc
    rw [decide_eq_true_eq] at hc ⊢
    exact hc.trans hle
  · intro hk
    by_contra hlt
    rw [not_le] at hlt
    have hcount : samples.countP (· ≤ b) ≤ samples.countP (· < a) := by
      apply List.countP_mono_left
      intro c _ hc
      rw [decide_eq_true_eq] at hc ⊢
      exact lt_of_le_of_lt hc hlt
    have hsmaller := ha.smaller
    omega

/-- The sample of the highest rank is the largest. -/
theorem le_of_last (ha : HasRank samples (samples.length - 1) a) (hb : b ∈ samples) : b ≤ a := by
  have hcount : samples.countP (· ≤ a) = samples.length := by
    have hle := List.countP_le_length (p := (· ≤ a)) (l := samples)
    have hlarger := ha.notLarger
    omega
  have hle := List.countP_eq_length.mp hcount b hb
  rwa [decide_eq_true_eq] at hle

/-- A sorted list has its sample of rank `k` at index `k`. -/
theorem of_sorted (hsorted : samples.Pairwise (· ≤ ·)) (hk : samples[k]? = some a) :
    HasRank samples k a := by
  obtain ⟨hlt, hget⟩ := List.getElem?_eq_some_iff.mp hk
  have hsplit : samples.take k ++ a :: samples.drop (k + 1) = samples := by
    rw [← hget, List.getElem_cons_drop, List.take_append_drop]
  have hpairs := hsorted
  rw [← hsplit, List.pairwise_append, List.pairwise_cons] at hpairs
  obtain ⟨-, ⟨hafter, -⟩, hacross⟩ := hpairs
  have hbefore : ∀ b ∈ samples.take k, b ≤ a := fun b hb => hacross b hb a List.mem_cons_self
  have hlength : (samples.take k).length = k := List.length_take_of_le hlt.le
  refine ⟨List.mem_of_getElem? hk, ?_, ?_⟩
  · have hrest : (a :: samples.drop (k + 1)).countP (· < a) = 0 := by
      rw [List.countP_eq_zero]
      intro b hb
      rw [decide_eq_true_eq, not_lt]
      rcases List.mem_cons.mp hb with rfl | hb
      · exact le_rfl
      · exact hafter b hb
    calc samples.countP (· < a) = (samples.take k).countP (· < a) := by
          conv_lhs => rw [← hsplit, List.countP_append, hrest, Nat.add_zero]
      _ ≤ (samples.take k).length := List.countP_le_length
      _ = k := hlength
  · have hall : (samples.take k).countP (· ≤ a) = k := by
      rw [List.countP_eq_length.mpr, hlength]
      intro b hb
      exact decide_eq_true (hbefore b hb)
    have hself : (a :: samples.drop (k + 1)).countP (· ≤ a) =
        (samples.drop (k + 1)).countP (· ≤ a) + 1 :=
      List.countP_cons_of_pos (decide_eq_true le_rfl)
    rw [← hsplit, List.countP_append, hall, hself]
    omega

end HasRank

/-- The sample of rank `k`, with 0 the smallest. -/
def sampleOfRank (samples : List α) (k : Nat) : Option α := (samples.mergeSort (· ≤ ·))[k]?

theorem sampleOfRank_spec {samples : List α} {k : Nat} (hk : k < samples.length) :
    ∃ a, sampleOfRank samples k = some a ∧ HasRank samples k a := by
  have hlength : k < (samples.mergeSort (· ≤ ·)).length := by rwa [List.length_mergeSort]
  have hget := List.getElem?_eq_getElem hlength
  refine ⟨_, hget, ?_⟩
  exact (HasRank.of_sorted (List.pairwise_mergeSort' (· ≤ ·) samples) hget).perm
    (List.mergeSort_perm _ _)

end Rukkit.Lib
