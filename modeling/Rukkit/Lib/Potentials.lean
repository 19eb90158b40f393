import Mathlib.Algebra.GroupWithZero.Nat
import Mathlib.Algebra.Order.BigOperators.Group.Finset
import Rukkit.Lib.Tasks

/-!
# Potentials

How much a run can do is bounded by what its state still allows.
-/

namespace Rukkit.Lib

variable {σ ε α τ ρ : Type*}

/-- Every label costs something and may gain something; what is left is the potential. -/
theorem Run.cost_add_le {step : σ → ε → σ → Prop} {cost gain : ε → Nat} {potential : σ → Nat}
    {s t : σ} {events : List ε} (hrun : Run step s events t)
    (hstep : ∀ a e b, step a e b → cost e + potential b ≤ potential a + gain e) :
    (events.map cost).sum + potential t ≤ potential s + (events.map gain).sum := by
  induction hrun with
  | nil => simp
  | @snoc done t u event hbefore hlast ih =>
      have hlast' := hstep t event u hlast
      simp only [List.map_append, List.map_singleton, List.sum_append, List.sum_singleton]
      omega

/-- A run ends if every step takes something from the potential. -/
theorem Run.length_le {step : σ → ε → σ → Prop} {potential : σ → Nat} {I : σ → Prop}
    (hinv : ∀ a e b, I a → step a e b → I b)
    (hstep : ∀ a e b, I a → step a e b → potential b < potential a) {s t : σ}
    {events : List ε} (hrun : Run step s events t) (hinit : I s) :
    events.length ≤ potential s := by
  have hsum : I t ∧ events.length + potential t ≤ potential s := by
    induction hrun with
    | nil => exact ⟨hinit, by simp⟩
    | @snoc done t u event hbefore hlast ih =>
        obtain ⟨ht, hle⟩ := ih
        have hlt := hstep t event u ht hlast
        refine ⟨hinv t event u ht hlast, ?_⟩
        rw [List.length_append, List.length_singleton]
        omega
  omega

theorem sum_map_ite (p : ε → Bool) (n : Nat) (events : List ε) :
    (events.map fun e => if p e then n else 0).sum = n * events.countP p := by
  induction events with
  | nil => rfl
  | cons e events ih =>
      rw [List.map_cons, List.sum_cons, ih, List.countP_cons, Nat.mul_add, Nat.add_comm]
      congr 1
      split <;> simp

namespace Tasks

/-- The identifiers of the tasks started. -/
def started (events : List (Event α ε)) : List Nat :=
  events.filterMap fun
    | .start id _ => some id
    | .act _ _ => none

/-- What the tasks of `ids` have left, all together. -/
def total (f : τ → Nat) (ids : Finset Nat) (s : Tasks α τ ρ) : Nat :=
  ∑ id ∈ ids, (s.task id).elim 0 fun task => f task.2

variable {s : Tasks α τ ρ} {ids : Finset Nat} {id : Nat} {arg : α} {t : τ} {f : τ → Nat}

variable (f) in
theorem total_update (r : ρ) (t' : τ) (hid : id ∈ ids) (htask : s.task id = some (arg, t)) :
    total f ids { shared := r, task := Function.update s.task id (some (arg, t')) } + f t =
      total f ids s + f t' := by
  have hsame : ∀ id' ∈ ids.erase id,
      (Function.update s.task id (some (arg, t')) id').elim 0 (fun task => f task.2) =
        (s.task id').elim 0 fun task => f task.2 := by
    intro id' hmem
    rw [Function.update_of_ne (Finset.ne_of_mem_erase hmem)]
  unfold total
  rw [← Finset.add_sum_erase ids _ hid, ← Finset.add_sum_erase ids _ hid,
    Finset.sum_congr rfl hsame]
  dsimp only
  rw [Function.update_self, htask]
  change f t' + _ + f t = f t + _ + f t'
  omega

theorem total_le {bound : Nat} (hf : ∀ t, f t ≤ bound) : total f ids s ≤ bound * ids.card := by
  rw [Nat.mul_comm]
  refine Finset.sum_le_card_nsmul ids _ bound fun id _ => ?_
  cases s.task id with
  | none => exact Nat.zero_le _
  | some task => exact hf task.2

variable {start : τ} {step : α → τ → ε → τ → Prop} {acts : ε → ρ → ρ → Prop} {shared : ρ}
  {events : List (Event α ε)}

theorem mem_started (hrun : Run (Step start step acts) (initial shared) events s)
    (htask : s.task id = some (arg, t)) : id ∈ started events :=
  List.mem_filterMap.mpr ⟨_, (project hrun htask).1, rfl⟩

end Tasks

end Rukkit.Lib
