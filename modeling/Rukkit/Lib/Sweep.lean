import Mathlib.Data.List.Induction
import Mathlib.Logic.Function.Basic

/-!
# Counted loops

The invariant rule of a loop over `0..n` that may fail, and what two nested ones do to a
grid of which they visit every cell once.
-/

namespace Rukkit.Lib.Sweep

variable {σ α : Type*}

/-- What holds at the start and is kept by each pass holds at the end, and no pass fails. -/
theorem foldlM_range {step : σ → Nat → Option σ} {I : Nat → σ → Prop} {s : σ} {n : Nat}
    (hinit : I 0 s)
    (hstep : ∀ k s, k < n → I k s → ∃ s', step s k = some s' ∧ I (k + 1) s') :
    ∃ s', (List.range n).foldlM step s = some s' ∧ I n s' := by
  induction n with
  | zero => exact ⟨s, rfl, hinit⟩
  | succ n ih =>
      obtain ⟨mid, hmid, hkept⟩ := ih fun k s hk => hstep k s (by omega)
      obtain ⟨s', hs', hlast⟩ := hstep n mid (by omega) hkept
      refine ⟨s', ?_, hlast⟩
      rw [List.range_succ, List.foldlM_append, hmid, Option.bind_eq_bind, Option.bind_some,
        List.foldlM_cons, hs']
      rfl

/-- A loop that does not fail takes the steps of its passes, one pass after the other. -/
theorem foldlM_trace {ι β : Type*} {step : σ → ι → Option σ} {T : List β → σ → σ → Prop}
    {g : ι → List β} (hnil : ∀ s, T [] s s)
    (happend : ∀ {l l' s t u}, T l s t → T l' t u → T (l ++ l') s u)
    (hstep : ∀ s i s', step s i = some s' → T (g i) s s') {is : List ι} {s s' : σ}
    (hrun : is.foldlM step s = some s') : T (is.flatMap g) s s' := by
  induction is generalizing s with
  | nil =>
      obtain rfl := Option.some.inj hrun
      exact hnil s
  | cons i is ih =>
      rw [List.foldlM_cons, Option.bind_eq_bind, Option.bind_eq_some_iff] at hrun
      obtain ⟨t, ht, hrest⟩ := hrun
      rw [List.flatMap_cons]
      exact happend (hstep s i t ht) (ih hrest)

section Grid

variable {width height : Nat} {step : σ → Nat → Nat → Option σ} {R : σ → (Nat → α) → Prop}
  {g : Nat → α → α}

theorem cell_row {z x : Nat} (hx : x < width) : (z * width + x) / width = z := by
  rw [Nat.add_comm, Nat.add_mul_div_right _ _ (by omega), Nat.div_eq_of_lt hx, Nat.zero_add]

theorem cell_column {z x : Nat} (hx : x < width) : (z * width + x) % width = x := by
  rw [Nat.add_comm, Nat.add_mul_mod_self_right, Nat.mod_eq_of_lt hx]

/-- If a visit replaces the cell it visits by `g` of it, the loops over rows and columns
replace every cell. -/
theorem foldlM_grid (hwidth : 0 < width)
    (hstep : ∀ s f z x, z < height → x < width → R s f → ∃ s', step s z x = some s' ∧
      R s' (Function.update f (z * width + x) (g (z * width + x) (f (z * width + x)))))
    {s : σ} {f : Nat → α} (hs : R s f) :
    ∃ s', (List.range height).foldlM (fun s z =>
        (List.range width).foldlM (fun s x => step s z x) s) s = some s' ∧
      R s' fun i => if i / width < height then g i (f i) else f i := by
  apply foldlM_range (I := fun n s => R s fun i => if i / width < n then g i (f i) else f i)
  · simpa using hs
  · intro z s hz hs
    -- the row so far: visited up to column `n`
    obtain ⟨s', hs', hheld⟩ := foldlM_range
      (I := fun n s => R s fun i =>
        if i / width < z ∨ i / width = z ∧ i % width < n then g i (f i) else f i)
      (n := width) (s := s) (by simpa using hs) (by
        intro x s hx hs
        obtain ⟨s', hs', hheld⟩ := hstep s _ z x hz hx hs
        refine ⟨s', hs', ?_⟩
        convert hheld using 1
        funext i
        have hrow : (z * width + x) / width = z := cell_row hx
        have hcolumn : (z * width + x) % width = x := cell_column hx
        by_cases hsame : i = z * width + x
        · rw [hsame, Function.update_self, hrow, hcolumn, if_pos (by omega), if_neg (by omega)]
        · have hother : ¬ (i / width = z ∧ i % width = x) := by
            rintro ⟨rfl, rfl⟩
            exact hsame (Nat.div_add_mod' i width).symm
          rw [Function.update_of_ne hsame]
          refine if_congr ?_ rfl rfl
          omega)
    refine ⟨s', hs', ?_⟩
    convert hheld using 1
    funext i
    have hcolumn := Nat.mod_lt i hwidth
    refine if_congr ?_ rfl rfl
    omega

end Grid

end Rukkit.Lib.Sweep
