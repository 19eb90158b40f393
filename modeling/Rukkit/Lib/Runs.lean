import Mathlib.Data.List.Induction

/-!
# Runs of a labelled transition relation

A run is a finite sequence of labelled steps.  The rules below turn what one step
preserves into what a whole run preserves.
-/

namespace Rukkit.Lib

variable {σ ε : Type*} {step : σ → ε → σ → Prop}

/-- The states reached from `s` by the steps labelled `events`. -/
inductive Run (step : σ → ε → σ → Prop) (s : σ) : List ε → σ → Prop
  | nil : Run step s [] s
  | snoc {events : List ε} {t u : σ} {event : ε} :
      Run step s events t → step t event u → Run step s (events ++ [event]) u

namespace Run

variable {s t u : σ} {events : List ε}

/-- What holds at the start and is preserved by every step holds at the end. -/
theorem invariant {I : σ → Prop} (hrun : Run step s events t) (hinit : I s)
    (hstep : ∀ a event b, I a → step a event b → I b) : I t := by
  induction hrun with
  | nil => exact hinit
  | snoc _ hlast ih => exact hstep _ _ _ ih hlast

/-- An invariant about the state and the labels so far. -/
theorem invariant_labels {I : List ε → σ → Prop} (hrun : Run step s events t) (hinit : I [] s)
    (hstep : ∀ done a event b, I done a → step a event b → I (done ++ [event]) b) :
    I events t := by
  induction hrun with
  | nil => exact hinit
  | snoc _ hlast ih => exact hstep _ _ _ _ ih hlast

theorem trans {events' : List ε} (hrun : Run step s events t) (hrun' : Run step t events' u) :
    Run step s (events ++ events') u := by
  induction hrun' with
  | nil => rwa [List.append_nil]
  | snoc _ hlast ih =>
      rw [← List.append_assoc]
      exact ih.snoc hlast

theorem of_nil (hrun : Run step s [] t) : s = t := by
  generalize hevents : [] = events at hrun
  cases hrun with
  | nil => rfl
  | snoc _ _ => simp at hevents

theorem last {event : ε} (hrun : Run step s (events ++ [event]) u) :
    ∃ t, Run step s events t ∧ step t event u := by
  generalize hevents : events ++ [event] = all at hrun
  cases hrun with
  | nil => simp at hevents
  | snoc hbefore hlast =>
      obtain ⟨rfl, hevent⟩ := List.append_inj' hevents rfl
      rw [List.singleton_inj] at hevent
      exact ⟨_, hbefore, hevent ▸ hlast⟩

/-- A run is a run up to any point and one from there on. -/
theorem split {before after : List ε} (hrun : Run step s (before ++ after) u) :
    ∃ t, Run step s before t ∧ Run step t after u := by
  induction after using List.reverseRecOn generalizing u with
  | nil =>
      rw [List.append_nil] at hrun
      exact ⟨u, hrun, Run.nil⟩
  | append_singleton after event ih =>
      rw [← List.append_assoc] at hrun
      obtain ⟨u', hinit, hlast⟩ := hrun.last
      obtain ⟨t, hbefore, hafter⟩ := ih hinit
      exact ⟨t, hbefore, hafter.snoc hlast⟩

/-- The step a run takes at any point. -/
theorem step_at {before after : List ε} {event : ε}
    (hrun : Run step s (before ++ event :: after) u) :
    ∃ t t', Run step s before t ∧ step t event t' ∧ Run step t' after u := by
  obtain ⟨t, hbefore, hrest⟩ := hrun.split
  rw [← List.singleton_append] at hrest
  obtain ⟨t', hevent, hafter⟩ := hrest.split
  rw [← List.nil_append [event]] at hevent
  obtain ⟨t₀, hstart, hstep⟩ := hevent.last
  rw [← hstart.of_nil] at hstep
  exact ⟨t, t', hbefore, hstep, hafter⟩

theorem single {event : ε} (h : step s event t) : Run step s [event] t :=
  Run.nil.snoc h

end Run

end Rukkit.Lib
