import Rukkit.Lib.Tasks

/-!
# Simulations

One labelled transition relation carries out another along a map of its states, some of its
steps being steps of the other and the rest leaving the other's state alone.
-/

namespace Rukkit.Lib

variable {σ σ' σ'' ε ε' ε'' : Type*}

/-- Every step is the step its label stands for, or none. -/
structure Simulates (step : σ → ε → σ → Prop) (step' : σ' → ε' → σ' → Prop) (view : σ → σ')
    (label : ε → Option ε') : Prop where
  acts : ∀ {a : σ} {event : ε} {b : σ}, step a event b → ∀ event', label event = some event' →
    step' (view a) event' (view b)
  stutters : ∀ {a : σ} {event : ε} {b : σ}, step a event b → label event = none →
    view b = view a

namespace Simulates

variable {step : σ → ε → σ → Prop} {step' : σ' → ε' → σ' → Prop} {step'' : σ'' → ε'' → σ'' → Prop}
  {view : σ → σ'} {view' : σ' → σ''} {label : ε → Option ε'} {label' : ε' → Option ε''}

/-- A whole run is a run of the other. -/
theorem run (h : Simulates step step' view label) {events : List ε} {s t : σ}
    (hrun : Run step s events t) : Run step' (view s) (events.filterMap label) (view t) := by
  induction hrun with
  | nil => exact Run.nil
  | @snoc done t u event _ hlast ih =>
      rw [List.filterMap_append]
      cases hlabel : label event with
      | none =>
          rw [List.filterMap_cons_none hlabel, List.filterMap_nil, List.append_nil,
            h.stutters hlast hlabel]
          exact ih
      | some event' =>
          rw [List.filterMap_cons_some hlabel, List.filterMap_nil]
          exact ih.snoc (h.acts hlast event' hlabel)

theorem comp (h : Simulates step step' view label) (h' : Simulates step' step'' view' label') :
    Simulates step step'' (view' ∘ view) fun event => (label event).bind label' where
  acts := by
    intro a event b hstep event'' hlabel
    obtain ⟨event', hevent', hevent''⟩ := Option.bind_eq_some_iff.mp hlabel
    exact h'.acts (h.acts hstep event' hevent') event'' hevent''
  stutters := by
    intro a event b hstep hlabel
    cases hevent : label event with
    | none => exact congrArg view' (h.stutters hstep hevent)
    | some event' =>
        rw [hevent] at hlabel
        exact h'.stutters (h.acts hstep event' hevent) hlabel

end Simulates

namespace Tasks

variable {α τ τ' ρ ρ' : Type*}

/-- A task with its argument, seen through a map. -/
def viewTask (f : τ → τ') (task : α × τ) : α × τ' := (task.1, f task.2)

/-- The tasks and what they share, each seen through a map. -/
def view (f : τ → τ') (g : ρ → ρ') (s : Tasks α τ ρ) : Tasks α τ' ρ' where
  shared := g s.shared
  task id := (s.task id).map (viewTask f)

/-- The event of a task that its label stands for. -/
def viewEvent (label : ε → Option ε') : Event α ε → Option (Event α ε')
  | .start id arg => some (.start id arg)
  | .act id l => (label l).map (.act id)

theorem view_update (f : τ → τ') (g : ρ → ρ') (task : Nat → Option (α × τ)) (r : ρ) (id : Nat)
    (arg : α) (t : τ) :
    view f g { shared := r, task := Function.update task id (some (arg, t)) } =
      { shared := g r
        task := Function.update (fun id => (task id).map (viewTask f)) id (some (arg, f t)) } := by
  unfold view
  congr 1
  funext id'
  dsimp only
  by_cases hid : id' = id
  · rw [hid, Function.update_self, Function.update_self]
    rfl
  · rw [Function.update_of_ne hid, Function.update_of_ne hid]

section Simulation

variable {start : τ} {step : α → τ → ε → τ → Prop} {acts : ε → ρ → ρ → Prop} {start' : τ'}
  {step' : α → τ' → ε' → τ' → Prop} {acts' : ε' → ρ' → ρ' → Prop} {f : τ → τ'} {g : ρ → ρ'}
  {label : ε → Option ε'}

/-- Systems of tasks simulate each other task by task. -/
theorem simulates (hstart : f start = start')
    (hacts : ∀ {arg t l t' r r'}, step arg t l t' → acts l r r' → ∀ l', label l = some l' →
      step' arg (f t) l' (f t') ∧ acts' l' (g r) (g r'))
    (hstutters : ∀ {arg t l t' r r'}, step arg t l t' → acts l r r' → label l = none →
      f t' = f t ∧ g r' = g r) :
    Simulates (Step start step acts) (Step start' step' acts') (view f g) (viewEvent label) where
  acts := by
    intro a event b hstep event' hlabel
    cases hstep with
    | start hfree =>
        cases hlabel
        rw [view_update, hstart]
        exact Step.start (congrArg (Option.map _) hfree)
    | @act id arg t t' l r htask hstep hact =>
        obtain ⟨l', hl', rfl⟩ := Option.map_eq_some_iff.mp hlabel
        obtain ⟨hstep', hact'⟩ := hacts hstep hact l' hl'
        rw [view_update]
        exact Step.act (congrArg (Option.map (viewTask f)) htask) hstep' hact'
  stutters := by
    intro a event b hstep hlabel
    cases hstep with
    | start hfree => cases hlabel
    | @act id arg t t' l r htask hstep hact =>
        obtain ⟨htask', hshared⟩ := hstutters hstep hact (Option.map_eq_none_iff.mp hlabel)
        have hsame : (a.task id).map (viewTask f) = some (arg, f t) :=
          congrArg (Option.map (viewTask f)) htask
        rw [view_update, htask', hshared, ← hsame, Function.update_eq_self]
        rfl

end Simulation

/-- What one task does in the other system. -/
theorem labels_viewEvent (label : ε → Option ε') (id : Nat) (events : List (Event α ε)) :
    labels id (events.filterMap (viewEvent label)) = (labels id events).filterMap label := by
  rw [labels, labels, List.filterMap_filterMap, List.filterMap_filterMap]
  refine congrArg (List.filterMap · events) (funext fun event => ?_)
  cases event with
  | start id' arg => rfl
  | act id' l =>
      by_cases hid : id' = id <;> cases hlabel : label l <;> simp [viewEvent, hid, hlabel]

end Tasks

end Rukkit.Lib
