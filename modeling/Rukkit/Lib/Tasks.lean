import Mathlib.Logic.Function.Basic
import Rukkit.Lib.Runs

/-!
# Tasks over a shared state

Any number of copies of one labelled transition relation, whose steps interleave over
a state they share.  Each copy is started with an argument of its own.
-/

namespace Rukkit.Lib

variable {α τ ε ρ : Type*}

structure Tasks (α τ ρ : Type*) where
  shared : ρ
  /-- The tasks started so far, each with its argument. -/
  task : Nat → Option (α × τ)

namespace Tasks

inductive Event (α ε : Type*) where
  | start (id : Nat) (arg : α)
  | act (id : Nat) (label : ε)

def initial (shared : ρ) : Tasks α τ ρ where
  shared := shared
  task _ := none

/-- The labels of one task's steps. -/
def labels (id : Nat) (events : List (Event α ε)) : List ε :=
  events.filterMap fun
    | .start _ _ => none
    | .act id' label => if id' = id then some label else none

/-- A task is started, or one that runs takes a step that acts on the shared state. -/
inductive Step (start : τ) (step : α → τ → ε → τ → Prop) (acts : ε → ρ → ρ → Prop) :
    Tasks α τ ρ → Event α ε → Tasks α τ ρ → Prop
  | start {s : Tasks α τ ρ} {id : Nat} {arg : α} : s.task id = none →
      Step start step acts s (.start id arg)
        { s with task := Function.update s.task id (some (arg, start)) }
  | act {s : Tasks α τ ρ} {id : Nat} {arg : α} {t t' : τ} {label : ε} {r : ρ} :
      s.task id = some (arg, t) → step arg t label t' → acts label s.shared r →
      Step start step acts s (.act id label)
        { shared := r, task := Function.update s.task id (some (arg, t')) }

variable {id id' : Nat} {label : ε} {arg : α} {events : List (Event α ε)}

theorem labels_start : labels id (events ++ [.start id' arg]) = labels id events := by
  rw [labels, List.filterMap_append]
  exact List.append_nil _

theorem labels_act_self : labels id (events ++ [.act id label]) = labels id events ++ [label] := by
  rw [labels, List.filterMap_append]
  simp [labels]

theorem labels_act_ne (h : id ≠ id') :
    labels id (events ++ [.act id' label]) = labels id events := by
  rw [labels, List.filterMap_append]
  simp [labels, h.symm]

theorem mem_labels : label ∈ labels id events ↔ Event.act id label ∈ events := by
  rw [labels, List.mem_filterMap]
  constructor
  · rintro ⟨event, hmem, hlabel⟩
    cases event with
    | start id' arg => cases hlabel
    | act id' label' =>
        dsimp only at hlabel
        split at hlabel
        · rename_i heq
          rwa [heq, Option.some.inj hlabel] at hmem
        · cases hlabel
  · intro h
    exact ⟨_, h, if_pos rfl⟩

/-- The last step of a task, and what the others have done since. -/
theorem exists_last_act {done : List ε} (h : labels id events = done ++ [label]) :
    ∃ before after, events = before ++ Event.act id label :: after ∧ labels id before = done ∧
      labels id after = [] := by
  obtain ⟨before, after, rfl, hbefore, hlast⟩ := List.filterMap_eq_append_iff.mp h
  obtain ⟨others, event, after', rfl, hothers, hevent, hafter⟩ :=
    List.filterMap_eq_cons_iff.mp hlast
  obtain rfl : event = Event.act id label := by
    cases event with
    | start id' arg => cases hevent
    | act id' label' =>
        dsimp only at hevent
        split at hevent
        · rename_i heq
          rw [heq, Option.some.inj hevent]
        · cases hevent
  refine ⟨before ++ others, after', List.append_assoc .. |>.symm, ?_, hafter⟩
  rw [labels, List.filterMap_append, hbefore, List.filterMap_eq_nil_iff.mpr hothers,
    List.append_nil]

/-- Any step of a task, and what it has done before and since. -/
theorem exists_act {done rest : List ε} (h : labels id events = done ++ label :: rest) :
    ∃ before after, events = before ++ Event.act id label :: after ∧ labels id before = done ∧
      labels id after = rest := by
  rw [← List.singleton_append, ← List.append_assoc] at h
  obtain ⟨init, after, rfl, hinit, hafter⟩ := List.filterMap_eq_append_iff.mp h
  obtain ⟨before, others, rfl, hbefore, hothers⟩ := exists_last_act hinit
  refine ⟨before, others ++ after, by rw [List.append_assoc, List.cons_append], hbefore, ?_⟩
  rw [labels, List.filterMap_append, hafter, show List.filterMap _ others = [] from hothers,
    List.nil_append]

variable {start : τ} {step : α → τ → ε → τ → Prop} {acts : ε → ρ → ρ → Prop} {s : Tasks α τ ρ}
  {shared : ρ}

/-- A task that was not started has done nothing. -/
theorem labels_of_none (hrun : Run (Step start step acts) (initial shared) events s)
    (hnone : s.task id = none) : labels id events = [] := by
  induction hrun with
  | nil => rfl
  | snoc hbefore hlast ih =>
      cases hlast with
      | @start id' arg hfree =>
          rw [labels_start]
          dsimp only at hnone
          by_cases hid : id = id'
          · rw [hid, Function.update_self] at hnone
            cases hnone
          · rw [Function.update_of_ne hid] at hnone
            exact ih hnone
      | @act id' arg t t' label r htask hstep hacts =>
          dsimp only at hnone
          by_cases hid : id = id'
          · rw [hid, Function.update_self] at hnone
            cases hnone
          · rw [Function.update_of_ne hid] at hnone
            rw [labels_act_ne hid]
            exact ih hnone

/-- What a task has done is a run of its own relation. -/
theorem project (hrun : Run (Step start step acts) (initial shared) events s) {t : τ}
    (htask : s.task id = some (arg, t)) :
    Event.start id arg ∈ events ∧ Run (step arg) start (labels id events) t := by
  induction hrun generalizing t with
  | nil => cases htask
  | snoc hbefore hlast ih =>
      cases hlast with
      | @start id' arg' hfree =>
          rw [labels_start]
          dsimp only at htask
          by_cases hid : id = id'
          · rw [hid, Function.update_self] at htask
            cases htask
            rw [hid, labels_of_none hbefore hfree]
            exact ⟨List.mem_append_right _ List.mem_cons_self, Run.nil⟩
          · rw [Function.update_of_ne hid] at htask
            obtain ⟨hstart, hown⟩ := ih htask
            exact ⟨List.mem_append_left _ hstart, hown⟩
      | @act id' arg' t₀ t' label r hbusy hstep hacts =>
          dsimp only at htask
          by_cases hid : id = id'
          · rw [hid, Function.update_self] at htask
            cases htask
            obtain ⟨hstart, hown⟩ := ih (hid ▸ hbusy)
            rw [← hid, labels_act_self]
            exact ⟨List.mem_append_left _ hstart, hown.snoc hstep⟩
          · rw [Function.update_of_ne hid] at htask
            rw [labels_act_ne hid]
            obtain ⟨hstart, hown⟩ := ih htask
            exact ⟨List.mem_append_left _ hstart, hown⟩

/-- A task runs alone while its steps leave the shared state as it is. -/
theorem run_alone {t t' : τ} {done : List ε} (hrun : Run (step arg) t done t')
    (htask : s.task id = some (arg, t)) (hquiet : ∀ label ∈ done, acts label s.shared s.shared) :
    Run (Step start step acts) s (done.map (Event.act id))
      { s with task := Function.update s.task id (some (arg, t')) } := by
  induction hrun with
  | nil =>
      rw [← htask, Function.update_eq_self]
      exact Run.nil
  | @snoc done mid t' label hbefore hlast ih =>
      have hact : Step start step acts
          { s with task := Function.update s.task id (some (arg, mid)) } (.act id label)
          { s with
            task := Function.update (Function.update s.task id (some (arg, mid))) id
              (some (arg, t')) } :=
        Step.act (Function.update_self ..) hlast
          (hquiet label (List.mem_append_right _ List.mem_cons_self))
      rw [Function.update_idem] at hact
      rw [List.map_append]
      exact (ih fun label hmem => hquiet label (List.mem_append_left _ hmem)).snoc hact

/-- A task is started and runs alone, and only its last step acts on the shared state. -/
theorem run_started {t : τ} {done : List ε} {r : ρ} (hfree : s.task id = none)
    (hrun : Run (step arg) start (done ++ [label]) t)
    (hquiet : ∀ label ∈ done, acts label s.shared s.shared) (hacts : acts label s.shared r) :
    Run (Step start step acts) s
      ([.start id arg] ++ done.map (Event.act id) ++ [.act id label])
      { shared := r, task := Function.update s.task id (some (arg, t)) } := by
  obtain ⟨mid, hdone, hlast⟩ := hrun.last
  have hstart : Step start step acts s (.start id arg)
      { s with task := Function.update s.task id (some (arg, start)) } := Step.start hfree
  have halone : Run (Step start step acts) _ _ _ :=
    run_alone hdone (s := { s with task := Function.update s.task id (some (arg, start)) })
      (Function.update_self ..) hquiet
  have hact : Step start step acts { s with task := Function.update s.task id (some (arg, mid)) }
      (.act id label)
      { shared := r
        task := Function.update (Function.update s.task id (some (arg, mid))) id
          (some (arg, t)) } :=
    Step.act (Function.update_self ..) hlast hacts
  rw [Function.update_idem] at halone hact
  exact ((Run.single hstart).trans halone).snoc hact

end Tasks

end Rukkit.Lib
