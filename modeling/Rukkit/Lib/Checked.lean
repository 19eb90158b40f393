import Mathlib.Order.Defs.PartialOrder
import Rukkit.Lib.Loops
import Rukkit.Lib.Reading

/-!
# Computations that may panic

A checked computation ends in `none` where a slice, an index or a subtraction is out of
range, and where it does not return.  `Tracks` says that neither happens: it follows a
total computation, whose states only go up in their order, and ends where that one ends.
-/

namespace Rukkit.Lib

/-- A pure function that may fail, panic or run on. -/
abbrev Outcome (ε : Type) := ExceptT ε Option

abbrev Checked (ε σ : Type) := ExceptT ε (StateT σ Option)

namespace Outcome

variable {ε α β : Type} {f : α → Outcome ε β} {g : α → Except ε β}

/-- A step in range that does what `x` does, and a rest that follows `g`. -/
theorem bind_eq {c : Outcome ε α} {x : Except ε α} (hc : c = some x)
    (hf : ∀ a, x = .ok a → f a = some (g a)) : (c >>= f) = some (x >>= g) := by
  rw [hc]
  cases x with
  | error e => rfl
  | ok a => exact hf a rfl

theorem bind_except {x : Except ε α} (hf : ∀ a, x = .ok a → f a = some (g a)) :
    ((liftM x : Outcome ε α) >>= f) = some (x >>= g) := bind_eq rfl hf

theorem bind_option {x : Option α} {a : α} (hx : x = some a) :
    ((liftM x : Outcome ε α) >>= f) = f a := by
  rw [hx]
  rfl

/-- A completed sequence is a completed first step and a completed rest. -/
theorem except_bind_eq_ok {x : Except ε α} {b : β} (h : (x >>= g) = .ok b) :
    ∃ a, x = .ok a ∧ g a = .ok b := by
  cases x with
  | error e => cases h
  | ok a => exact ⟨a, rfl, h⟩

/-! ## Loops -/

section Loops

variable {σ ρ : Type}

/-- The loop of `turn`, which a failure ends too. -/
def loop (turn : σ → Outcome ε (σ ⊕ ρ)) (s : σ) : Outcome ε ρ :=
  Loop.run { turn := fun s => (ExceptT.run (turn s)).map settle } s
where
  settle : Except ε (σ ⊕ ρ) → σ ⊕ Except ε ρ
    | .ok (.inl next) => .inl next
    | .ok (.inr result) => .inr (.ok result)
    | .error e => .inr (.error e)

theorem loop_eq (turn : σ → Outcome ε (σ ⊕ ρ)) (s : σ) :
    loop turn s = turn s >>= Sum.elim (loop turn) pure := by
  change Loop.run _ s = ExceptT.run (turn s) >>= _
  rw [Loop.run_eq, Option.bind_map, Option.bind_eq_bind]
  congr 1
  funext outcome
  rcases outcome with e | next | result <;> rfl

end Loops

end Outcome

namespace Checked

variable {ε σ τ α β : Type}

def exec (c : Checked ε σ α) (s : σ) : Option (Except ε α × σ) := StateT.run (ExceptT.run c) s

def call (x : Outcome ε α) : Checked ε σ α :=
  ExceptT.mk fun s => (ExceptT.run x).map fun result => (result, s)

/-- The result of `c` as a value, a failure included. -/
def attempt (c : Checked ε σ α) : Checked ε σ (Except ε α) := ExceptT.lift (ExceptT.run c)

/-- Runs `c` the given number of times and collects the values. -/
def replicate (c : Checked ε σ α) : (count : Nat) → Checked ε σ (List α)
  | 0 => pure []
  | count + 1 => do
      let a ← c
      let as ← replicate c count
      return a :: as

/-! ## Operations with a range -/

/-- `a - b` of unsigned numbers. -/
def sub (a b : Nat) : Option Nat := if b ≤ a then some (a - b) else none

/-- `&xs[start..stop]`. -/
def slice (xs : List α) (start stop : Nat) : Option (List α) :=
  if start ≤ stop ∧ stop ≤ xs.length then some ((xs.drop start).take (stop - start)) else none

/-- `&xs[start..]`, and `advance` on a buffer. -/
def sliceFrom (xs : List α) (start : Nat) : Option (List α) :=
  if start ≤ xs.length then some (xs.drop start) else none

/-- `split_to`: the front, and what is left. -/
def splitTo (xs : List α) (n : Nat) : Option (List α × List α) :=
  if n ≤ xs.length then some (xs.take n, xs.drop n) else none

/-- `copy_from_slice` into an array of this length. -/
def copyFromSlice (length : Nat) (xs : List α) : Option (List α) :=
  if xs.length = length then some xs else none

theorem sub_eq {a b : Nat} (h : b ≤ a) : sub a b = some (a - b) := if_pos h

theorem slice_eq {xs : List α} {start n : Nat} (h : start + n ≤ xs.length) :
    slice xs start (start + n) = some ((xs.drop start).take n) := by
  rw [slice, if_pos ⟨Nat.le_add_right _ _, h⟩, Nat.add_sub_cancel_left]

theorem sliceFrom_eq {xs : List α} {start : Nat} (h : start ≤ xs.length) :
    sliceFrom xs start = some (xs.drop start) := if_pos h

theorem splitTo_eq {xs : List α} {n : Nat} (h : n ≤ xs.length) :
    splitTo xs n = some (xs.take n, xs.drop n) := if_pos h

theorem copyFromSlice_eq {xs : List α} {length : Nat} (h : xs.length = length) :
    copyFromSlice length xs = some xs := if_pos h

/-! ## Runs -/

section Exec

variable {c : Checked ε σ α} {f : α → Checked ε σ β} {s s' : σ} {a : α} {e : ε}

theorem exec_bind_ok (h : c.exec s = some (.ok a, s')) :
    (c >>= f).exec s = (f a).exec s' := by
  change (StateT.run (ExceptT.run c) s >>= _) = _
  rw [show StateT.run (ExceptT.run c) s = _ from h]
  rfl

theorem exec_bind_error (h : c.exec s = some (.error e, s')) :
    (c >>= f).exec s = some (.error e, s') := by
  change (StateT.run (ExceptT.run c) s >>= _) = _
  rw [show StateT.run (ExceptT.run c) s = _ from h]
  rfl

theorem exec_get_bind (f : σ → Checked ε σ β) (s : σ) : (get >>= f).exec s = (f s).exec s := rfl

theorem exec_set_bind (f : PUnit → Checked ε σ β) (s s' : σ) :
    (set s' >>= f).exec s = (f ⟨⟩).exec s' := rfl

theorem exec_lift_bind {x : Option α} (h : x = some a) (f : α → Checked ε σ β) (s : σ) :
    ((liftM x : Checked ε σ α) >>= f).exec s = (f a).exec s := by
  rw [h]
  rfl

theorem exec_call {x : Outcome ε α} {result : Except ε α} (h : x = some result) (s : σ) :
    (call x : Checked ε σ α).exec s = some (result, s) := by
  rw [h]
  rfl

theorem exec_attempt {result : Except ε α} (h : c.exec s = some (result, s')) :
    c.attempt.exec s = some (.ok result, s') := by
  change (StateT.run (ExceptT.run c) s >>= _) = _
  rw [show StateT.run (ExceptT.run c) s = _ from h]
  rfl

end Exec

/-! ## Loops -/

/-- The loop of `turn`, which a failure ends too. -/
def loop (turn : α → Checked ε σ (α ⊕ β)) (a : α) : Checked ε σ β :=
  ExceptT.mk fun s => Loop.run { turn := fun t => ((turn t.1).exec t.2).map settle } (a, s)
where
  settle : Except ε (α ⊕ β) × σ → α × σ ⊕ Except ε β × σ
    | (.ok (.inl next), s) => .inl (next, s)
    | (.ok (.inr result), s) => .inr (.ok result, s)
    | (.error e, s) => .inr (.error e, s)

theorem loop_eq (turn : α → Checked ε σ (α ⊕ β)) (a : α) :
    loop turn a = turn a >>= Sum.elim (loop turn) pure := by
  funext s
  change Loop.run _ (a, s) = (turn a).exec s >>= _
  rw [Loop.run_eq, Option.bind_map, Option.bind_eq_bind]
  congr 1
  funext outcome
  rcases outcome with ⟨e | next | result, s'⟩ <;> rfl

/-! ## Following a total computation -/

section Tracks

variable [Preorder τ] {view : τ → σ}

/-- The result of a total computation with its last state as `view` shows it. -/
def outcome (view : τ → σ) : EStateM.Result ε τ α → Except ε α × σ
  | .ok a t => (.ok a, view t)
  | .error e t => (.error e, view t)

def lastState : EStateM.Result ε τ α → τ
  | .ok _ t => t
  | .error _ t => t

/-- From `t` the checked computation does what the total one does, seen through `view`. -/
structure TracksAt (view : τ → σ) (c : Checked ε σ α) (m : EStateM ε τ α) (t : τ) : Prop where
  exec_eq : c.exec (view t) = some (outcome view (m t))
  le : t ≤ lastState (m t)

def Tracks (view : τ → σ) (c : Checked ε σ α) (m : EStateM ε τ α) : Prop :=
  ∀ t, TracksAt view c m t

variable {c : Checked ε σ α} {m : EStateM ε τ α} {t : τ}

theorem TracksAt.pure (a : α) (t : τ) :
    TracksAt view (pure a : Checked ε σ α) (pure a) t := ⟨rfl, le_refl t⟩

theorem TracksAt.throw (e : ε) (t : τ) :
    TracksAt view (throw e : Checked ε σ α) (throw e) t := ⟨rfl, le_refl t⟩

theorem TracksAt.le_of_ok (h : TracksAt view c m t) {a : α} {t' : τ} (ht : m t = .ok a t') :
    t ≤ t' := by
  have hle := h.le
  rwa [ht] at hle

theorem TracksAt.bind {f : α → Checked ε σ β} {g : α → EStateM ε τ β}
    (hm : TracksAt view c m t) (hf : ∀ a t', m t = .ok a t' → TracksAt view (f a) (g a) t') :
    TracksAt view (c >>= f) (m >>= g) t := by
  obtain ⟨hexec, hle⟩ := hm
  cases hfirst : m t with
  | ok a mid =>
      rw [hfirst] at hexec hle
      have htotal : (m >>= g) t = g a mid := by simp only [Bind.bind, EStateM.bind, hfirst]
      have hrest := hf a mid hfirst
      constructor
      · rw [htotal, exec_bind_ok hexec]
        exact hrest.exec_eq
      · rw [htotal]
        exact le_trans hle hrest.le
  | error e mid =>
      rw [hfirst] at hexec hle
      have htotal : (m >>= g) t = EStateM.Result.error e mid := by
        simp only [Bind.bind, EStateM.bind, hfirst]
      constructor
      · rw [htotal]
        exact exec_bind_error hexec
      · rw [htotal]
        exact hle

namespace Tracks

theorem pure (a : α) : Tracks view (pure a : Checked ε σ α) (pure a) := TracksAt.pure a

theorem throw (e : ε) : Tracks view (throw e : Checked ε σ α) (throw e) := TracksAt.throw e

theorem bind {f : α → Checked ε σ β} {g : α → EStateM ε τ β} (hm : Tracks view c m)
    (hf : ∀ a, Tracks view (f a) (g a)) : Tracks view (c >>= f) (m >>= g) :=
  fun t => (hm t).bind fun a t' _ => hf a t'

/-- The last step of a sequence. -/
theorem bind_pure (hm : Tracks view c m) (f : α → β) :
    Tracks view (c >>= fun a => Pure.pure (f a)) (m >>= fun a => Pure.pure (f a)) :=
  hm.bind fun a => pure (f a)

/-- What follows a `throw` does not run. -/
theorem throw_bind (e : ε) (f : α → Checked ε σ β) (g : α → EStateM ε τ β) :
    Tracks view ((MonadExcept.throw e : Checked ε σ α) >>= f)
      ((MonadExcept.throw e : EStateM ε τ α) >>= g) :=
  fun t => (TracksAt.throw e t).bind fun a t' h => by cases h

theorem replicate (hm : Tracks view c m) (count : Nat) :
    Tracks view (c.replicate count) (Reading.replicateM m count) := by
  induction count with
  | zero => exact pure []
  | succ count ih => exact hm.bind fun a => ih.bind_pure (a :: ·)

theorem attempt (hm : Tracks view c m) : Tracks view c.attempt (Reading.attempt m) := by
  intro t
  obtain ⟨hexec, hle⟩ := hm t
  have hattempt := exec_attempt hexec
  cases hresult : m t with
  | ok a t' =>
      have htotal : Reading.attempt m t = .ok (.ok a) t' := by rw [Reading.attempt, hresult]
      rw [hresult] at hle hattempt
      exact ⟨hattempt.trans (by rw [htotal]; rfl), by rw [htotal]; exact hle⟩
  | error e t' =>
      have htotal : Reading.attempt m t = .ok (.error e) t' := by rw [Reading.attempt, hresult]
      rw [hresult] at hle hattempt
      exact ⟨hattempt.trans (by rw [htotal]; rfl), by rw [htotal]; exact hle⟩

end Tracks

end Tracks

end Checked

end Rukkit.Lib
