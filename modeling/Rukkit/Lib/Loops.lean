/-!
# Loops that may not end

A turn of a loop goes on from a new state or ends with a result.  A run is `none` where a
turn panics, and where the loop runs on.  The rule for loops is one of total correctness:
an invariant and a measure that every turn which goes on makes smaller.
-/

namespace Rukkit.Lib

/-- The body of a loop over the states `σ`, with results in `ρ`. -/
structure Loop (σ ρ : Type) where
  turn : σ → Option (σ ⊕ ρ)

namespace Loop

variable {σ ρ : Type} {l : Loop σ ρ} {s next : σ} {result : ρ}

def run (l : Loop σ ρ) (s : σ) : Option ρ := do
  match ← l.turn s with
  | .inl next => l |>.run next
  | .inr result => some result
partial_fixpoint

theorem run_eq (l : Loop σ ρ) (s : σ) : l.run s = (l.turn s).bind (Sum.elim l.run some) := by
  rw [run, Option.bind_eq_bind]
  congr 1
  funext outcome
  cases outcome <;> rfl

theorem run_of_next (h : l.turn s = some (.inl next)) : l.run s = l.run next := by
  rw [run_eq, h]
  rfl

theorem run_of_done (h : l.turn s = some (.inr result)) : l.run s = some result := by
  rw [run_eq, h]
  rfl

/-- What a turn from `s` owes: a result with `Q`, or a smaller state whose results will do. -/
inductive Advances (l : Loop σ ρ) (I : σ → Prop) (measure : σ → Nat) (Q : σ → ρ → Prop) (s : σ) :
    Prop
  | done {result : ρ} (turn_eq : l.turn s = some (.inr result)) (post : Q s result)
  | next {next : σ} (turn_eq : l.turn s = some (.inl next)) (inv : I next)
      (lt : measure next < measure s) (post : ∀ result, Q next result → Q s result)

theorem run_spec {I : σ → Prop} (measure : σ → Nat) {Q : σ → ρ → Prop}
    (hturn : ∀ s, I s → l.Advances I measure Q s) (hinit : I s) :
    ∃ result, l.run s = some result ∧ Q s result := by
  induction hmeasure : measure s using Nat.strongRecOn generalizing s with
  | ind _ ih =>
      cases hturn s hinit with
      | @done result hdone hpost => exact ⟨result, run_of_done hdone, hpost⟩
      | @next next hnext hinv hlt hpost =>
          obtain ⟨result, hrun, hresult⟩ := ih _ (hmeasure ▸ hlt) hinv rfl
          exact ⟨result, (run_of_next hnext).trans hrun, hpost result hresult⟩

end Loop

end Rukkit.Lib
