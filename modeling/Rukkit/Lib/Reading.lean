import Mathlib

/-!
# Readers that consume a stream

A reader is a state-passing computation over a state that shows what is left to
read.  `Reads` says that a reader turns one encoding into one value whatever
follows it, which is the form in which a writer and a reader are inverse to each
other; the rules below compose such facts along the structure of the reader.
-/

namespace Rukkit.Lib.Reading

variable {ε σ α β τ : Type}

/-- From any state whose remaining input starts with `w`, the reader returns `a`
and leaves exactly what follows `w`. -/
def Reads (rest : σ → List τ) (m : EStateM ε σ α) (w : List τ) (a : α) : Prop :=
  ∀ s suffix, rest s = w ++ suffix → ∃ s', m s = .ok a s' ∧ rest s' = suffix

variable {rest : σ → List τ}

namespace Reads

protected theorem pure (a : α) : Reads rest (pure a : EStateM ε σ α) [] a := by
  intro s suffix hs
  exact ⟨s, rfl, hs⟩

protected theorem bind {m : EStateM ε σ α} {f : α → EStateM ε σ β} {w w' : List τ} {a : α} {b : β}
    (hm : Reads rest m w a) (hf : Reads rest (f a) w' b) :
    Reads rest (m >>= f) (w ++ w') b := by
  intro s suffix hs
  rw [List.append_assoc] at hs
  obtain ⟨mid, hmid, hrest⟩ := hm s _ hs
  obtain ⟨t, ht, hend⟩ := hf mid suffix hrest
  refine ⟨t, ?_, hend⟩
  change EStateM.bind m f s = _
  rw [EStateM.bind, hmid]
  exact ht

protected theorem map {m : EStateM ε σ α} {f : α → β} {w : List τ} {a : α}
    (hm : Reads rest m w a) : Reads rest (f <$> m) w (f a) := by
  intro s suffix hs
  obtain ⟨t, ht, hend⟩ := hm s suffix hs
  refine ⟨t, ?_, hend⟩
  change EStateM.map f m s = _
  rw [EStateM.map, ht]

/-- The last reader of a sequence. -/
theorem bind_pure {m : EStateM ε σ α} {f : α → β} {w : List τ} {a : α}
    (hm : Reads rest m w a) : Reads rest (m >>= fun x => pure (f x)) w (f a) := by
  have h : Reads rest (m >>= fun x => (pure (f x) : EStateM ε σ β)) (w ++ []) (f a) :=
    Reads.bind hm (Reads.pure (f a))
  rwa [List.append_nil] at h

theorem congr {m : EStateM ε σ α} {w w' : List τ} {a : α} (hm : Reads rest m w a)
    (hw : w = w') : Reads rest m w' a := hw ▸ hm

/-- A reader returns at most one value on a given input. -/
theorem unique {m : EStateM ε σ α} {w : List τ} {a b : α} {s : σ} {suffix : List τ}
    (ha : Reads rest m w a) (hb : Reads rest m w b) (hs : rest s = w ++ suffix) : a = b := by
  obtain ⟨t, ht, -⟩ := ha s suffix hs
  obtain ⟨u, hu, -⟩ := hb s suffix hs
  rw [ht] at hu
  exact (EStateM.Result.ok.inj hu).1

end Reads

/-- Run a reader `count` times and collect the values. -/
def replicateM (m : EStateM ε σ α) : (count : Nat) → EStateM ε σ (List α)
  | 0 => pure []
  | count + 1 => do
      let a ← m
      let as ← replicateM m count
      return a :: as

/-- The result of `m` as a value, a failure included. -/
def attempt (m : EStateM ε σ α) : EStateM ε σ (Except ε α) := fun s =>
  match m s with
  | .ok a t => .ok (.ok a) t
  | .error e t => .ok (.error e) t

/-- If the reader turns each element's encoding into its image, the repeated
reader turns the concatenation into the images. -/
theorem Reads.replicateM_map {γ : Type} {m : EStateM ε σ α} {enc : γ → List τ} {f : γ → α} :
    ∀ (as : List γ), (∀ a ∈ as, Reads rest m (enc a) (f a)) →
      Reads rest (replicateM m as.length) (as.flatMap enc) (as.map f) := by
  intro as
  induction as with
  | nil => intro _; exact Reads.pure []
  | cons a as ih =>
      intro h
      rw [List.flatMap_cons]
      apply (h a List.mem_cons_self).bind
      exact (ih fun b hb => h b (List.mem_cons_of_mem a hb)).bind_pure

theorem Reads.replicateM {m : EStateM ε σ α} {enc : α → List τ} (as : List α)
    (h : ∀ a ∈ as, Reads rest m (enc a) a) :
    Reads rest (replicateM m as.length) (as.flatMap enc) as := by
  have hmap := Reads.replicateM_map (f := fun a => a) as h
  rwa [List.map_id'] at hmap

/-- A completed sequence is a completed first reader and a completed second one. -/
theorem bind_eq_ok {m : EStateM ε σ α} {f : α → EStateM ε σ β} {s t : σ} {b : β}
    (h : (m >>= f) s = .ok b t) : ∃ a mid, m s = .ok a mid ∧ f a mid = .ok b t := by
  change EStateM.bind m f s = _ at h
  unfold EStateM.bind at h
  split at h
  · rename_i a mid hmid
    exact ⟨a, mid, hmid, h⟩
  · simp at h

theorem pure_eq_ok {s t : σ} {a b : α} (h : (pure a : EStateM ε σ α) s = .ok b t) :
    a = b ∧ s = t := by
  cases h
  exact ⟨rfl, rfl⟩

/-- A completed last reader. -/
theorem bind_pure_eq_ok {m : EStateM ε σ α} {f : α → β} {s t : σ} {b : β}
    (h : (m >>= fun x => pure (f x)) s = .ok b t) : ∃ a, m s = .ok a t ∧ f a = b := by
  obtain ⟨a, mid, hmid, hpure⟩ := bind_eq_ok h
  obtain ⟨rfl, rfl⟩ := pure_eq_ok hpure
  exact ⟨a, hmid, rfl⟩

/-- A completed `replicateM` is as many completed reads in a row; what holds of
every value the reader returns holds of all the values collected. -/
theorem replicateM_eq_ok {m : EStateM ε σ α} {p : α → Prop}
    (hm : ∀ s a t, m s = .ok a t → p a) : ∀ {count : Nat} {s t : σ} {as : List α},
      Reading.replicateM m count s = .ok as t → as.length = count ∧ ∀ a ∈ as, p a := by
  intro count
  induction count with
  | zero =>
      intro s t as h
      obtain ⟨rfl, -⟩ := pure_eq_ok h
      exact ⟨rfl, by simp⟩
  | succ count ih =>
      intro s t as h
      obtain ⟨a, mid, ha, hrest⟩ := bind_eq_ok h
      obtain ⟨as', has, rfl⟩ := bind_pure_eq_ok hrest
      obtain ⟨hlength, hall⟩ := ih has
      refine ⟨by rw [List.length_cons, hlength], ?_⟩
      intro b hb
      rcases List.mem_cons.mp hb with rfl | hb
      · exact hm _ _ _ ha
      · exact hall b hb

/-! ## What a reader uses up -/

/-- A completed run uses up at least `cost` of its value, by the measure `left` of what is
left to read. -/
def Consumes (left : σ → Nat) (m : EStateM ε σ α) (cost : α → Nat) : Prop :=
  ∀ s a t, m s = .ok a t → left t + cost a ≤ left s

namespace Consumes

variable {left : σ → Nat} {m : EStateM ε σ α} {f : α → EStateM ε σ β} {c d : α → Nat}
  {cost : β → Nat}

protected theorem pure {a : α} (h : c a = 0) : Consumes left (pure a : EStateM ε σ α) c := by
  intro s b t hpure
  obtain ⟨rfl, rfl⟩ := pure_eq_ok hpure
  omega

protected theorem throw (e : ε) : Consumes left (throw e : EStateM ε σ α) c := by
  intro s a t h
  cases h

theorem throw_bind (e : ε) : Consumes left ((throw e : EStateM ε σ α) >>= f) cost := by
  intro s b t h
  cases h

theorem mono (hm : Consumes left m c) (h : ∀ a, d a ≤ c a) : Consumes left m d := by
  intro s a t hrun
  have := hm s a t hrun
  have := h a
  omega

/-- What the first reader uses up counts towards the whole. -/
protected theorem bind (hm : Consumes left m c)
    (hf : ∀ a, Consumes left (f a) fun b => cost b - c a) : Consumes left (m >>= f) cost := by
  intro s b t h
  obtain ⟨a, mid, hfirst, hrest⟩ := bind_eq_ok h
  have ha := hm s a mid hfirst
  have hb : left t + (cost b - c a) ≤ left mid := hf a mid b t hrest
  omega

theorem bind_pure {g : α → β} (hm : Consumes left m c) (h : ∀ a, cost (g a) ≤ c a) :
    Consumes left (m >>= fun a => pure (g a)) cost := by
  apply hm.bind
  intro a
  apply Consumes.pure
  exact Nat.sub_eq_zero_of_le (h a)

protected theorem ite {p : Prop} [Decidable p] {m' : EStateM ε σ α} (hm : Consumes left m c)
    (hm' : Consumes left m' c) : Consumes left (if p then m else m') c := by
  split
  · exact hm
  · exact hm'

theorem replicateM (hm : Consumes left m c) : ∀ count,
    Consumes left (Reading.replicateM m count) fun as => (as.map c).sum := by
  intro count
  induction count with
  | zero => exact Consumes.pure rfl
  | succ count ih =>
      apply hm.bind
      intro a
      apply ih.bind_pure
      intro as
      rw [List.map_cons, List.sum_cons]
      omega

end Consumes

end Rukkit.Lib.Reading
