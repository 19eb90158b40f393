import Rukkit.World.ChunkAddressing

/-!
# Histories of a column

A column is meant to be an array of ids over three coordinates.  A position outside the
world holds air and cannot be written.
-/

namespace Rukkit.World

/-- What a column stands for. -/
abbrev Column := Nat → Int32 → Nat → UInt32

instance (limits : HeightLimits) (y : Int32) : Decidable (limits.Within y) :=
  inferInstanceAs (Decidable (_ ∧ _))

namespace ChunkOp

/-- The operation on the specification. -/
def onColumn (limits : HeightLimits) (column : Column) : ChunkOp → Column
  | setBlock x y z state => fun x' y' z' =>
      if limits.Within y' ∧ x' = x ∧ y' = y ∧ z' = z then state else column x' y' z'
  | setSectionBlock index x y z state => fun x' y' z' =>
      if limits.Within y' ∧ x' = x ∧ limits.offset y' = index * 16 + y ∧ z' = z then state
      else column x' y' z'
  | fillBlocks index state => fun x' y' z' =>
      if limits.Within y' ∧ limits.offset y' / 16 = index then state else column x' y' z'
  | writeBiomes _ _ => column
  | shrinkSection _ => column
  | shrink => column

/-- Coordinates within the column, or within the section, and ids that fit. -/
def Addressed (directBits : Nat) : ChunkOp → Prop
  | setBlock x _ z state => x < 16 ∧ z < 16 ∧ state.toNat < 2 ^ directBits
  | setSectionBlock _ x y z state =>
      x < 16 ∧ y < 16 ∧ z < 16 ∧ state.toNat < 2 ^ directBits
  | op => op.InRange directBits

end ChunkOp

namespace Chunk

variable {c : Chunk} {limits : HeightLimits} {states : BlockStates} {column column' : Column}

/-- The chunk holds the column, in reachable sections. -/
structure Holds (c : Chunk) (limits : HeightLimits) (states : BlockStates)
    (column : Column) : Prop where
  limits_eq : c.limits = limits
  length_eq : c.sections.length = limits.sectionCount
  inv : c.Inv states.directBits
  entry_eq : ∀ x y z, x < 16 → z < 16 → limits.Within y →
    c.blockAt x (limits.offset y) z = column x y z
  outside_eq : ∀ x y z, ¬ limits.Within y → column x y z = states.air

theorem Holds.formed (h : Holds c limits states column) : c.Formed where
  length_eq := h.limits_eq ▸ h.length_eq
  kind_eq := fun s hs => (h.inv s hs).blocks_kind
  wellFormed := fun s hs => (h.inv s hs).blocks.wellFormed

theorem Holds.empty (hwhole : limits.height.toNat % 16 = 0)
    (hair : states.air.toNat < 2 ^ states.directBits)
    (hc : Chunk.empty limits states = some c) :
    Holds c limits states (fun _ _ _ => states.air) := by
  have hinv := Inv.empty hair hc
  obtain ⟨rfl, hsections⟩ := empty_eq hc
  refine ⟨rfl, by rw [hsections, List.length_replicate], hinv, ?_, fun _ _ _ _ => rfl⟩
  intro x y z _ _ hy
  have hs : c.sections[c.limits.offset y / 16]? = some (.filled states states.air 0) := by
    rw [hsections, List.getElem?_replicate, if_pos (HeightLimits.section_lt hwhole hy)]
  rw [blockAt_eq hs]
  rfl

/-! ## One operation -/

section Step

variable {α : Type} {index : Nat} {f : ChunkSection → Outcome ChunkSection α}

/-- A panic leaves the section as `f` left it. -/
theorem onSection_state {s : ChunkSection} (hs : c.sections[index]? = some s) :
    (c.onSection index f).state = { c with sections := c.sections.set index (f s).state } := by
  rw [onSection, hs]
  cases hf : f s <;> simp only [hf] <;> rfl

theorem onSection_returned {s s' : ChunkSection} {value : α}
    (hs : c.sections[index]? = some s) (hf : f s = .returned s' value) :
    c.onSection index f = .returned { c with sections := c.sections.set index s' } value := by
  rw [onSection, hs]
  simp only [hf]

theorem onSection_state_none (hs : c.sections.length ≤ index) :
    (c.onSection index f).state = c := by
  rw [onSection, List.getElem?_eq_none hs]
  rfl

/-- `section_mut` leaves what indexing the sections leaves. -/
theorem onSectionMut_state : (c.onSectionMut index f).state = (c.onSection index f).state := by
  by_cases hindex : index < c.sections.length
  · rw [onSectionMut, if_pos hindex]
    cases c.onSection index f <;> rfl
  · rw [onSectionMut, if_neg hindex, onSection_state_none (Nat.le_of_not_lt hindex)]
    rfl

theorem blockAt_set_same {s : ChunkSection} {x h z : Nat} (hindex : index < c.sections.length)
    (hsection : h / 16 = index) :
    blockAt { c with sections := c.sections.set index s } x h z =
      s.blockStates.entry (h % 16 * 256 + z * 16 + x) :=
  blockAt_eq (by rw [hsection]; exact List.getElem?_set_self hindex)

theorem blockAt_set_ne {s : ChunkSection} {x h z : Nat} (hsection : h / 16 ≠ index) :
    blockAt { c with sections := c.sections.set index s } x h z = c.blockAt x h z := by
  unfold blockAt
  simp only [List.getElem?_set_ne (Ne.symm hsection)]

/-- An operation on one section, as the column sees it. -/
theorem Holds.onSection (hwhole : limits.height.toNat % 16 = 0)
    (h : Holds c limits states column)
    (hf : ∀ s, s.Inv states.directBits → (f s).state.Inv states.directBits)
    (hedit : ∀ s x y z, s.Inv states.directBits → x < 16 → z < 16 → limits.Within y →
      limits.offset y / 16 = index →
      s.blockStates.entry (limits.offset y % 16 * 256 + z * 16 + x) = column x y z →
      (f s).state.blockStates.entry (limits.offset y % 16 * 256 + z * 16 + x) = column' x y z)
    (hother : ∀ x y z, x < 16 → z < 16 → ¬ (limits.Within y ∧ limits.offset y / 16 = index) →
      column' x y z = column x y z)
    (houtside : ∀ x y z, ¬ limits.Within y → column' x y z = column x y z) :
    Holds (c.onSection index f).state limits states column' := by
  have hout : ∀ x y z, ¬ limits.Within y → column' x y z = states.air :=
    fun x y z hy => (houtside x y z hy).trans (h.outside_eq x y z hy)
  have hinv := h.inv.onSection index hf
  by_cases hindex : index < c.sections.length
  · obtain ⟨s, hs⟩ : ∃ s, c.sections[index]? = some s :=
      ⟨_, List.getElem?_eq_getElem hindex⟩
    rw [onSection_state hs] at hinv ⊢
    refine ⟨h.limits_eq, by rw [← h.length_eq, List.length_set], hinv, ?_, hout⟩
    intro x y z hx hz hy
    have hentry := h.entry_eq x y z hx hz hy
    by_cases hsection : limits.offset y / 16 = index
    · rw [blockAt_set_same hindex hsection]
      rw [← hsection] at hs
      rw [blockAt_eq hs] at hentry
      exact hedit _ x y z (h.inv _ (List.mem_of_getElem? hs)) hx hz hy hsection hentry
    · rw [blockAt_set_ne hsection, hentry, hother x y z hx hz fun hin => hsection hin.2]
  · have hpast := Nat.le_of_not_lt hindex
    rw [onSection_state_none hpast]
    refine ⟨h.limits_eq, h.length_eq, h.inv, ?_, hout⟩
    intro x y z hx hz hy
    have hcovered := HeightLimits.section_lt hwhole hy
    rw [h.length_eq] at hpast
    rw [h.entry_eq x y z hx hz hy, hother x y z hx hz fun hin => by omega]

end Step

theorem Holds.shrink (hwhole : limits.height.toNat % 16 = 0)
    (h : Holds c limits states column) :
    ∃ c', c.shrink = .returned c' () ∧ Holds c' limits states column := by
  obtain ⟨shrunk, hshrunk, hall⟩ :=
    shrink_spec fun s hs => ChunkSection.shrink_entries (h.inv s hs)
  have hlength := hall.length_eq
  have hinv := h.inv.shrink
  rw [hshrunk] at hinv
  refine ⟨_, hshrunk, h.limits_eq, hlength.symm.trans h.length_eq, hinv, ?_, h.outside_eq⟩
  intro x y z hx hz hy
  have hcovered := HeightLimits.section_lt hwhole hy
  rw [← h.length_eq] at hcovered
  have hs := List.getElem?_eq_getElem hcovered
  have hs' := List.getElem?_eq_getElem (hlength ▸ hcovered)
  have hentries := (hall.get hcovered (hlength ▸ hcovered)).2
  rw [← h.entry_eq x y z hx hz hy, blockAt_eq hs,
    blockAt_eq (c := { c with sections := shrunk }) hs']
  exact hentries _ (by omega)

/-- A write to a section, by the coordinates in it. -/
theorem Holds.writeSection (hwhole : limits.height.toNat % 16 = 0)
    (h : Holds c limits states column) (index : Nat) {x y z : Nat} {state : UInt32} (hx : x < 16)
    (hy : y < 16) (hz : z < 16) (hstate : state.toNat < 2 ^ states.directBits) :
    Holds (c.onSection index fun s => s.setBlock x y z state).state limits states
      ((ChunkOp.setSectionBlock index x y z state).onColumn limits column) := by
  apply h.onSection hwhole
  · exact fun s hs => hs.setBlock x y z hstate
  · intro s x' y' z' hs hx' hz' hwithin hsection hentry
    obtain ⟨s', hset, -, hwrote⟩ := ChunkSection.setBlock_spec hs hx hy hz hstate
    have hsame : limits.offset y' % 16 * 256 + z' * 16 + x' = y * 256 + z * 16 + x ↔
        limits.Within y' ∧ x' = x ∧ limits.offset y' = index * 16 + y ∧ z' = z := by
      simp only [hwithin, true_and]
      omega
    simp only [ChunkOp.onColumn, hset, Outcome.state]
    rw [hwrote _ (by omega), hentry]
    simp only [hsame]
  · intro x' y' z' hx' hz' hout
    exact if_neg fun hin => hout ⟨hin.1, by omega⟩
  · intro x' y' z' hout
    exact if_neg fun hin => hout hin.1

theorem onSection_heightmaps {α : Type} (index : Nat)
    (f : ChunkSection → Outcome ChunkSection α) :
    (c.onSection index f).state.heightmaps = c.heightmaps := by
  cases hs : c.sections[index]? with
  | none => rw [onSection_state_none (List.getElem?_eq_none_iff.mp hs)]
  | some s => rw [onSection_state hs]

/-- No write touches the heightmaps. -/
theorem apply_heightmaps (op : ChunkOp) : (op.apply states c).heightmaps = c.heightmaps := by
  cases op with
  | setBlock x y z state =>
      rw [ChunkOp.apply, Chunk.setBlock]
      split
      · exact onSection_heightmaps _ _
      · rfl
  | setSectionBlock | fillBlocks | writeBiomes | shrinkSection =>
      rw [ChunkOp.apply, onSectionMut_state]
      exact onSection_heightmaps _ _
  | shrink =>
      rw [ChunkOp.apply, Chunk.shrink]
      split <;> rfl

theorem foldl_heightmaps (ops : List ChunkOp) (c : Chunk) :
    (ops.foldl (ChunkOp.apply states) c).heightmaps = c.heightmaps := by
  induction ops generalizing c with
  | nil => rfl
  | cons op ops ih => exact (ih _).trans (apply_heightmaps op)

section Run

variable (hwhole : limits.height.toNat % 16 = 0) (hrep : limits.Representable)
  (hmax : limits.HasMaxY)

include hrep hmax

theorem Holds.block_eq (hwhole : limits.height.toNat % 16 = 0)
    (h : Holds c limits states column) {x z : Nat} {y : Int32} (hx : x < 16) (hz : z < 16) :
    c.block x y z states = some (column x y z) := by
  have hformed := h.formed
  obtain rfl := h.limits_eq
  by_cases hy : c.limits.Within y
  · rw [Chunk.block_eq hrep hmax hformed hy (HeightLimits.section_lt hwhole hy) hx hz,
      h.entry_eq x y z hx hz hy]
  · rw [block_outside hrep hmax hy, h.outside_eq x y z hy]

include hwhole

omit hrep hmax hwhole in
/-- A write at a height is one to its section. -/
theorem onColumn_setBlock {x z : Nat} {y : Int32} {state : UInt32}
    (hy : limits.Within y) :
    (ChunkOp.setSectionBlock (limits.offset y / 16) x (limits.offset y % 16) z state).onColumn
        limits column =
      (ChunkOp.setBlock x y z state).onColumn limits column := by
  funext x' y' z'
  by_cases hy' : limits.Within y'
  · have hsame := HeightLimits.offset_inj hy' hy
    simp only [ChunkOp.onColumn, ← hsame, Nat.div_add_mod']
  · simp only [ChunkOp.onColumn, hy', false_and]

/-- A write returns what was there and is seen at its position only. -/
theorem Holds.setBlock (h : Holds c limits states column) {x z : Nat} {y : Int32}
    {state : UInt32} (hx : x < 16) (hz : z < 16) (hstate : state.toNat < 2 ^ states.directBits) :
    ∃ c', c.setBlock x y z state states = .returned c' (column x y z) ∧
      Holds c' limits states ((ChunkOp.setBlock x y z state).onColumn limits column) := by
  by_cases hy : limits.Within y
  · have hlocal : limits.offset y % 16 < 16 := Nat.mod_lt _ (by decide)
    have hwritten := h.writeSection hwhole (limits.offset y / 16) hx hlocal hz hstate
    have hentry := h.entry_eq x y z hx hz hy
    obtain ⟨s, hs⟩ : ∃ s, c.sections[limits.offset y / 16]? = some s :=
      ⟨_, List.getElem?_eq_getElem (h.length_eq ▸ HeightLimits.section_lt hwhole hy)⟩
    obtain ⟨s', hset, -⟩ :=
      ChunkSection.setBlock_spec (h.inv s (List.mem_of_getElem? hs)) hx hlocal hz hstate
    have hreturned := onSection_returned (f := fun s =>
      s.setBlock x (limits.offset y % 16) z state) hs hset
    rw [hreturned, onColumn_setBlock hy] at hwritten
    rw [← hentry, blockAt_eq hs]
    refine ⟨_, ?_, hwritten⟩
    obtain rfl := h.limits_eq
    exact (setBlock_within hrep hmax hy).trans hreturned
  · refine ⟨c, ?_, ?_⟩
    · obtain rfl := h.limits_eq
      rw [setBlock_outside hrep hmax hy, h.outside_eq x y z hy]
    · have hkept : (ChunkOp.setBlock x y z state).onColumn limits column = column := by
        funext x' y' z'
        refine if_neg ?_
        rintro ⟨hy', -, rfl, -⟩
        exact hy hy'
      rwa [hkept]

/-- One operation keeps the chunk and the column in step. -/
theorem Holds.apply (h : Holds c limits states column) {op : ChunkOp}
    (hop : op.Addressed states.directBits) :
    Holds (op.apply states c) limits states (op.onColumn limits column) := by
  cases op with
  | setBlock x y z state =>
      obtain ⟨hx, hz, hstate⟩ := hop
      obtain ⟨c', hset, hheld⟩ := h.setBlock hwhole hrep hmax (y := y) hx hz hstate
      rw [ChunkOp.apply, hset]
      exact hheld
  | setSectionBlock index x y z state =>
      obtain ⟨hx, hy, hz, hstate⟩ := hop
      rw [ChunkOp.apply, onSectionMut_state]
      exact h.writeSection hwhole index hx hy hz hstate
  | fillBlocks index state =>
      rw [ChunkOp.apply, onSectionMut_state]
      apply h.onSection hwhole
      · exact fun s hs => hs.fillBlocks hop
      · intro s x y z _ _ _ hy hsection _
        exact (if_pos ⟨hy, hsection⟩).symm
      · exact fun x y z _ _ hout => if_neg hout
      · exact fun x y z hout => if_neg fun hin => hout hin.1
  | writeBiomes index op =>
      have hrange : (ChunkOp.writeBiomes index op).InRange states.directBits := hop
      rw [ChunkOp.apply, onSectionMut_state]
      apply h.onSection hwhole
      · exact fun s hs => hs.writeBiomes hrange
      · intro s x y z _ _ _ _ _ hentry
        rw [ChunkSection.writeBiomes_blockStates]
        exact hentry
      · exact fun _ _ _ _ _ _ => rfl
      · exact fun _ _ _ _ => rfl
  | shrinkSection index =>
      rw [ChunkOp.apply, onSectionMut_state]
      apply h.onSection hwhole
      · intro s hs
        obtain ⟨s', hs', hinv, -⟩ := ChunkSection.shrink_entries hs
        rw [hs']
        exact hinv
      · intro s x y z hs hx hz _ _ hentry
        obtain ⟨s', hs', -, hentries⟩ := ChunkSection.shrink_entries hs
        rw [hs']
        exact (hentries _ (by omega)).trans hentry
      · exact fun _ _ _ _ _ _ => rfl
      · exact fun _ _ _ _ => rfl
  | shrink =>
      obtain ⟨c', hshrink, hheld⟩ := h.shrink hwhole
      rw [ChunkOp.apply, hshrink]
      exact hheld

/-- A whole history keeps the chunk and the column in step. -/
theorem Holds.foldl (h : Holds c limits states column) {ops : List ChunkOp}
    (hops : ∀ op ∈ ops, op.Addressed states.directBits) :
    Holds (ops.foldl (ChunkOp.apply states) c) limits states
      (ops.foldl (ChunkOp.onColumn limits) column) := by
  induction ops generalizing c column with
  | nil => exact h
  | cons op ops ih =>
      exact ih (h.apply hwhole hrep hmax (hops op List.mem_cons_self)) fun other hother =>
        hops other (List.mem_cons_of_mem op hother)

end Run

/-! ## Exact addressing -/

/-- Every position reads as in the column.  A write returns what was there and leaves all
other positions alone, and outside the world reads give air and writes do nothing. -/
structure Exact (c : Chunk) (limits : HeightLimits) (states : BlockStates)
    (column : Column) : Prop where
  block : ∀ x y z, x < 16 → z < 16 → c.block x y z states = some (column x y z)
  setBlock : ∀ x y z state, x < 16 → z < 16 → state.toNat < 2 ^ states.directBits →
    ∃ c', c.setBlock x y z state states = .returned c' (column x y z) ∧
      ∀ x' y' z', x' < 16 → z' < 16 → ¬ (x' = x ∧ y' = y ∧ z' = z) →
        c'.block x' y' z' states = c.block x' y' z' states
  outside : ∀ x y z state, ¬ limits.Within y →
    c.block x y z states = some states.air ∧
      c.setBlock x y z state states = .returned c states.air
  shrink : ∃ c', c.shrink = .returned c' ()

theorem Holds.exact (hwhole : limits.height.toNat % 16 = 0) (hrep : limits.Representable)
    (hmax : limits.HasMaxY) (h : Holds c limits states column) :
    c.Exact limits states column where
  block := fun x y z hx hz => h.block_eq hrep hmax hwhole hx hz
  setBlock := by
    intro x y z state hx hz hstate
    obtain ⟨c', hset, hheld⟩ := h.setBlock hwhole hrep hmax (y := y) hx hz hstate
    refine ⟨c', hset, ?_⟩
    intro x' y' z' hx' hz' hne
    rw [hheld.block_eq hrep hmax hwhole hx' hz', h.block_eq hrep hmax hwhole hx' hz']
    exact congrArg some (if_neg fun hin => hne hin.2)
  outside := by
    intro x y z state hy
    obtain rfl := h.limits_eq
    exact ⟨block_outside hrep hmax hy, setBlock_outside hrep hmax hy⟩
  shrink := by
    obtain ⟨c', hshrink, -⟩ := h.shrink hwhole
    exact ⟨c', hshrink⟩

/-- Without a highest position the first section is indexed, and there is none. -/
theorem block_of_not_hasMaxY (hrep : c.limits.Representable) (hmax : ¬ c.limits.HasMaxY)
    (hformed : c.Formed) {x z : Nat} {y : Int32} : c.block x y z states = none := by
  obtain ⟨hzero, hcontains⟩ := HeightLimits.contains_of_not_hasMaxY (y := y) hrep hmax
  have hnil : c.sections = [] := by
    rw [← List.length_eq_zero_iff, hformed.length_eq, HeightLimits.sectionCount_eq, hzero]
  rw [Chunk.block, sectionOf, if_pos hcontains]
  simp only [hnil, List.getElem?_nil]
  rfl

/-- Addressing is exact after every history of a fresh chunk, except that an empty world at
the bottom of the heights has no highest position. -/
theorem addressing_exact_iff (hwhole : limits.height.toNat % 16 = 0)
    (hrep : limits.Representable) (hair : states.air.toNat < 2 ^ states.directBits)
    (hc : Chunk.empty limits states = some c) :
    (∀ ops : List ChunkOp, (∀ op ∈ ops, op.Addressed states.directBits) →
      (ops.foldl (ChunkOp.apply states) c).Exact limits states
        (ops.foldl (ChunkOp.onColumn limits) fun _ _ _ => states.air)) ↔ limits.HasMaxY := by
  constructor
  · intro hexact
    by_contra hmax
    have houtside : ¬ limits.Within 0 := fun hin => hmax (HeightLimits.hasMaxY_of_within hin)
    have hread := ((hexact [] (by simp)).outside 0 0 0 0 houtside).1
    have hformed := formed_empty hc
    obtain ⟨rfl, -⟩ := empty_eq hc
    rw [List.foldl_nil, block_of_not_hasMaxY hrep hmax hformed] at hread
    cases hread
  · intro hmax ops hops
    exact ((Holds.empty hwhole hair hc).foldl hwhole hrep hmax hops).exact hwhole hrep hmax

theorem addressing_exact_overworld :
    ∃ c, Chunk.empty ⟨-64, 384⟩ .placeholder = some c ∧
      ∀ ops : List ChunkOp, (∀ op ∈ ops, op.Addressed BlockStates.placeholder.directBits) →
        (ops.foldl (ChunkOp.apply .placeholder) c).Exact ⟨-64, 384⟩ .placeholder
          (ops.foldl (ChunkOp.onColumn ⟨-64, 384⟩) fun _ _ _ => 0) := by
  obtain ⟨c, hc⟩ := exists_empty ⟨-64, 384⟩ .placeholder
  exact ⟨c, hc, (addressing_exact_iff (by decide) ⟨by decide, by decide⟩ (by decide) hc).mpr
    (.inl (by decide))⟩

/-- No height is in an empty world at `i32::MIN`, and reading any of them panics. -/
theorem addressing_empty_world :
    ∃ c, Chunk.empty ⟨Int32.minValue, 0⟩ .placeholder = some c ∧
      HeightLimits.Representable ⟨Int32.minValue, 0⟩ ∧
      ¬ HeightLimits.Within ⟨Int32.minValue, 0⟩ 0 ∧ c.block 0 0 0 .placeholder = none ∧
      ¬ c.Exact ⟨Int32.minValue, 0⟩ .placeholder fun _ _ _ => 0 := by
  obtain ⟨c, hc⟩ := exists_empty ⟨Int32.minValue, 0⟩ .placeholder
  have hrep : HeightLimits.Representable ⟨Int32.minValue, 0⟩ := ⟨by decide, by decide⟩
  have hlimits := (empty_eq hc).1
  have hread : c.block 0 0 0 .placeholder = none :=
    block_of_not_hasMaxY (by rw [hlimits]; exact hrep) (by rw [hlimits]; decide) (formed_empty hc)
  refine ⟨c, hc, hrep, by decide, hread, ?_⟩
  intro hexact
  have hair := hexact.block 0 0 0 (by decide) (by decide)
  rw [hread] at hair
  cases hair

end Chunk

end Rukkit.World
