import Rukkit.World.Chunk
import Rukkit.World.PaletteFailure

/-!
# Addressing a column

Where the block at a height stands: the section by a shift, the height in it by a mask, and
the three coordinates packed into an index.
-/

namespace Rukkit.World

theorem asUsize_of_nonneg {v : Int32} (h : 0 ≤ v.toInt) : asUsize v = v.toInt.toNat := by
  have hle : (0 : Int64) ≤ v.toInt64 := by
    rw [Int64.le_iff_toInt_le, Int32.toInt_toInt64]
    exact h
  rw [asUsize, Int64.toNat_toUInt64_of_le hle, ← Int64.toNat_toInt, Int32.toInt_toInt64]

theorem toInt_shiftRight_four (v : Int32) : (v >>> 4).toInt = v.toInt / 16 := by
  have hshift : (v >>> 4).toBitVec = v.toBitVec.sshiftRight 4 := rfl
  rw [← Int32.toInt_toBitVec, hshift, BitVec.toInt_sshiftRight, Int.shiftRight_eq_div_pow]
  rfl

/-- The three coordinates fill disjoint bits. -/
theorem sectionIndex_eq {x y z : Nat} (hx : x < 16) (hy : y < 16) (hz : z < 16) :
    sectionIndex x y z = y * 256 + z * 16 + x := by
  have hlow := Nat.two_pow_add_eq_or_of_lt (i := 4) hx z
  have hhigh := Nat.two_pow_add_eq_or_of_lt (i := 8) (b := z * 16 + x) (by omega) y
  rw [sectionIndex, Nat.or_assoc, Nat.shiftLeft_eq, Nat.shiftLeft_eq, Nat.mul_comm z, ← hlow,
    Nat.mul_comm (2 ^ 4), Nat.mul_comm y, ← hhigh]
  omega

namespace HeightLimits

variable {limits : HeightLimits} {y : Int32}

/-- The height and the end of the range are `i32` values. -/
structure Representable (limits : HeightLimits) : Prop where
  height_lt : limits.height.toNat < 2 ^ 31
  end_lt : limits.minY.toInt + limits.height.toNat < 2 ^ 31

/-- So is the highest position, unless the range is empty and starts at `i32::MIN`. -/
def HasMaxY (limits : HeightLimits) : Prop :=
  0 < limits.height.toNat ∨ -2 ^ 31 < limits.minY.toInt

instance : Decidable limits.HasMaxY := by
  unfold HasMaxY
  infer_instance

/-- The heights of the world. -/
def Within (limits : HeightLimits) (y : Int32) : Prop :=
  limits.minY.toInt ≤ y.toInt ∧ y.toInt < limits.minY.toInt + limits.height.toNat

/-- The height above the bottom of the world. -/
def offset (limits : HeightLimits) (y : Int32) : Nat := (y.toInt - limits.minY.toInt).toNat

theorem toInt_height (h : limits.Representable) :
    limits.height.toInt32.toInt = limits.height.toNat := by
  have hlt := h.height_lt
  have hbits : limits.height.toInt32.toInt = limits.height.toBitVec.toInt := rfl
  rw [hbits, BitVec.toInt_eq_toNat_of_lt]
  · rfl
  · change 2 * limits.height.toNat < 2 ^ 32
    omega

theorem toInt_maxY (h : limits.Representable) (hmax : limits.HasMaxY) :
    limits.maxY.toInt = limits.minY.toInt + limits.height.toNat - 1 := by
  have hlow := limits.minY.le_toInt
  have hend := h.end_lt
  have hone : (1 : Int32).toInt = 1 := rfl
  unfold HasMaxY at hmax
  rw [maxY, Int32.toInt_sub, Int32.toInt_add, toInt_height h, hone,
    Int.bmod_eq_of_le (n := limits.minY.toInt + _) (by omega) (by omega),
    Int.bmod_eq_of_le (by omega) (by omega)]

theorem contains_iff (h : limits.Representable) (hmax : limits.HasMaxY) :
    limits.contains y = true ↔ limits.Within y := by
  rw [contains, Bool.and_eq_true, decide_eq_true_iff, decide_eq_true_iff, Int32.le_iff_toInt_le,
    Int32.le_iff_toInt_le, toInt_maxY h hmax, Within]
  omega

theorem toInt_sub_minY (h : limits.Representable) (hy : limits.Within y) :
    (y - limits.minY).toInt = limits.offset y := by
  obtain ⟨hlow, hhigh⟩ := hy
  have hheight := h.height_lt
  rw [Int32.toInt_sub, Int.bmod_eq_of_le (by omega) (by omega), offset, Int.toNat_of_nonneg]
  omega

/-- The bottom minus one overflows, and every height is taken to be in the world. -/
theorem contains_of_not_hasMaxY (h : limits.Representable) (hmax : ¬ limits.HasMaxY) :
    limits.height.toNat = 0 ∧ limits.contains y = true := by
  have hlow := limits.minY.le_toInt
  have hone : (1 : Int32).toInt = 1 := rfl
  simp only [HasMaxY, not_or, not_lt] at hmax
  have hminY : limits.minY.toInt = -2 ^ 31 := by omega
  have hheight : limits.height.toNat = 0 := by omega
  have hmaxY : limits.maxY.toInt = 2 ^ 31 - 1 := by
    rw [maxY, Int32.toInt_sub, Int32.toInt_add, toInt_height h, hone, hminY, hheight]
    rfl
  refine ⟨hheight, ?_⟩
  have hy := y.le_toInt
  have hy' := y.toInt_lt
  rw [contains, Bool.and_eq_true, decide_eq_true_iff, decide_eq_true_iff, Int32.le_iff_toInt_le,
    Int32.le_iff_toInt_le, hmaxY, hminY]
  omega

theorem sectionCount_eq : limits.sectionCount = limits.height.toNat / 16 := by
  rw [sectionCount, UInt32.toNat_div]
  rfl

theorem offset_lt (hy : limits.Within y) : limits.offset y < limits.height.toNat := by
  obtain ⟨hlow, hhigh⟩ := hy
  unfold offset
  omega

/-- In a world of whole sections every height is in one of them. -/
theorem section_lt (hwhole : limits.height.toNat % 16 = 0) (hy : limits.Within y) :
    limits.offset y / 16 < limits.sectionCount := by
  have := offset_lt hy
  rw [sectionCount_eq]
  omega

/-- A world with a height in it has a highest position. -/
theorem hasMaxY_of_within (hy : limits.Within y) : limits.HasMaxY :=
  .inl (Nat.zero_lt_of_lt (offset_lt hy))

/-- Every offset below the height is that of some position. -/
theorem exists_offset (h : limits.Representable) {n : Nat} (hn : n < limits.height.toNat) :
    ∃ y, limits.Within y ∧ limits.offset y = n := by
  have hend := h.end_lt
  have hlow := limits.minY.le_toInt
  have hy : (Int32.ofInt (limits.minY.toInt + n)).toInt = limits.minY.toInt + n :=
    Int32.toInt_ofInt_of_le (by omega) (by omega)
  refine ⟨Int32.ofInt (limits.minY.toInt + n), ⟨by omega, by omega⟩, ?_⟩
  rw [offset, hy]
  omega

/-- A height in the world is determined by its offset. -/
theorem offset_inj {y' : Int32} (hy : limits.Within y) (hy' : limits.Within y') :
    limits.offset y = limits.offset y' ↔ y = y' := by
  constructor
  · intro h
    unfold offset at h
    apply Int32.toInt_inj.mp
    have := hy.1
    have := hy'.1
    omega
  · exact congrArg _

end HeightLimits

/-! ## Sections -/

namespace ChunkSection

variable {directBits : Nat} {s : ChunkSection} {x y z : Nat}

theorem sectionIndex_lt (hkind : s.blockStates.kind = .blocks) (hx : x < 16) (hy : y < 16)
    (hz : z < 16) : sectionIndex x y z < s.blockStates.volume := by
  rw [sectionIndex_eq hx hy hz, PalettedContainer.volume_blocks hkind]
  omega

theorem block_eq (hkind : s.blockStates.kind = .blocks) (h : s.blockStates.WellFormed)
    (hx : x < 16) (hy : y < 16) (hz : z < 16) :
    s.block x y z = some (s.blockStates.entry (y * 256 + z * 16 + x)) := by
  rw [block, PalettedContainer.get_eq h (sectionIndex_lt hkind hx hy hz),
    sectionIndex_eq hx hy hz]

/-- A write in range changes one entry and returns what it held. -/
theorem setBlock_spec (h : s.Inv directBits) (hx : x < 16) (hy : y < 16) (hz : z < 16)
    {state : UInt32} (hstate : state.toNat < 2 ^ directBits) :
    ∃ s', s.setBlock x y z state =
        .returned s' (s.blockStates.entry (y * 256 + z * 16 + x)) ∧
      s'.Inv directBits ∧
      ∀ i < 4096, s'.blockStates.entry i =
        if i = y * 256 + z * 16 + x then state else s.blockStates.entry i := by
  have hkept := h.setBlock x y z hstate
  obtain ⟨blocks, hset, hwrote⟩ := PalettedContainer.set_spec h.blocks
    (sectionIndex_lt h.blocks_kind hx hy hz) (by rw [h.blocks_directBits]; exact hstate)
  rw [setBlock, hset, sectionIndex_eq hx hy hz] at hkept ⊢
  refine ⟨_, rfl, hkept, ?_⟩
  intro i hi
  rw [← sectionIndex_eq hx hy hz]
  apply hwrote.entry_eq
  rwa [PalettedContainer.volume_blocks h.blocks_kind]

/-- A section of one id takes any id at any position. -/
theorem setBlock_filled (states : BlockStates) (initial biome state : UInt32) (hx : x < 16)
    (hy : y < 16) (hz : z < 16) :
    ∃ s' previous,
      (filled states initial biome).setBlock x y z state = .returned s' previous := by
  have hrepr : (filled states initial biome).blockStates.repr = .single initial := rfl
  have hindex := sectionIndex_lt (s := filled states initial biome) rfl hx hy hz
  by_cases hsame : initial = state
  · subst hsame
    rw [setBlock, PalettedContainer.set_single_same hrepr hindex]
    exact ⟨_, _, rfl⟩
  · obtain ⟨palette, storage, hset, -⟩ := PalettedContainer.promote_spec hrepr hindex hsame
      (PalettedContainer.toNat_lt_maxBits _) (PalettedContainer.toNat_lt_maxBits _)
    rw [setBlock, PalettedContainer.set_single_other hrepr hindex hsame, hset]
    exact ⟨_, _, rfl⟩

/-- At most 4096 blocks are counted, so the cast to sixteen bits is exact. -/
theorem nonAirCount_eq (hkind : s.blockStates.kind = .blocks) (h : s.blockStates.WellFormed)
    (states : BlockStates) :
    ∃ count, s.nonAirCount states = some count ∧
      count.toNat = s.blockStates.entries.countP (fun id => !states.isAir id) ∧
      count.toNat ≤ 4096 := by
  have hcount := PalettedContainer.count_eq h fun id => !states.isAir id
  have hle : s.blockStates.entries.countP (fun id => !states.isAir id) ≤ 4096 := by
    have hlength := PalettedContainer.length_entries s.blockStates
    rw [PalettedContainer.volume_blocks hkind] at hlength
    exact List.countP_le_length.trans_eq hlength
  have hexact := UInt16.toNat_ofNat_of_lt' (n := s.blockStates.entries.countP _)
    (Nat.lt_of_le_of_lt hle (by decide))
  refine ⟨_, by rw [nonAirCount, hcount]; rfl, hexact, ?_⟩
  rw [hexact]
  exact hle

/-- The test for an empty section finds any block that is not air. -/
theorem isEmpty_eq (hkind : s.blockStates.kind = .blocks) (h : s.blockStates.WellFormed)
    (states : BlockStates) :
    ∃ empty, s.isEmpty states = some empty ∧
      (empty = true → ∀ i < 4096, states.isAir (s.blockStates.entry i) = true) := by
  obtain ⟨count, hcount, hnonAir, -⟩ := nonAirCount_eq hkind h states
  refine ⟨_, by rw [isEmpty, hcount]; rfl, ?_⟩
  intro hempty i hi
  rw [beq_iff_eq] at hempty
  rw [hempty, UInt16.toNat_zero, eq_comm, List.countP_eq_zero] at hnonAir
  have hmem : s.blockStates.entry i ∈ s.blockStates.entries := by
    rw [PalettedContainer.mem_entries, PalettedContainer.volume_blocks hkind]
    exact ⟨i, hi, rfl⟩
  simpa using hnonAir _ hmem

theorem writeBiomes_blockStates (op : PaletteOp) :
    (s.writeBiomes op).state.blockStates = s.blockStates := by
  rw [writeBiomes]
  cases op.onContainer s.biomes <;> rfl

theorem shrink_entries (h : s.Inv directBits) :
    ∃ s', s.shrink = .returned s' () ∧ s'.Inv directBits ∧
      ∀ i < 4096, s'.blockStates.entry i = s.blockStates.entry i := by
  obtain ⟨s', hs', hinv⟩ := h.shrink
  obtain ⟨blocks, hblocks, hshrunk⟩ := PalettedContainer.shrink_spec h.blocks
  obtain ⟨biomes, hbiomes, -⟩ := PalettedContainer.shrink_spec h.biomes
  refine ⟨s', hs', hinv, ?_⟩
  simp only [shrink, hblocks, hbiomes, Outcome.returned.injEq, and_true] at hs'
  intro i hi
  rw [← hs']
  apply hshrunk.entry_eq
  rwa [PalettedContainer.volume_blocks h.blocks_kind]

end ChunkSection

/-! ## Columns -/

namespace Chunk

variable {c : Chunk} {states : BlockStates} {x z : Nat} {y : Int32} {state : UInt32}

/-- The sections are as many as the height has, and each is a well-formed container of
blocks. -/
structure Formed (c : Chunk) : Prop where
  length_eq : c.sections.length = c.limits.sectionCount
  kind_eq : ∀ s ∈ c.sections, s.blockStates.kind = .blocks
  wellFormed : ∀ s ∈ c.sections, s.blockStates.WellFormed

/-- The block at a height above the bottom. -/
def blockAt (c : Chunk) (x h z : Nat) : UInt32 :=
  match c.sections[h / 16]? with
  | some s => s.blockStates.entry (h % 16 * 256 + z * 16 + x)
  | none => 0

theorem blockAt_eq {s : ChunkSection} {h : Nat} (hs : c.sections[h / 16]? = some s) :
    c.blockAt x h z = s.blockStates.entry (h % 16 * 256 + z * 16 + x) := by
  rw [blockAt, hs]

section Located

variable (hrep : c.limits.Representable)

include hrep

theorem sectionOf_within (hmax : c.limits.HasMaxY) (hy : c.limits.Within y) :
    c.sectionOf y = some (c.limits.offset y / 16) := by
  have hsub := HeightLimits.toInt_sub_minY hrep hy
  have hshift := toInt_shiftRight_four (y - c.limits.minY)
  rw [hsub] at hshift
  rw [sectionOf, if_pos ((HeightLimits.contains_iff hrep hmax).mpr hy),
    asUsize_of_nonneg (by omega), hshift]
  exact congrArg some (by omega)

theorem sectionOf_outside (hmax : c.limits.HasMaxY) (hy : ¬ c.limits.Within y) :
    c.sectionOf y = none := by
  rw [sectionOf, if_neg]
  rwa [HeightLimits.contains_iff hrep hmax]

theorem localY_eq (hy : c.limits.Within y) :
    asUsize (y - c.limits.minY) &&& 0xF = c.limits.offset y % 16 := by
  have hsub := HeightLimits.toInt_sub_minY hrep hy
  rw [asUsize_of_nonneg (by omega), hsub, Int.toNat_natCast]
  exact Nat.and_two_pow_sub_one_eq_mod _ 4

theorem block_within (hmax : c.limits.HasMaxY) (hy : c.limits.Within y) :
    c.block x y z states =
      (c.sections[c.limits.offset y / 16]?).bind fun s => s.block x (c.limits.offset y % 16) z := by
  rw [block, sectionOf_within hrep hmax hy]
  simp only [localY_eq hrep hy]
  rfl

theorem block_outside (hmax : c.limits.HasMaxY) (hy : ¬ c.limits.Within y) :
    c.block x y z states = some states.air := by
  rw [block, sectionOf_outside hrep hmax hy]

theorem setBlock_within (hmax : c.limits.HasMaxY) (hy : c.limits.Within y) :
    c.setBlock x y z state states = c.onSection (c.limits.offset y / 16) fun s =>
      s.setBlock x (c.limits.offset y % 16) z state := by
  rw [setBlock, sectionOf_within hrep hmax hy]
  simp only [localY_eq hrep hy]

theorem setBlock_outside (hmax : c.limits.HasMaxY) (hy : ¬ c.limits.Within y) :
    c.setBlock x y z state states = .returned c states.air := by
  rw [setBlock, sectionOf_outside hrep hmax hy]

theorem block_eq (hmax : c.limits.HasMaxY) (hformed : c.Formed) (hy : c.limits.Within y)
    (hcovered : c.limits.offset y / 16 < c.limits.sectionCount) (hx : x < 16) (hz : z < 16) :
    c.block x y z states = some (c.blockAt x (c.limits.offset y) z) := by
  rw [← hformed.length_eq] at hcovered
  have hs := List.getElem?_eq_getElem hcovered
  have hmem := List.mem_of_getElem? hs
  rw [block_within hrep hmax hy, hs, Option.bind_some, blockAt_eq hs,
    ChunkSection.block_eq (hformed.kind_eq _ hmem) (hformed.wellFormed _ hmem) hx
      (Nat.mod_lt _ (by decide)) hz]

end Located

/-! ## The stack of sections -/

section Fresh

variable {limits : HeightLimits}

theorem heightmapBits_le (limits : HeightLimits) :
    0 < limits.heightmapBits ∧ limits.heightmapBits ≤ maxBits ∧
      limits.height.toNat < 2 ^ limits.heightmapBits := by
  have hlt := limits.height.toNat_lt
  by_cases hzero : limits.height.toNat = 0
  · have hbits : limits.heightmapBits = 1 := by
      rw [HeightLimits.heightmapBits, hzero]
      rfl
    rw [hbits, hzero]
    decide
  · have hfits : limits.height.toNat + 1 ≤ 2 ^ limits.heightmapBits :=
      (bitsFor_le_iff (by omega) (by omega)).mp (Nat.le_refl _)
    have hle : limits.heightmapBits ≤ maxBits :=
      (bitsFor_le_iff (by omega) (by omega)).mpr (by rw [maxBits]; omega)
    refine ⟨?_, hle, by omega⟩
    by_contra hnot
    rw [Nat.eq_zero_of_not_pos hnot] at hfits
    omega

/-- A fresh chunk can be made whatever the limits. -/
theorem exists_empty (limits : HeightLimits) (states : BlockStates) :
    ∃ c, Chunk.empty limits states = some c := by
  obtain ⟨hpos, hle, -⟩ := heightmapBits_le limits
  have hcolumns : columns < 2 ^ 26 := by decide
  obtain ⟨storage, hnew⟩ := Option.isSome_iff_exists.mp (BitStorage.new_isSome hpos hle hcolumns)
  rw [Chunk.empty, Heightmaps.new, hnew]
  exact ⟨_, rfl⟩

theorem empty_eq (h : Chunk.empty limits states = some c) :
    c.limits = limits ∧
      c.sections = List.replicate limits.sectionCount (.filled states states.air 0) := by
  simp only [Chunk.empty, Option.bind_eq_bind, Option.bind_eq_some_iff, Option.pure_def,
    Option.some.injEq] at h
  obtain ⟨heightmaps, -, rfl⟩ := h
  exact ⟨rfl, rfl⟩

theorem formed_empty (h : Chunk.empty limits states = some c) : c.Formed := by
  obtain ⟨rfl, hsections⟩ := empty_eq h
  refine ⟨by rw [hsections, List.length_replicate], ?_, ?_⟩
  · intro s hs
    rw [hsections] at hs
    rw [List.eq_of_mem_replicate hs]
    rfl
  · intro s hs
    rw [hsections] at hs
    rw [List.eq_of_mem_replicate hs]
    trivial

end Fresh

/-- A read or a write at this height never indexes past the sections. -/
structure StaysInStack (c : Chunk) (states : BlockStates) (y : Int32) : Prop where
  section_lt : ∀ index, c.sectionOf y = some index → index < c.sections.length
  block : ∀ x z, x < 16 → z < 16 → (c.block x y z states).isSome
  setBlock : ∀ x z state, x < 16 → z < 16 →
    ∃ c' previous, c.setBlock x y z state states = .returned c' previous

end Chunk

/-- The limits have a highest position, and the height is not in a section that is cut off
at the top. -/
def HeightLimits.Covers (limits : HeightLimits) (y : Int32) : Prop :=
  limits.HasMaxY ∧ (limits.Within y → limits.offset y / 16 < limits.sectionCount)

theorem HeightLimits.covers_iff {limits : HeightLimits} (h : limits.Representable) :
    (∀ y, limits.Covers y) ↔ limits.height.toNat % 16 = 0 ∧ limits.HasMaxY := by
  constructor
  · intro hcovers
    refine ⟨?_, (hcovers 0).1⟩
    by_contra hpartial
    obtain ⟨top, htop, hoffset⟩ := exists_offset h
      (n := 16 * (limits.height.toNat / 16)) (by omega)
    have hlt := (hcovers top).2 htop
    rw [sectionCount_eq, hoffset] at hlt
    omega
  · rintro ⟨hwhole, hmax⟩ y
    exact ⟨hmax, section_lt hwhole⟩

namespace Chunk

variable {c : Chunk} {states : BlockStates} {y : Int32} {limits : HeightLimits}

theorem staysInStack_of_covers (hrep : limits.Representable)
    (hc : Chunk.empty limits states = some c) (hcovers : limits.Covers y) :
    c.StaysInStack states y := by
  have hformed := formed_empty hc
  obtain ⟨rfl, hsections⟩ := empty_eq hc
  obtain ⟨hmax, hcovered⟩ := hcovers
  by_cases hy : c.limits.Within y
  · have hlt := hcovered hy
    refine ⟨?_, ?_, ?_⟩
    · intro index hindex
      rw [sectionOf_within hrep hmax hy] at hindex
      rw [hformed.length_eq, ← Option.some.inj hindex]
      exact hlt
    · intro x z hx hz
      rw [block_eq hrep hmax hformed hy hlt hx hz]
      rfl
    · intro x z state hx hz
      have hs : c.sections[c.limits.offset y / 16]? = some (.filled states states.air 0) := by
        rw [hsections, List.getElem?_replicate, if_pos hlt]
      have hlocal : c.limits.offset y % 16 < 16 := Nat.mod_lt _ (by decide)
      obtain ⟨s', previous, hset⟩ :=
        ChunkSection.setBlock_filled states states.air 0 state hx hlocal hz
      rw [setBlock_within hrep hmax hy, onSection, hs]
      simp only [hset]
      exact ⟨_, _, rfl⟩
  · refine ⟨?_, ?_, ?_⟩
    · intro index hindex
      rw [sectionOf_outside hrep hmax hy] at hindex
      cases hindex
    · intro x z _ _
      rw [block_outside hrep hmax hy]
      rfl
    · intro x z state _ _
      exact ⟨_, _, setBlock_outside hrep hmax hy⟩

/-- Reads and writes of a fresh chunk stay within its sections exactly at the heights that
the sections cover, and at every height exactly if the world's height is a multiple of a
section's and the highest position exists. -/
theorem stays_in_stack_iff (hrep : limits.Representable)
    (hc : Chunk.empty limits states = some c) :
    (∀ y, c.StaysInStack states y ↔ limits.Covers y) ∧
    ((∀ y, c.StaysInStack states y) ↔ limits.height.toNat % 16 = 0 ∧ limits.HasMaxY) := by
  have hpointwise : ∀ y, c.StaysInStack states y ↔ limits.Covers y := by
    intro y
    refine ⟨?_, staysInStack_of_covers hrep hc⟩
    intro hstays
    have hformed := formed_empty hc
    obtain ⟨rfl, -⟩ := empty_eq hc
    by_cases hmax : c.limits.HasMaxY
    · refine ⟨hmax, ?_⟩
      intro hy
      rw [← hformed.length_eq]
      exact hstays.section_lt _ (sectionOf_within hrep hmax hy)
    · obtain ⟨hzero, hcontains⟩ := HeightLimits.contains_of_not_hasMaxY (y := y) hrep hmax
      have hindex : c.sectionOf y = some (asUsize ((y - c.limits.minY) >>> 4)) := if_pos hcontains
      have hlt := hstays.section_lt _ hindex
      rw [hformed.length_eq, HeightLimits.sectionCount_eq, hzero] at hlt
      omega
  refine ⟨hpointwise, ?_⟩
  rw [← HeightLimits.covers_iff hrep]
  exact forall_congr' hpointwise

theorem stays_in_stack_overworld :
    ∃ c, Chunk.empty ⟨-64, 384⟩ .placeholder = some c ∧ ∀ y, c.StaysInStack .placeholder y := by
  obtain ⟨c, hc⟩ := exists_empty ⟨-64, 384⟩ .placeholder
  exact ⟨c, hc, (stays_in_stack_iff ⟨by decide, by decide⟩ hc).2.mpr ⟨by decide, .inl (by decide)⟩⟩

/-- A world of seventeen blocks has one section, and its top block is in the second. -/
theorem past_stack_seventeen :
    ∃ c, Chunk.empty ⟨0, 17⟩ .placeholder = some c ∧ HeightLimits.Representable ⟨0, 17⟩ ∧
      c.sectionOf 16 = some 1 ∧ c.sections.length = 1 ∧ c.block 0 16 0 .placeholder = none := by
  obtain ⟨c, hc⟩ := exists_empty ⟨0, 17⟩ .placeholder
  obtain ⟨hlimits, hsections⟩ := empty_eq hc
  have hindex : c.sectionOf 16 = some 1 := by
    rw [sectionOf, hlimits]
    decide
  have hlength : c.sections.length = 1 := by
    rw [hsections]
    rfl
  refine ⟨c, hc, ⟨by decide, by decide⟩, hindex, hlength, ?_⟩
  rw [block, hindex]
  simp only [List.getElem?_eq_none (Nat.le_of_eq hlength)]
  rfl

end Chunk

end Rukkit.World
