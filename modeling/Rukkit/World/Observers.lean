import Rukkit.World.ColumnHistory
import Rukkit.World.Heightmaps

/-!
# Observing reachable chunks

Sections and chunks after operations with any arguments, also through the panics these may
end in, and what the observers report of them.
-/

namespace Rukkit.World

open Rukkit.Lib Rukkit.Protocol

/-! ## Reachable sections -/

namespace PalettedContainer

variable {c : PalettedContainer}

theorem Sound.set_kind (h : c.Sound) (index : Nat) (value : UInt32) :
    (c.set index value).state.kind = c.kind := by
  by_cases hindex : index < c.volume
  · by_cases hlost : c.Unconvertible value
    · rw [set_unconvertible h hindex hlost]
      rfl
    · rcases set_convertible h hindex hlost with ⟨hset, -⟩ | hset | hset | hset
      · rw [hset]
        rfl
      · rw [hset]
        rfl
      · obtain ⟨palette, storage, hset, -⟩ := hset
        rw [hset]
        rfl
      · obtain ⟨storage, hset, -⟩ := hset
        rw [hset]
        rfl
  · rw [set_out_of_range (Nat.le_of_not_lt hindex)]
    rfl

theorem Reachable.set (h : c.Reachable) (index : Nat)
    (value : UInt32) : (c.set index value).state.Reachable := by
  have hstep := h.step (.set index value)
  rw [PaletteOp.onContainer] at hstep
  cases hset : c.set index value <;> rw [hset] at hstep <;> exact hstep

theorem Reachable.shrink (h : c.Reachable) :
    ∃ c', c.shrink = .returned c' () ∧ c'.Reachable ∧ c'.kind = c.kind := by
  obtain ⟨repr, hshrink, -⟩ :=
    narrow_spec maxBits h.sound.wellFormed fun _ _ => toNat_lt_maxBits _
  have hstep := h.step .shrink
  rw [PaletteOp.onContainer, hshrink] at hstep
  exact ⟨_, hshrink, hstep, rfl⟩

end PalettedContainer

namespace ChunkSection

/-- Where operations lead from a filled section.  Through `biomes_mut` any other container
may take the place of the biomes. -/
inductive Reachable : ChunkSection → Prop
  | filled (states : BlockStates) (block biome : UInt32) : Reachable (filled states block biome)
  | setBlock {s : ChunkSection} (h : Reachable s) (x y z : Nat) (state : UInt32) :
      Reachable (s.setBlock x y z state).state
  | fillBlocks {s : ChunkSection} (h : Reachable s) (state : UInt32) :
      Reachable (s.fillBlocks state)
  | biomesMut {s : ChunkSection} (h : Reachable s) {biomes : PalettedContainer}
      (hbiomes : biomes.Reachable) : Reachable { s with biomes := biomes }
  | shrink {s : ChunkSection} (h : Reachable s) : Reachable s.shrink.state

variable {s : ChunkSection}

theorem setBlock_state (x y z : Nat) (state : UInt32) :
    (s.setBlock x y z state).state =
      { s with blockStates := (s.blockStates.set (sectionIndex x y z) state).state } := by
  rw [setBlock]
  cases s.blockStates.set (sectionIndex x y z) state <;> rfl

/-- A section is made of two reachable containers, the first one of blocks. -/
structure Containers (s : ChunkSection) : Prop where
  blocks : s.blockStates.Reachable
  blocks_kind : s.blockStates.kind = .blocks
  biomes : s.biomes.Reachable

theorem Containers.wellFormed (h : s.Containers) : s.blockStates.WellFormed :=
  h.blocks.sound.wellFormed

theorem Containers.setBlock (h : s.Containers) (x y z : Nat) (state : UInt32) :
    (s.setBlock x y z state).state.Containers := by
  rw [setBlock_state]
  exact ⟨h.blocks.set _ _, (h.blocks.sound.set_kind _ _).trans h.blocks_kind, h.biomes⟩

theorem Containers.shrink (h : s.Containers) :
    ∃ s', s.shrink = .returned s' () ∧ s'.Containers := by
  obtain ⟨blocks, hblocks, hreachable, hkind⟩ := h.blocks.shrink
  obtain ⟨biomes, hbiomes, hreachable', -⟩ := h.biomes.shrink
  refine ⟨{ blockStates := blocks, biomes := biomes }, ?_, hreachable,
    hkind.trans h.blocks_kind, hreachable'⟩
  simp only [ChunkSection.shrink, hblocks, hbiomes]

theorem Reachable.containers (h : s.Reachable) : s.Containers := by
  induction h with
  | filled states block biome => exact ⟨.filled _ _ _, rfl, .filled _ _ _⟩
  | setBlock _ x y z state ih => exact ih.setBlock x y z state
  | fillBlocks _ state ih => exact ⟨ih.blocks.step (.fill state), ih.blocks_kind, ih.biomes⟩
  | biomesMut _ hbiomes ih => exact ⟨ih.blocks, ih.blocks_kind, hbiomes⟩
  | shrink _ ih =>
      obtain ⟨s', hs', hcontainers⟩ := ih.shrink
      rw [hs']
      exact hcontainers

end ChunkSection

/-! ## Reachable chunks -/

namespace Chunk

/-- Where operations lead from an empty chunk.  Through `section_mut` any other section may
take the place of one of the stack. -/
inductive Reachable : Chunk → Prop
  | empty {limits : HeightLimits} {states : BlockStates} {c : Chunk}
      (h : Chunk.empty limits states = some c) : Reachable c
  | setBlock {c : Chunk} (h : Reachable c) (x : Nat) (y : Int32) (z : Nat) (state : UInt32)
      (states : BlockStates) : Reachable (c.setBlock x y z state states).state
  | sectionMut {c : Chunk} (h : Reachable c) (index : Nat) {s : ChunkSection}
      (hs : s.Reachable) : Reachable { c with sections := c.sections.set index s }
  | shrink {c : Chunk} (h : Reachable c) : Reachable c.shrink.state
  | recomputeHeightmaps {c c' : Chunk} (h : Reachable c) {states : BlockStates}
      (hc : c.recomputeHeightmaps states = some c') : Reachable c'

/-- What every reachable chunk satisfies. -/
structure Stacked (c : Chunk) : Prop where
  length_eq : c.sections.length = c.limits.sectionCount
  containers : ∀ s ∈ c.sections, s.Containers
  sized : c.heightmaps.Sized c.limits

variable {c : Chunk}

theorem Stacked.formed (h : c.Stacked) : c.Formed where
  length_eq := h.length_eq
  kind_eq := fun s hs => (h.containers s hs).blocks_kind
  wellFormed := fun s hs => (h.containers s hs).wellFormed

theorem Stacked.withSection (h : c.Stacked) (index : Nat) {s : ChunkSection}
    (hs : s.Containers) : Stacked { c with sections := c.sections.set index s } where
  length_eq := by
    rw [List.length_set]
    exact h.length_eq
  containers := by
    intro t ht
    rcases List.mem_or_eq_of_mem_set ht with ht | rfl
    · exact h.containers t ht
    · exact hs
  sized := h.sized

theorem Stacked.setBlock (h : c.Stacked) (x : Nat) (y : Int32) (z : Nat) (state : UInt32)
    (states : BlockStates) : (c.setBlock x y z state states).state.Stacked := by
  rw [Chunk.setBlock]
  cases c.sectionOf y with
  | none => exact h
  | some index =>
      by_cases hindex : index < c.sections.length
      · obtain ⟨s, hs⟩ : ∃ s, c.sections[index]? = some s :=
          ⟨_, List.getElem?_eq_getElem hindex⟩
        dsimp only
        rw [onSection_state hs]
        exact h.withSection index ((h.containers s (List.mem_of_getElem? hs)).setBlock _ _ _ _)
      · dsimp only
        rw [onSection_state_none (Nat.le_of_not_lt hindex)]
        exact h

theorem Stacked.shrink (h : c.Stacked) : c.shrink.state.Stacked := by
  obtain ⟨shrunk, hshrunk, hall⟩ := shrink_spec fun s hs => (h.containers s hs).shrink
  rw [hshrunk]
  exact ⟨hall.length_eq.symm.trans h.length_eq, forall_mem_of_forall₂ hall, h.sized⟩

theorem Stacked.recomputeHeightmaps (h : c.Stacked) (states : BlockStates) :
    ∃ maps, c.recomputeHeightmaps states = some { c with heightmaps := maps } ∧
      Stacked { c with heightmaps := maps } := by
  obtain ⟨maps, hrecompute, hsized, -⟩ := recompute_spec states h.formed h.sized
  exact ⟨maps, hrecompute, h.length_eq, h.containers, hsized⟩

theorem Reachable.stacked (h : c.Reachable) : c.Stacked := by
  induction h with
  | @empty limits states c h =>
      have hformed := formed_empty h
      have hsized := sized_empty h
      obtain ⟨rfl, hsections⟩ := empty_eq h
      refine ⟨hformed.length_eq, ?_, hsized⟩
      intro s hs
      rw [hsections] at hs
      rw [List.eq_of_mem_replicate hs]
      exact (ChunkSection.Reachable.filled _ _ _).containers
  | setBlock _ x y z state states ih => exact ih.setBlock x y z state states
  | sectionMut _ index hs ih => exact ih.withSection index hs.containers
  | shrink _ ih => exact ih.shrink
  | recomputeHeightmaps _ hc ih =>
      obtain ⟨maps, hrecompute, hstacked⟩ := ih.recomputeHeightmaps _
      obtain rfl := Option.some.inj (hc.symm.trans hrecompute)
      exact hstacked

end Chunk

/-! ## Visits and counts -/

/-- For each reachable container `for_each` and `count` report what `get` reads, and no
count of a section's blocks is cut by a cast. -/
theorem observers_agree_with_get :
    (∀ c : PalettedContainer, c.Reachable → ∃ ids : Nat → UInt32,
      (∀ i < c.volume, c.get i = some (ids i)) ∧
      c.forEach = some ((List.range c.volume).map fun i => (i, ids i)) ∧
      ∀ predicate : UInt32 → Bool,
        c.count predicate = some ((List.range c.volume).countP fun i => predicate (ids i))) ∧
    ∀ s : ChunkSection, s.Reachable → ∀ states : BlockStates, ∃ count : UInt16,
      s.nonAirCount states = some count ∧
      count.toNat =
        (List.range 4096).countP (fun i => s.blockStates.get i ≠ some states.air) ∧
      count.toInt16.toInt = count.toNat := by
  constructor
  · intro c hc
    have hformed := hc.sound.wellFormed
    refine ⟨c.entry, fun i hi => PalettedContainer.get_eq hformed hi,
      PalettedContainer.forEach_eq hformed, ?_⟩
    intro predicate
    rw [PalettedContainer.count_eq hformed, PalettedContainer.entries, List.countP_map]
    rfl
  · intro s hs states
    obtain ⟨hblocks, hkind, -⟩ := hs.containers
    have hformed := hblocks.sound.wellFormed
    have hvolume := PalettedContainer.volume_blocks hkind
    obtain ⟨count, hcount, hexact, hle⟩ := ChunkSection.nonAirCount_eq hkind hformed states
    refine ⟨count, hcount, ?_, ?_⟩
    · rw [hexact, PalettedContainer.entries, List.countP_map, hvolume]
      apply List.countP_congr
      intro i hi
      rw [PalettedContainer.get_eq hformed (by rw [hvolume]; exact List.mem_range.mp hi)]
      simp [BlockStates.isAir]
    · change count.toBitVec.toInt = _
      have hsmall : 2 * count.toBitVec.toNat < 2 ^ 16 := by
        change 2 * count.toNat < 2 ^ 16
        omega
      rw [BitVec.toInt_eq_toNat_of_lt hsmall]
      rfl

theorem observers_agree_with_get_eightBiomes :
    ∃ ids : Nat → UInt32,
      (∀ i < PalettedContainer.eightBiomes.volume,
        PalettedContainer.eightBiomes.get i = some (ids i)) ∧
      PalettedContainer.eightBiomes.forEach =
        some ((List.range PalettedContainer.eightBiomes.volume).map fun i => (i, ids i)) ∧
      ∀ predicate : UInt32 → Bool, PalettedContainer.eightBiomes.count predicate =
        some ((List.range PalettedContainer.eightBiomes.volume).countP fun i =>
          predicate (ids i)) :=
  observers_agree_with_get.1 PalettedContainer.eightBiomes
    PalettedContainer.reachable_eightBiomes

/-! ## Bytes -/

theorem length_writeCells (storage : BitStorage) :
    (writeCells storage).length =
      varintLen (asI32 storage.data.length) + storage.data.length * 8 := by
  have hcell : ∀ cell, (writeI64 (Int64.ofBitVec cell)).length = 8 :=
    fun cell => BigEndian.length_toBytes _ _
  rw [writeCells, List.length_append, length_writeVarint, List.length_flatMap]
  simp only [hcell, List.map_const', List.sum_replicate_nat]

theorem PalettedContainer.length_write (c : PalettedContainer) : c.write.length = c.wireLen := by
  have hzero : varintLen 0 = 1 := rfl
  rw [write, wireLen]
  split
  · simp only [List.length_append, length_writeVarint, hzero]
    rfl
  · simp only [List.length_append, length_writeVarint, length_writeCells, List.length_flatMap]
    simp only [writeU8, List.length_singleton]
    omega
  · simp only [List.length_append, length_writeCells]
    simp only [writeU8, List.length_singleton]
    omega

theorem ChunkSection.length_of_write {s : ChunkSection} {states : BlockStates} {bytes : Bytes}
    (h : s.write states = some bytes) : bytes.length = s.wireLen := by
  simp only [write, Option.bind_eq_bind, Option.bind_eq_some_iff, Option.pure_def,
    Option.some.injEq] at h
  obtain ⟨count, -, rfl⟩ := h
  simp only [List.length_append, PalettedContainer.length_write, wireLen]
  rfl

theorem ChunkSection.Containers.exists_write {s : ChunkSection} (h : s.Containers)
    (states : BlockStates) : ∃ bytes, s.write states = some bytes := by
  obtain ⟨count, hcount, -⟩ := nonAirCount_eq h.blocks_kind h.wellFormed states
  exact ⟨_, by rw [write, hcount]; rfl⟩

theorem Chunk.length_of_writeSections {c : Chunk} {states : BlockStates} {bytes : Bytes}
    (h : c.writeSections states = some bytes) : bytes.length = c.sectionsWireLen := by
  have hsections : ∀ (sections : List ChunkSection) (written : List Bytes),
      sections.mapM (fun s => s.write states) = some written →
        written.flatten.length = (sections.map ChunkSection.wireLen).sum := by
    intro sections
    induction sections with
    | nil =>
        intro written hwritten
        rw [← Option.some.inj hwritten]
        rfl
    | cons s sections ih =>
        intro written hwritten
        simp only [List.mapM_cons, Option.bind_eq_bind, Option.bind_eq_some_iff, Option.pure_def,
          Option.some.injEq] at hwritten
        obtain ⟨first, hfirst, rest, hrest, rfl⟩ := hwritten
        rw [List.flatten_cons, List.length_append, ChunkSection.length_of_write hfirst,
          ih rest hrest, List.map_cons, List.sum_cons]
  simp only [writeSections, Option.bind_eq_bind, Option.bind_eq_some_iff, Option.pure_def,
    Option.some.injEq] at h
  obtain ⟨written, hwritten, rfl⟩ := h
  exact hsections c.sections written hwritten

theorem Chunk.Stacked.exists_writeSections {c : Chunk} (h : c.Stacked) (states : BlockStates) :
    ∃ bytes, c.writeSections states = some bytes := by
  have hsections : ∀ sections : List ChunkSection, (∀ s ∈ sections, s.Containers) →
      ∃ written, sections.mapM (fun s => s.write states) = some written := by
    intro sections
    induction sections with
    | nil => exact fun _ => ⟨[], rfl⟩
    | cons s rest ih =>
        intro hall
        obtain ⟨bytes, hbytes⟩ := (hall s List.mem_cons_self).exists_write states
        obtain ⟨written, hwritten⟩ := ih fun t ht => hall t (List.mem_cons_of_mem s ht)
        exact ⟨bytes :: written, by rw [List.mapM_cons, hbytes, hwritten]; rfl⟩
  obtain ⟨written, hwritten⟩ := hsections c.sections h.containers
  exact ⟨written.flatten, by rw [writeSections, hwritten]; rfl⟩

/-- The predicted length is that of the bytes appended, whatever the buffer holds before. -/
theorem wireLen_exact :
    (∀ c : PalettedContainer, c.Reachable →
      ∀ out : Bytes, (out ++ c.write).length = out.length + c.wireLen) ∧
    (∀ s : ChunkSection, s.Reachable → ∀ states : BlockStates,
      ∃ bytes, s.write states = some bytes ∧
        ∀ out : Bytes, (out ++ bytes).length = out.length + s.wireLen) ∧
    ∀ c : Chunk, c.Reachable → ∀ states : BlockStates,
      ∃ bytes, c.writeSections states = some bytes ∧
        ∀ out : Bytes, (out ++ bytes).length = out.length + c.sectionsWireLen := by
  refine ⟨?_, ?_, ?_⟩
  · intro c _ out
    rw [List.length_append, c.length_write]
  · intro s hs states
    obtain ⟨bytes, hbytes⟩ := hs.containers.exists_write states
    refine ⟨bytes, hbytes, ?_⟩
    intro out
    rw [List.length_append, ChunkSection.length_of_write hbytes]
  · intro c hc states
    obtain ⟨bytes, hbytes⟩ := hc.stacked.exists_writeSections states
    refine ⟨bytes, hbytes, ?_⟩
    intro out
    rw [List.length_append, Chunk.length_of_writeSections hbytes]

/-- Eight biomes behind a palette, nine without one, an id of five bytes in a palette, and a
world with a block whose id takes two bytes. -/
theorem wireLen_exact_written :
    (∀ out : Bytes, (out ++ PalettedContainer.eightBiomes.write).length = out.length + 43) ∧
    (∀ out : Bytes, (out ++ (PalettedContainer.eightBiomes.set 8 63).state.write).length =
      out.length + 58) ∧
    (∃ bytes, ((ChunkSection.filled .placeholder 0xFFFFFFFF 0).setBlock 1 2 3 300).state.write
        .placeholder = some bytes ∧
      ∀ out : Bytes, (out ++ bytes).length = out.length + 2064) ∧
    ∃ c bytes, Chunk.empty ⟨-64, 384⟩ .placeholder = some c ∧
      (c.setBlock 3 70 5 300 .placeholder).state.writeSections .placeholder = some bytes ∧
      ∀ out : Bytes, (out ++ bytes).length = out.length + 2244 := by
  have hpalette : PalettedContainer.eightBiomes.wireLen = 43 := by decide +kernel
  have hdirect : (PalettedContainer.eightBiomes.set 8 63).state.wireLen = 58 := by decide +kernel
  have hwide : ((ChunkSection.filled .placeholder 0xFFFFFFFF 0).setBlock 1 2 3
      300).state.wireLen = 2064 := by decide +kernel
  have hworld : (Chunk.empty ⟨-64, 384⟩ .placeholder).map (fun c =>
      (c.setBlock 3 70 5 300 .placeholder).state.sectionsWireLen) = some 2244 := by
    decide +kernel
  refine ⟨?_, ?_, ?_, ?_⟩
  · rw [← hpalette]
    exact wireLen_exact.1 _ PalettedContainer.reachable_eightBiomes
  · rw [← hdirect]
    exact wireLen_exact.1 _ (PalettedContainer.reachable_eightBiomes.set 8 63)
  · rw [← hwide]
    exact wireLen_exact.2.1 _ (.setBlock (.filled ..) ..) .placeholder
  · obtain ⟨c, hc⟩ := Chunk.exists_empty ⟨-64, 384⟩ .placeholder
    obtain ⟨bytes, hbytes, hlength⟩ :=
      wireLen_exact.2.2 _ (.setBlock (.empty hc) 3 70 5 300 .placeholder) .placeholder
    rw [hc, Option.map_some, Option.some.injEq] at hworld
    rw [hworld] at hlength
    exact ⟨c, bytes, hc, hbytes, hlength⟩

end Rukkit.World
