import Rukkit.World.PaletteHistory

/-!
# Chunk columns

The model of `rukkit-world/src/block.rs` and of the block storage half of
`rukkit-world/src/chunk.rs`.
-/

namespace Rukkit.World

open Rukkit.Protocol

/-- The block states the built-in generators refer to, plus the registry size. -/
structure BlockStates where
  air : UInt32
  stone : UInt32
  dirt : UInt32
  grassBlock : UInt32
  bedrock : UInt32
  totalStates : UInt32
deriving DecidableEq, Repr

namespace BlockStates

def placeholder : BlockStates :=
  { air := 0, stone := 1, dirt := 2, grassBlock := 3, bedrock := 4, totalStates := 27000 }

variable (states : BlockStates)

/-- Bit width the direct palette uses, from the registry size. -/
def directBits : Nat := bitsFor states.totalStates.toNat

def isAir (state : UInt32) : Bool := state == states.air

theorem directBits_pos : 1 ≤ states.directBits := by
  unfold directBits
  by_cases hcount : states.totalStates.toNat ≤ 1
  · rw [bitsFor, if_pos hcount]
  · have hlt := states.totalStates.toNat_lt
    by_contra hzero
    have hle := (bitsFor_le_iff (by omega) (by omega)).mp
      (by omega : bitsFor states.totalStates.toNat ≤ 0)
    omega

theorem directBits_le : states.directBits ≤ 32 := by
  unfold directBits
  have hlt := states.totalStates.toNat_lt
  by_cases hcount : states.totalStates.toNat ≤ 1
  · rw [bitsFor, if_pos hcount]
    decide
  · rw [bitsFor_le_iff (by omega) (by omega)]
    omega

end BlockStates

/-- Blocks along each edge of a section. -/
def sectionSize : Nat := 16

/-- Columns in a chunk. -/
def columns : Nat := sectionSize * sectionSize

/-- Bit width of the biome containers' direct representation. -/
def biomeDirectBits : Nat := 6

/-- The cast `i32 as usize`, which sign-extends. -/
def asUsize (v : Int32) : Nat := v.toInt64.toUInt64.toNat

/-- Vertical extent of a world, in blocks and sections. -/
structure HeightLimits where
  minY : Int32
  height : UInt32
deriving DecidableEq, Repr

namespace HeightLimits

variable (limits : HeightLimits)

def sectionCount : Nat := (limits.height / 16).toNat

def maxY : Int32 := limits.minY + limits.height.toInt32 - 1

def contains (y : Int32) : Bool := decide (limits.minY ≤ y) && decide (y ≤ limits.maxY)

/-- Bits needed to store a heightmap value. -/
def heightmapBits : Nat := bitsFor (limits.height.toNat + 1)

end HeightLimits

/-- Index of a block within a section, in Y-Z-X order. -/
def sectionIndex (x y z : Nat) : Nat := (y <<< 8 ||| z <<< 4 ||| x) % 2 ^ 64

/-- One 16³ slice of a chunk. -/
structure ChunkSection where
  blockStates : PalettedContainer
  biomes : PalettedContainer
deriving DecidableEq

namespace ChunkSection

def filled (states : BlockStates) (block biome : UInt32) : ChunkSection :=
  { blockStates := .filled .blocks states.directBits block
    biomes := .filled .biomes biomeDirectBits biome }

variable (s : ChunkSection)

def block (x y z : Nat) : Option UInt32 := s.blockStates.get (sectionIndex x y z)

def setBlock (x y z : Nat) (state : UInt32) : Outcome ChunkSection UInt32 :=
  match s.blockStates.set (sectionIndex x y z) state with
  | .returned blocks previous => .returned { s with blockStates := blocks } previous
  | .panicked blocks => .panicked { s with blockStates := blocks }

/-- Replaces every block in the section with `state`. -/
def fillBlocks (state : UInt32) : ChunkSection :=
  { s with blockStates := s.blockStates.fill state }

/-- A write through `biomes_mut`. -/
def writeBiomes (op : PaletteOp) : Outcome ChunkSection (Option UInt32) :=
  match op.onContainer s.biomes with
  | .returned biomes reported => .returned { s with biomes := biomes } reported
  | .panicked biomes => .panicked { s with biomes := biomes }

/-- Number of non-air blocks, the value the wire format carries. -/
def nonAirCount (states : BlockStates) : Option UInt16 := do
  return UInt16.ofNat (← s.blockStates.count fun id => !states.isAir id)

/-- True when the section holds nothing but air, and so can be skipped. -/
def isEmpty (states : BlockStates) : Option Bool := do
  return (← s.nonAirCount states) == 0

/-- Recomputes the minimal representation for both containers. -/
def shrink : Outcome ChunkSection Unit :=
  match s.blockStates.shrink with
  | .panicked blocks => .panicked { s with blockStates := blocks }
  | .returned blocks () =>
      match s.biomes.shrink with
      | .panicked biomes => .panicked { blockStates := blocks, biomes := biomes }
      | .returned biomes () => .returned { blockStates := blocks, biomes := biomes } ()

/-- Non-air count, then the block and biome containers. -/
def write (states : BlockStates) : Option Bytes := do
  let count ← s.nonAirCount states
  return writeI16 count.toInt16 ++ s.blockStates.write ++ s.biomes.write

/-- Bytes `write` will produce. -/
def wireLen : Nat := 2 + s.blockStates.wireLen + s.biomes.wireLen

end ChunkSection

/-- The two heightmaps the client needs. -/
structure Heightmaps where
  motionBlocking : BitStorage
  worldSurface : BitStorage
deriving DecidableEq

def Heightmaps.new (limits : HeightLimits) : Option Heightmaps := do
  let bits := limits.heightmapBits
  return {
    motionBlocking := ← BitStorage.new columns bits
    worldSurface := ← BitStorage.new columns bits }

/-- A chunk column. -/
structure Chunk where
  limits : HeightLimits
  sections : List ChunkSection
  heightmaps : Heightmaps
deriving DecidableEq

namespace Chunk

/-- An entirely air-filled column. -/
def empty (limits : HeightLimits) (states : BlockStates) : Option Chunk := do
  return {
    limits := limits
    sections := List.replicate limits.sectionCount (ChunkSection.filled states states.air 0)
    heightmaps := ← Heightmaps.new limits }

variable (c : Chunk)

/-- Section holding absolute height `y`, if within the world.  Arithmetic wraps,
as in a release build. -/
def sectionOf (y : Int32) : Option Nat :=
  if c.limits.contains y then some (asUsize ((y - c.limits.minY) >>> 4)) else none

/-- Reads a block by chunk-local X/Z and absolute Y; out-of-range heights read as air. -/
def block (x : Nat) (y : Int32) (z : Nat) (states : BlockStates) : Option UInt32 :=
  match c.sectionOf y with
  | some index => do
      let localY := asUsize (y - c.limits.minY) &&& 0xF
      (← c.sections[index]?).block x localY z
  | none => some states.air

/-- Run a mutation of section `index`; indexing past the stack panics. -/
def onSection {α : Type} (index : Nat) (f : ChunkSection → Outcome ChunkSection α) :
    Outcome Chunk α :=
  match c.sections[index]? with
  | none => .panicked c
  | some s =>
      match f s with
      | .returned s value => .returned { c with sections := c.sections.set index s } value
      | .panicked s => .panicked { c with sections := c.sections.set index s }

/-- Writes a block, returning the previous state.  Out-of-range heights are
ignored and report air. -/
def setBlock (x : Nat) (y : Int32) (z : Nat) (state : UInt32) (states : BlockStates) :
    Outcome Chunk UInt32 :=
  match c.sectionOf y with
  | some index =>
      let localY := asUsize (y - c.limits.minY) &&& 0xF
      c.onSection index fun s => s.setBlock x localY z state
  | none => .returned c states.air

/-- A mutation through `section_mut`, which is `None` past the stack. -/
def onSectionMut {α : Type} (index : Nat) (f : ChunkSection → Outcome ChunkSection α) :
    Outcome Chunk (Option α) :=
  if index < c.sections.length then
    match c.onSection index f with
    | .returned c value => .returned c (some value)
    | .panicked c => .panicked c
  else .returned c none

/-- The loop of `shrink` over the sections. -/
def shrinkSections : List ChunkSection → Outcome (List ChunkSection) Unit
  | [] => .returned [] ()
  | s :: rest =>
      match s.shrink with
      | .panicked s => .panicked (s :: rest)
      | .returned s () =>
          match shrinkSections rest with
          | .panicked rest => .panicked (s :: rest)
          | .returned rest () => .returned (s :: rest) ()

/-- Recomputes the minimal representation for every section. -/
def shrink : Outcome Chunk Unit :=
  match shrinkSections c.sections with
  | .panicked sections => .panicked { c with sections := sections }
  | .returned sections () => .returned { c with sections := sections } ()

/-- Writes the section array carried in chunk data. -/
def writeSections (states : BlockStates) : Option Bytes := do
  return (← c.sections.mapM fun s => s.write states).flatten

/-- Bytes `writeSections` will produce. -/
def sectionsWireLen : Nat := (c.sections.map ChunkSection.wireLen).sum

end Chunk

/-! ## Histories of a chunk -/

/-- The writes to a chunk's blocks and biomes. -/
inductive ChunkOp where
  | setBlock (x : Nat) (y : Int32) (z : Nat) (state : UInt32)
  | setSectionBlock (index x y z : Nat) (state : UInt32)
  | fillBlocks (index : Nat) (state : UInt32)
  | writeBiomes (index : Nat) (op : PaletteOp)
  | shrinkSection (index : Nat)
  | shrink

namespace ChunkOp

/-- The chunk after the operation, also when it panicked: a caught panic leaves
the chunk in use. -/
def apply (states : BlockStates) (c : Chunk) : ChunkOp → Chunk
  | setBlock x y z state => (c.setBlock x y z state states).state
  | setSectionBlock index x y z state =>
      (c.onSectionMut index fun s => s.setBlock x y z state).state
  | fillBlocks index state =>
      (c.onSectionMut index fun s => .returned (s.fillBlocks state) ()).state
  | writeBiomes index op => (c.onSectionMut index fun s => s.writeBiomes op).state
  | shrinkSection index => (c.onSectionMut index ChunkSection.shrink).state
  | shrink => c.shrink.state

/-- Block ids below `2 ^ directBits` and biome ids below 64.  Nothing is asked of
the coordinates. -/
def InRange (directBits : Nat) : ChunkOp → Prop
  | setBlock _ _ _ state => state.toNat < 2 ^ directBits
  | setSectionBlock _ _ _ _ state => state.toNat < 2 ^ directBits
  | fillBlocks _ state => state.toNat < 2 ^ directBits
  | writeBiomes _ (.set _ value) => value.toNat < 64
  | writeBiomes _ (.fill value) => value.toNat < 64
  | writeBiomes _ .shrink => True
  | shrinkSection _ => True
  | shrink => True

end ChunkOp

/-! ## The invariant -/

structure ChunkSection.Inv (directBits : Nat) (s : ChunkSection) : Prop where
  blocks_kind : s.blockStates.kind = .blocks
  blocks_directBits : s.blockStates.directBits = directBits
  blocks : s.blockStates.Inv
  biomes_kind : s.biomes.kind = .biomes
  biomes_directBits : s.biomes.directBits = biomeDirectBits
  biomes : s.biomes.Inv

def Chunk.Inv (directBits : Nat) (c : Chunk) : Prop :=
  ∀ s ∈ c.sections, s.Inv directBits

namespace PalettedContainer

/-- An index out of range panics before anything is written. -/
theorem set_out_of_range {c : PalettedContainer} {index : Nat} (hindex : c.volume ≤ index)
    (value : UInt32) : c.set index value = .panicked c := by
  rw [set, if_neg (by omega)]

/-- Whatever the index, a write of an id in range leaves a container that
satisfies the invariant. -/
theorem set_state {c : PalettedContainer} (hc : c.Inv) (index : Nat) (value : UInt32)
    (hvalue : value.toNat < 2 ^ c.directBits) :
    (c.set index value).state.kind = c.kind ∧
      (c.set index value).state.directBits = c.directBits ∧ (c.set index value).state.Inv := by
  by_cases hindex : index < c.volume
  · obtain ⟨c', hset, hwrote⟩ := set_spec hc hindex hvalue
    rw [hset]
    exact ⟨hwrote.kind_eq, hwrote.directBits_eq, hwrote.inv⟩
  · rw [set_out_of_range (Nat.le_of_not_lt hindex)]
    exact ⟨rfl, rfl, hc⟩

end PalettedContainer

namespace ChunkSection

variable {directBits : Nat} {s : ChunkSection}

theorem Inv.setBlock (h : s.Inv directBits) (x y z : Nat) {state : UInt32}
    (hstate : state.toNat < 2 ^ directBits) : (s.setBlock x y z state).state.Inv directBits := by
  obtain ⟨hkind, hbits, hinv⟩ := PalettedContainer.set_state h.blocks (sectionIndex x y z)
    state (by rw [h.blocks_directBits]; exact hstate)
  unfold ChunkSection.setBlock
  split
  · rename_i blocks previous hset
    rw [hset] at hkind hbits hinv
    exact ⟨hkind.trans h.blocks_kind, hbits.trans h.blocks_directBits, hinv, h.biomes_kind,
      h.biomes_directBits, h.biomes⟩
  · rename_i blocks hset
    rw [hset] at hkind hbits hinv
    exact ⟨hkind.trans h.blocks_kind, hbits.trans h.blocks_directBits, hinv, h.biomes_kind,
      h.biomes_directBits, h.biomes⟩

theorem Inv.fillBlocks (h : s.Inv directBits) {state : UInt32}
    (hstate : state.toNat < 2 ^ directBits) : (s.fillBlocks state).Inv directBits where
  blocks_kind := h.blocks_kind
  blocks_directBits := h.blocks_directBits
  blocks := h.blocks.withRepr (.single (by rw [h.blocks_directBits]; exact hstate))
  biomes_kind := h.biomes_kind
  biomes_directBits := h.biomes_directBits
  biomes := h.biomes

theorem Inv.withBiomes (h : s.Inv directBits) {biomes : PalettedContainer}
    (hkind : biomes.kind = s.biomes.kind) (hbits : biomes.directBits = s.biomes.directBits)
    (hinv : biomes.Inv) : Inv directBits { s with biomes := biomes } where
  blocks_kind := h.blocks_kind
  blocks_directBits := h.blocks_directBits
  blocks := h.blocks
  biomes_kind := hkind.trans h.biomes_kind
  biomes_directBits := hbits.trans h.biomes_directBits
  biomes := hinv

theorem Inv.writeBiomes (h : s.Inv directBits) {index : Nat} {op : PaletteOp}
    (hop : (ChunkOp.writeBiomes index op).InRange directBits) :
    (s.writeBiomes op).state.Inv directBits := by
  have hwidth : 2 ^ s.biomes.directBits = 64 := by rw [h.biomes_directBits]; rfl
  cases op with
  | set entry value =>
      obtain ⟨hkind, hbits, hinv⟩ := PalettedContainer.set_state h.biomes entry value
        (by rw [hwidth]; exact hop)
      rw [ChunkSection.writeBiomes, PaletteOp.onContainer]
      cases hset : s.biomes.set entry value with
      | returned biomes previous =>
          rw [hset] at hkind hbits hinv
          exact h.withBiomes hkind hbits hinv
      | panicked biomes =>
          rw [hset] at hkind hbits hinv
          exact h.withBiomes hkind hbits hinv
  | fill value =>
      have hvalue : value.toNat < 2 ^ s.biomes.directBits := by rw [hwidth]; exact hop
      exact h.withBiomes rfl rfl (h.biomes.withRepr (.single hvalue))
  | shrink =>
      obtain ⟨biomes, hshrink, hshrunk⟩ := PalettedContainer.shrink_spec h.biomes
      rw [ChunkSection.writeBiomes, PaletteOp.onContainer, hshrink]
      exact h.withBiomes hshrunk.kind_eq hshrunk.directBits_eq hshrunk.inv

theorem Inv.shrink (h : s.Inv directBits) :
    ∃ s', s.shrink = .returned s' () ∧ s'.Inv directBits := by
  obtain ⟨blocks, hblocks, hshrunk⟩ := PalettedContainer.shrink_spec h.blocks
  obtain ⟨biomes, hbiomes, hshrunk'⟩ := PalettedContainer.shrink_spec h.biomes
  refine ⟨{ blockStates := blocks, biomes := biomes }, ?_, ?_⟩
  · simp only [ChunkSection.shrink, hblocks, hbiomes]
  · exact ⟨hshrunk.kind_eq.trans h.blocks_kind, hshrunk.directBits_eq.trans h.blocks_directBits,
      hshrunk.inv, hshrunk'.kind_eq.trans h.biomes_kind,
      hshrunk'.directBits_eq.trans h.biomes_directBits, hshrunk'.inv⟩

end ChunkSection

namespace Chunk

variable {directBits : Nat} {c : Chunk}

theorem Inv.onSection {α : Type} (h : c.Inv directBits) (index : Nat)
    {f : ChunkSection → Outcome ChunkSection α}
    (hf : ∀ s, s.Inv directBits → (f s).state.Inv directBits) :
    (c.onSection index f).state.Inv directBits := by
  unfold Chunk.onSection
  split
  · exact h
  · rename_i s hs
    have hinv := hf s (h s (List.mem_of_getElem? hs))
    have hset : ∀ s', s'.Inv directBits →
        Inv directBits { c with sections := c.sections.set index s' } := by
      intro s' hs' t ht
      rcases List.mem_or_eq_of_mem_set ht with ht | rfl
      · exact h t ht
      · exact hs'
    split
    · rename_i s' value hfs
      rw [hfs] at hinv
      exact hset s' hinv
    · rename_i s' hfs
      rw [hfs] at hinv
      exact hset s' hinv

theorem Inv.onSectionMut {α : Type} (h : c.Inv directBits) (index : Nat)
    {f : ChunkSection → Outcome ChunkSection α}
    (hf : ∀ s, s.Inv directBits → (f s).state.Inv directBits) :
    (c.onSectionMut index f).state.Inv directBits := by
  have hsection := h.onSection index hf
  unfold Chunk.onSectionMut
  split
  · split
    · rename_i c' value hc'
      rw [hc'] at hsection
      exact hsection
    · rename_i c' hc'
      rw [hc'] at hsection
      exact hsection
  · exact h

theorem shrinkSections_spec {R : ChunkSection → ChunkSection → Prop}
    {sections : List ChunkSection}
    (h : ∀ s ∈ sections, ∃ s', s.shrink = .returned s' () ∧ R s s') :
    ∃ shrunk, shrinkSections sections = .returned shrunk () ∧
      List.Forall₂ R sections shrunk := by
  induction sections with
  | nil => exact ⟨[], rfl, .nil⟩
  | cons s rest ih =>
      obtain ⟨s', hs', hrel⟩ := h s List.mem_cons_self
      obtain ⟨rest', hrest', hall⟩ := ih fun t ht => h t (List.mem_cons_of_mem s ht)
      exact ⟨s' :: rest', by simp only [shrinkSections, hs', hrest'], .cons hrel hall⟩

/-- If every section shrinks, so does the chunk, section by section. -/
theorem shrink_spec {R : ChunkSection → ChunkSection → Prop}
    (h : ∀ s ∈ c.sections, ∃ s', s.shrink = .returned s' () ∧ R s s') :
    ∃ shrunk, c.shrink = .returned { c with sections := shrunk } () ∧
      List.Forall₂ R c.sections shrunk := by
  obtain ⟨shrunk, hshrunk, hall⟩ := shrinkSections_spec h
  exact ⟨shrunk, by rw [Chunk.shrink, hshrunk], hall⟩

theorem forall_mem_of_forall₂ {P : ChunkSection → Prop} {sections shrunk : List ChunkSection}
    (h : List.Forall₂ (fun _ s' => P s') sections shrunk) : ∀ s ∈ shrunk, P s := by
  induction h with
  | nil => simp
  | cons hhead _ ih => exact List.forall_mem_cons.mpr ⟨hhead, ih⟩

theorem Inv.shrink (h : c.Inv directBits) : c.shrink.state.Inv directBits := by
  obtain ⟨shrunk, hshrunk, hall⟩ := shrink_spec fun s hs => (h s hs).shrink
  rw [hshrunk]
  exact forall_mem_of_forall₂ hall

theorem Inv.empty {limits : HeightLimits} {states : BlockStates}
    (hair : states.air.toNat < 2 ^ states.directBits) (h : Chunk.empty limits states = some c) :
    c.Inv states.directBits := by
  simp only [Chunk.empty, Option.bind_eq_bind, Option.bind_eq_some_iff, Option.pure_def,
    Option.some.injEq] at h
  obtain ⟨heightmaps, -, rfl⟩ := h
  intro s hs
  rw [List.eq_of_mem_replicate hs]
  exact
    { blocks_kind := rfl
      blocks_directBits := rfl
      blocks := .filled states.directBits_pos states.directBits_le hair
      biomes_kind := rfl
      biomes_directBits := rfl
      biomes := .filled (by decide) (by decide) (by decide) }

/-- One write keeps the invariant of every section. -/
theorem Inv.apply {states : BlockStates} (h : c.Inv states.directBits) {op : ChunkOp}
    (hop : op.InRange states.directBits) : (op.apply states c).Inv states.directBits := by
  cases op with
  | setBlock x y z state =>
      rw [ChunkOp.apply, Chunk.setBlock]
      split
      · exact h.onSection _ fun s hs => hs.setBlock _ _ _ hop
      · exact h
  | setSectionBlock index x y z state =>
      exact h.onSectionMut index fun s hs => hs.setBlock x y z hop
  | fillBlocks index state => exact h.onSectionMut index fun s hs => hs.fillBlocks hop
  | writeBiomes index op => exact h.onSectionMut index fun s hs => hs.writeBiomes hop
  | shrinkSection index =>
      apply h.onSectionMut index
      intro s hs
      obtain ⟨s', hs', hinv⟩ := hs.shrink
      rw [hs']
      exact hinv
  | shrink => exact h.shrink

/-- A whole history keeps the invariant of every section. -/
theorem Inv.foldl {states : BlockStates} (h : c.Inv states.directBits) {ops : List ChunkOp}
    (hops : ∀ op ∈ ops, op.InRange states.directBits) :
    (ops.foldl (ChunkOp.apply states) c).Inv states.directBits := by
  induction ops generalizing c with
  | nil => exact h
  | cons op ops ih =>
      exact ih (h.apply (hops op List.mem_cons_self)) fun other hother =>
        hops other (List.mem_cons_of_mem op hother)

end Chunk

end Rukkit.World
