import Rukkit.Protocol.Reader
import Rukkit.World.Chunk

/-!
# Reading chunk sections back

The source only writes the section array.  The reader here is the specification
of its layout, from the number of sections, the container kinds and the direct
widths alone; the writer is then shown to be its inverse on every section stack
that a history of writes can produce.
-/

namespace Rukkit.World

open Rukkit.Lib Rukkit.Lib.Reading Rukkit.Protocol

/-! ## The reader -/

/-- Counts are VarInts that must not be negative. -/
def maxCount : Nat := 2 ^ 31 - 1

/-- Entry `index` of packed cells: from the low bits up, never straddling a cell. -/
def unpack (bits : Nat) (cells : List UInt64) (index : Nat) : Nat :=
  (cells.getD (index / (64 / bits)) 0).toNat / 2 ^ (index % (64 / bits) * bits) % 2 ^ bits

def readId : Reader UInt32 := do
  return (← readVarintValue).toUInt32

/-- The ids of one container, in index order. -/
def readContainer (kind : ContainerKind) (directBits : Nat) : Reader (List UInt32) := do
  let bits ← readU8
  if bits = 0 then
    let id ← readId
    let _ ← readLength 0
    return List.replicate kind.volume id
  else if bits.toNat ≤ kind.maxIndirectBits then
    let palette ← readArray maxCount readId
    let cells ← readArray maxCount readU64
    return (List.range kind.volume).map fun index =>
      palette.getD (unpack bits.toNat cells index) 0
  else
    let cells ← readArray maxCount readU64
    return (List.range kind.volume).map fun index => UInt32.ofNat (unpack directBits cells index)

/-- What the wire says about one section. -/
structure WireSection where
  nonAirCount : Int16
  blocks : List UInt32
  biomes : List UInt32

def readSection (directBits : Nat) : Reader WireSection := do
  return {
    nonAirCount := ← readI16
    blocks := ← readContainer .blocks directBits
    biomes := ← readContainer .biomes biomeDirectBits }

def readSections (directBits count : Nat) : Reader (List WireSection) :=
  replicateM (readSection directBits) count

/-! ## Cells and palettes -/

theorem readId_reads (id : UInt32) : ReadsAs readId (writeVarint id.toInt32) id := by
  have h := (readVarint_reads id.toInt32).bind_pure (f := fun v => v.toUInt32)
  exact h

theorem readArray_reads {α : Type} {m : Reader α} {enc : α → Bytes} {items : List α} {max : Nat}
    (hitems : ∀ item ∈ items, ReadsAs m (enc item) item) (hlength : items.length ≤ max)
    (hmax : max ≤ maxCount) :
    ReadsAs (readArray max m) (writeVarint (asI32 items.length) ++ items.flatMap enc) items := by
  apply Reads.bind (readLength_reads hlength _) (Reads.replicateM items hitems)
  unfold maxCount at hmax
  omega

/-- The cells of a storage, as 64-bit integers. -/
def cellsOf (storage : BitStorage) : List UInt64 := storage.data.map UInt64.ofBitVec

theorem writeCells_eq (storage : BitStorage) :
    writeCells storage = writeVarint (asI32 (cellsOf storage).length) ++
      (cellsOf storage).flatMap writeU64 := by
  rw [writeCells, cellsOf, List.length_map, List.flatMap_map]
  rfl

theorem length_cellsOf_le {storage : BitStorage} :
    (cellsOf storage).length ≤ maxCount := by
  have hlen := storage.len_lt
  rw [cellsOf, List.length_map, storage.data_length, cellsRequired,
    if_neg (by have := storage.bits_pos; omega), divCeil]
  have hdiv := Nat.div_le_self storage.len (64 / storage.bits)
  unfold maxCount
  split <;> omega

theorem readCells_reads (storage : BitStorage) :
    ReadsAs (readArray maxCount readU64) (writeCells storage) (cellsOf storage) := by
  rw [writeCells_eq]
  exact readArray_reads (fun cell _ => readU64_reads cell) length_cellsOf_le (Nat.le_refl _)

/-- Unpacking the written cells gives the entry of the storage. -/
theorem unpack_cellsOf {storage : BitStorage} (index : Nat) :
    unpack storage.bits (cellsOf storage) index = (storage.entry index).toNat := by
  have hlt := BitStorage.bits_lt (s := storage)
  have hcell : ((cellsOf storage).getD (index / (64 / storage.bits)) 0).toBitVec =
      Words.cellAt storage.data (index / (64 / storage.bits)) := by
    rw [cellsOf, Words.cellAt, List.getD_eq_getElem?_getD, List.getD_eq_getElem?_getD,
      List.getElem?_map]
    cases storage.data[index / (64 / storage.bits)]? <;> rfl
  have hentry := congrArg BitVec.toNat (BitStorage.toBitVec_entry (s := storage) index)
  have hsmall := BitStorage.toNat_entry_lt (s := storage) index
  have hpow : 2 ^ storage.bits ≤ 2 ^ 32 := Nat.pow_le_pow_right (by decide) storage.bits_le
  rw [BitVec.toNat_setWidth, UInt32.toNat_toBitVec, Nat.mod_eq_of_lt (by omega)] at hentry
  rw [hentry, Words.entry, Words.field, BitVec.toNat_and, Words.toNat_mask hlt,
    Nat.and_two_pow_sub_one_eq_mod, BitVec.toNat_ushiftRight, Nat.shiftRight_eq_div_pow, unpack,
    ← UInt64.toNat_toBitVec, hcell, storage.valuesPerLong_eq]

/-! ## Containers -/

namespace PalettedContainer

variable {c : PalettedContainer}

theorem readContainer_single {value : UInt32} (hrepr : c.repr = .single value) :
    ReadsAs (readContainer c.kind c.directBits) c.write c.entries := by
  have hentries : c.entries = List.replicate c.kind.volume value := by
    apply List.ext_getElem
    · simp [entries, volume]
    · intro i _ _
      simp [entries, entry, hrepr]
  have hcells : ReadsAs (readLength 0) (writeVarint 0) 0 :=
    readLength_reads (Nat.le_refl 0) (by decide)
  rw [write, hrepr, hentries]
  simp only [List.append_assoc]
  apply (readU8_reads 0).bind
  rw [if_pos rfl]
  apply (readId_reads value).bind
  exact hcells.bind_pure (f := fun _ => List.replicate c.kind.volume value)

theorem toNat_bits (storage : BitStorage) :
    (UInt8.ofNat storage.bits).toNat = storage.bits ∧ UInt8.ofNat storage.bits ≠ 0 := by
  have hlt := BitStorage.bits_lt (s := storage)
  have hpos := storage.bits_pos
  have htoNat : (UInt8.ofNat storage.bits).toNat = storage.bits := by
    rw [UInt8.toNat_ofNat']
    omega
  refine ⟨htoNat, ?_⟩
  intro hzero
  rw [hzero] at htoNat
  change 0 = storage.bits at htoNat
  omega

theorem readContainer_indirect {palette : List UInt32} {storage : BitStorage}
    (hrepr : c.repr = .indirect palette storage)
    (h : IndirectInv c.kind c.directBits palette storage) :
    ReadsAs (readContainer c.kind c.directBits) c.write c.entries := by
  obtain ⟨htoNat, hne⟩ := toNat_bits storage
  have hlength : palette.length ≤ maxCount := by
    have hle := h.length_le
    have hbits := h.le_maxIndirectBits.trans c.kind.maxIndirectBits_le
    have hpow : 2 ^ storage.bits ≤ 2 ^ 8 := Nat.pow_le_pow_right (by decide) hbits
    unfold maxCount
    omega
  have hentries : c.entries = (List.range c.kind.volume).map fun index =>
      palette.getD (unpack storage.bits (cellsOf storage) index) 0 := by
    apply List.map_congr_left
    intro index _
    rw [unpack_cellsOf, entry, hrepr]
  rw [write, hrepr, hentries]
  simp only [List.append_assoc]
  apply (readU8_reads _).bind
  rw [if_neg hne, htoNat, if_pos h.le_maxIndirectBits, ← List.append_assoc]
  apply (readArray_reads (fun id _ => readId_reads id) hlength (Nat.le_refl _)).bind
  exact (readCells_reads storage).bind_pure (f := fun cells =>
    (List.range c.kind.volume).map fun index => palette.getD (unpack storage.bits cells index) 0)

theorem readContainer_direct {storage : BitStorage} (hrepr : c.repr = .direct storage)
    (h : DirectInv c.kind c.directBits storage) :
    ReadsAs (readContainer c.kind c.directBits) c.write c.entries := by
  obtain ⟨htoNat, hne⟩ := toNat_bits storage
  have hwide := h.maxIndirectBits_lt
  rw [← h.bits_eq] at hwide
  have hentries : c.entries = (List.range c.kind.volume).map fun index =>
      UInt32.ofNat (unpack c.directBits (cellsOf storage) index) := by
    apply List.map_congr_left
    intro index _
    rw [← h.bits_eq, unpack_cellsOf, UInt32.ofNat_toNat, entry, hrepr]
  rw [write, hrepr, hentries]
  apply (readU8_reads _).bind
  rw [if_neg hne, htoNat, if_neg (by omega)]
  exact (readCells_reads storage).bind_pure (f := fun cells =>
    (List.range c.kind.volume).map fun index => UInt32.ofNat (unpack c.directBits cells index))

/-- The reader gets the ids back from every reachable representation. -/
theorem readContainer_reads (hc : c.Inv) :
    ReadsAs (readContainer c.kind c.directBits) c.write c.entries := by
  have hinv := hc.repr
  cases hrepr : c.repr with
  | single value => exact readContainer_single hrepr
  | indirect palette storage =>
      rw [hrepr] at hinv
      cases hinv with
      | indirect h => exact readContainer_indirect hrepr h
  | direct storage =>
      rw [hrepr] at hinv
      cases hinv with
      | direct h => exact readContainer_direct hrepr h

end PalettedContainer

/-! ## Sections -/

/-- What a section holds, in the form the wire carries it. -/
def ChunkSection.onWire (s : ChunkSection) (states : BlockStates) : WireSection :=
  { nonAirCount := Int16.ofNat (s.blockStates.entries.countP fun id => !states.isAir id)
    blocks := s.blockStates.entries
    biomes := s.biomes.entries }

theorem ChunkSection.write_reads {s : ChunkSection} {states : BlockStates}
    (h : s.Inv states.directBits) :
    ∃ bytes, s.write states = some bytes ∧
      ReadsAs (readSection states.directBits) bytes (s.onWire states) := by
  have hcount : s.nonAirCount states =
      some (UInt16.ofNat (s.blockStates.entries.countP fun id => !states.isAir id)) := by
    rw [nonAirCount, PalettedContainer.count_eq h.blocks.wellFormed]
    rfl
  refine ⟨_, by rw [ChunkSection.write, hcount]; rfl, ?_⟩
  have hblocks := PalettedContainer.readContainer_reads h.blocks
  have hbiomes := PalettedContainer.readContainer_reads h.biomes
  rw [h.blocks_kind, h.blocks_directBits] at hblocks
  rw [h.biomes_kind, h.biomes_directBits] at hbiomes
  rw [List.append_assoc]
  apply (readI16_reads _).bind
  apply hblocks.bind
  have hlast := hbiomes.bind_pure (f := fun biomes => { s.onWire states with biomes := biomes })
  exact hlast

theorem Chunk.writeSections_reads {c : Chunk} {states : BlockStates}
    (h : c.Inv states.directBits) :
    ∃ bytes, c.writeSections states = some bytes ∧
      ReadsAs (readSections states.directBits c.sections.length) bytes
        (c.sections.map fun s => s.onWire states) := by
  have hsections : ∀ sections : List ChunkSection, (∀ s ∈ sections, s.Inv states.directBits) →
      ∃ pieces, sections.mapM (fun s => s.write states) = some pieces ∧
        ReadsAs (readSections states.directBits sections.length) pieces.flatten
          (sections.map fun s => s.onWire states) := by
    intro sections
    induction sections with
    | nil => intro _; exact ⟨[], rfl, Reads.pure []⟩
    | cons s rest ih =>
        intro hall
        obtain ⟨bytes, hwrite, hread⟩ := ChunkSection.write_reads (hall s List.mem_cons_self)
        obtain ⟨pieces, hpieces, hreads⟩ := ih fun t ht => hall t (List.mem_cons_of_mem s ht)
        refine ⟨bytes :: pieces, ?_, ?_⟩
        · rw [List.mapM_cons, hwrite, hpieces]
          rfl
        · rw [List.flatten_cons]
          apply hread.bind
          exact hreads.bind_pure (f := fun rest => s.onWire states :: rest)
  obtain ⟨pieces, hpieces, hread⟩ := hsections c.sections h
  exact ⟨pieces.flatten, by rw [Chunk.writeSections, hpieces]; rfl, hread⟩

/-! ## The whole stack -/

/-- The wire section says what the section holds: its exact number of non-air
blocks and the id at every index of both containers. -/
structure WireSection.Describes (w : WireSection) (states : BlockStates) (s : ChunkSection) :
    Prop where
  nonAirCount : w.nonAirCount.toInt = (List.range s.blockStates.volume).countP fun index =>
    (s.blockStates.get index).any fun id => !states.isAir id
  block : ∀ index < ContainerKind.blocks.volume, s.blockStates.get index = w.blocks[index]?
  biome : ∀ index < ContainerKind.biomes.volume, s.biomes.get index = w.biomes[index]?

theorem ChunkSection.onWire_describes {s : ChunkSection} {states : BlockStates} {directBits : Nat}
    (h : s.Inv directBits) : (s.onWire states).Describes states s where
  nonAirCount := by
    have hcount : s.blockStates.entries.countP (fun id => !states.isAir id) =
        (List.range s.blockStates.volume).countP fun index =>
          (s.blockStates.get index).any fun id => !states.isAir id := by
      rw [PalettedContainer.entries, List.countP_map]
      apply List.countP_congr
      intro index hindex
      rw [PalettedContainer.get_eq h.blocks.wellFormed (List.mem_range.mp hindex)]
      rfl
    have hle := List.countP_le_length (p := fun index =>
      (s.blockStates.get index).any fun id => !states.isAir id)
      (l := List.range s.blockStates.volume)
    rw [List.length_range] at hle
    rw [onWire, hcount]
    apply Int16.toInt_ofNat_of_lt
    have hvolume := PalettedContainer.volume_blocks h.blocks_kind
    omega
  block := by
    intro index hindex
    have hvolume := PalettedContainer.volume_blocks h.blocks_kind
    change index < 4096 at hindex
    rw [PalettedContainer.get_eq h.blocks.wellFormed (by omega)]
    simp [onWire, PalettedContainer.entries, hvolume, hindex]
  biome := by
    intro index hindex
    have hvolume := PalettedContainer.volume_biomes h.biomes_kind
    change index < 64 at hindex
    rw [PalettedContainer.get_eq h.biomes.wellFormed (by omega)]
    simp [onWire, PalettedContainer.entries, hvolume, hindex]

/-- After any history of writes with ids in range, reading the section array gives
back every section, and nothing is left over. -/
theorem Chunk.sections_decodable (limits : HeightLimits) (states : BlockStates) (fresh : Chunk)
    (hfresh : Chunk.empty limits states = some fresh)
    (hair : states.air.toNat < 2 ^ states.directBits) (ops : List ChunkOp)
    (hops : ∀ op ∈ ops, op.InRange states.directBits) :
    ∃ bytes decoded r, (ops.foldl (ChunkOp.apply states) fresh).writeSections states = some bytes ∧
      readSections states.directBits (ops.foldl (ChunkOp.apply states) fresh).sections.length
        (PacketReader.new bytes) = .ok decoded r ∧
      r.remaining = 0 ∧
      List.Forall₂ (fun w s => WireSection.Describes w states s) decoded
        (ops.foldl (ChunkOp.apply states) fresh).sections := by
  have hinv := (Chunk.Inv.empty hair hfresh).foldl hops
  obtain ⟨bytes, hwrite, hread⟩ := Chunk.writeSections_reads hinv
  obtain ⟨r, hok, hrest⟩ := hread (PacketReader.new bytes) [] (by simp)
  refine ⟨bytes, _, r, hwrite, hok, ?_, ?_⟩
  · rw [← r.length_peekRest, hrest]
    rfl
  · rw [List.forall₂_map_left_iff]
    apply List.forall₂_same.mpr
    intro s hs
    exact ChunkSection.onWire_describes (hinv s hs)

theorem Chunk.sections_decodable_placeholder :
    ∃ fresh bytes decoded r, Chunk.empty { minY := -64, height := 32 } .placeholder = some fresh ∧
      ([ChunkOp.setBlock 3 (-60) 7 4, .fillBlocks 1 2, .writeBiomes 0 (.set 5 9), .shrink].foldl
        (ChunkOp.apply .placeholder) fresh).writeSections .placeholder = some bytes ∧
      readSections BlockStates.placeholder.directBits
        ([ChunkOp.setBlock 3 (-60) 7 4, .fillBlocks 1 2, .writeBiomes 0 (.set 5 9), .shrink].foldl
          (ChunkOp.apply .placeholder) fresh).sections.length (PacketReader.new bytes) =
        .ok decoded r ∧ r.remaining = 0 := by
  obtain ⟨fresh, hfresh⟩ := Option.isSome_iff_exists.mp
    (by decide +kernel : (Chunk.empty { minY := -64, height := 32 } .placeholder).isSome)
  have hbits : BlockStates.placeholder.directBits = 15 := by decide
  obtain ⟨bytes, decoded, r, hwrite, hread, hdone, -⟩ :=
    Chunk.sections_decodable { minY := -64, height := 32 } .placeholder fresh hfresh (by decide)
      [ChunkOp.setBlock 3 (-60) 7 4, .fillBlocks 1 2, .writeBiomes 0 (.set 5 9), .shrink]
      (by simp [ChunkOp.InRange, hbits])
  exact ⟨fresh, bytes, decoded, r, hfresh, hwrite, hread, hdone⟩

end Rukkit.World
