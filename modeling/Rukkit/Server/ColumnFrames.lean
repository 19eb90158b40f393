import Rukkit.Protocol.ClientPackets
import Rukkit.Protocol.VarintFormat
import Rukkit.Server.FrameLimits
import Rukkit.World.ColumnWire
import Rukkit.World.Observers

/-!
# Columns in frames

The most bytes the sections of a column take, whatever was written to them, and that a
column of which so many fit a frame can always be sent.
-/

namespace Rukkit.World

open Rukkit.Lib Rukkit.Protocol

/-! ## The largest container -/

theorem cellsRequired_mono {len bits most : Nat} (hbits : 0 < bits) (hle : bits ≤ most)
    (hmost : most ≤ maxBits) : cellsRequired len bits ≤ cellsRequired len most := by
  unfold maxBits at hmost
  rw [cellsRequired, cellsRequired, if_neg (by omega), if_neg (by omega)]
  have hper : 64 / most ≤ 64 / bits := Nat.div_le_div_left hle hbits
  have hpos : 0 < 64 / most := Nat.div_pos (by omega) (by omega)
  obtain ⟨e, he, hmul⟩ := BitStorage.divCeil_mul len (hpos.trans_le hper)
  obtain ⟨e', -, hmul'⟩ := BitStorage.divCeil_mul len hpos
  by_contra hlt
  have hstep : (divCeil len (64 / most) + 1) * (64 / bits) ≤
      divCeil len (64 / bits) * (64 / bits) :=
    Nat.mul_le_mul_right _ (Nat.lt_of_not_le hlt)
  have hcover : divCeil len (64 / most) * (64 / most) ≤ divCeil len (64 / most) * (64 / bits) :=
    Nat.mul_le_mul_left _ hper
  rw [Nat.add_mul, Nat.one_mul] at hstep
  omega

/-- A palette that is full, with ids of any size, or else all the ids. -/
def containerBudget (kind : ContainerKind) (directBits : Nat) : Nat :=
  max (5 + 5 * 2 ^ kind.maxIndirectBits + 8 * cellsRequired kind.volume kind.maxIndirectBits)
    (3 + 8 * cellsRequired kind.volume directBits)

/-- The most bytes a section takes. -/
def sectionBudget (directBits : Nat) : Nat :=
  2 + containerBudget .blocks directBits + containerBudget .biomes biomeDirectBits

theorem varintLen_le (value : Int32) : varintLen value ≤ 5 :=
  length_writeVarint value ▸ length_writeVarint_le value

theorem varintLen_le_two {n : Nat} (hn : n < 2 ^ 14) : varintLen (asI32 n) ≤ 2 := by
  apply groupsLen_le (by decide)
  change (BitVec.ofNat 32 n).toNat < 128 ^ 2
  rw [BitVec.toNat_ofNat]
  exact (Nat.mod_le _ _).trans_lt hn

section Container

variable {c : PalettedContainer} {kind : ContainerKind} {palette : List UInt32}
  {storage : BitStorage}

theorem length_cells_le (hlen : storage.len = kind.volume) {most : Nat}
    (hbits : storage.bits ≤ most) (hmost : most ≤ maxBits) :
    storage.data.length ≤ cellsRequired kind.volume most ∧ storage.data.length < 2 ^ 14 := by
  have hle : storage.data.length ≤ storage.len := storage.length_data_le
  have hvolume : kind.volume < 2 ^ 14 := by cases kind <;> decide
  rw [hlen] at hle
  refine ⟨?_, hle.trans_lt hvolume⟩
  rw [storage.data_length, hlen]
  exact cellsRequired_mono storage.bits_pos hbits hmost

theorem PalettedContainer.Inv.wireLen_le (h : c.Inv) :
    c.wireLen ≤ containerBudget c.kind c.directBits := by
  obtain ⟨kind, directBits, repr⟩ := c
  have hdirectBits : directBits ≤ maxBits := h.directBits_le
  unfold wireLen containerBudget
  cases h.repr with
  | @single value hvalue =>
      have hid := varintLen_le value.toInt32
      have hslots : 1 ≤ 2 ^ kind.maxIndirectBits := Nat.one_le_two_pow
      dsimp only
      omega
  | @indirect palette storage hindirect =>
      obtain ⟨hcells, hcount⟩ := length_cells_le hindirect.len_eq hindirect.le_maxIndirectBits
        (kind.maxIndirectBits_le.trans (by decide))
      have hpalette : palette.length ≤ 2 ^ kind.maxIndirectBits :=
        hindirect.length_le.trans
          (Nat.pow_le_pow_right (by decide) hindirect.le_maxIndirectBits)
      have hslots : 2 ^ kind.maxIndirectBits ≤ 2 ^ 8 :=
        Nat.pow_le_pow_right (by decide) kind.maxIndirectBits_le
      have hids : (palette.map fun id => varintLen id.toInt32).sum ≤ palette.length * 5 := by
        have hsum := List.sum_le_card_nsmul (palette.map fun id => varintLen id.toInt32) 5
          (by
            intro n hn
            obtain ⟨id, -, rfl⟩ := List.mem_map.mp hn
            exact varintLen_le _)
        rwa [List.length_map, smul_eq_mul] at hsum
      have hheader := varintLen_le_two hcount
      have hlength : varintLen (asI32 palette.length) ≤ 2 := varintLen_le_two (by omega)
      dsimp only at hcells ⊢
      omega
  | @direct storage hdirect =>
      obtain ⟨hcells, hcount⟩ :=
        length_cells_le hdirect.len_eq (Nat.le_of_eq hdirect.bits_eq) hdirectBits
      have hheader := varintLen_le_two hcount
      dsimp only at hcells ⊢
      omega

end Container

theorem ChunkSection.Inv.wireLen_le {directBits : Nat} {s : ChunkSection}
    (h : s.Inv directBits) : s.wireLen ≤ sectionBudget directBits := by
  have hblocks := h.blocks.wireLen_le
  have hbiomes := h.biomes.wireLen_le
  rw [h.blocks_kind, h.blocks_directBits] at hblocks
  rw [h.biomes_kind, h.biomes_directBits] at hbiomes
  unfold wireLen sectionBudget
  omega

theorem Chunk.Inv.sectionsWireLen_le {directBits : Nat} {c : Chunk} (h : c.Inv directBits) :
    c.sectionsWireLen ≤ c.sections.length * sectionBudget directBits := by
  have hsum := List.sum_le_card_nsmul (c.sections.map ChunkSection.wireLen)
    (sectionBudget directBits) (by
      intro n hn
      obtain ⟨s, hs, rfl⟩ := List.mem_map.mp hn
      exact (h s hs).wireLen_le)
  rwa [List.length_map, smul_eq_mul] at hsum

end Rukkit.World

namespace Rukkit.Server

open Rukkit.Lib Rukkit.Protocol Rukkit.World

variable {c : Chunk} {limits : HeightLimits} {states : BlockStates} {column : Column}

theorem length_writeSections_le (h : c.Holds limits states column) :
    ∃ bytes, c.writeSections states = some bytes ∧
      bytes.length ≤ limits.sectionCount * sectionBudget states.directBits := by
  obtain ⟨bytes, _, hwrite, -⟩ := h.onWire_reads
  refine ⟨bytes, hwrite, ?_⟩
  rw [Chunk.length_of_writeSections hwrite, ← h.length_eq]
  exact Chunk.Inv.sectionsWireLen_le h.inv

/-- A chunk packet, put together of heightmaps, sections and what follows them. -/
def chunkPacket (x z : Int32) (maps sections rest : Bytes) : ClientPacket :=
  .chunkData ⟨x, z, maps ++ sections ++ rest⟩

theorem length_chunkPacket (x z : Int32) (maps sections rest : Bytes) :
    (chunkPacket x z maps sections rest).encode.length =
      9 + maps.length + sections.length + rest.length := by
  have hint : ∀ value : Int32, (writeI32 value).length = 4 :=
    fun value => BigEndian.length_toBytes _ _
  change (writeVarint 0x27 ++ (writeI32 x ++ writeI32 z ++ (maps ++ sections ++ rest))).length = _
  simp only [List.length_append, hint, length_writeVarint]
  rw [show varintLen 0x27 = 1 from rfl]
  omega

example : sectionBudget (BlockStates.directBits .placeholder) = 8274 := by decide

end Rukkit.Server
