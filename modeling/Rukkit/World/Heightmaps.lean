import Rukkit.Lib.Sweep
import Rukkit.Protocol.Nbt
import Rukkit.World.ColumnHistory

/-!
# Heightmaps

The model of the heightmap half of `rukkit-world/src/chunk.rs`.  The scan runs from the top
down and ends as soon as no column is unresolved.
-/

namespace Rukkit.World

open Rukkit.Lib Rukkit.Protocol

/-- Heights by column; zero doubles as "not yet resolved". -/
structure Scan where
  heights : List UInt32
  unresolved : Nat

namespace Scan

def start : Scan where
  heights := List.replicate columns 0
  unresolved := columns

variable (states : BlockStates) (s : ChunkSection) (base : UInt32)

/-- One block of a layer.  The first block found scanning downward wins. -/
def visit (localY : Nat) (scan : Scan) (z x : Nat) : Option Scan := do
  let column := z * sectionSize + x
  let height ← scan.heights[column]?
  if height ≠ 0 then return scan
  let block ← s.block x localY z
  if states.isAir block then return scan
  return {
    heights := scan.heights.set column (base + UInt32.ofNat localY + 1)
    unresolved := scan.unresolved - 1 }

/-- The loops over the columns. -/
def layer (localY : Nat) (scan : Scan) : Option Scan :=
  (List.range sectionSize).foldlM (fun scan z =>
    (List.range sectionSize).foldlM (fun scan x => visit states s base localY scan z x) scan) scan

/-- The loop over the layers below `n`, from the top. -/
def layers : (n : Nat) → Scan → Option Scan
  | 0, scan => some scan
  | localY + 1, scan =>
      if scan.unresolved = 0 then some scan
      else do layers localY (← scan.layer states s base localY)

end Scan

/-- Write every height to both maps. -/
def Heightmaps.store (maps : Heightmaps) (heights : List UInt32) : Option Heightmaps :=
  heights.zipIdx.foldlM (fun maps (height, column) => do
    let (motionBlocking, _) ← maps.motionBlocking.set column height
    let (worldSurface, _) ← maps.worldSurface.set column height
    return { motionBlocking := motionBlocking, worldSurface := worldSurface }) maps

/-- The cells of a storage as NBT longs. -/
def longCells (storage : BitStorage) : List Int64 := storage.data.map Int64.ofBitVec

/-- Serializes to the NBT compound carried in chunk data. -/
def Heightmaps.toNbt (maps : Heightmaps) : NbtTag :=
  .compound (nbtInsert
    (nbtInsert [] "MOTION_BLOCKING" (.longArray (longCells maps.motionBlocking)))
    "WORLD_SURFACE" (.longArray (longCells maps.worldSurface)))

namespace Chunk

variable (c : Chunk) (states : BlockStates)

/-- The loop over the sections below `n`, from the top.  Empty sections are skipped. -/
def scanSections : (n : Nat) → Scan → Option Scan
  | 0, scan => some scan
  | index + 1, scan =>
      if scan.unresolved = 0 then some scan
      else do
        let s ← c.sections[index]?
        if ← s.isEmpty states then scanSections index scan
        else
          scanSections index
            (← scan.layers states s (UInt32.ofNat (index * sectionSize)) sectionSize)

/-- Recomputes both heightmaps from the current block data.  `none` is a panic; none is
reachable. -/
def recomputeHeightmaps : Option Chunk := do
  let scan ← c.scanSections states c.sections.length Scan.start
  return { c with heightmaps := ← c.heightmaps.store scan.heights }

end Chunk

/-! ## One layer -/

namespace Scan

variable {states : BlockStates} {s : ChunkSection} {base : UInt32} {f g : Nat → UInt32}

/-- The scan whose heights are those of `f`. -/
def ofHeights (f : Nat → UInt32) : Scan where
  heights := (List.range columns).map f
  unresolved := (List.range columns).countP fun column => f column = 0

theorem ofHeights_congr (h : ∀ column < columns, f column = g column) :
    ofHeights f = ofHeights g := by
  unfold ofHeights
  congr 1
  · apply List.map_congr_left
    intro column hcolumn
    exact h column (List.mem_range.mp hcolumn)
  · apply List.countP_congr
    intro column hcolumn
    rw [h column (List.mem_range.mp hcolumn)]

theorem start_eq : start = ofHeights fun _ => 0 := by
  simp only [start, ofHeights, List.map_const', List.length_range, decide_true, List.countP_true]

theorem unresolved_eq_zero (h : (ofHeights f).unresolved = 0) :
    ∀ column < columns, f column ≠ 0 := by
  intro column hcolumn
  have := List.countP_eq_zero.mp h column (List.mem_range.mpr hcolumn)
  simpa using this

theorem countP_update {n column : Nat} {value : UInt32} (hcolumn : column < n)
    (hzero : f column = 0) (hvalue : value ≠ 0) :
    (List.range n).countP (fun i => Function.update f column value i = 0) =
      (List.range n).countP (fun i => f i = 0) - 1 := by
  induction n with
  | zero => omega
  | succ n ih =>
      rw [List.range_succ, List.countP_append, List.countP_append, List.countP_singleton,
        List.countP_singleton]
      by_cases hlast : column = n
      · subst hlast
        have hbelow : (List.range column).countP (fun i => Function.update f column value i = 0) =
            (List.range column).countP fun i => f i = 0 := by
          apply List.countP_congr
          intro i hi
          rw [Function.update_of_ne (Nat.ne_of_lt (List.mem_range.mp hi))]
        simp [hbelow, hzero, hvalue]
      · have hfirst : 0 < (List.range n).countP fun i => f i = 0 :=
          List.countP_pos_iff.mpr ⟨column, List.mem_range.mpr (by omega), by simpa using hzero⟩
        rw [ih (by omega), Function.update_of_ne (Ne.symm hlast)]
        omega

/-- What a visit makes of a column. -/
def resolve (states : BlockStates) (s : ChunkSection) (base : UInt32) (localY column : Nat)
    (height : UInt32) : UInt32 :=
  if height ≠ 0 then height
  else if states.isAir (s.blockStates.entry (localY * 256 + column)) then 0
  else base + UInt32.ofNat localY + 1

theorem map_update {n column : Nat} {value : UInt32} :
    ((List.range n).map f).set column value =
      (List.range n).map (Function.update f column value) := by
  apply List.ext_getElem
  · simp
  · intro i _ _
    simp only [List.getElem_set, List.getElem_map, List.getElem_range, Function.update_apply]
    split <;> simp_all [eq_comm]

theorem visit_eq (hkind : s.blockStates.kind = .blocks) (h : s.blockStates.WellFormed)
    {localY x z : Nat} (hy : localY < 16) (hz : z < 16) (hx : x < 16)
    (hnonzero : base + UInt32.ofNat localY + 1 ≠ 0) :
    visit states s base localY (ofHeights f) z x =
      some (ofHeights (Function.update f (z * 16 + x)
        (resolve states s base localY (z * 16 + x) (f (z * 16 + x))))) := by
  have hcolumn : z * 16 + x < columns := by
    change z * 16 + x < 256
    omega
  have hheight : (ofHeights f).heights[z * sectionSize + x]? = some (f (z * 16 + x)) := by
    change ((List.range columns).map f)[z * 16 + x]? = _
    rw [List.getElem?_map, List.getElem?_range hcolumn]
    rfl
  have hblock := ChunkSection.block_eq hkind h hx hy hz
  rw [Nat.add_assoc] at hblock
  simp only [visit, hheight, hblock, Option.bind_eq_bind, Option.bind_some]
  by_cases hresolved : f (z * 16 + x) ≠ 0
  · rw [if_pos hresolved, resolve, if_pos hresolved, Function.update_eq_self]
    rfl
  · rw [if_neg hresolved, resolve, if_neg hresolved]
    simp only [ne_eq, not_not] at hresolved
    by_cases hair : states.isAir (s.blockStates.entry (localY * 256 + (z * 16 + x))) = true
    · rw [if_pos hair, if_pos hair, ← hresolved, Function.update_eq_self]
      rfl
    · rw [if_neg hair, if_neg hair, ofHeights, ofHeights, countP_update hcolumn hresolved hnonzero,
        ← map_update]
      rfl

section Layer

variable (hkind : s.blockStates.kind = .blocks) (h : s.blockStates.WellFormed) {localY : Nat}
  (hy : localY < 16) (hnonzero : base + UInt32.ofNat localY + 1 ≠ 0)

include hkind h hy hnonzero

/-- A layer visits every column once. -/
theorem layer_eq : layer states s base localY (ofHeights f) =
    some (ofHeights fun column => resolve states s base localY column (f column)) := by
  obtain ⟨scan, hscan, rfl⟩ : ∃ scan, layer states s base localY (ofHeights f) = some scan ∧
      scan = ofHeights fun column => if column / 16 < 16
        then resolve states s base localY column (f column) else f column := by
    apply Sweep.foldlM_grid (R := fun scan f => scan = ofHeights f) (by decide) _ rfl
    rintro _ f z x hz hx rfl
    exact ⟨_, visit_eq hkind h hy hz hx hnonzero, rfl⟩
  refine hscan.trans (congrArg some (ofHeights_congr ?_))
  intro column hcolumn
  change column < 256 at hcolumn
  rw [if_pos (by omega)]

end Layer

end Scan

/-! ## The scan of a column -/

namespace Chunk

variable {c : Chunk} (states : BlockStates)

/-- One above the highest block of a column that is not air, or zero. -/
def surface (c : Chunk) (states : BlockStates) (column : Nat) : Nat :=
  Nat.findGreatest
    (fun h => states.isAir (c.blockAt (column % 16) (h - 1) (column / 16)) = false)
    (16 * c.sections.length)

/-- What the scan has found of a column whose surface is `height`, at the layers from `k`
up. -/
def seen (height k : Nat) : UInt32 := if k < height then UInt32.ofNat height else 0

variable (c) in
theorem surface_le (column : Nat) : c.surface states column ≤ 16 * c.sections.length :=
  Nat.findGreatest_le _

theorem ofNat_ne_zero {height : Nat} (hpos : 0 < height) (hlt : height < 2 ^ 32) :
    UInt32.ofNat height ≠ 0 := by
  intro hzero
  have hvalue := congrArg UInt32.toNat hzero
  rw [UInt32.toNat_ofNat_of_lt' hlt, UInt32.toNat_zero] at hvalue
  omega

theorem seen_ne_zero {height k : Nat} (hlt : height < 2 ^ 32) :
    seen height k ≠ 0 ↔ k < height := by
  unfold seen
  split
  · rename_i hk
    exact iff_of_true (ofNat_ne_zero (by omega) hlt) hk
  · rename_i hk
    exact iff_of_false (by simp) hk

/-- Below the surface everything found stays. -/
theorem seen_of_ne_zero {height k k' : Nat} (hlt : height < 2 ^ 32) (hk : k' ≤ k)
    (hseen : seen height k ≠ 0) : seen height k' = seen height k := by
  have hheight := (seen_ne_zero hlt).mp hseen
  rw [seen, seen, if_pos hheight, if_pos (by omega)]

/-- The highest block is not air, and all above it are. -/
theorem surface_spec {column k : Nat} (hk : k < 16 * c.sections.length)
    (hbelow : c.surface states column ≤ k + 1) :
    c.surface states column = k + 1 ↔
      states.isAir (c.blockAt (column % 16) k (column / 16)) = false := by
  constructor
  · intro hheight
    exact Nat.findGreatest_of_ne_zero hheight (by omega)
  · intro hsolid
    have hle : k + 1 ≤ c.surface states column := Nat.le_findGreatest hk hsolid
    omega

theorem resolve_seen {s : ChunkSection} {i localY column : Nat}
    (hs : c.sections[i]? = some s) (hy : localY < 16)
    (hlt : 16 * c.sections.length < 2 ^ 32) :
    Scan.resolve states s (UInt32.ofNat (i * 16)) localY column
        (seen (c.surface states column) (16 * i + localY + 1)) =
      seen (c.surface states column) (16 * i + localY) := by
  have hindex := (List.getElem?_eq_some_iff.mp hs).1
  have hle := c.surface_le states column
  have hheight : c.surface states column < 2 ^ 32 := by omega
  unfold Scan.resolve
  by_cases hseen : seen (c.surface states column) (16 * i + localY + 1) ≠ 0
  · rw [if_pos hseen]
    exact (seen_of_ne_zero hheight (by omega) hseen).symm
  · rw [if_neg hseen]
    rw [seen_ne_zero hheight] at hseen
    have hspec : c.surface states column = 16 * i + localY + 1 ↔ _ :=
      surface_spec states (by omega) (by omega)
    rw [blockAt_eq (s := s) (by rw [show (16 * i + localY) / 16 = i by omega]; exact hs),
      show (16 * i + localY) % 16 * 256 + column / 16 * 16 + column % 16 =
        localY * 256 + column by omega] at hspec
    by_cases hair : states.isAir (s.blockStates.entry (localY * 256 + column)) = true
    · rw [if_pos hair, seen, if_neg]
      have hother : c.surface states column ≠ 16 * i + localY + 1 := by
        rw [ne_eq, hspec, hair]
        decide
      omega
    · rw [if_neg hair]
      rw [Bool.not_eq_true] at hair
      rw [hspec.mpr hair, seen, if_pos (by omega), UInt32.ofNat_add, UInt32.ofNat_add,
        Nat.mul_comm i]
      rfl

theorem layers_eq {s : ChunkSection} {i : Nat} (hformed : c.Formed)
    (hs : c.sections[i]? = some s) (hlt : 16 * c.sections.length < 2 ^ 32) :
    ∀ n ≤ 16, Scan.layers states s (UInt32.ofNat (i * 16)) n
        (.ofHeights fun column => seen (c.surface states column) (16 * i + n)) =
      some (.ofHeights fun column => seen (c.surface states column) (16 * i)) := by
  have hindex := (List.getElem?_eq_some_iff.mp hs).1
  have hmem := List.mem_of_getElem? hs
  intro n
  induction n with
  | zero => exact fun _ => rfl
  | succ n ih =>
      intro hn
      rw [Scan.layers]
      split
      · rename_i hdone
        refine congrArg some (Scan.ofHeights_congr ?_)
        intro column hcolumn
        have hle := c.surface_le states column
        exact (seen_of_ne_zero (by omega) (by omega)
          (Scan.unresolved_eq_zero hdone column hcolumn)).symm
      · have hnonzero : UInt32.ofNat (i * 16) + UInt32.ofNat n + 1 ≠ 0 := by
          have hne : UInt32.ofNat (i * 16 + n + 1) ≠ 0 := ofNat_ne_zero (by omega) (by omega)
          rwa [UInt32.ofNat_add, UInt32.ofNat_add] at hne
        rw [Scan.layer_eq (hformed.kind_eq s hmem) (hformed.wellFormed s hmem) (by omega) hnonzero,
          Option.bind_eq_bind, Option.bind_some]
        refine Eq.trans (congrArg _ (Scan.ofHeights_congr ?_)) (ih (by omega))
        intro column _
        exact resolve_seen states hs (by omega) hlt

/-- A section of nothing but air holds no surface. -/
theorem seen_skip {s : ChunkSection} {i column : Nat} (hs : c.sections[i]? = some s)
    (hair : ∀ j < 4096, states.isAir (s.blockStates.entry j) = true) (hcolumn : column < 256)
    (hlt : 16 * c.sections.length < 2 ^ 32) :
    seen (c.surface states column) (16 * (i + 1)) = seen (c.surface states column) (16 * i) := by
  have hindex := (List.getElem?_eq_some_iff.mp hs).1
  have hle := c.surface_le states column
  by_cases hseen : seen (c.surface states column) (16 * (i + 1)) ≠ 0
  · exact (seen_of_ne_zero (by omega) (by omega) hseen).symm
  · rw [seen_ne_zero (by omega)] at hseen
    have hbelow : ¬ 16 * i < c.surface states column := by
      intro habove
      have hsolid : states.isAir (c.blockAt (column % 16) (c.surface states column - 1)
          (column / 16)) = false := Nat.findGreatest_of_ne_zero rfl (by
        change c.surface states column ≠ 0
        omega)
      rw [blockAt_eq (s := s) (by
        rw [show (c.surface states column - 1) / 16 = i by omega]
        exact hs), hair _ (by omega)] at hsolid
      cases hsolid
    rw [seen, seen, if_neg hseen, if_neg hbelow]

theorem scanSections_eq (hformed : c.Formed) (hlt : 16 * c.sections.length < 2 ^ 32) :
    ∀ n ≤ c.sections.length, c.scanSections states n
        (.ofHeights fun column => seen (c.surface states column) (16 * n)) =
      some (.ofHeights fun column => seen (c.surface states column) 0) := by
  intro n
  induction n with
  | zero => exact fun _ => rfl
  | succ n ih =>
      intro hn
      rw [scanSections]
      split
      · rename_i hdone
        refine congrArg some (Scan.ofHeights_congr ?_)
        intro column hcolumn
        have hle := c.surface_le states column
        exact (seen_of_ne_zero (by omega) (by omega)
          (Scan.unresolved_eq_zero hdone column hcolumn)).symm
      · obtain ⟨s, hs⟩ : ∃ s, c.sections[n]? = some s := ⟨_, List.getElem?_eq_getElem hn⟩
        have hmem := List.mem_of_getElem? hs
        have hkind := hformed.kind_eq s hmem
        have hwell := hformed.wellFormed s hmem
        obtain ⟨empty, hempty, hair⟩ := ChunkSection.isEmpty_eq hkind hwell states
        simp only [hs, hempty, Option.bind_eq_bind, Option.bind_some]
        split
        · rename_i hskip
          refine Eq.trans (congrArg _ (Scan.ofHeights_congr ?_)) (ih (by omega))
          intro column hcolumn
          exact seen_skip states hs (hair hskip) hcolumn hlt
        · have hlayers := layers_eq states hformed hs hlt 16 (by omega)
          rw [Nat.mul_succ]
          change (Scan.layers states s (UInt32.ofNat (n * 16)) 16 _).bind _ = _
          rw [hlayers, Option.bind_some]
          exact ih (by omega)

variable (c) in
theorem start_eq : Scan.start =
    .ofHeights fun column => seen (c.surface states column) (16 * c.sections.length) := by
  rw [Scan.start_eq]
  apply Scan.ofHeights_congr
  intro column _
  rw [seen, if_neg (Nat.not_lt.mpr (c.surface_le states column))]

/-- The scan finds the surface of every column. -/
theorem scan_eq (hformed : c.Formed) (hlt : 16 * c.sections.length < 2 ^ 32) :
    ∃ scan, c.scanSections states c.sections.length Scan.start = some scan ∧
      scan.heights = (List.range columns).map fun column =>
        UInt32.ofNat (c.surface states column) := by
  rw [c.start_eq states, scanSections_eq states hformed hlt _ (Nat.le_refl _)]
  refine ⟨_, rfl, List.map_congr_left ?_⟩
  intro column _
  unfold seen
  split
  · rfl
  · rename_i hzero
    rw [Nat.eq_zero_of_not_pos hzero]
    rfl

end Chunk

/-! ## Storing the heights -/

theorem zipIdx_map_range (f : Nat → UInt32) (n : Nat) :
    ((List.range n).map f).zipIdx = (List.range n).map fun i => (f i, i) := by
  apply List.ext_getElem
  · simp
  · intro i _ _
    simp

namespace Heightmaps

variable {maps : Heightmaps} {f : Nat → UInt32}

/-- Both maps have an entry for every column, of the width that the height needs. -/
structure Sized (maps : Heightmaps) (limits : HeightLimits) : Prop where
  motionBlocking_len : maps.motionBlocking.len = columns
  motionBlocking_bits : maps.motionBlocking.bits = limits.heightmapBits
  worldSurface_len : maps.worldSurface.len = columns
  worldSurface_bits : maps.worldSurface.bits = limits.heightmapBits

/-- The loop over both maps is a loop over each. -/
theorem store_eq {n : Nat} {motionBlocking worldSurface : BitStorage}
    (hmotion : maps.motionBlocking.setEach ((List.range n).map fun i => (i, f i)) some =
      some motionBlocking)
    (hsurface : maps.worldSurface.setEach ((List.range n).map fun i => (i, f i)) some =
      some worldSurface) :
    maps.store ((List.range n).map f) = some ⟨motionBlocking, worldSurface⟩ := by
  rw [store, zipIdx_map_range]
  induction n generalizing motionBlocking worldSurface with
  | zero =>
      obtain rfl := Option.some.inj hmotion
      obtain rfl := Option.some.inj hsurface
      rfl
  | succ n ih =>
      rw [BitStorage.setEach_range_succ] at hmotion hsurface
      simp only [Option.bind_some, Option.bind_eq_some_iff, Option.map_eq_some_iff,
        Prod.exists] at hmotion hsurface
      obtain ⟨motion, hmotion, motion', _, hset, rfl⟩ := hmotion
      obtain ⟨surface, hsurface, surface', _, hset', rfl⟩ := hsurface
      rw [List.range_succ, List.map_append, List.foldlM_append, ih hmotion hsurface]
      simp [hset, hset']

/-- What both maps hold after every column was written. -/
def Shows (maps : Heightmaps) (f : Nat → UInt32) : Prop :=
  ∀ column < columns, maps.motionBlocking.entry column = f column ∧
    maps.worldSurface.entry column = f column

theorem store_spec {limits : HeightLimits} (hsized : maps.Sized limits)
    (hf : ∀ column < columns, (f column).toNat < 2 ^ limits.heightmapBits) :
    ∃ maps', maps.store ((List.range columns).map f) = some maps' ∧ maps'.Sized limits ∧
      maps'.Shows f := by
  obtain ⟨hlen, hbits, hlen', hbits'⟩ := hsized
  obtain ⟨motion, hmotion⟩ := Option.isSome_iff_exists.mp
    (BitStorage.setEach_isSome
      (Nat.le_of_eq hlen.symm) fun i hi => ⟨_, rfl, hbits ▸ hf i hi⟩)
  obtain ⟨surface, hsurface⟩ := Option.isSome_iff_exists.mp
    (BitStorage.setEach_isSome
      (Nat.le_of_eq hlen'.symm) fun i hi => ⟨_, rfl, hbits' ▸ hf i hi⟩)
  obtain ⟨hmlen, hmbits, -, hmentry⟩ := BitStorage.setEach_spec hmotion
  obtain ⟨hslen, hsbits, -, hsentry⟩ := BitStorage.setEach_spec hsurface
  refine ⟨_, store_eq hmotion hsurface, ⟨hmlen.trans hlen, hmbits.trans hbits,
    hslen.trans hlen', hsbits.trans hbits'⟩, ?_⟩
  intro column hcolumn
  obtain ⟨v, hv, -, hentry⟩ := hmentry column hcolumn
  obtain ⟨v', hv', -, hentry'⟩ := hsentry column hcolumn
  obtain rfl := Option.some.inj hv
  obtain rfl := Option.some.inj hv'
  exact ⟨hentry, hentry'⟩

theorem store_same {limits : HeightLimits} (hsized : maps.Sized limits) (hshows : maps.Shows f) :
    maps.store ((List.range columns).map f) = some maps :=
  store_eq
    (BitStorage.setEach_entries (Nat.le_of_eq hsized.motionBlocking_len.symm)
      fun i hi => (hshows i hi).1.symm)
    (BitStorage.setEach_entries (Nat.le_of_eq hsized.worldSurface_len.symm)
      fun i hi => (hshows i hi).2.symm)

end Heightmaps

namespace Chunk

variable {c : Chunk} (states : BlockStates)

theorem Formed.surface_le_height (h : c.Formed) (column : Nat) :
    c.surface states column ≤ c.limits.height.toNat := by
  have hle := c.surface_le states column
  rw [h.length_eq, HeightLimits.sectionCount_eq] at hle
  omega

theorem Formed.surface_fits (h : c.Formed) (column : Nat) :
    (UInt32.ofNat (c.surface states column)).toNat = c.surface states column ∧
      c.surface states column < 2 ^ c.limits.heightmapBits := by
  have hle := h.surface_le_height states column
  have hlt := c.limits.height.toNat_lt
  have hbits := (heightmapBits_le c.limits).2.2
  exact ⟨UInt32.toNat_ofNat_of_lt' (hle.trans_lt hlt), by omega⟩

/-- Recomputing stores the surface of every column and touches nothing else; once that is
stored it changes nothing. -/
theorem recompute_spec (hformed : c.Formed) (hsized : c.heightmaps.Sized c.limits) :
    ∃ maps, c.recomputeHeightmaps states = some { c with heightmaps := maps } ∧
      maps.Sized c.limits ∧
      maps.Shows (fun column => UInt32.ofNat (c.surface states column)) ∧
      recomputeHeightmaps { c with heightmaps := maps } states =
        some { c with heightmaps := maps } := by
  have hlt : 16 * c.sections.length < 2 ^ 32 := by
    have := c.limits.height.toNat_lt
    rw [hformed.length_eq, HeightLimits.sectionCount_eq]
    omega
  obtain ⟨scan, hscan, hheights⟩ := scan_eq states hformed hlt
  have hfits : ∀ column < columns,
      (UInt32.ofNat (c.surface states column)).toNat < 2 ^ c.limits.heightmapBits := by
    intro column _
    obtain ⟨hvalue, hfits⟩ := hformed.surface_fits states column
    rw [hvalue]
    exact hfits
  obtain ⟨maps, hstore, hsized', hshows⟩ := Heightmaps.store_spec hsized hfits
  refine ⟨maps, ?_, hsized', hshows, ?_⟩
  · simp only [recomputeHeightmaps, hscan, hheights, hstore, Option.bind_eq_bind,
      Option.bind_some]
    rfl
  · have hformed' : Formed { c with heightmaps := maps } :=
      ⟨hformed.length_eq, hformed.kind_eq, hformed.wellFormed⟩
    obtain ⟨scan', hscan', hheights'⟩ := scan_eq states hformed' hlt
    have hstored := Heightmaps.store_same hsized' hshows
    simp only [recomputeHeightmaps, hscan', Option.bind_eq_bind, Option.bind_some]
    rw [hheights']
    change (maps.store _).bind _ = _
    rw [show (fun column => UInt32.ofNat (surface { c with heightmaps := maps } states column)) =
      fun column => UInt32.ofNat (c.surface states column) from rfl, hstored]
    rfl

/-! ## The naive scan -/

/-- `height` is one above the highest block of the column that is not air, counted from the
bottom of the world, or zero if all of it is air. -/
def SurfaceAt (c : Chunk) (states : BlockStates) (x z height : Nat) : Prop :=
  (∃ y id, c.limits.Within y ∧ c.block x y z states = some id ∧ id ≠ states.air ∧
    (∀ y', c.limits.Within y' → y < y' → c.block x y' z states = some states.air) ∧
    (height : Int) = y.toInt - c.limits.minY.toInt + 1) ∨
  (∀ y, c.limits.Within y → c.block x y z states = some states.air) ∧ height = 0

theorem surfaceAt_surface (hrep : c.limits.Representable)
    (hwhole : c.limits.height.toNat % 16 = 0) (hformed : c.Formed) {x z : Nat} (hx : x < 16)
    (hz : z < 16) : c.SurfaceAt states x z (c.surface states (z * 16 + x)) := by
  have hcolumn : (z * 16 + x) % 16 = x ∧ (z * 16 + x) / 16 = z := by omega
  have hblock : ∀ y, c.limits.Within y →
      c.block x y z states = some (c.blockAt x (c.limits.offset y) z) := fun y hy =>
    block_eq hrep (HeightLimits.hasMaxY_of_within hy) hformed hy
      (HeightLimits.section_lt hwhole hy) hx hz
  have habove : ∀ y, c.limits.Within y →
      c.surface states (z * 16 + x) < c.limits.offset y + 1 →
      c.block x y z states = some states.air := by
    intro y hy hlt
    have hoffset := HeightLimits.offset_lt hy
    have hair := Nat.findGreatest_is_greatest hlt (by
      rw [hformed.length_eq, HeightLimits.sectionCount_eq]
      omega)
    rw [hcolumn.1, hcolumn.2, Nat.add_sub_cancel, Bool.not_eq_false, BlockStates.isAir,
      beq_iff_eq] at hair
    rw [hblock y hy, hair]
  by_cases hzero : c.surface states (z * 16 + x) = 0
  · refine .inr ⟨?_, hzero⟩
    intro y hy
    exact habove y hy (by omega)
  · have hle := hformed.surface_le_height states (z * 16 + x)
    obtain ⟨y, hy, hoffset⟩ := HeightLimits.exists_offset hrep
      (n := c.surface states (z * 16 + x) - 1) (by omega)
    have hsolid : states.isAir (c.blockAt ((z * 16 + x) % 16)
        (c.surface states (z * 16 + x) - 1) ((z * 16 + x) / 16)) = false :=
      Nat.findGreatest_of_ne_zero rfl hzero
    rw [hcolumn.1, hcolumn.2, ← hoffset, BlockStates.isAir, beq_eq_false_iff_ne] at hsolid
    refine .inl ⟨y, _, hy, hblock y hy, hsolid, ?_, ?_⟩
    · intro y' hy' hlt
      rw [Int32.lt_iff_toInt_lt] at hlt
      apply habove y' hy'
      have := hy.1
      unfold HeightLimits.offset at hoffset ⊢
      omega
    · have := hy.1
      unfold HeightLimits.offset at hoffset
      omega

theorem shows_surfaceAt (hrep : c.limits.Representable)
    (hwhole : c.limits.height.toNat % 16 = 0) (hformed : c.Formed) {maps : Heightmaps}
    (hsized : maps.Sized c.limits)
    (hshows : maps.Shows fun column => UInt32.ofNat (c.surface states column)) {x z : Nat}
    (hx : x < 16) (hz : z < 16) :
    ∃ height, maps.motionBlocking.get (z * 16 + x) = some height ∧
      maps.worldSurface.get (z * 16 + x) = some height ∧
      c.SurfaceAt states x z height.toNat := by
  have hcolumn : z * 16 + x < columns := by
    change z * 16 + x < 256
    omega
  have hvalue := (hformed.surface_fits states (z * 16 + x)).1
  have hmotion := BitStorage.get_eq (hcolumn.trans_eq hsized.motionBlocking_len.symm)
  have hsurface := BitStorage.get_eq (hcolumn.trans_eq hsized.worldSurface_len.symm)
  rw [(hshows _ hcolumn).1] at hmotion
  rw [(hshows _ hcolumn).2] at hsurface
  refine ⟨_, hmotion, hsurface, ?_⟩
  rw [hvalue]
  exact surfaceAt_surface states hrep hwhole hformed hx hz

/-- In a world of whole sections the scan that skips empty sections stores what a scan of
every block would, changes no block and is idempotent, and the maps unpack from NBT. -/
theorem recompute_equals_naive_scan (hrep : c.limits.Representable)
    (hwhole : c.limits.height.toNat % 16 = 0) (hformed : c.Formed)
    (hsized : c.heightmaps.Sized c.limits) :
    ∃ c', c.recomputeHeightmaps states = some c' ∧ c'.limits = c.limits ∧
      c'.sections = c.sections ∧
      (∀ x z, x < 16 → z < 16 → ∃ height,
        c'.heightmaps.motionBlocking.get (z * 16 + x) = some height ∧
        c'.heightmaps.worldSurface.get (z * 16 + x) = some height ∧
        c.SurfaceAt states x z height.toNat) ∧
      c'.recomputeHeightmaps states = some c' ∧
      ∃ motion surface, c'.heightmaps.toNbt = .compound
          [("MOTION_BLOCKING", .longArray motion), ("WORLD_SURFACE", .longArray surface)] ∧
        BitStorage.fromData columns c.limits.heightmapBits (motion.map Int64.toBitVec) =
          some c'.heightmaps.motionBlocking ∧
        BitStorage.fromData columns c.limits.heightmapBits (surface.map Int64.toBitVec) =
          some c'.heightmaps.worldSurface := by
  obtain ⟨maps, hrecompute, hsized', hshows, hagain⟩ := recompute_spec states hformed hsized
  have hcells : ∀ storage : BitStorage,
      (longCells storage).map Int64.toBitVec = storage.data := by
    intro storage
    rw [longCells, List.map_map]
    exact List.map_id _
  refine ⟨_, hrecompute, rfl, rfl, ?_, hagain, longCells maps.motionBlocking,
    longCells maps.worldSurface, by simp [Heightmaps.toNbt, nbtInsert], ?_, ?_⟩
  · intro x z hx hz
    exact shows_surfaceAt states hrep hwhole hformed hsized' hshows hx hz
  · rw [hcells, ← hsized'.motionBlocking_len, ← hsized'.motionBlocking_bits]
    exact maps.motionBlocking.fromData_data
  · rw [hcells, ← hsized'.worldSurface_len, ← hsized'.worldSurface_bits]
    exact maps.worldSurface.fromData_data

variable {states} in
theorem sized_empty {limits : HeightLimits} (h : Chunk.empty limits states = some c) :
    c.heightmaps.Sized limits := by
  simp only [Chunk.empty, Heightmaps.new, Option.bind_eq_bind, Option.bind_eq_some_iff,
    Option.pure_def, Option.some.injEq] at h
  obtain ⟨maps, ⟨motion, hmotion, surface, hsurface, rfl⟩, rfl⟩ := h
  obtain ⟨hlen, hbits, -⟩ := BitStorage.new_spec hmotion
  obtain ⟨hlen', hbits', -⟩ := BitStorage.new_spec hsurface
  exact ⟨hlen, hbits, hlen', hbits'⟩

/-- The height of a surface is told by the highest block. -/
theorem SurfaceAt.eq_of_highest {x z height : Nat} (h : c.SurfaceAt states x z height)
    {y : Int32} {id : UInt32} (hy : c.limits.Within y) (hblock : c.block x y z states = some id)
    (hsolid : id ≠ states.air) (habove : ∀ y', c.limits.Within y' → y < y' →
      c.block x y' z states = some states.air) :
    (height : Int) = y.toInt - c.limits.minY.toInt + 1 := by
  rcases h with ⟨top, id', htop, hblock', hsolid', habove', hheight⟩ | ⟨hair, -⟩
  · have hle : ¬ top < y := by
      intro hlt
      rw [habove' y hy hlt] at hblock
      exact hsolid (Option.some.inj hblock).symm
    have hge : ¬ y < top := by
      intro hlt
      rw [habove top htop hlt] at hblock'
      exact hsolid' (Option.some.inj hblock').symm
    rw [Int32.lt_iff_toInt_lt] at hle hge
    omega
  · rw [hair y hy] at hblock
    exact absurd (Option.some.inj hblock).symm hsolid

/-- A floor of stone and a block far above it, set since the heightmaps were made. -/
abbrev floorAndBlock : List ChunkOp := [.fillBlocks 0 1, .setBlock 3 70 5 9]

theorem floorAndBlock_above {y : Int32} {z : Nat} (hfloor : -49 < y) (hblock : y = 70 → z ≠ 5) :
    floorAndBlock.foldl (ChunkOp.onColumn ⟨-64, 384⟩) (fun _ _ _ => BlockStates.placeholder.air)
      3 y z = BlockStates.placeholder.air := by
  have hhigher : -49 < y.toInt := Int32.lt_iff_toInt_lt.mp hfloor
  have hsection : ¬ HeightLimits.offset ⟨-64, 384⟩ y / 16 = 0 := by
    change ¬ (y.toInt - -64).toNat / 16 = 0
    omega
  simp only [List.foldl_cons, List.foldl_nil, ChunkOp.onColumn]
  rw [if_neg fun h => hblock h.2.2.1 h.2.2.2, if_neg fun h => hsection h.2]

theorem recompute_floorAndBlock :
    ∃ c c', Chunk.empty ⟨-64, 384⟩ .placeholder = some c ∧
      (floorAndBlock.foldl (ChunkOp.apply .placeholder) c).recomputeHeightmaps .placeholder =
        some c' ∧
      c.heightmaps.motionBlocking.get (5 * 16 + 3) = some 0 ∧
      (∃ height, c'.heightmaps.motionBlocking.get (5 * 16 + 3) = some height ∧
        height.toNat = 135) ∧
      (∃ height, c'.heightmaps.worldSurface.get (4 * 16 + 3) = some height ∧
        height.toNat = 16) ∧
      c'.recomputeHeightmaps .placeholder = some c' := by
  obtain ⟨c, hc⟩ := exists_empty ⟨-64, 384⟩ .placeholder
  have hrep : HeightLimits.Representable ⟨-64, 384⟩ := ⟨by decide, by decide⟩
  have hmax : HeightLimits.HasMaxY ⟨-64, 384⟩ := .inl (by decide)
  have hops : ∀ op ∈ floorAndBlock, op.Addressed (BlockStates.directBits .placeholder) := by
    simp [ChunkOp.Addressed, ChunkOp.InRange]
    decide
  have hholds := (Holds.empty (by decide) (by decide) hc).foldl (by decide) hrep hmax hops
  have hsized := sized_empty hc
  rw [← @foldl_heightmaps .placeholder floorAndBlock c] at hsized
  generalize hwritten :
    floorAndBlock.foldl (ChunkOp.apply .placeholder) c = written at hholds hsized
  have hlimits := hholds.limits_eq
  have hblock : ∀ {x y z}, x < 16 → z < 16 → written.block x y z .placeholder = _ :=
    fun hx hz => hholds.block_eq hrep hmax (by decide) hx hz
  have habove : ∀ y, 70 < y →
      written.block 3 y 5 .placeholder = some BlockStates.placeholder.air := by
    intro y hlt
    rw [hblock (by decide) (by decide), floorAndBlock_above]
    · rw [Int32.lt_iff_toInt_lt] at hlt ⊢
      exact Int.lt_trans (by decide) hlt
    · rintro rfl
      exact absurd hlt (by decide)
  have haboveFloor : ∀ y, -49 < y →
      written.block 3 y 4 .placeholder = some BlockStates.placeholder.air := by
    intro y hlt
    rw [hblock (by decide) (by decide), floorAndBlock_above hlt fun _ => by decide]
  obtain ⟨c', hrecompute, -, -, hheights, hagain, -⟩ :=
    recompute_equals_naive_scan .placeholder (hlimits ▸ hrep) (hlimits ▸ by decide)
      hholds.formed (hlimits ▸ hsized)
  obtain ⟨high, hhigh, -, hhighAt⟩ := hheights 3 5 (by decide) (by decide)
  obtain ⟨low, -, hlow, hlowAt⟩ := hheights 3 4 (by decide) (by decide)
  refine ⟨c, c', hc, hwritten ▸ hrecompute, ?_, ⟨high, hhigh, ?_⟩, ⟨low, hlow, ?_⟩, hagain⟩
  · have hstale : (Chunk.empty ⟨-64, 384⟩ .placeholder).map
        (fun c => c.heightmaps.motionBlocking.get (5 * 16 + 3)) = some (some 0) := by
      decide +kernel
    rw [hc] at hstale
    exact Option.some.inj hstale
  · have hheight := hhighAt.eq_of_highest .placeholder (hlimits ▸ by decide)
      (hblock (by decide) (by decide)) (by decide) fun y _ => habove y
    rw [hlimits] at hheight
    change (high.toNat : Int) = 70 - -64 + 1 at hheight
    omega
  · have hheight := hlowAt.eq_of_highest .placeholder (hlimits ▸ by decide)
      (hblock (by decide) (by decide)) (by decide) fun y _ => haboveFloor y
    rw [hlimits] at hheight
    change (low.toNat : Int) = -49 - -64 + 1 at hheight
    omega

end Chunk

end Rukkit.World
