import Rukkit.Protocol.NbtRoundTrip
import Rukkit.World.ChunkDecoding
import Rukkit.World.ColumnHistory
import Rukkit.World.Generator

/-!
# Columns on the wire

The whole life of a column, from the generator through any writes and rescans to the bytes
a client is sent, and what the client reads there.
-/

namespace Rukkit.World

open Rukkit.Lib Rukkit.Protocol

/-! ## Generation as a history -/

theorem Outcome.state_of_completed {σ α : Type} {outcome : Outcome σ α} {s : σ}
    (h : outcome.completed = some s) : outcome.state = s := by
  cases outcome with
  | returned state value => exact Option.some.inj h
  | panicked state => cases h

namespace Chunk

variable {states : BlockStates} {index : Nat} {ops ops' : List ChunkOp} {s s' s'' : ChunkSection}

/-- The operations turn the section at `index` from one into the other and do nothing else. -/
def Rewrites (states : BlockStates) (index : Nat) (ops : List ChunkOp) (s s' : ChunkSection) :
    Prop :=
  ∀ c : Chunk, c.sections[index]? = some s →
    ops.foldl (ChunkOp.apply states) c = { c with sections := c.sections.set index s' }

theorem Rewrites.nil (s : ChunkSection) : Rewrites states index [] s s := by
  intro c hs
  obtain ⟨hlt, rfl⟩ := List.getElem?_eq_some_iff.mp hs
  rw [List.foldl_nil, List.set_getElem_self]

theorem Rewrites.append (h : Rewrites states index ops s s')
    (h' : Rewrites states index ops' s' s'') : Rewrites states index (ops ++ ops') s s'' := by
  intro c hs
  have hlt := (List.getElem?_eq_some_iff.mp hs).1
  rw [List.foldl_append, h c hs, h' _ (List.getElem?_set_self hlt), List.set_set]

theorem Rewrites.setSectionBlock {x y z : Nat} {state : UInt32}
    (h : (s.setBlock x y z state).completed = some s') :
    Rewrites states index [.setSectionBlock index x y z state] s s' := by
  intro c hs
  rw [List.foldl_cons, List.foldl_nil, ChunkOp.apply, onSectionMut_state, onSection_state hs,
    Outcome.state_of_completed h]

theorem Rewrites.fillBlocks (s : ChunkSection) (state : UInt32) :
    Rewrites states index [.fillBlocks index state] s (s.fillBlocks state) := by
  intro c hs
  rw [List.foldl_cons, List.foldl_nil, ChunkOp.apply, onSectionMut_state, onSection_state hs]
  rfl

end Chunk

namespace FlatGenerator

open Chunk

variable (g : FlatGenerator) (limits : HeightLimits) (states : BlockStates)

def layerOps (index localY : Nat) (state : UInt32) : List ChunkOp :=
  (List.range sectionSize).flatMap fun z =>
    (List.range sectionSize).flatMap fun x => [.setSectionBlock index x localY z state]

def sectionOps (index : Nat) : List ChunkOp :=
  let baseY := limits.minY + Int32.ofNat (index * sectionSize)
  let topY := baseY + Int32.ofNat sectionSize - 1
  let first := g.blockAt limits states baseY
  if (heightsInclusive baseY topY).all fun y => g.blockAt limits states y == first then
    [.fillBlocks index first]
  else (List.range sectionSize).flatMap fun localY =>
    let state := g.blockAt limits states (baseY + Int32.ofNat localY)
    if states.isAir state then [] else layerOps index localY state

/-- The writes the generator makes. -/
def ops : List ChunkOp := (List.range limits.sectionCount).flatMap (g.sectionOps limits states)

variable {g limits states} {s s' : ChunkSection} {c c' : Chunk} {index : Nat}

theorem placeLayer_rewrites {localY : Nat} {state : UInt32}
    (h : placeLayer s localY state = some s') :
    Rewrites states index (layerOps index localY state) s s' := by
  unfold placeLayer at h
  unfold layerOps
  refine Sweep.foldlM_trace (T := Rewrites states index) Rewrites.nil Rewrites.append ?_ h
  intro s z s' hrow
  refine Sweep.foldlM_trace (T := Rewrites states index) Rewrites.nil Rewrites.append ?_ hrow
  exact fun s x s' hblock => Rewrites.setSectionBlock hblock

theorem generateSection_rewrites (h : g.generateSection limits states s index = some s') :
    Rewrites states index (g.sectionOps limits states index) s s' := by
  unfold generateSection at h
  unfold sectionOps
  dsimp only at h ⊢
  split at h
  · rename_i huniform
    rw [if_pos huniform, ← Option.some.inj h]
    exact Rewrites.fillBlocks s _
  · rename_i hmixed
    rw [if_neg hmixed]
    refine Sweep.foldlM_trace (T := Rewrites states index) Rewrites.nil Rewrites.append ?_ h
    intro s localY s' hlayer
    unfold generateLayer at hlayer
    dsimp only at hlayer ⊢
    split at hlayer
    · rename_i hair
      rw [if_pos hair, ← Option.some.inj hlayer]
      exact Rewrites.nil s
    · rename_i hsolid
      rw [if_neg hsolid]
      exact placeLayer_rewrites hlayer

theorem placeSection_eq (h : g.placeSection limits states c index = some c') :
    (g.sectionOps limits states index).foldl (ChunkOp.apply states) c = c' := by
  simp only [placeSection, Option.bind_eq_bind, Option.bind_eq_some_iff, Option.pure_def,
    Option.some.injEq] at h
  obtain ⟨s, hs, s', hs', rfl⟩ := h
  exact generateSection_rewrites hs' c hs

/-- The generated chunk is an air-filled one after the generator's writes and a rescan. -/
theorem generate_eq_some (h : g.generate limits states = some c) :
    ∃ fresh, Chunk.empty limits states = some fresh ∧
      ((g.ops limits states).foldl (ChunkOp.apply states) fresh).recomputeHeightmaps states =
        some c := by
  simp only [generate, Option.bind_eq_bind, Option.bind_eq_some_iff] at h
  obtain ⟨fresh, hfresh, placed, hplaced, hrecompute⟩ := h
  refine ⟨fresh, hfresh, ?_⟩
  have hops : (g.ops limits states).foldl (ChunkOp.apply states) fresh = placed := by
    unfold ops
    refine Sweep.foldlM_trace (T := fun ops c c' => ops.foldl (ChunkOp.apply states) c = c')
      (fun _ => rfl) ?_ ?_ hplaced
    · intro ops ops' c c' c'' h h'
      rw [List.foldl_append, h, h']
    · exact fun c index c' h => placeSection_eq h
  rw [hops]
  exact hrecompute

theorem addressed_of_mem_ops (hids : ∀ id ∈ ids states, id.toNat < 2 ^ states.directBits)
    {op : ChunkOp} (hop : op ∈ g.ops limits states) : op.Addressed states.directBits := by
  have hblock : ∀ y, (g.blockAt limits states y).toNat < 2 ^ states.directBits :=
    fun y => hids _ (blockAt_mem y)
  obtain ⟨index, -, hop⟩ := List.mem_flatMap.mp hop
  unfold sectionOps at hop
  dsimp only at hop
  split at hop
  · obtain rfl := List.mem_singleton.mp hop
    exact hblock _
  · obtain ⟨localY, hlocal, hop⟩ := List.mem_flatMap.mp hop
    split at hop
    · cases hop
    · obtain ⟨z, hz, hop⟩ := List.mem_flatMap.mp hop
      obtain ⟨x, hx, hop⟩ := List.mem_flatMap.mp hop
      obtain rfl := List.mem_singleton.mp hop
      exact ⟨List.mem_range.mp hx, List.mem_range.mp hlocal, List.mem_range.mp hz, hblock _⟩

end FlatGenerator

/-- An empty world. -/
def VoidGenerator.generate (limits : HeightLimits) (states : BlockStates) : Option Chunk :=
  Chunk.empty limits states

def FlatGenerator.default : FlatGenerator where
  surfaceY := -60
  dirtDepth := 2

/-! ## The life of a column -/

/-- What a flat world stands for. -/
def flatColumn (g : FlatGenerator) (limits : HeightLimits) (states : BlockStates) : Column :=
  fun _ y _ => if limits.Within y then g.blockAt limits states y else states.air

/-- A column is made empty or by the generator, written to and scanned, in any order. -/
inductive Lives (limits : HeightLimits) (states : BlockStates) : Chunk → Column → Prop
  | empty {c : Chunk} : Chunk.empty limits states = some c →
      Lives limits states c fun _ _ _ => states.air
  | generated {c : Chunk} (g : FlatGenerator) : g.generate limits states = some c →
      Lives limits states c (flatColumn g limits states)
  | write {c : Chunk} {column : Column} {op : ChunkOp} : Lives limits states c column →
      op.Addressed states.directBits →
      Lives limits states (op.apply states c) (op.onColumn limits column)
  | recompute {c c' : Chunk} {column : Column} : Lives limits states c column →
      c.recomputeHeightmaps states = some c' → Lives limits states c' column

/-- The ids the generators lay fit the registry. -/
def BlockStates.Registered (states : BlockStates) : Prop :=
  ∀ id ∈ FlatGenerator.ids states, id.toNat < 2 ^ states.directBits

namespace Chunk

variable {c c' : Chunk} {limits : HeightLimits} {states : BlockStates} {column column' : Column}

theorem Holds.congr (h : Holds c limits states column)
    (hwithin : ∀ x y z, x < 16 → z < 16 → limits.Within y → column x y z = column' x y z)
    (houtside : ∀ x y z, ¬ limits.Within y → column' x y z = states.air) :
    Holds c limits states column' where
  limits_eq := h.limits_eq
  length_eq := h.length_eq
  inv := h.inv
  entry_eq := fun x y z hx hz hy => (h.entry_eq x y z hx hz hy).trans (hwithin x y z hx hz hy)
  outside_eq := houtside

/-- A rescan touches no block. -/
theorem Holds.recompute (h : Holds c limits states column)
    (hc' : c.recomputeHeightmaps states = some c') : Holds c' limits states column := by
  simp only [recomputeHeightmaps, Option.bind_eq_bind, Option.bind_eq_some_iff, Option.pure_def,
    Option.some.injEq] at hc'
  obtain ⟨scan, -, maps, -, rfl⟩ := hc'
  exact ⟨h.limits_eq, h.length_eq, h.inv, h.entry_eq, h.outside_eq⟩

theorem Holds.sized_recompute (h : Holds c limits states column)
    (hsized : c.heightmaps.Sized limits) (hc' : c.recomputeHeightmaps states = some c') :
    c'.heightmaps.Sized limits ∧
      c'.heightmaps.Shows fun i => UInt32.ofNat (c'.surface states i) := by
  have hformed := h.formed
  obtain rfl := h.limits_eq
  obtain ⟨maps, hrecompute, hsized', hshows, -⟩ := recompute_spec states hformed hsized
  obtain rfl := Option.some.inj (hc'.symm.trans hrecompute)
  exact ⟨hsized', hshows⟩

section Life

variable (hwhole : limits.height.toNat % 16 = 0) (hrep : limits.Representable)
  (hmax : limits.HasMaxY) (hids : states.Registered)

include hwhole hrep hmax hids

/-- The chunk before the generator scans it. -/
theorem holds_ops {fresh : Chunk} (g : FlatGenerator)
    (hfresh : Chunk.empty limits states = some fresh) :
    ∃ column, Holds ((g.ops limits states).foldl (ChunkOp.apply states) fresh) limits states
      column :=
  ⟨_, (Holds.empty hwhole (hids states.air List.mem_cons_self) hfresh).foldl hwhole hrep hmax
    fun _ hop => FlatGenerator.addressed_of_mem_ops hids hop⟩

theorem holds_generated {g : FlatGenerator} (hc : g.generate limits states = some c) :
    Holds c limits states (flatColumn g limits states) := by
  obtain ⟨fresh, hfresh, hrecompute⟩ := FlatGenerator.generate_eq_some hc
  obtain ⟨column, hlaid⟩ := holds_ops hwhole hrep hmax hids g hfresh
  have hheld := hlaid.recompute hrecompute
  obtain ⟨c', hc', -, -, hagrees⟩ := FlatGenerator.generate_spec g states hwhole hrep
  obtain rfl := Option.some.inj (hc.symm.trans hc')
  refine hheld.congr ?_ fun x y z hy => if_neg hy
  intro x y z hx hz hy
  have hblock := (hagrees hmax).within x y z hx hz hy
  rw [hheld.block_eq hrep hmax hwhole hx hz, Option.some.injEq] at hblock
  exact hblock.trans (if_pos hy).symm

theorem sized_generated {g : FlatGenerator} (hc : g.generate limits states = some c) :
    c.heightmaps.Sized limits := by
  obtain ⟨fresh, hfresh, hrecompute⟩ := FlatGenerator.generate_eq_some hc
  obtain ⟨column, hlaid⟩ := holds_ops hwhole hrep hmax hids g hfresh
  refine (hlaid.sized_recompute ?_ hrecompute).1
  rw [foldl_heightmaps]
  exact sized_empty hfresh

/-- The chunk and the column stay in step for life, and the heightmaps keep their size. -/
theorem holds_of_lives (h : Lives limits states c column) :
    Holds c limits states column ∧ c.heightmaps.Sized limits := by
  induction h with
  | empty hc => exact ⟨Holds.empty hwhole (hids states.air List.mem_cons_self) hc, sized_empty hc⟩
  | generated g hc =>
      exact ⟨holds_generated hwhole hrep hmax hids hc, sized_generated hwhole hrep hmax hids hc⟩
  | write _ hop ih =>
      refine ⟨ih.1.apply hwhole hrep hmax hop, ?_⟩
      rw [apply_heightmaps]
      exact ih.2
  | recompute _ hc' ih => exact ⟨ih.1.recompute hc', (ih.1.sized_recompute ih.2 hc').1⟩

end Life

end Chunk

/-! ## What a client reads -/

/-- The block at a position of the sections a client has read. -/
def clientBlock (limits : HeightLimits) (decoded : List WireSection) (x : Nat) (y : Int32)
    (z : Nat) : Option UInt32 :=
  decoded[limits.offset y / 16]?.bind fun w =>
    w.blocks[limits.offset y % 16 * 256 + z * 16 + x]?

/-- The positions of section `index` that the column fills. -/
def filled (limits : HeightLimits) (states : BlockStates) (column : Column) (index : Nat) : Nat :=
  (List.range 4096).countP fun i =>
    !states.isAir (column (i % 16) (FlatGenerator.entryHeight limits index i) (i / 16 % 16))

/-- `height` is one above the highest block of the column at `x` and `z` that is not air,
counted from the bottom of the world, or zero if all are air. -/
def SurfaceIn (limits : HeightLimits) (states : BlockStates) (column : Column)
    (x z height : Nat) : Prop :=
  (∃ y, limits.Within y ∧ column x y z ≠ states.air ∧
    (∀ y', limits.Within y' → y < y' → column x y' z = states.air) ∧
    (height : Int) = y.toInt - limits.minY.toInt + 1) ∨
  (∀ y, limits.Within y → column x y z = states.air) ∧ height = 0

section Client

variable {c c' : Chunk} {limits : HeightLimits} {states : BlockStates} {column : Column}

theorem Chunk.Holds.clientBlock_eq (h : c.Holds limits states column)
    (hwhole : limits.height.toNat % 16 = 0) {x z : Nat} {y : Int32} (hx : x < 16) (hz : z < 16)
    (hy : limits.Within y) :
    clientBlock limits (c.sections.map fun s => s.onWire states) x y z = some (column x y z) := by
  have hcovered := HeightLimits.section_lt hwhole hy
  rw [← h.length_eq] at hcovered
  have hs := List.getElem?_eq_getElem hcovered
  have hkind := (h.inv _ (List.getElem_mem hcovered)).blocks_kind
  have hvolume := PalettedContainer.volume_blocks hkind
  rw [clientBlock, List.getElem?_map, hs, Option.map_some, Option.bind_some,
    ← h.entry_eq x y z hx hz hy, Chunk.blockAt_eq hs, ChunkSection.onWire,
    PalettedContainer.entries, List.getElem?_map, List.getElem?_range (by omega)]
  rfl

theorem Chunk.Holds.nonAirCount_eq (h : c.Holds limits states column)
    (hrep : limits.Representable) {index : Nat} (hindex : index < limits.sectionCount) :
    ∃ w, (c.sections.map fun s => s.onWire states)[index]? = some w ∧
      w.nonAirCount.toInt = filled limits states column index := by
  have hcovered : index < c.sections.length := h.length_eq ▸ hindex
  have hs := List.getElem?_eq_getElem hcovered
  have hkind := (h.inv _ (List.getElem_mem hcovered)).blocks_kind
  have hvolume := PalettedContainer.volume_blocks hkind
  refine ⟨_, by rw [List.getElem?_map, hs]; rfl, ?_⟩
  have hcount : c.sections[index].blockStates.entries.countP (fun id => !states.isAir id) =
      filled limits states column index := by
    rw [PalettedContainer.entries, List.countP_map, hvolume, filled]
    apply List.countP_congr
    intro i hi
    have hi' := List.mem_range.mp hi
    rw [HeightLimits.sectionCount_eq] at hindex
    obtain ⟨y, hy, hoffset⟩ :=
      HeightLimits.exists_offset hrep (n := index * 16 + i / 256) (by omega)
    have hentry := FlatGenerator.entryHeight_eq hrep (x := i % 16) (z := i / 16 % 16)
      (Nat.mod_lt _ (by decide)) (Nat.mod_lt _ (by decide)) hy
    rw [hoffset, show (index * 16 + i / 256) / 16 = index by omega,
      show (index * 16 + i / 256) % 16 * 256 + i / 16 % 16 * 16 + i % 16 = i by omega] at hentry
    have hblock := h.entry_eq (i % 16) y (i / 16 % 16) (Nat.mod_lt _ (by decide))
      (Nat.mod_lt _ (by decide)) hy
    rw [hoffset, Chunk.blockAt_eq (s := c.sections[index]) (by
      rw [show (index * 16 + i / 256) / 16 = index by omega]; exact hs),
      show (index * 16 + i / 256) % 16 * 256 + i / 16 % 16 * 16 + i % 16 = i by omega] at hblock
    rw [hentry, ← hblock]
    rfl
  dsimp only [ChunkSection.onWire]
  rw [hcount]
  have hle : filled limits states column index ≤ 4096 := by
    have hlength := List.countP_le_length (p := fun i => !states.isAir
      (column (i % 16) (FlatGenerator.entryHeight limits index i) (i / 16 % 16)))
      (l := List.range 4096)
    rwa [List.length_range] at hlength
  exact Int16.toInt_ofNat_of_lt (by omega)

theorem Chunk.Holds.onWire_reads (h : c.Holds limits states column) :
    ∃ bytes r, c.writeSections states = some bytes ∧
      readSections states.directBits limits.sectionCount (PacketReader.new bytes) =
        .ok (c.sections.map fun s => s.onWire states) r ∧ r.remaining = 0 := by
  obtain ⟨bytes, hwrite, hread⟩ := Chunk.writeSections_reads h.inv
  obtain ⟨r, hok, hrest⟩ := hread (PacketReader.new bytes) [] (by simp)
  rw [h.length_eq] at hok
  refine ⟨bytes, r, hwrite, hok, ?_⟩
  rw [← r.length_peekRest, hrest]
  rfl

/-- At any time of its life a column's section bytes give a client exactly its blocks, with
the number of those that are not air in each section, and no byte is left over. -/
theorem column_on_wire (hwhole : limits.height.toNat % 16 = 0) (hrep : limits.Representable)
    (hmax : limits.HasMaxY) (hids : states.Registered) (h : Lives limits states c column) :
    ∃ bytes decoded r, c.writeSections states = some bytes ∧
      readSections states.directBits limits.sectionCount (PacketReader.new bytes) =
        .ok decoded r ∧ r.remaining = 0 ∧
      (∀ x y z, x < 16 → z < 16 → limits.Within y →
        clientBlock limits decoded x y z = some (column x y z)) ∧
      ∀ index < limits.sectionCount, ∃ w, decoded[index]? = some w ∧
        w.nonAirCount.toInt = filled limits states column index := by
  obtain ⟨hholds, -⟩ := Chunk.holds_of_lives hwhole hrep hmax hids h
  obtain ⟨bytes, r, hwrite, hread, hrest⟩ := hholds.onWire_reads
  refine ⟨bytes, _, r, hwrite, hread, hrest, ?_, ?_⟩
  · exact fun x y z hx hz hy => hholds.clientBlock_eq hwhole hx hz hy
  · exact fun index hindex => hholds.nonAirCount_eq hrep hindex

theorem BlockStates.registered_placeholder : Registered .placeholder := by
  have hids : (FlatGenerator.ids .placeholder).all
      (fun id => id.toNat < 2 ^ BlockStates.directBits .placeholder) = true := by decide
  intro id hid
  simpa using List.all_eq_true.mp hids id hid

/-- The placeholder world with one block set above the grass. -/
theorem lives_placed : ∃ c, FlatGenerator.generate ⟨-60, 2⟩ ⟨-64, 384⟩ .placeholder = some c ∧
    Lives ⟨-64, 384⟩ .placeholder ((ChunkOp.setBlock 3 70 5 9).apply .placeholder c)
      ((ChunkOp.setBlock 3 70 5 9).onColumn ⟨-64, 384⟩
        (flatColumn ⟨-60, 2⟩ ⟨-64, 384⟩ .placeholder)) := by
  have hrep : HeightLimits.Representable ⟨-64, 384⟩ := ⟨by decide, by decide⟩
  obtain ⟨c, hc, -⟩ := FlatGenerator.generate_spec ⟨-60, 2⟩ .placeholder (by decide) hrep
  exact ⟨c, hc, .write (.generated _ hc) ⟨by decide, by decide, by decide⟩⟩

theorem column_on_wire_placed :
    ∃ c bytes decoded r, FlatGenerator.generate ⟨-60, 2⟩ ⟨-64, 384⟩ .placeholder = some c ∧
      ((ChunkOp.setBlock 3 70 5 9).apply .placeholder c).writeSections .placeholder =
        some bytes ∧
      readSections (BlockStates.directBits .placeholder) 24 (PacketReader.new bytes) =
        .ok decoded r ∧ r.remaining = 0 ∧
      clientBlock ⟨-64, 384⟩ decoded 3 70 5 = some 9 ∧
      clientBlock ⟨-64, 384⟩ decoded 3 (-61) 5 = some 2 := by
  obtain ⟨c, hc, hlives⟩ := lives_placed
  obtain ⟨bytes, decoded, r, hwrite, hread, hrest, hblocks, -⟩ :=
    column_on_wire (by decide) ⟨by decide, by decide⟩ (.inl (by decide))
      BlockStates.registered_placeholder hlives
  refine ⟨c, bytes, decoded, r, hc, hwrite, hread, hrest, ?_, ?_⟩
  · exact hblocks 3 70 5 (by decide) (by decide) (by decide)
  · exact hblocks 3 (-61) 5 (by decide) (by decide) (by decide)

/-- The heightmaps a client unpacks from the compound it is sent. -/
def clientHeight (limits : HeightLimits) (tag : NbtTag) (name : String) (x z : Nat) :
    Option UInt32 :=
  match tag with
  | .compound entries =>
      match entries.lookup name with
      | some (.longArray longs) => do
          let storage ← BitStorage.fromData columns limits.heightmapBits (longs.map Int64.toBitVec)
          storage.get (z * 16 + x)
      | _ => none
  | _ => none

theorem BitStorage.length_data_le (s : BitStorage) : s.data.length ≤ s.len := by
  have hpos := s.bits_pos
  have hper : 64 / s.bits ≠ 0 := by
    have hle := s.bits_le
    unfold maxBits at hle
    rw [Nat.div_ne_zero_iff]
    omega
  rw [s.data_length, cellsRequired, if_neg (by omega), divCeil]
  have hdiv := Nat.div_add_mod s.len (64 / s.bits)
  have hle := Nat.le_mul_of_pos_left (s.len / (64 / s.bits)) (Nat.pos_of_ne_zero hper)
  split <;> omega

theorem longCells_toBitVec (storage : BitStorage) :
    (longCells storage).map Int64.toBitVec = storage.data := by
  rw [longCells, List.map_map]
  exact List.map_id _

namespace Heightmaps

variable {maps : Heightmaps}

theorem toNbt_eq (maps : Heightmaps) : maps.toNbt = .compound
    [("MOTION_BLOCKING", .longArray (longCells maps.motionBlocking)),
      ("WORLD_SURFACE", .longArray (longCells maps.worldSurface))] := by
  simp [toNbt, nbtInsert]

theorem forall_toNbt {p : NbtTag → Prop} (here : p maps.toNbt)
    (hmotion : p (.longArray (longCells maps.motionBlocking)))
    (hsurface : p (.longArray (longCells maps.worldSurface))) : maps.toNbt.All p := by
  refine .intro here ?_
  rw [toNbt_eq]
  intro child hchild
  rcases List.mem_cons.mp hchild with rfl | hchild
  · exact .leaf hmotion rfl
  · obtain rfl := List.mem_singleton.mp hchild
    exact .leaf hsurface rfl

theorem Sized.readNetwork_toNbt (hsized : maps.Sized limits) :
    ReadsAs readNetwork (writeNetwork maps.toNbt) maps.toNbt := by
  have hcells : ∀ storage : BitStorage, storage.len = columns →
      (longCells storage).length ≤ maxArrayLen := by
    intro storage hlen
    have hle := storage.length_data_le
    rw [hlen] at hle
    rw [longCells, List.length_map]
    exact hle.trans (by decide)
  have htyped : maps.toNbt.All NbtTag.LocallyTyped :=
    forall_toNbt (by rw [toNbt_eq]; exact (by decide :
      ["MOTION_BLOCKING", "WORLD_SURFACE"].Nodup)) trivial trivial
  have hlengths : maps.toNbt.All NbtTag.LocallySized :=
    forall_toNbt (by rw [toNbt_eq]; trivial) (hcells _ hsized.motionBlocking_len)
      (hcells _ hsized.worldSurface_len)
  have hfits : maps.toNbt.All NbtTag.LocallyFits := by
    refine forall_toNbt ?_ trivial trivial
    rw [toNbt_eq]
    intro entry hentry
    have hkeys : ∀ key ∈ ["MOTION_BLOCKING", "WORLD_SURFACE"], FitsPrefix key := by decide
    exact hkeys entry.1 (List.mem_map_of_mem hentry)
  have hdepth : maps.toNbt.depth ≤ maxDepth := by
    rw [toNbt_eq]
    exact (by decide : 1 ≤ maxDepth)
  have hread := readNetwork_reads hdepth htyped hlengths
  rwa [NbtTag.clip_of_fits htyped hfits] at hread

theorem Sized.clientHeight_eq (hsized : maps.Sized limits) (x z : Nat) :
    clientHeight limits maps.toNbt "MOTION_BLOCKING" x z =
        maps.motionBlocking.get (z * 16 + x) ∧
      clientHeight limits maps.toNbt "WORLD_SURFACE" x z =
        maps.worldSurface.get (z * 16 + x) := by
  rw [toNbt_eq]
  constructor
  · change (BitStorage.fromData columns limits.heightmapBits
      ((longCells maps.motionBlocking).map Int64.toBitVec)).bind _ = _
    rw [longCells_toBitVec, ← hsized.motionBlocking_len, ← hsized.motionBlocking_bits,
      BitStorage.fromData_data]
    rfl
  · change (BitStorage.fromData columns limits.heightmapBits
      ((longCells maps.worldSurface).map Int64.toBitVec)).bind _ = _
    rw [longCells_toBitVec, ← hsized.worldSurface_len, ← hsized.worldSurface_bits,
      BitStorage.fromData_data]
    rfl

end Heightmaps

/-- What a scan finds in the chunk is the surface of the column. -/
theorem Chunk.Holds.surfaceIn (h : c.Holds limits states column)
    (hwhole : limits.height.toNat % 16 = 0) (hrep : limits.Representable)
    (hmax : limits.HasMaxY) {x z height : Nat} (hx : x < 16) (hz : z < 16)
    (hsurface : c.SurfaceAt states x z height) : SurfaceIn limits states column x z height := by
  have hblock : ∀ y, c.block x y z states = some (column x y z) :=
    fun y => h.block_eq hrep hmax hwhole hx hz
  rw [Chunk.SurfaceAt, h.limits_eq] at hsurface
  rcases hsurface with ⟨y, id, hy, hid, hsolid, habove, hheight⟩ | ⟨hair, hzero⟩
  · rw [hblock, Option.some.injEq] at hid
    rw [← hid] at hsolid
    exact .inl ⟨y, hy, hsolid, fun y' hy' hlt =>
      Option.some.inj ((hblock y').symm.trans (habove y' hy' hlt)), hheight⟩
  · exact .inr ⟨fun y hy => Option.some.inj ((hblock y).symm.trans (hair y hy)), hzero⟩

/-- A rescan never fails, and the compound of its heightmaps gives a client the surface of
the column, in both maps. -/
theorem heightmaps_on_wire (hwhole : limits.height.toNat % 16 = 0) (hrep : limits.Representable)
    (hmax : limits.HasMaxY) (hids : states.Registered) (h : Lives limits states c column) :
    ∃ c' tag r, c.recomputeHeightmaps states = some c' ∧
      readNetwork (PacketReader.new (writeNetwork c'.heightmaps.toNbt)) = .ok tag r ∧
      r.remaining = 0 ∧
      ∀ x z, x < 16 → z < 16 → ∃ height,
        clientHeight limits tag "MOTION_BLOCKING" x z = some height ∧
        clientHeight limits tag "WORLD_SURFACE" x z = some height ∧
        SurfaceIn limits states column x z height.toNat := by
  obtain ⟨hholds, hsized⟩ := Chunk.holds_of_lives hwhole hrep hmax hids h
  have hlimits := hholds.limits_eq
  obtain ⟨maps, hrecompute, hsized', hshows, -⟩ :=
    Chunk.recompute_spec states hholds.formed (hlimits ▸ hsized)
  have hmaps : maps.Sized limits := hlimits ▸ hsized'
  obtain ⟨r, hread, hrest⟩ := hmaps.readNetwork_toNbt
    (PacketReader.new (writeNetwork maps.toNbt)) [] (by simp)
  refine ⟨_, maps.toNbt, r, hrecompute, hread, ?_, ?_⟩
  · rw [← r.length_peekRest, hrest]
    rfl
  · intro x z hx hz
    obtain ⟨height, hmotion, hsurface, hat⟩ := Chunk.shows_surfaceAt states (hlimits ▸ hrep)
      (hlimits ▸ hwhole) hholds.formed hsized' hshows hx hz
    obtain ⟨hmotion', hsurface'⟩ := hmaps.clientHeight_eq x z
    exact ⟨height, hmotion'.trans hmotion, hsurface'.trans hsurface,
      hholds.surfaceIn hwhole hrep hmax hx hz hat⟩

theorem heightmaps_on_wire_placed :
    ∃ c c' tag r, FlatGenerator.generate ⟨-60, 2⟩ ⟨-64, 384⟩ .placeholder = some c ∧
      ((ChunkOp.setBlock 3 70 5 9).apply .placeholder c).recomputeHeightmaps .placeholder =
        some c' ∧
      readNetwork (PacketReader.new (writeNetwork c'.heightmaps.toNbt)) = .ok tag r ∧
      r.remaining = 0 ∧
      ∃ height, clientHeight ⟨-64, 384⟩ tag "WORLD_SURFACE" 3 5 = some height ∧
        134 < height.toNat := by
  obtain ⟨c, hc, hlives⟩ := lives_placed
  obtain ⟨c', tag, r, hrecompute, hread, hrest, hheights⟩ :=
    heightmaps_on_wire (by decide) ⟨by decide, by decide⟩ (.inl (by decide))
      BlockStates.registered_placeholder hlives
  obtain ⟨height, -, hworld, hsurface⟩ := hheights 3 5 (by decide) (by decide)
  refine ⟨c, c', tag, r, hc, hrecompute, hread, hrest, height, hworld, ?_⟩
  rcases hsurface with ⟨y, -, -, habove, hheight⟩ | ⟨hair, -⟩
  · have hle : ¬ y < 70 := fun hlt => absurd (habove 70 (by decide) hlt) (by decide)
    rw [Int32.lt_iff_toInt_lt] at hle
    change ¬ y.toInt < 70 at hle
    change (height.toNat : Int) = y.toInt - -64 + 1 at hheight
    omega
  · exact absurd (hair 70 (by decide)) (by decide)

end Client

end Rukkit.World
