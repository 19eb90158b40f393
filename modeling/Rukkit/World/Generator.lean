import Rukkit.World.Observers

/-!
# Chunk generation

The model of the flat generator of `rukkit-world/src/generator.rs`.  The position of the
chunk is left out: no generator reads it.
-/

namespace Rukkit.World

open Rukkit.Lib

/-- The heights `lo..=hi`. -/
def heightsInclusive (lo hi : Int32) : List Int32 :=
  (List.range (hi.toInt - lo.toInt + 1).toNat).map fun n => lo + Int32.ofNat n

/-- The section a completed mutation leaves; a chunk that panics while it is generated is
dropped. -/
def Outcome.completed {σ α : Type} : Outcome σ α → Option σ
  | returned state _ => some state
  | panicked _ => none

/-- A superflat world: bedrock at the bottom, stone, then dirt and grass. -/
structure FlatGenerator where
  /-- Y of the topmost (grass) layer. -/
  surfaceY : Int32
  /-- How many dirt layers sit directly under the surface. -/
  dirtDepth : Int32
deriving DecidableEq, Repr

namespace FlatGenerator

variable (g : FlatGenerator) (limits : HeightLimits) (states : BlockStates)

/-- The block that belongs at absolute height `y`. -/
def blockAt (y : Int32) : UInt32 :=
  if y = limits.minY then states.bedrock
  else if y = g.surfaceY then states.grassBlock
  else if y < g.surfaceY ∧ g.surfaceY - g.dirtDepth ≤ y then states.dirt
  else if y < g.surfaceY then states.stone
  else states.air

/-- One layer of a section, block by block. -/
def placeLayer (s : ChunkSection) (localY : Nat) (state : UInt32) : Option ChunkSection :=
  (List.range sectionSize).foldlM (fun s z =>
    (List.range sectionSize).foldlM (fun s x => (s.setBlock x localY z state).completed) s) s

/-- One layer of a mixed section; air is there already. -/
def generateLayer (baseY : Int32) (s : ChunkSection) (localY : Nat) : Option ChunkSection :=
  let state := g.blockAt limits states (baseY + Int32.ofNat localY)
  if states.isAir state then some s else placeLayer s localY state

/-- One section.  If its whole range maps to one block it is filled in one step. -/
def generateSection (s : ChunkSection) (index : Nat) : Option ChunkSection :=
  let baseY := limits.minY + Int32.ofNat (index * sectionSize)
  let topY := baseY + Int32.ofNat sectionSize - 1
  let first := g.blockAt limits states baseY
  if (heightsInclusive baseY topY).all fun y => g.blockAt limits states y == first then
    some (s.fillBlocks first)
  else (List.range sectionSize).foldlM (g.generateLayer limits states baseY) s

def placeSection (c : Chunk) (index : Nat) : Option Chunk := do
  let s ← g.generateSection limits states (← c.sections[index]?) index
  return { c with sections := c.sections.set index s }

/-- The chunk, section by section. -/
def generate : Option Chunk := do
  let c ← Chunk.empty limits states
  let c ← (List.range limits.sectionCount).foldlM (g.placeSection limits states) c
  c.recomputeHeightmaps states

end FlatGenerator

/-! ## Containers that name few ids -/

namespace PalettedContainer

variable {c c' : PalettedContainer} {ids palette : List UInt32} {storage : BitStorage}
  {index slot : Nat} {value previous : UInt32}

/-- No id but those listed can be in the container. -/
def NamesOnly (c : PalettedContainer) (ids : List UInt32) : Prop :=
  match c.repr with
  | .single value => value ∈ ids
  | .indirect palette _ => ∀ id ∈ palette, id ∈ ids
  | .direct _ => False

theorem storeSlot_returned (h : c.storeSlot palette storage index slot = .returned c' previous) :
    ∃ storage', c' = c.withRepr (.indirect palette storage') := by
  unfold storeSlot at h
  split at h
  · cases h
  · split at h
    · cases h
    · cases h
      exact ⟨_, rfl⟩

theorem promote_returned {existing : UInt32}
    (h : c.promote existing index value = .returned c' previous) :
    ∃ storage', c' = c.withRepr (.indirect [existing, value] storage') := by
  unfold promote at h
  split at h
  · cases h
  · split at h
    · cases h
    · cases h
      exact ⟨_, rfl⟩

/-- A palette that knows the id or has room for it gains no other. -/
theorem set_eq_storeSlot (hrepr : c.repr = .indirect palette storage) (hindex : index < c.volume)
    (hroom : value ∈ palette ∨ palette.length < 2 ^ storage.bits) :
    ∃ palette' slot, c.set index value = c.storeSlot palette' storage index slot ∧
      ∀ id ∈ palette', id ∈ palette ∨ id = value := by
  rw [set, if_pos hindex, hrepr]
  cases hslot : palette.idxOf? value with
  | some slot => exact ⟨palette, slot, by simp only [hslot], fun id hid => .inl hid⟩
  | none =>
      have hshort := hroom.resolve_left (List.idxOf?_eq_none_iff.mp hslot)
      refine ⟨palette ++ [value], palette.length, by simp only [hslot, if_pos hshort], ?_⟩
      intro id hid
      simpa using hid

/-- What a container of blocks is that holds few ids. -/
structure Few (c : PalettedContainer) (ids : List UInt32) : Prop where
  kind_eq : c.kind = .blocks
  sound : c.Sound
  names : c.NamesOnly ids

theorem WritesSlot.few (h : c.WritesSlot maxBits (c.set index value) index value)
    (hkind : c.kind = .blocks)
    (hnames : ∀ palette storage previous,
      c.set index value = .returned (c.withRepr (.indirect palette storage)) previous →
      ∀ id ∈ palette, id ∈ ids) :
    ∃ c', c.set index value = .returned c' (c.entry index) ∧ c'.Few ids ∧
      ∀ other < c.volume, c'.entry other = if other = index then value else c.entry other := by
  obtain ⟨palette, storage, hset, hinv, hentry⟩ := h
  exact ⟨_, hset, ⟨hkind, .indirect hinv, hnames _ _ _ hset⟩, hentry⟩

theorem palette_eq_of_withRepr {palette' : List UInt32} {storage' : BitStorage}
    (h : c.withRepr (.indirect palette storage) = c.withRepr (.indirect palette' storage')) :
    palette = palette' := by
  injection h with _ _ hrepr
  injection hrepr

/-- Slots of four bits are enough for sixteen ids. -/
theorem room_of_few {idBits : Nat} (hinv : IndirectInv .blocks idBits palette storage)
    (hfew : ids.length ≤ 16) (hlisted : ∀ id ∈ palette, id ∈ ids) (hvalue : value ∈ ids) :
    value ∈ palette ∨ palette.length < 2 ^ storage.bits := by
  by_cases hnew : value ∈ palette
  · exact .inl hnew
  · right
    have hsub : palette ++ [value] ⊆ ids := by
      intro id hid
      rcases List.mem_append.mp hid with hid | hid
      · exact hlisted id hid
      · rw [List.mem_singleton.mp hid]
        exact hvalue
    have hlength := (List.subperm_of_subset (nodup_push hinv.nodup hnew) hsub).length_le
    have hpow : 2 ^ 4 ≤ 2 ^ storage.bits :=
      Nat.pow_le_pow_right (by decide) hinv.minIndirectBits_le
    rw [List.length_append, List.length_singleton] at hlength
    omega

/-- With at most sixteen ids to choose from a palette of blocks never overflows, so a write
completes whatever the ids are. -/
theorem Few.set (h : c.Few ids) (hfew : ids.length ≤ 16) (hindex : index < c.volume)
    (hvalue : value ∈ ids) :
    ∃ c', c.set index value = .returned c' (c.entry index) ∧ c'.Few ids ∧
      ∀ other < c.volume, c'.entry other = if other = index then value else c.entry other := by
  obtain ⟨hkind, hsound, hnames⟩ := h
  have hinv := hsound
  have hlisted := hnames
  rw [Sound] at hinv
  rw [NamesOnly] at hlisted
  cases hrepr : c.repr with
  | single existing =>
      rw [hrepr] at hlisted
      by_cases hsame : existing = value
      · subst hsame
        refine ⟨c, set_single_same hrepr hindex, ⟨hkind, hsound, hnames⟩, ?_⟩
        intro other _
        rw [entry_single hrepr, ite_self]
      · have hset := set_single_other hrepr hindex hsame
        have hspec := promote_spec hrepr hindex hsame (toNat_lt_maxBits _) (toNat_lt_maxBits _)
        rw [← hset] at hspec
        apply hspec.few hkind
        intro palette storage previous hreturned id hid
        rw [hset] at hreturned
        obtain ⟨storage', hpromoted⟩ := promote_returned hreturned
        rw [palette_eq_of_withRepr hpromoted] at hid
        rcases List.mem_pair.mp hid with rfl | rfl
        · exact hlisted
        · exact hvalue
  | indirect palette storage =>
      rw [hrepr] at hinv hlisted
      cases hinv with
      | indirect hinv =>
          have hroom := room_of_few (hkind ▸ hinv) hfew hlisted hvalue
          have hspec := set_indirect_spec hrepr hinv hindex (toNat_lt_maxBits value)
            (hroom.imp_right Or.inl)
          obtain ⟨palette', slot, hset, hgained⟩ := set_eq_storeSlot hrepr hindex hroom
          apply hspec.few hkind
          intro stored storage' previous hreturned id hid
          rw [hset] at hreturned
          obtain ⟨storage'', hstored⟩ := storeSlot_returned hreturned
          rw [palette_eq_of_withRepr hstored] at hid
          rcases hgained id hid with hid | rfl
          · exact hlisted id hid
          · exact hvalue
  | direct storage =>
      rw [hrepr] at hlisted
      exact hlisted.elim

end PalettedContainer

/-! ## Sections -/

namespace ChunkSection

variable {s : ChunkSection} {ids : List UInt32} {e : Nat → UInt32} {state : UInt32}

/-- The section holds the blocks of `e`, all of them among `ids`. -/
structure Laid (s : ChunkSection) (ids : List UInt32) (e : Nat → UInt32) : Prop where
  few : s.blockStates.Few ids
  entry_eq : ∀ i < 4096, s.blockStates.entry i = e i

theorem Laid.congr {e' : Nat → UInt32} (h : s.Laid ids e) (he : ∀ i < 4096, e i = e' i) :
    s.Laid ids e' :=
  ⟨h.few, fun i hi => (h.entry_eq i hi).trans (he i hi)⟩

theorem Laid.setBlock (h : s.Laid ids e) (hfew : ids.length ≤ 16) {x y z : Nat} (hx : x < 16)
    (hy : y < 16) (hz : z < 16) (hstate : state ∈ ids) :
    ∃ s', (s.setBlock x y z state).completed = some s' ∧
      s'.Laid ids (Function.update e (y * 256 + z * 16 + x) state) := by
  obtain ⟨blocks, hset, hblocks, hentry⟩ :=
    h.few.set hfew (sectionIndex_lt h.few.kind_eq hx hy hz) hstate
  refine ⟨{ s with blockStates := blocks }, by rw [ChunkSection.setBlock, hset]; rfl, hblocks, ?_⟩
  intro i hi
  have hvolume := PalettedContainer.volume_blocks h.few.kind_eq
  rw [hentry i (by omega), sectionIndex_eq hx hy hz, h.entry_eq i hi, Function.update_apply]

theorem Laid.placeLayer (h : s.Laid ids e) (hfew : ids.length ≤ 16) {localY : Nat}
    (hy : localY < 16) (hstate : state ∈ ids) :
    ∃ s', FlatGenerator.placeLayer s localY state = some s' ∧
      s'.Laid ids fun i => if i / 256 = localY then state else e i := by
  -- the layer as a grid of columns, of which the loops visit each once
  let layer (f : Nat → UInt32) (i : Nat) := if i / 256 = localY then f (i % 256) else e i
  have hgrid := Sweep.foldlM_grid (g := fun _ _ => state)
    (R := fun (s : ChunkSection) f => s.Laid ids (layer f)) (by decide : 0 < sectionSize)
    (by
      intro s f z x hz hx hs
      obtain ⟨s', hs', hlaid⟩ := hs.setBlock hfew hx hy hz hstate
      refine ⟨s', hs', hlaid.congr ?_⟩
      intro i hi
      change z < 16 at hz
      change x < 16 at hx
      change _ = layer (Function.update f (z * 16 + x) state) i
      simp only [layer, Function.update_apply]
      by_cases hlayer : i / 256 = localY
      · have hsame : i = localY * 256 + z * 16 + x ↔ i % 256 = z * 16 + x := by omega
        simp only [hlayer, if_true, hsame]
      · rw [if_neg (by omega)]
        simp only [if_neg hlayer])
    (s := s) (f := fun column => e (localY * 256 + column)) (by
      apply h.congr
      intro i hi
      simp only [layer]
      split
      · exact congrArg e (by omega)
      · rfl)
  obtain ⟨s', hs', hlaid⟩ := hgrid
  refine ⟨s', hs', hlaid.congr ?_⟩
  intro i hi
  change layer (fun column => if column / 16 < 16 then state else _) i = _
  simp only [layer]
  split
  · rw [if_pos (by omega)]
  · rfl

end ChunkSection

namespace FlatGenerator

variable {g : FlatGenerator} {limits : HeightLimits} {states : BlockStates}

/-- The ids a flat world is made of. -/
def ids (states : BlockStates) : List UInt32 :=
  [states.air, states.stone, states.dirt, states.grassBlock, states.bedrock]

theorem blockAt_mem (y : Int32) : g.blockAt limits states y ∈ ids states := by
  unfold blockAt ids
  split_ifs <;> simp

/-- The height of entry `i` of section `index`. -/
def entryHeight (limits : HeightLimits) (index i : Nat) : Int32 :=
  limits.minY + Int32.ofNat (index * 16) + Int32.ofNat (i / 256)

theorem toInt_baseY (hrep : limits.Representable) {index : Nat}
    (hindex : index < limits.sectionCount) :
    (limits.minY + Int32.ofNat (index * 16)).toInt = limits.minY.toInt + (index * 16 : Nat) := by
  have hend := hrep.end_lt
  have hheight := hrep.height_lt
  have hlow := limits.minY.le_toInt
  rw [HeightLimits.sectionCount_eq] at hindex
  rw [Int32.toInt_add, Int32.toInt_ofNat_of_lt (by omega), Int.bmod_eq_of_le (by omega) (by omega)]

theorem heightsInclusive_section (hrep : limits.Representable) {index : Nat}
    (hindex : index < limits.sectionCount) :
    heightsInclusive (limits.minY + Int32.ofNat (index * 16))
        (limits.minY + Int32.ofNat (index * 16) + Int32.ofNat 16 - 1) =
      (List.range 16).map fun n => limits.minY + Int32.ofNat (index * 16) + Int32.ofNat n := by
  have hbase := toInt_baseY hrep hindex
  have hend := hrep.end_lt
  have hlow := limits.minY.le_toInt
  rw [HeightLimits.sectionCount_eq] at hindex
  have htop : (limits.minY + Int32.ofNat (index * 16) + Int32.ofNat 16 - 1).toInt =
      limits.minY.toInt + (index * 16 : Nat) + 15 := by
    have hsixteen : (Int32.ofNat 16).toInt = 16 := rfl
    have hone : (1 : Int32).toInt = 1 := rfl
    rw [Int32.toInt_sub, Int32.toInt_add, hbase, hsixteen, hone,
      Int.bmod_eq_of_le (n := limits.minY.toInt + _ + 16) (by omega) (by omega),
      Int.bmod_eq_of_le (by omega) (by omega)]
    omega
  rw [heightsInclusive, htop, hbase, show limits.minY.toInt + (index * 16 : Nat) + 15 -
    (limits.minY.toInt + (index * 16 : Nat)) + 1 = 16 by omega]
  rfl

theorem laid_single {s : ChunkSection} {state : UInt32} (hkind : s.blockStates.kind = .blocks)
    (hrepr : s.blockStates.repr = .single state) (hstate : state ∈ ids states) :
    s.Laid (ids states) fun _ => state where
  few := by
    refine ⟨hkind, ?_, ?_⟩
    · rw [PalettedContainer.Sound, hrepr]
      exact .single state
    · rw [PalettedContainer.NamesOnly, hrepr]
      exact hstate
  entry_eq := fun i _ => PalettedContainer.entry_single hrepr i

/-- The blocks of the layers below `n`, and air above. -/
def layersBelow (g : FlatGenerator) (limits : HeightLimits) (states : BlockStates)
    (index n i : Nat) : UInt32 :=
  if i / 256 < n then g.blockAt limits states (entryHeight limits index i) else states.air

theorem generateLayer_spec {s : ChunkSection} {index localY : Nat} (hy : localY < 16)
    (hs : s.Laid (ids states) (g.layersBelow limits states index localY)) :
    ∃ s', g.generateLayer limits states (limits.minY + Int32.ofNat (index * 16)) s localY =
        some s' ∧
      s'.Laid (ids states) (g.layersBelow limits states index (localY + 1)) := by
  have hheight : ∀ i, i / 256 = localY → entryHeight limits index i =
      limits.minY + Int32.ofNat (index * 16) + Int32.ofNat localY := by
    rintro i rfl
    rfl
  by_cases hskip : states.isAir (g.blockAt limits states
      (limits.minY + Int32.ofNat (index * 16) + Int32.ofNat localY)) = true
  · refine ⟨s, if_pos hskip, hs.congr ?_⟩
    intro i hi
    rw [BlockStates.isAir, beq_iff_eq] at hskip
    rw [layersBelow, layersBelow]
    by_cases hlayer : i / 256 = localY
    · rw [if_neg (by omega), if_pos (by omega), hheight i hlayer, hskip]
    · exact if_congr (by omega) rfl rfl
  · obtain ⟨s', hplaced, hlaid⟩ := hs.placeLayer (by simp [ids]) hy (blockAt_mem _)
    refine ⟨s', (if_neg hskip).trans hplaced, hlaid.congr ?_⟩
    intro i hi
    rw [layersBelow, layersBelow]
    by_cases hlayer : i / 256 = localY
    · rw [if_pos hlayer, if_pos (by omega), hheight i hlayer]
    · rw [if_neg hlayer]
      exact if_congr (by omega) rfl rfl

variable (g states) in
/-- Filled in one step or layer by layer, a section ends up with the blocks of its heights. -/
theorem generateSection_spec (hrep : limits.Representable) {index : Nat}
    (hindex : index < limits.sectionCount) :
    ∃ s', g.generateSection limits states (.filled states states.air 0) index = some s' ∧
      s'.Laid (ids states) fun i => g.blockAt limits states (entryHeight limits index i) := by
  have hheights := heightsInclusive_section hrep hindex
  by_cases huniform : ((heightsInclusive (limits.minY + Int32.ofNat (index * 16))
      (limits.minY + Int32.ofNat (index * 16) + Int32.ofNat 16 - 1)).all fun y =>
        g.blockAt limits states y ==
          g.blockAt limits states (limits.minY + Int32.ofNat (index * 16))) = true
  · refine ⟨_, if_pos huniform, (laid_single rfl rfl (blockAt_mem _)).congr ?_⟩
    intro i hi
    rw [hheights, List.all_eq_true] at huniform
    have hlayer := huniform _ (List.mem_map_of_mem (List.mem_range.mpr
      (by omega : i / 256 < 16)))
    exact (beq_iff_eq.mp hlayer).symm
  · have hfresh : (ChunkSection.filled states states.air 0).Laid (ids states)
        (g.layersBelow limits states index 0) :=
      (laid_single rfl rfl List.mem_cons_self).congr fun i _ => (if_neg (by omega)).symm
    obtain ⟨s', hs', hlaid⟩ := Sweep.foldlM_range
      (I := fun n s => ChunkSection.Laid s (ids states) (g.layersBelow limits states index n))
      hfresh fun localY s (hy : localY < 16) hs => generateLayer_spec hy hs
    refine ⟨s', (if_neg huniform).trans hs', hlaid.congr ?_⟩
    intro i hi
    rw [layersBelow, if_pos (by omega)]

/-- The chunk with its first `n` sections generated. -/
structure GeneratedTo (g : FlatGenerator) (limits : HeightLimits) (states : BlockStates)
    (maps : Heightmaps) (n : Nat) (c : Chunk) : Prop where
  limits_eq : c.limits = limits
  heightmaps_eq : c.heightmaps = maps
  length_eq : c.sections.length = limits.sectionCount
  laid : ∀ i s, i < n → c.sections[i]? = some s →
    s.Laid (ids states) fun j => g.blockAt limits states (entryHeight limits i j)
  fresh : ∀ i s, n ≤ i → c.sections[i]? = some s → s = .filled states states.air 0

variable {maps : Heightmaps} {c : Chunk} {n : Nat}

theorem GeneratedTo.empty (hc : Chunk.empty limits states = some c) :
    g.GeneratedTo limits states c.heightmaps 0 c := by
  obtain ⟨hlimits, hsections⟩ := Chunk.empty_eq hc
  refine ⟨hlimits, rfl, by rw [hsections, List.length_replicate], by omega, ?_⟩
  intro i s _ hs
  rw [hsections] at hs
  exact List.eq_of_mem_replicate (List.mem_of_getElem? hs)

theorem GeneratedTo.placeSection (h : g.GeneratedTo limits states maps n c)
    (hrep : limits.Representable) (hn : n < limits.sectionCount) :
    ∃ c', g.placeSection limits states c n = some c' ∧
      g.GeneratedTo limits states maps (n + 1) c' := by
  obtain ⟨s, hs⟩ : ∃ s, c.sections[n]? = some s :=
    ⟨_, List.getElem?_eq_getElem (h.length_eq ▸ hn)⟩
  obtain ⟨s', hs', hlaid⟩ := generateSection_spec g states hrep hn
  rw [← h.fresh n s (Nat.le_refl n) hs] at hs'
  refine ⟨{ c with sections := c.sections.set n s' }, ?_, h.limits_eq, h.heightmaps_eq, ?_, ?_, ?_⟩
  · simp only [FlatGenerator.placeSection, hs, hs', Option.bind_eq_bind, Option.bind_some]
    rfl
  · rw [List.length_set]
    exact h.length_eq
  · intro i t hi ht
    by_cases hsame : i = n
    · subst hsame
      rw [List.getElem?_set_self (h.length_eq ▸ hn), Option.some.injEq] at ht
      rw [← ht]
      exact hlaid
    · rw [List.getElem?_set_ne (Ne.symm hsame)] at ht
      exact h.laid i t (by omega) ht
  · intro i t hi ht
    rw [List.getElem?_set_ne (by omega)] at ht
    exact h.fresh i t (by omega) ht

theorem entryHeight_eq (hrep : limits.Representable) {x z : Nat} {y : Int32} (hx : x < 16)
    (hz : z < 16) (hy : limits.Within y) :
    entryHeight limits (limits.offset y / 16) (limits.offset y % 16 * 256 + z * 16 + x) = y := by
  have hlt := HeightLimits.offset_lt hy
  have hheight := hrep.height_lt
  have hoffset : Int32.ofNat (limits.offset y) = y - limits.minY := by
    rw [← Int32.toInt_inj, Int32.toInt_ofNat_of_lt (by omega), HeightLimits.toInt_sub_minY hrep hy]
  rw [entryHeight, Int32.add_assoc, ← Int32.ofNat_add,
    show limits.offset y / 16 * 16 + (limits.offset y % 16 * 256 + z * 16 + x) / 256 =
      limits.offset y by omega, hoffset, Int32.add_comm, Int32.sub_add_cancel]

theorem GeneratedTo.formed (h : g.GeneratedTo limits states maps limits.sectionCount c) :
    c.Formed := by
  have hlaid : ∀ s ∈ c.sections, ∃ e, s.Laid (ids states) e := by
    intro s hs
    obtain ⟨i, hi⟩ := List.mem_iff_getElem?.mp hs
    have hlt := (List.getElem?_eq_some_iff.mp hi).1
    exact ⟨_, h.laid i s (h.length_eq ▸ hlt) hi⟩
  refine ⟨by rw [h.length_eq, h.limits_eq], ?_, ?_⟩
  · intro s hs
    obtain ⟨e, he⟩ := hlaid s hs
    exact he.few.kind_eq
  · intro s hs
    obtain ⟨e, he⟩ := hlaid s hs
    exact he.few.sound.wellFormed

theorem GeneratedTo.block_eq (h : g.GeneratedTo limits states maps limits.sectionCount c)
    (hrep : limits.Representable) (hwhole : limits.height.toNat % 16 = 0) {x z : Nat}
    {y : Int32} (hx : x < 16) (hz : z < 16) (hy : limits.Within y) :
    c.block x y z states = some (g.blockAt limits states y) := by
  have hformed := h.formed
  have hmax := HeightLimits.hasMaxY_of_within hy
  have hcovered := HeightLimits.section_lt hwhole hy
  obtain ⟨s, hs⟩ : ∃ s, c.sections[limits.offset y / 16]? = some s :=
    ⟨_, List.getElem?_eq_getElem (h.length_eq ▸ hcovered)⟩
  have hentry := (h.laid _ s hcovered hs).entry_eq
    (limits.offset y % 16 * 256 + z * 16 + x) (by omega)
  rw [entryHeight_eq hrep hx hz hy] at hentry
  obtain rfl := h.limits_eq
  rw [Chunk.block_eq hrep hmax hformed hy hcovered hx hz, Chunk.blockAt_eq hs, hentry]

/-! ## Generated chunks -/

/-- `height` is one above the highest block that is not air, counted from the bottom of the
world, or zero if there is none. -/
def SurfaceOf (g : FlatGenerator) (limits : HeightLimits) (states : BlockStates)
    (height : Nat) : Prop :=
  (∃ y, limits.Within y ∧ g.blockAt limits states y ≠ states.air ∧
    (∀ y', limits.Within y' → y < y' → g.blockAt limits states y' = states.air) ∧
    (height : Int) = 1 + y.toInt - limits.minY.toInt) ∨
  (∀ y, limits.Within y → g.blockAt limits states y = states.air) ∧ height = 0

/-- The chunk is what generating it block by block would give. -/
structure Agrees (g : FlatGenerator) (limits : HeightLimits) (states : BlockStates)
    (c : Chunk) : Prop where
  within : ∀ x y z, x < 16 → z < 16 → limits.Within y →
    c.block x y z states = some (g.blockAt limits states y)
  outside : ∀ x y z, x < 16 → z < 16 → ¬ limits.Within y →
    c.block x y z states = some states.air
  heights : ∀ x z, x < 16 → z < 16 → ∃ height,
    c.heightmaps.motionBlocking.get (z * 16 + x) = some height ∧
    c.heightmaps.worldSurface.get (z * 16 + x) = some height ∧
    g.SurfaceOf limits states height.toNat

theorem GeneratedTo.surfaceOf (h : g.GeneratedTo limits states maps limits.sectionCount c)
    (hrep : limits.Representable) (hwhole : limits.height.toNat % 16 = 0) {x z height : Nat}
    (hx : x < 16) (hz : z < 16) (hsurface : c.SurfaceAt states x z height) :
    g.SurfaceOf limits states height := by
  have hblock : ∀ y, limits.Within y → c.block x y z states = some (g.blockAt limits states y) :=
    fun y hy => h.block_eq hrep hwhole hx hz hy
  rw [Chunk.SurfaceAt, h.limits_eq] at hsurface
  rcases hsurface with ⟨y, id, hy, hid, hsolid, habove, hheight⟩ | ⟨hair, hzero⟩
  · rw [hblock y hy, Option.some.injEq] at hid
    rw [← hid] at hsolid
    refine .inl ⟨y, hy, hsolid, ?_, by omega⟩
    intro y' hy' hlt
    exact Option.some.inj ((hblock y' hy').symm.trans (habove y' hy' hlt))
  · refine .inr ⟨?_, hzero⟩
    intro y hy
    exact Option.some.inj ((hblock y hy).symm.trans (hair y hy))

variable (g states) in
theorem generate_spec (hwhole : limits.height.toNat % 16 = 0) (hrep : limits.Representable) :
    ∃ c, g.generate limits states = some c ∧ c.limits = limits ∧ c.Formed ∧
      (limits.HasMaxY → g.Agrees limits states c) := by
  obtain ⟨fresh, hfresh⟩ := Chunk.exists_empty limits states
  obtain ⟨c, hc, hgenerated⟩ := Sweep.foldlM_range
    (I := g.GeneratedTo limits states fresh.heightmaps) (GeneratedTo.empty hfresh)
    fun n c hn h => h.placeSection hrep hn
  have hformed := hgenerated.formed
  have hlimits := hgenerated.limits_eq
  have hsized := Chunk.sized_empty hfresh
  rw [← hgenerated.heightmaps_eq, ← hlimits] at hsized
  obtain ⟨maps, hrecompute, hsized', hshows, -⟩ := Chunk.recompute_spec states hformed hsized
  have hgenerate : g.generate limits states = some { c with heightmaps := maps } := by
    simp only [generate, hfresh, hc, hrecompute, Option.bind_eq_bind, Option.bind_some]
  refine ⟨_, hgenerate, hlimits, ⟨hformed.length_eq, hformed.kind_eq, hformed.wellFormed⟩, ?_⟩
  intro hmax
  refine ⟨?_, ?_, ?_⟩
  · intro x y z hx hz hy
    exact hgenerated.block_eq hrep hwhole hx hz hy
  · intro x y z _ _ hy
    exact Chunk.block_outside (hlimits ▸ hrep) (hlimits ▸ hmax) (hlimits ▸ hy)
  · intro x z hx hz
    obtain ⟨height, hmotion, hsurface, hat⟩ := Chunk.shows_surfaceAt states (hlimits ▸ hrep)
      (hlimits ▸ hwhole) hformed hsized' hshows hx hz
    exact ⟨height, hmotion, hsurface, hgenerated.surfaceOf hrep hwhole hx hz hat⟩

/-- The generated chunk is the one of its blocks, except that an empty world at the bottom
of the heights cannot be read. -/
theorem generate_agrees_iff (hwhole : limits.height.toNat % 16 = 0)
    (hrep : limits.Representable) :
    (∃ c, g.generate limits states = some c ∧ g.Agrees limits states c) ↔ limits.HasMaxY := by
  obtain ⟨c, hgenerate, hlimits, hformed, hagrees⟩ := generate_spec g states hwhole hrep
  constructor
  · rintro ⟨c', hgenerate', hagrees'⟩
    obtain rfl := Option.some.inj (hgenerate.symm.trans hgenerate')
    by_contra hmax
    have houtside : ¬ limits.Within 0 := fun hin => hmax (HeightLimits.hasMaxY_of_within hin)
    have hread := hagrees'.outside 0 0 0 (by decide) (by decide) houtside
    rw [Chunk.block_of_not_hasMaxY (hlimits ▸ hrep) (hlimits ▸ hmax) hformed] at hread
    cases hread
  · exact fun hmax => ⟨c, hgenerate, hagrees hmax⟩

theorem generate_agrees_overworld :
    ∃ c, generate ⟨-60, 2⟩ ⟨-64, 384⟩ .placeholder = some c ∧
      Agrees ⟨-60, 2⟩ ⟨-64, 384⟩ .placeholder c :=
  (generate_agrees_iff (by decide) ⟨by decide, by decide⟩).mpr (.inl (by decide))

/-- Outside the empty world at `i32::MIN` no height reads as air. -/
theorem generate_empty_world :
    HeightLimits.Representable ⟨Int32.minValue, 0⟩ ∧
      ¬ ∃ c, generate ⟨-60, 2⟩ ⟨Int32.minValue, 0⟩ .placeholder = some c ∧
        Agrees ⟨-60, 2⟩ ⟨Int32.minValue, 0⟩ .placeholder c := by
  have hrep : HeightLimits.Representable ⟨Int32.minValue, 0⟩ := ⟨by decide, by decide⟩
  refine ⟨hrep, ?_⟩
  obtain ⟨c, hgenerate, hlimits, hformed, -⟩ :=
    generate_spec ⟨-60, 2⟩ .placeholder (by decide) hrep
  rintro ⟨c', hgenerate', hagrees⟩
  obtain rfl := Option.some.inj (hgenerate.symm.trans hgenerate')
  have hread := hagrees.outside 0 0 0 (by decide) (by decide) (by decide)
  rw [Chunk.block_of_not_hasMaxY (by rw [hlimits]; exact hrep) (by rw [hlimits]; decide)
    hformed] at hread
  cases hread

end FlatGenerator

end Rukkit.World
