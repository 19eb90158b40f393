import Rukkit.World.PaletteShrink

/-!
# Histories of a container

A container is meant to be an array of ids.  The array is the specification: a
plain function, written pointwise, that no operation ever re-encodes.  Any finite
history of `set`, `fill` and `shrink` keeps the two in step.
-/

namespace Rukkit.World

open Rukkit.Lib

/-- The mutating operations of a container. -/
inductive PaletteOp where
  | set (index : Nat) (value : UInt32)
  | fill (value : UInt32)
  | shrink

/-- What a container stands for. -/
abbrev PlainArray := Nat → UInt32

namespace PaletteOp

/-- The operation on the specification, with the value it reports. -/
def onArray (array : PlainArray) : PaletteOp → PlainArray × Option UInt32
  | set index value => (Function.update array index value, some (array index))
  | fill value => (fun _ => value, none)
  | shrink => (array, none)

/-- The operation on a container, with the value it reports. -/
def onContainer (c : PalettedContainer) : PaletteOp → Outcome PalettedContainer (Option UInt32)
  | set index value =>
      match c.set index value with
      | .returned c previous => .returned c (some previous)
      | .panicked c => .panicked c
  | fill value => .returned (c.fill value) none
  | shrink =>
      match c.shrink with
      | .returned c () => .returned c none
      | .panicked c => .panicked c

/-- Indices below the volume, ids below `2 ^ directBits`. -/
def InRange (kind : ContainerKind) (directBits : Nat) : PaletteOp → Prop
  | set index value => index < kind.volume ∧ value.toNat < 2 ^ directBits
  | fill value => value.toNat < 2 ^ directBits
  | shrink => True

end PaletteOp

/-- Run a history on the specification and collect what it reports. -/
def PlainArray.run (array : PlainArray) : List PaletteOp → PlainArray × List (Option UInt32)
  | [] => (array, [])
  | op :: ops =>
      let (next, reported) := op.onArray array
      let (last, rest) := run next ops
      (last, reported :: rest)

/-- Run a history on a container, up to the first panic. -/
def PalettedContainer.run (c : PalettedContainer) :
    List PaletteOp → Outcome PalettedContainer (List (Option UInt32))
  | [] => .returned c []
  | op :: ops =>
      match op.onContainer c with
      | .panicked c => .panicked c
      | .returned c reported =>
          match run c ops with
          | .panicked c => .panicked c
          | .returned c rest => .returned c (reported :: rest)

namespace PalettedContainer

/-- The container holds the array, in a reachable representation. -/
structure Holds (c : PalettedContainer) (kind : ContainerKind) (directBits : Nat)
    (array : PlainArray) : Prop where
  kind_eq : c.kind = kind
  directBits_eq : c.directBits = directBits
  inv : c.Inv
  entry_eq : ∀ index < kind.volume, c.entry index = array index

variable {c : PalettedContainer} {kind : ContainerKind} {directBits : Nat} {array : PlainArray}

theorem Holds.filled (kind : ContainerKind) (hpos : 1 ≤ directBits) (hle : directBits ≤ 32)
    {initial : UInt32} (hinitial : initial.toNat < 2 ^ directBits) :
    Holds (filled kind directBits initial) kind directBits (fun _ => initial) where
  kind_eq := rfl
  directBits_eq := rfl
  inv := Inv.filled hpos hle hinitial
  entry_eq := fun _ _ => rfl

theorem Holds.get_eq (h : Holds c kind directBits array) {index : Nat}
    (hindex : index < kind.volume) : c.get index = some (array index) := by
  rw [PalettedContainer.get_eq h.inv.wellFormed (by rw [volume, h.kind_eq]; exact hindex),
    h.entry_eq index hindex]

/-- One operation keeps the container and the array in step, and reports the same. -/
theorem Holds.step (h : Holds c kind directBits array) {op : PaletteOp}
    (hop : op.InRange kind directBits) :
    ∃ c', op.onContainer c = .returned c' (op.onArray array).2 ∧
      Holds c' kind directBits (op.onArray array).1 := by
  obtain ⟨rfl, rfl, hinv, hentry⟩ := h
  cases op with
  | set index value =>
      obtain ⟨hindex, hvalue⟩ := hop
      obtain ⟨c', hset, hwrote⟩ := set_spec hinv hindex hvalue
      refine ⟨c', ?_, hwrote.kind_eq, hwrote.directBits_eq, hwrote.inv, ?_⟩
      · simp only [PaletteOp.onContainer, hset, PaletteOp.onArray, hentry index hindex]
      · intro other hother
        rw [hwrote.entry_eq other hother, hentry other hother]
        exact (Function.update_apply array index value other).symm
  | fill value =>
      refine ⟨c.fill value, rfl, rfl, rfl, hinv.withRepr (.single hop), ?_⟩
      intro index _
      rfl
  | shrink =>
      obtain ⟨c', hshrink, hshrunk⟩ := shrink_spec hinv
      refine ⟨c', ?_, hshrunk.kind_eq, hshrunk.directBits_eq, hshrunk.inv, ?_⟩
      · simp only [PaletteOp.onContainer, hshrink, PaletteOp.onArray]
      · intro index hindex
        rw [hshrunk.entry_eq index hindex, hentry index hindex]
        rfl

/-- A whole history keeps the container and the array in step. -/
theorem Holds.run (h : Holds c kind directBits array) {ops : List PaletteOp}
    (hops : ∀ op ∈ ops, op.InRange kind directBits) :
    ∃ c', c.run ops = .returned c' (array.run ops).2 ∧
      Holds c' kind directBits (array.run ops).1 := by
  induction ops generalizing c array with
  | nil => exact ⟨c, rfl, h⟩
  | cons op ops ih =>
      obtain ⟨mid, hstep, hmid⟩ := h.step (hops op List.mem_cons_self)
      obtain ⟨last, hrest, hlast⟩ := ih hmid fun other hother =>
        hops other (List.mem_cons_of_mem op hother)
      refine ⟨last, ?_, hlast⟩
      simp only [PalettedContainer.run, hstep, hrest, PlainArray.run]

/-- From a container filled with an id that fits the direct width, every history of writes
that fit it too runs to the end without a panic, the container then holds what the array
holds, and its representation is well formed. -/
theorem run_refines_array (kind : ContainerKind) (directBits : Nat) (hpos : 1 ≤ directBits)
    (hle : directBits ≤ 32) (initial : UInt32) (hinitial : initial.toNat < 2 ^ directBits)
    (ops : List PaletteOp) (hops : ∀ op ∈ ops, op.InRange kind directBits) :
    ∃ c, (PalettedContainer.filled kind directBits initial).run ops =
        .returned c (PlainArray.run (fun _ => initial) ops).2 ∧
      c.kind = kind ∧ c.directBits = directBits ∧ c.WellFormed ∧
      ∀ index < kind.volume,
        c.get index = some ((PlainArray.run (fun _ => initial) ops).1 index) := by
  obtain ⟨c, hrun, hholds⟩ := (Holds.filled kind hpos hle hinitial).run hops
  refine ⟨c, hrun, hholds.kind_eq, hholds.directBits_eq, hholds.inv.wellFormed, ?_⟩
  intro index hindex
  exact hholds.get_eq hindex

theorem run_refines_array_biomes :
    ∃ c, (PalettedContainer.filled .biomes 6 3).run [.set 5 9, .shrink, .set 5 3, .fill 1] =
        .returned c (PlainArray.run (fun _ => 3) [.set 5 9, .shrink, .set 5 3, .fill 1]).2 ∧
      c.kind = .biomes ∧ c.directBits = 6 ∧ c.WellFormed ∧
      ∀ index < ContainerKind.biomes.volume, c.get index =
        some ((PlainArray.run (fun _ => 3) [.set 5 9, .shrink, .set 5 3, .fill 1]).1 index) :=
  run_refines_array .biomes 6 (by decide) (by decide) 3 (by decide)
    [.set 5 9, .shrink, .set 5 3, .fill 1] (by
      intro op hop
      simp only [List.mem_cons, List.not_mem_nil, or_false] at hop
      rcases hop with rfl | rfl | rfl | rfl <;> simp [PaletteOp.InRange, ContainerKind.volume])

/-- The distinct ids a container holds. -/
def distinctIds (c : PalettedContainer) : Finset UInt32 :=
  ((List.range c.volume).filterMap c.get).toFinset

theorem card_distinctIds (hc : c.Inv) :
    c.distinctIds.card = (collectDistinct c.entries).length := by
  have hids : (List.range c.volume).filterMap c.get = c.entries := by
    rw [entries, ← List.filterMap_eq_map]
    apply List.filterMap_congr
    intro index hindex
    exact get_eq hc.wellFormed (List.mem_range.mp hindex)
  rw [length_collectDistinct, distinctIds, hids]

/-- The width `shrink` settles on for `k` distinct ids. -/
def shrunkBits (kind : ContainerKind) (directBits k : Nat) : Nat :=
  if k = 1 then 0
  else if max kind.minIndirectBits (bitsFor k) ≤ kind.maxIndirectBits then
    max kind.minIndirectBits (bitsFor k)
  else directBits

/-- Containers that hold the same ids after any two histories shrink to the same
container, so to the same bytes, at the width that the ids alone determine.  The ids they
were filled with fit the direct width, as the written ones do. -/
theorem shrink_canonical (kind : ContainerKind) (directBits : Nat) (hpos : 1 ≤ directBits)
    (hle : directBits ≤ 32) (initial initial' : UInt32)
    (hinitial : initial.toNat < 2 ^ directBits) (hinitial' : initial'.toNat < 2 ^ directBits)
    (ops ops' : List PaletteOp) (hops : ∀ op ∈ ops, op.InRange kind directBits)
    (hops' : ∀ op ∈ ops', op.InRange kind directBits) (c d : PalettedContainer)
    (reported reported' : List (Option UInt32))
    (hc : (PalettedContainer.filled kind directBits initial).run ops = .returned c reported)
    (hd : (PalettedContainer.filled kind directBits initial').run ops' = .returned d reported')
    (hsame : ∀ index < kind.volume, c.get index = d.get index) :
    ∃ c' d', c.shrink = .returned c' () ∧ d.shrink = .returned d' () ∧ c' = d' ∧
      c'.write = d'.write ∧ c'.bitsPerEntry = shrunkBits kind directBits c.distinctIds.card := by
  obtain ⟨c₁, hrun, hholds⟩ := (Holds.filled kind hpos hle hinitial).run hops
  obtain ⟨d₁, hrun', hholds'⟩ := (Holds.filled kind hpos hle hinitial').run hops'
  rw [hc, Outcome.returned.injEq] at hrun
  rw [hd, Outcome.returned.injEq] at hrun'
  obtain ⟨rfl, -⟩ := hrun
  obtain ⟨rfl, -⟩ := hrun'
  obtain ⟨c', hshrink, hshrunk⟩ := shrink_spec hholds.inv
  obtain ⟨d', hshrink', hshrunk'⟩ := shrink_spec hholds'.inv
  have hvolume : c.volume = kind.volume := by rw [volume, hholds.kind_eq]
  have hvolume' : d.volume = kind.volume := by rw [volume, hholds'.kind_eq]
  have hunique : c' = d' := by
    apply canonical_unique hshrunk.inv hshrunk'.inv hshrunk.canonical hshrunk'.canonical
    · rw [hshrunk.kind_eq, hshrunk'.kind_eq, hholds.kind_eq, hholds'.kind_eq]
    · rw [hshrunk.directBits_eq, hshrunk'.directBits_eq, hholds.directBits_eq,
        hholds'.directBits_eq]
    · intro index hindex
      have hindex : index < kind.volume := by
        rwa [volume, hshrunk.kind_eq, hholds.kind_eq] at hindex
      have hget := hsame index hindex
      rw [get_eq hholds.inv.wellFormed (by omega), get_eq hholds'.inv.wellFormed (by omega),
        Option.some.injEq] at hget
      rw [hshrunk.entry_eq index (by omega), hshrunk'.entry_eq index (by omega), hget]
  have hentries : c'.entries = c.entries := by
    rw [entries, entries, volume, volume, hshrunk.kind_eq]
    apply List.map_congr_left
    intro index hindex
    exact hshrunk.entry_eq index (List.mem_range.mp hindex)
  refine ⟨c', d', hshrink, hshrink', hunique, by rw [hunique], ?_⟩
  rw [canonical_bitsPerEntry hshrunk.inv hshrunk.canonical, shrunkBits, neededBits, hentries,
    ← card_distinctIds hholds.inv, hshrunk.kind_eq, hholds.kind_eq, hshrunk.directBits_eq,
    hholds.directBits_eq, max_comm]

theorem shrink_canonical_biomes :
    ∃ c' d', ((filled .biomes 6 3).run [.set 5 9, .set 5 3]).state.shrink = .returned c' () ∧
      (filled .biomes 6 3).shrink = .returned d' () ∧ c' = d' ∧ c'.write = d'.write ∧
      c'.bitsPerEntry = shrunkBits .biomes 6
        ((filled .biomes 6 3).run [.set 5 9, .set 5 3]).state.distinctIds.card :=
  shrink_canonical .biomes 6 (by decide) (by decide) 3 7 (by decide) (by decide)
    [.set 5 9, .set 5 3] [.fill 3] (by simp [PaletteOp.InRange, ContainerKind.volume])
    (by simp [PaletteOp.InRange]) _ _ [some 3, some 9] [none] rfl rfl (by decide +kernel)

end PalettedContainer

end Rukkit.World
