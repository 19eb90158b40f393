import Rukkit.Protocol.Writer
import Rukkit.World.BitStorage

/-!
# Paletted containers

The model of `rukkit-world/src/palette.rs`.  A container is a single value, a
palette with packed slots into it, or packed ids; a write moves it between the
three.  What a panic leaves behind is part of the model: the slow path of `set`
takes the representation out of the container before it builds the next one.
-/

namespace Rukkit.World

open Rukkit.Lib Rukkit.Protocol

/-- How a call that mutates its receiver ends.  Either way the receiver holds what
was stored last. -/
inductive Outcome (σ α : Type) where
  | returned (state : σ) (value : α)
  | panicked (state : σ)

namespace Outcome

variable {σ α : Type}

def state : Outcome σ α → σ
  | returned state _ => state
  | panicked state => state

end Outcome

/-- What a container holds, which fixes its size and palette thresholds. -/
inductive ContainerKind where
  | blocks
  | biomes
deriving DecidableEq, Repr

namespace ContainerKind

def volume : ContainerKind → Nat
  | blocks => 16 * 16 * 16
  | biomes => 4 * 4 * 4

/-- Narrowest indirect width. -/
def minIndirectBits : ContainerKind → Nat
  | blocks => 4
  | biomes => 1

/-- Widest indirect width before switching to direct storage. -/
def maxIndirectBits : ContainerKind → Nat
  | blocks => 8
  | biomes => 3

theorem volume_pos (kind : ContainerKind) : 0 < kind.volume := by
  cases kind <;> decide

theorem volume_lt (kind : ContainerKind) : kind.volume < 2 ^ 26 := by
  cases kind <;> decide

theorem minIndirectBits_pos (kind : ContainerKind) : 0 < kind.minIndirectBits := by
  cases kind <;> decide

theorem minIndirectBits_le (kind : ContainerKind) :
    kind.minIndirectBits ≤ kind.maxIndirectBits := by
  cases kind <;> decide

theorem maxIndirectBits_le (kind : ContainerKind) : kind.maxIndirectBits ≤ 8 := by
  cases kind <;> decide

end ContainerKind

/-- Bits needed to index `count` distinct values. -/
def bitsFor (count : Nat) : Nat :=
  if count ≤ 1 then 1 else 64 - (BitVec.ofNat 64 (count - 1)).clz.toNat

inductive PalettedContainer.Repr where
  | single (value : UInt32)
  | indirect (palette : List UInt32) (storage : BitStorage)
  | direct (storage : BitStorage)
deriving DecidableEq

structure PalettedContainer where
  kind : ContainerKind
  /-- Width used by the direct representation. -/
  directBits : Nat
  repr : PalettedContainer.Repr
deriving DecidableEq

/-- The push loop `if !distinct.contains(&id) { distinct.push(id) }`. -/
def collectDistinct (ids : List UInt32) : List UInt32 :=
  ids.foldl (fun distinct id => if id ∈ distinct then distinct else distinct ++ [id]) []

def writeCells (storage : BitStorage) : Bytes :=
  writeVarint (asI32 storage.data.length) ++
    storage.data.flatMap fun cell => writeI64 (Int64.ofBitVec cell)

namespace PalettedContainer

/-- A container entirely filled with `value`. -/
def filled (kind : ContainerKind) (directBits : Nat) (value : UInt32) : PalettedContainer :=
  { kind := kind, directBits := directBits, repr := .single value }

variable (c : PalettedContainer)

/-- Number of entries, fixed by the container kind. -/
def volume : Nat := c.kind.volume

def withRepr (repr : Repr) : PalettedContainer := { c with repr := repr }

/-- Bits currently used per entry; `0` for a single-value container. -/
def bitsPerEntry : Nat :=
  match c.repr with
  | .single _ => 0
  | .indirect _ storage => storage.bits
  | .direct storage => storage.bits

/-- Reads the id at `index`.  The `debug_assert` on the index is left out, as in
a release build. -/
def get (index : Nat) : Option UInt32 :=
  match c.repr with
  | .single value => some value
  | .indirect palette storage => do
      let slot ← storage.get index
      palette[slot.toNat]?
  | .direct storage => storage.get index

/-- Point the entry at palette slot `slot` and return the id it named before. -/
def storeSlot (palette : List UInt32) (storage : BitStorage) (index slot : Nat) :
    Outcome PalettedContainer UInt32 :=
  match storage.set index (UInt32.ofNat slot) with
  | none => .panicked (c.withRepr (.indirect palette storage))
  | some (storage, previous) =>
      match palette[previous.toNat]? with
      | none => .panicked (c.withRepr (.indirect palette storage))
      | some id => .returned (c.withRepr (.indirect palette storage)) id

/-- Second distinct value: go indirect with the old value at slot 0. -/
def promote (previous : UInt32) (index : Nat) (value : UInt32) :
    Outcome PalettedContainer UInt32 :=
  match BitStorage.new c.volume c.kind.minIndirectBits with
  | none => .panicked (c.withRepr (.single value))
  | some storage =>
      match storage.set index 1 with
      | none => .panicked (c.withRepr (.single value))
      | some (storage, _) => .returned (c.withRepr (.indirect [previous, value] storage)) previous

/-- The palette is full: one bit more per slot. -/
def widen (palette : List UInt32) (storage : BitStorage) (index : Nat) (value : UInt32) :
    Outcome PalettedContainer UInt32 :=
  match storage.remap (storage.bits + 1) some with
  | none => .panicked (c.withRepr (.single value))
  | some grown =>
      match grown.set index (UInt32.ofNat palette.length) with
      | none => .panicked (c.withRepr (.single value))
      | some (grown, previousSlot) =>
          match (palette ++ [value])[previousSlot.toNat]? with
          | none => .panicked (c.withRepr (.single value))
          | some previous =>
              .returned (c.withRepr (.indirect (palette ++ [value]) grown)) previous

/-- Too varied for a palette: store ids inline from here on. -/
def convert (palette : List UInt32) (storage : BitStorage) (index : Nat) (value : UInt32) :
    Outcome PalettedContainer UInt32 :=
  match storage.remap c.directBits fun slot => palette[slot.toNat]? with
  | none => .panicked (c.withRepr (.single value))
  | some direct =>
      match direct.set index value with
      | none => .panicked (c.withRepr (.single value))
      | some (direct, previous) => .returned (c.withRepr (.direct direct)) previous

/-- Writes `value` at `index`, returning the id previously there.  The branches
that change the representation run after `mem::replace` left `Single(value)` in
the container, which is what a panic there leaves. -/
def set (index : Nat) (value : UInt32) : Outcome PalettedContainer UInt32 :=
  if index < c.volume then
    match c.repr with
    | .single existing =>
        if existing = value then .returned c existing else c.promote existing index value
    | .direct storage =>
        match storage.set index value with
        | none => .panicked c
        | some (storage, previous) => .returned (c.withRepr (.direct storage)) previous
    | .indirect palette storage =>
        match palette.idxOf? value with
        | some slot => c.storeSlot palette storage index slot
        | none =>
            if palette.length < 2 ^ storage.bits then
              c.storeSlot (palette ++ [value]) storage index palette.length
            else if storage.bits + 1 ≤ c.kind.maxIndirectBits then
              c.widen palette storage index value
            else c.convert palette storage index value
  else .panicked c

/-- Resets every entry to `value`, dropping any allocation. -/
def fill (value : UInt32) : PalettedContainer := c.withRepr (.single value)

/-- The visits `for_each` makes, in index order. -/
def forEach : Option (List (Nat × UInt32)) :=
  match c.repr with
  | .single value => some ((List.range c.volume).map fun index => (index, value))
  | .indirect palette storage =>
      storage.forEach.mapM fun (index, slot) => do return (index, ← palette[slot.toNat]?)
  | .direct storage => some storage.forEach

/-- Counts entries for which `predicate` holds. -/
def count (predicate : UInt32 → Bool) : Option Nat :=
  match c.repr with
  | .single value => some (if predicate value then c.volume else 0)
  | .indirect palette storage =>
      let matching := palette.map predicate
      storage.forEach.foldlM
        (fun total (_, slot) => do
          return if ← matching[slot.toNat]? then total + 1 else total) 0
  | .direct storage =>
      some (storage.forEach.foldl
        (fun total (_, id) => if predicate id then total + 1 else total) 0)

/-- The packed slots of `visits` into `palette`. -/
def pack (bits : Nat) (palette : List UInt32) (visits : List (Nat × UInt32)) :
    Option BitStorage := do
  let storage ← BitStorage.new c.volume bits
  storage.setEach visits fun id => (palette.idxOf? id).map UInt32.ofNat

/-- Rebuilds at the narrowest representation that fits the current contents. -/
def shrink : Outcome PalettedContainer Unit :=
  match c.repr with
  | .single _ => .returned c ()
  | _ =>
      match c.forEach with
      | none => .panicked c
      | some visits =>
          match collectDistinct (visits.map Prod.snd) with
          | [only] => .returned (c.withRepr (.single only)) ()
          | distinct =>
              let bits := max (bitsFor distinct.length) c.kind.minIndirectBits
              if c.kind.maxIndirectBits < bits then .returned c ()
              else
                match c.pack bits distinct visits with
                | none => .panicked c
                | some storage => .returned (c.withRepr (.indirect distinct storage)) ()

/-- Writes the container in the chunk-data wire format. -/
def write : Bytes :=
  match c.repr with
  | .single value => writeU8 0 ++ writeVarint value.toInt32 ++ writeVarint 0
  | .indirect palette storage =>
      writeU8 (UInt8.ofNat storage.bits) ++ writeVarint (asI32 palette.length) ++
        palette.flatMap (fun id => writeVarint id.toInt32) ++ writeCells storage
  | .direct storage => writeU8 (UInt8.ofNat storage.bits) ++ writeCells storage

/-- Size in bytes the container occupies on the wire. -/
def wireLen : Nat :=
  match c.repr with
  | .single value => 1 + varintLen value.toInt32 + 1
  | .indirect palette storage =>
      1 + varintLen (asI32 palette.length) + (palette.map fun id => varintLen id.toInt32).sum +
        varintLen (asI32 storage.data.length) + storage.data.length * 8
  | .direct storage => 1 + varintLen (asI32 storage.data.length) + storage.data.length * 8

end PalettedContainer

/-! ## Widths -/

theorem bitsFor_eq_size {count : Nat} (hcount : 1 < count) (hlt : count < 2 ^ 64) :
    bitsFor count = (count - 1).size := by
  rw [bitsFor, if_neg (by omega), Words.sub_clz_eq_size, BitVec.toNat_ofNat,
    Nat.mod_eq_of_lt (by omega)]

/-- `bits_for` is the least width with room for `count` slots. -/
theorem bitsFor_le_iff {count bits : Nat} (hcount : 1 < count) (hlt : count < 2 ^ 64) :
    bitsFor count ≤ bits ↔ count ≤ 2 ^ bits := by
  rw [bitsFor_eq_size hcount hlt, Nat.size_le]
  omega

/-! ## The well-formed representations -/

/-- A palette and its slots. -/
structure IndirectWellFormed (kind : ContainerKind) (palette : List UInt32)
    (storage : BitStorage) : Prop where
  nodup : palette.Nodup
  length_le : palette.length ≤ 2 ^ storage.bits
  minIndirectBits_le : kind.minIndirectBits ≤ storage.bits
  le_maxIndirectBits : storage.bits ≤ kind.maxIndirectBits
  len_eq : storage.len = kind.volume
  slot_lt : ∀ index slot, storage.get index = some slot → slot.toNat < palette.length

/-- Ids stored inline. -/
structure DirectWellFormed (kind : ContainerKind) (directBits : Nat)
    (storage : BitStorage) : Prop where
  len_eq : storage.len = kind.volume
  bits_eq : storage.bits = directBits

namespace PalettedContainer

def WellFormed (c : PalettedContainer) : Prop :=
  match c.repr with
  | .single _ => True
  | .indirect palette storage => IndirectWellFormed c.kind palette storage
  | .direct storage => DirectWellFormed c.kind c.directBits storage

end PalettedContainer

/-! ## The invariant of a palette -/

/-- What every reachable indirect representation satisfies: besides its shape, no
stray bits in the storage and only ids that the direct width can hold. -/
structure IndirectInv (kind : ContainerKind) (directBits : Nat) (palette : List UInt32)
    (storage : BitStorage) : Prop extends IndirectWellFormed kind palette storage where
  clean : storage.Clean
  ids_lt : ∀ id ∈ palette, id.toNat < 2 ^ directBits

/-- What every reachable direct representation satisfies.  A container goes direct
only when a full palette and one id more are below `2 ^ directBits`. -/
structure DirectInv (kind : ContainerKind) (directBits : Nat)
    (storage : BitStorage) : Prop extends DirectWellFormed kind directBits storage where
  clean : storage.Clean
  maxIndirectBits_lt : kind.maxIndirectBits < directBits

section Indirect

variable {kind : ContainerKind} {directBits : Nat} {palette : List UInt32} {storage : BitStorage}

theorem IndirectWellFormed.entry_lt (h : IndirectWellFormed kind palette storage) {index : Nat}
    (hindex : index < kind.volume) : (storage.entry index).toNat < palette.length :=
  h.slot_lt index _ (BitStorage.get_eq (by rw [h.len_eq]; exact hindex))

/-- Slots fit a 32-bit word and the storage's own width. -/
theorem IndirectWellFormed.toNat_slot (h : IndirectWellFormed kind palette storage) {slot : Nat}
    (hslot : slot < palette.length) :
    (UInt32.ofNat slot).toNat = slot ∧ (UInt32.ofNat slot).toNat < 2 ^ storage.bits := by
  have hlength := h.length_le
  have hpow : 2 ^ storage.bits ≤ 2 ^ 32 := Nat.pow_le_pow_right (by decide) storage.bits_le
  have heq : (UInt32.ofNat slot).toNat = slot := UInt32.toNat_ofNat_of_lt' (by
    rw [UInt32.size]
    omega)
  rw [heq]
  omega

theorem nodup_push (h : palette.Nodup) {value : UInt32} (hnew : value ∉ palette) :
    (palette ++ [value]).Nodup := by
  rw [← List.concat_eq_append]
  exact h.concat hnew

/-- A new id at the end of the palette leaves the slots valid. -/
theorem IndirectInv.push (h : IndirectInv kind directBits palette storage) {value : UInt32}
    (hnew : value ∉ palette) (hroom : palette.length < 2 ^ storage.bits)
    (hvalue : value.toNat < 2 ^ directBits) :
    IndirectInv kind directBits (palette ++ [value]) storage where
  nodup := nodup_push h.nodup hnew
  length_le := by
    rw [List.length_append, List.length_singleton]
    omega
  minIndirectBits_le := h.minIndirectBits_le
  le_maxIndirectBits := h.le_maxIndirectBits
  len_eq := h.len_eq
  slot_lt := by
    intro index slot hget
    rw [List.length_append]
    exact Nat.lt_add_right _ (h.slot_lt index slot hget)
  clean := h.clean
  ids_lt := by
    intro id hid
    rcases List.mem_append.mp hid with hid | hid
    · exact h.ids_lt id hid
    · rw [List.mem_singleton] at hid
      rw [hid]
      exact hvalue

/-- Pointing one entry at a slot of the palette keeps the invariant. -/
theorem IndirectInv.write (h : IndirectInv kind directBits palette storage) {index slot : Nat}
    (hindex : index < kind.volume) (hslot : slot < palette.length) :
    IndirectInv kind directBits palette (storage.write index (UInt32.ofNat slot)) where
  nodup := h.nodup
  length_le := h.length_le
  minIndirectBits_le := h.minIndirectBits_le
  le_maxIndirectBits := h.le_maxIndirectBits
  len_eq := h.len_eq
  slot_lt := by
    obtain ⟨heq, hfit⟩ := h.toNat_slot hslot
    have hlen : index < storage.len := by rw [h.len_eq]; exact hindex
    intro other value hget
    by_cases hother : other < storage.len
    · rw [BitStorage.get_eq (by exact hother), Option.some.injEq] at hget
      by_cases hsame : other = index
      · subst hsame
        rw [BitStorage.entry_write_same hlen hfit] at hget
        rw [← hget, heq]
        exact hslot
      · rw [BitStorage.entry_write_ne hlen hfit hsame] at hget
        exact h.slot_lt other value (by rw [BitStorage.get_eq hother, hget])
    · rw [BitStorage.get_eq_none (by exact Nat.le_of_not_lt hother)] at hget
      simp at hget
  clean := BitStorage.clean_write (by rw [h.len_eq]; exact hindex) (h.toNat_slot hslot).2 h.clean
  ids_lt := h.ids_lt

end Indirect

end Rukkit.World
