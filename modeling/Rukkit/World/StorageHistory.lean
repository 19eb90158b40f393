import Rukkit.World.BitStorage

/-!
# Histories of a storage

A storage is meant to be an array.  The bits of its cells that belong to no entry are kept
by `set`, and `remap` starts from zeros.
-/

namespace Rukkit.World

open Rukkit.Lib

/-- What a storage stands for: the entries, and the bits outside them by cell. -/
structure PackedArray where
  bits : Nat
  values : Nat → UInt32
  outside : Nat → Nat → Bool

/-- The mutating operations of a storage; `remap` replaces it. -/
inductive StorageOp where
  | set (index : Nat) (value : UInt32)
  | remap (newBits : Nat) (f : UInt32 → UInt32)

namespace StorageOp

/-- The operation on the specification, with the value it reports. -/
def onArray (array : PackedArray) : StorageOp → PackedArray × Option UInt32
  | set index value =>
      ({ array with values := Function.update array.values index value },
        some (array.values index))
  | remap newBits f =>
      ({ bits := newBits, values := fun i => f (array.values i), outside := fun _ _ => false },
        none)

/-- The operation on a storage, with the value it reports. -/
def onStorage (s : BitStorage) : StorageOp → Option (BitStorage × Option UInt32)
  | set index value => do
      let (s, previous) ← s.set index value
      return (s, some previous)
  | remap newBits f => do
      return (← s.remap newBits fun value => some (f value), none)

/-- Indices below the length, and values that fit. -/
def InRange (len : Nat) (array : PackedArray) : StorageOp → Prop
  | set index value => index < len ∧ value.toNat < 2 ^ array.bits
  | remap newBits f =>
      0 < newBits ∧ newBits ≤ maxBits ∧ ∀ i < len, (f (array.values i)).toNat < 2 ^ newBits

end StorageOp

namespace PackedArray

/-- Run a history on the specification and collect what it reports. -/
def run (array : PackedArray) : List StorageOp → PackedArray × List (Option UInt32)
  | [] => (array, [])
  | op :: ops =>
      let (next, reported) := op.onArray array
      let (last, rest) := run next ops
      (last, reported :: rest)

def InRange (len : Nat) (array : PackedArray) : List StorageOp → Prop
  | [] => True
  | op :: ops => op.InRange len array ∧ InRange len (op.onArray array).1 ops

/-- Bit `j` of cell `c` belongs to an entry. -/
def Covered (array : PackedArray) (len c j : Nat) : Prop :=
  j < 64 / array.bits * array.bits ∧ c * (64 / array.bits) + j / array.bits < len

def zeros (bits : Nat) : PackedArray where
  bits := bits
  values _ := 0
  outside _ _ := false

/-- The entries that cells of the given width hold. -/
def unpacked (bits : Nat) (data : List (BitVec 64)) : PackedArray where
  bits := bits
  values i := UInt32.ofBitVec ((Words.entry (64 / bits) bits data i).setWidth 32)
  outside c j := (Words.cellAt data c).getLsbD j

end PackedArray

namespace BitStorage

/-- Run a history on a storage, up to the first panic. -/
def run (s : BitStorage) : List StorageOp → Option (BitStorage × List (Option UInt32))
  | [] => some (s, [])
  | op :: ops => do
      let (next, reported) ← op.onStorage s
      let (last, rest) ← run next ops
      return (last, reported :: rest)

/-- A storage as the constructors return it, and what it holds. -/
inductive Starts (len bits : Nat) : BitStorage → PackedArray → Prop
  | new {s : BitStorage} (h : new len bits = some s) : Starts len bits s (.zeros bits)
  | fromData {s : BitStorage} {data : List (BitVec 64)} (h : fromData len bits data = some s) :
      Starts len bits s (.unpacked bits data)

/-- The storage holds the array, and outside the entries the bits it should. -/
structure Holds (s : BitStorage) (len : Nat) (array : PackedArray) : Prop where
  len_eq : s.len = len
  bits_eq : s.bits = array.bits
  entry_eq : ∀ i < len, s.entry i = array.values i
  outside_eq : ∀ c j, ¬ array.Covered len c j →
    (Words.cellAt s.data c).getLsbD j = array.outside c j

variable {s t : BitStorage} {len bits : Nat} {array : PackedArray}

theorem Holds.of_clean (hlen : s.len = len) (hbits : s.bits = array.bits) (hclean : s.Clean)
    (hentry : ∀ i < len, s.entry i = array.values i)
    (houtside : array.outside = fun _ _ => false) : Holds s len array := by
  refine ⟨hlen, hbits, hentry, ?_⟩
  intro c j hout
  rw [houtside]
  by_contra hbit
  rw [Bool.not_eq_false] at hbit
  have hin := hclean c j hbit
  rw [s.valuesPerLong_eq, hbits, hlen] at hin
  exact hout hin

theorem Starts.holds (h : Starts len bits s array) : Holds s len array := by
  cases h with
  | new h =>
      obtain ⟨hlen, hbits, hclean, hentry⟩ := new_spec h
      exact .of_clean hlen hbits hclean (fun i _ => hentry i) rfl
  | @fromData data h =>
      unfold BitStorage.fromData at h
      split at h
      · cases h
      · split at h
        · cases h
        · obtain rfl := Option.some.inj h
          exact ⟨rfl, rfl, fun _ _ => rfl, fun _ _ _ => rfl⟩

/-- One operation keeps the storage and the array in step, and reports the same. -/
theorem Holds.step (h : Holds s len array) {op : StorageOp} (hop : op.InRange len array) :
    ∃ t, op.onStorage s = some (t, (op.onArray array).2) ∧ Holds t len (op.onArray array).1 := by
  obtain ⟨rfl, hbits, hentry, houtside⟩ := h
  cases op with
  | set index value =>
      obtain ⟨hindex, hvalue⟩ := hop
      rw [← hbits] at hvalue
      refine ⟨s.write index value, ?_, rfl, hbits, ?_, ?_⟩
      · simp only [StorageOp.onStorage, set_eq hindex hvalue, StorageOp.onArray,
          hentry index hindex]
        rfl
      · intro i hi
        by_cases hsame : i = index
        · rw [hsame, entry_write_same hindex hvalue]
          exact (Function.update_self index value array.values).symm
        · rw [entry_write_ne hindex hvalue hsame, hentry i hi]
          exact (Function.update_of_ne hsame value array.values).symm
      · intro c j hout
        refine Eq.trans ?_ (houtside c j hout)
        apply Words.getLsbD_setEntry_outside valuesPerLong_pos bits_lt valuesPerLong_mul_bits_le
          (cell_lt hindex) hindex (setWidth_toNat_lt hvalue)
        rw [s.valuesPerLong_eq, hbits]
        exact hout
  | remap newBits f =>
      obtain ⟨hpos, hle, hfits⟩ := hop
      have hmapped : ∀ i < s.len, ∃ v, some (f (s.entry i)) = some v ∧ v.toNat < 2 ^ newBits := by
        intro i hi
        rw [hentry i hi]
        exact ⟨_, rfl, hfits i hi⟩
      obtain ⟨t, hremap⟩ := Option.isSome_iff_exists.mp
        (remap_isSome (s := s) (f := fun value => some (f value)) hpos hle hmapped)
      obtain ⟨hlen', hbits', hclean', hentry'⟩ := remap_spec hremap
      refine ⟨t, ?_, .of_clean hlen' hbits' hclean' ?_ rfl⟩
      · simp only [StorageOp.onStorage, hremap]
        rfl
      · intro i hi
        obtain ⟨v, hv, -, hvalue⟩ := hentry' i hi
        rw [hvalue, ← Option.some.inj hv, hentry i hi]
        rfl

/-- A whole history keeps the storage and the array in step. -/
theorem Holds.run (h : Holds s len array) {ops : List StorageOp} (hops : array.InRange len ops) :
    ∃ t, s.run ops = some (t, (array.run ops).2) ∧ Holds t len (array.run ops).1 := by
  induction ops generalizing s array with
  | nil => exact ⟨s, rfl, h⟩
  | cons op ops ih =>
      obtain ⟨mid, hstep, hmid⟩ := h.step hops.1
      obtain ⟨last, hrest, hlast⟩ := ih hmid hops.2
      refine ⟨last, ?_, hlast⟩
      simp only [BitStorage.run, hstep, Option.bind_eq_bind, Option.bind_some, hrest,
        PackedArray.run]
      rfl

/-- What the observers of a storage return for the array it holds. -/
structure Shows (s : BitStorage) (len : Nat) (array : PackedArray) : Prop where
  get : ∀ i < len, s.get i = some (array.values i)
  forEach : s.forEach = (List.range len).map fun i => (i, array.values i)
  data_length : s.data.length = cellsRequired len array.bits
  rebuilt : fromData len array.bits s.data = some s
  outside : ∀ c j, ¬ array.Covered len c j →
    (Words.cellAt s.data c).getLsbD j = array.outside c j

theorem Holds.shows (h : Holds s len array) : Shows s len array := by
  obtain ⟨rfl, hbits, hentry, houtside⟩ := h
  refine ⟨?_, ?_, ?_, ?_, houtside⟩
  · intro i hi
    rw [get_eq hi, hentry i hi]
  · rw [forEach_eq]
    apply List.map_congr_left
    intro i hi
    rw [hentry i (List.mem_range.mp hi)]
  · rw [s.data_length, hbits]
  · rw [← hbits]
    exact s.fromData_data

theorem Holds.clean (h : Holds s len array) (houtside : array.outside = fun _ _ => false) :
    s.Clean := by
  intro c j hbit
  by_contra hin
  rw [s.valuesPerLong_eq, h.bits_eq, h.len_eq] at hin
  rw [h.outside_eq c j hin, houtside] at hbit
  cases hbit

/-- Outside the entries nothing but zeros arises from zeros. -/
theorem outside_run (houtside : array.outside = fun _ _ => false) (ops : List StorageOp) :
    (array.run ops).1.outside = fun _ _ => false := by
  induction ops generalizing array with
  | nil => exact houtside
  | cons op ops ih =>
      apply ih
      cases op with
      | set index value => exact houtside
      | remap newBits f => rfl

/-- Whatever a storage starts from, every history of it completes, reports what the array
reports and leaves a storage that shows the array. -/
theorem packed_refines_array (hstart : Starts len bits s array) (ops : List StorageOp)
    (hops : array.InRange len ops) :
    ∃ t, s.run ops = some (t, (array.run ops).2) ∧ Shows t len (array.run ops).1 ∧
      (array = .zeros bits → t.Clean) := by
  obtain ⟨t, hrun, hholds⟩ := hstart.holds.run hops
  refine ⟨t, hrun, hholds.shows, ?_⟩
  rintro rfl
  exact hholds.clean (outside_run rfl ops)

theorem packed_refines_array_growing :
    ∃ s t, new 5 3 = some s ∧
      s.run [.set 2 7, .remap 5 (· + 1), .set 4 31] = some (t, [some 0, none, some 1]) ∧
      Shows t 5 ((PackedArray.zeros 3).run [.set 2 7, .remap 5 (· + 1), .set 4 31]).1 ∧
      t.Clean := by
  obtain ⟨s, hs⟩ := Option.isSome_iff_exists.mp
    (@new_isSome 5 3 (by decide) (by decide) (by decide))
  have hops : (PackedArray.zeros 3).InRange 5 [.set 2 7, .remap 5 (· + 1), .set 4 31] := by
    refine ⟨⟨by decide, by decide⟩, ⟨by decide, by decide, ?_⟩, ⟨by decide, by decide⟩, trivial⟩
    decide
  obtain ⟨t, hrun, hshows, hclean⟩ := packed_refines_array (.new hs) _ hops
  exact ⟨s, t, hs, hrun, hshows, hclean rfl⟩

/-- Cells from elsewhere may have bits outside the entries, and `remap` drops them. -/
theorem remap_drops_outside :
    ∃ s t, fromData 1 1 [2#64] = some s ∧ s.remap 1 some = some t ∧
      ¬ (PackedArray.unpacked 1 [2#64]).Covered 1 0 1 ∧
      (Words.cellAt s.data 0).getLsbD 1 = true ∧ (Words.cellAt t.data 0).getLsbD 1 = false := by
  refine ⟨_, _, rfl, rfl, ?_, rfl, rfl⟩
  rintro ⟨-, hlt⟩
  simp [PackedArray.unpacked] at hlt

end BitStorage

end Rukkit.World
