import Rukkit.Lib.Words

/-!
# Packed bit storage

The model of `rukkit-world/src/bitstorage.rs`.  Cells are 64-bit words.  The
divisor of the cell lookup is turned into a multiply and shift at construction,
and every field that `new` and `from_data` derive from the width is tied to it
by a field of the structure, so that no other storage can be built.

A function that panics in the source returns `none`; it never panics after a
write, so the storage is then the one it was given.
-/

namespace Rukkit.World

open Rukkit.Lib

/-- Widths above this cannot be represented. -/
def maxBits : Nat := 32

/-- `usize::div_ceil` and `u64::div_ceil`. -/
def divCeil (a b : Nat) : Nat := if a % b = 0 then a / b else a / b + 1

/-- Cells needed to hold `len` entries of `bits` width. -/
def cellsRequired (len bits : Nat) : Nat :=
  if bits = 0 then 0 else divCeil len (64 / bits)

/-- `ceil(2^32 / divisor)`, the multiplier for reciprocal division. -/
def reciprocal (divisor : Nat) : BitVec 64 := BitVec.ofNat 64 (divCeil (2 ^ 32) divisor)

structure BitStorage where
  data : List (BitVec 64)
  len : Nat
  bits : Nat
  valuesPerLong : Nat
  /-- Reciprocal of `valuesPerLong`, scaled by 2^32. -/
  magic : BitVec 64
  mask : BitVec 64
  bits_pos : 0 < bits
  bits_le : bits ≤ maxBits
  len_lt : len < 2 ^ 26
  data_length : data.length = cellsRequired len bits
  valuesPerLong_eq : valuesPerLong = 64 / bits
  magic_eq : magic = reciprocal valuesPerLong
  mask_eq : mask = Words.mask 64 bits
deriving DecidableEq

namespace BitStorage

/-- Zero-filled storage for `len` entries of `bits` width. -/
def new (len bits : Nat) : Option BitStorage :=
  if hbits : 0 < bits ∧ bits ≤ maxBits then
    if hlen : len < 2 ^ 26 then
      some
        { data := List.replicate (cellsRequired len bits) 0#64
          len := len
          bits := bits
          valuesPerLong := 64 / bits
          magic := reciprocal (64 / bits)
          mask := (1#64 <<< bits) - 1#64
          bits_pos := hbits.1
          bits_le := hbits.2
          len_lt := hlen
          data_length := List.length_replicate
          valuesPerLong_eq := rfl
          magic_eq := rfl
          mask_eq := rfl }
    else none
  else none

/-- Wraps existing cells.  Here `none` is the source's own `None`. -/
def fromData (len bits : Nat) (data : List (BitVec 64)) : Option BitStorage :=
  if h : bits = 0 ∨ maxBits < bits ∨ 2 ^ 26 ≤ len then none
  else if hdata : data.length ≠ cellsRequired len bits then none
  else
    some
      { data := data
        len := len
        bits := bits
        valuesPerLong := 64 / bits
        magic := reciprocal (64 / bits)
        mask := (1#64 <<< bits) - 1#64
        bits_pos := by omega
        bits_le := by omega
        len_lt := by omega
        data_length := by simpa using hdata
        valuesPerLong_eq := rfl
        magic_eq := rfl
        mask_eq := rfl }

variable (s : BitStorage)

/-- Index of the cell holding entry `index`, via reciprocal multiplication. -/
def cellOf (index : Nat) : Nat := ((BitVec.ofNat 64 index * s.magic) >>> 32).toNat

/-- Bit offset of entry `index` within its cell. -/
def offsetOf (index : Nat) : Nat := (index - s.cellOf index * s.valuesPerLong) * s.bits

/-- Reads entry `index`. -/
def get (index : Nat) : Option UInt32 :=
  if index < s.len then do
    let word ← s.data[s.cellOf index]?
    return UInt32.ofBitVec (((word >>> s.offsetOf index) &&& s.mask).setWidth 32)
  else none

/-- The storage with its cells replaced, as many as there were. -/
def withData (data : List (BitVec 64)) (h : data.length = s.data.length) : BitStorage :=
  { s with data := data, data_length := h.trans s.data_length }

/-- Writes entry `index`, returning the previous value. -/
def set (index : Nat) (value : UInt32) : Option (BitStorage × UInt32) :=
  if index < s.len then
    let value := value.toBitVec.setWidth 64
    if value ≤ s.mask then do
      let cell := s.cellOf index
      let offset := s.offsetOf index
      let word ← s.data[cell]?
      let previous := (word >>> offset) &&& s.mask
      let written := (word &&& ~~~(s.mask <<< offset)) ||| (value <<< offset)
      return (s.withData (s.data.set cell written) List.length_set,
        UInt32.ofBitVec (previous.setWidth 32))
    else none
  else none

/-- The inner loop of `for_each` over one cell: at most `count` more entries. -/
def visitCell : (count : Nat) → (word : BitVec 64) → (index : Nat) → List (Nat × UInt32)
  | 0, _, _ => []
  | count + 1, word, index =>
      if s.len ≤ index then []
      else
        (index, UInt32.ofBitVec ((word &&& s.mask).setWidth 32)) ::
          visitCell count (word >>> s.bits) (index + 1)

/-- The outer loop of `for_each`.  Where the source returns because `index`
reached `len`, the cells that are left start past `len` and visit nothing. -/
def visitCells : (cells : List (BitVec 64)) → (index : Nat) → List (Nat × UInt32)
  | [], _ => []
  | cell :: cells, index =>
      s.visitCell s.valuesPerLong cell index ++ visitCells cells (index + s.valuesPerLong)

/-- The calls `for_each` makes, in order. -/
def forEach : List (Nat × UInt32) := s.visitCells s.data 0

/-- The closure `|index, value| { out.set(index, f(value)); }` run over a sequence
of visits.  `f` may panic, and so may `set`. -/
def setEach (out : BitStorage) (visits : List (Nat × UInt32)) (f : UInt32 → Option UInt32) :
    Option BitStorage :=
  visits.foldlM (fun out (index, value) => do
    let (out, _) ← out.set index (← f value)
    return out) out

/-- Rebuilds at a new bit width, mapping each entry through `f`. -/
def remap (newBits : Nat) (f : UInt32 → Option UInt32) : Option BitStorage := do
  let out ← new s.len newBits
  out.setEach s.forEach f

/-! ## Locating an entry -/

variable {s}

theorem bits_lt : s.bits < 64 := by
  have := s.bits_le
  unfold maxBits at this
  omega

theorem valuesPerLong_pos : 0 < s.valuesPerLong := by
  rw [s.valuesPerLong_eq]
  exact Nat.div_pos (Nat.le_of_lt bits_lt) s.bits_pos

theorem valuesPerLong_le : s.valuesPerLong ≤ 64 := by
  rw [s.valuesPerLong_eq]
  exact Nat.div_le_self 64 s.bits

theorem valuesPerLong_mul_bits_le : s.valuesPerLong * s.bits ≤ 64 := by
  rw [s.valuesPerLong_eq]
  exact Nat.div_mul_le_self 64 s.bits

theorem divCeil_mul (a : Nat) {b : Nat} (hb : 0 < b) :
    ∃ e < b, divCeil a b * b = a + e := by
  have hsplit := Nat.div_add_mod' a b
  have hmod := Nat.mod_lt a hb
  unfold divCeil
  split
  · exact ⟨0, hb, by omega⟩
  · refine ⟨b - a % b, by omega, ?_⟩
    rw [Nat.add_mul, Nat.one_mul]
    omega

/-- The multiplier has at most 33 bits, so the product of the lookup fits its word. -/
theorem mul_reciprocal_lt {divisor index : Nat} (hpos : 0 < divisor) (hle : divisor ≤ 64)
    (hindex : index < 2 ^ 26) : index * (reciprocal divisor).toNat < 2 ^ 64 := by
  obtain ⟨e, he, hmul⟩ := divCeil_mul (2 ^ 32) hpos
  have hmagic : divCeil (2 ^ 32) divisor < 2 ^ 33 := by
    have : divCeil (2 ^ 32) divisor ≤ divCeil (2 ^ 32) divisor * divisor :=
      Nat.le_mul_of_pos_right _ hpos
    omega
  rw [reciprocal, BitVec.toNat_ofNat, Nat.mod_eq_of_lt (by omega)]
  calc
    index * divCeil (2 ^ 32) divisor < 2 ^ 26 * 2 ^ 33 :=
      Nat.mul_lt_mul'' hindex hmagic
    _ < 2 ^ 64 := by decide

/-- The multiply and shift is the division, over the whole range of indices that
the constructors admit. -/
theorem reciprocal_exact {divisor index : Nat} (hpos : 0 < divisor) (hle : divisor ≤ 64)
    (hindex : index < 2 ^ 26) :
    ((BitVec.ofNat 64 index * reciprocal divisor) >>> 32).toNat = index / divisor := by
  obtain ⟨e, he, hmul⟩ := divCeil_mul (2 ^ 32) hpos
  have hfits : divCeil (2 ^ 32) divisor < 2 ^ 64 := by
    have : divCeil (2 ^ 32) divisor ≤ divCeil (2 ^ 32) divisor * divisor :=
      Nat.le_mul_of_pos_right _ hpos
    omega
  have hprod := mul_reciprocal_lt hpos hle hindex
  have herr : index * e < 2 ^ 32 := by
    calc
      index * e < 2 ^ 26 * 64 := Nat.mul_lt_mul'' hindex (by omega)
      _ = 2 ^ 32 := by decide
  rw [BitVec.toNat_ushiftRight, BitVec.toNat_mul, BitVec.toNat_ofNat,
    Nat.mod_eq_of_lt (by omega : index < 2 ^ 64), Nat.mod_eq_of_lt hprod,
    Nat.shiftRight_eq_div_pow, reciprocal, BitVec.toNat_ofNat, Nat.mod_eq_of_lt hfits]
  exact Words.mul_reciprocal_div hpos hmul herr

theorem cellOf_eq {index : Nat} (hindex : index < s.len) :
    s.cellOf index = index / s.valuesPerLong := by
  rw [cellOf, s.magic_eq]
  exact reciprocal_exact valuesPerLong_pos valuesPerLong_le (hindex.trans s.len_lt)

theorem offsetOf_eq {index : Nat} (hindex : index < s.len) :
    s.offsetOf index = index % s.valuesPerLong * s.bits := by
  rw [offsetOf, cellOf_eq hindex, Nat.mod_eq_sub_div_mul]

theorem cell_lt {index : Nat} (hindex : index < s.len) :
    index / s.valuesPerLong < s.data.length := by
  obtain ⟨e, _, hmul⟩ := divCeil_mul s.len (valuesPerLong_pos (s := s))
  rw [s.data_length, cellsRequired, if_neg (by have := s.bits_pos; omega),
    ← s.valuesPerLong_eq, Nat.div_lt_iff_lt_mul valuesPerLong_pos]
  omega

/-- The cell that the lookup names is the one that `index` falls in, its entries
counted from the first cell on. -/
theorem cellOf_mul_le {index : Nat} (hindex : index < s.len) :
    s.cellOf index * s.valuesPerLong ≤ index := by
  rw [cellOf_eq hindex]
  exact Nat.div_mul_le_self index s.valuesPerLong

theorem lt_cellOf_succ_mul {index : Nat} (hindex : index < s.len) :
    index < (s.cellOf index + 1) * s.valuesPerLong := by
  have hsplit := Nat.lt_div_mul_add valuesPerLong_pos (a := index) (b := s.valuesPerLong)
  rw [cellOf_eq hindex, Nat.add_mul, Nat.one_mul]
  exact hsplit

/-- An entry ends inside its cell. -/
theorem offsetOf_add_bits_le {index : Nat} (hindex : index < s.len) :
    s.offsetOf index + s.bits ≤ 64 := by
  rw [offsetOf_eq hindex]
  exact Words.offset_fits valuesPerLong_pos valuesPerLong_mul_bits_le index

/-- The reciprocal multiplication over all that the constructors admit: the product
stays inside its word and is the division, so the lookup names the cell that holds the
entry, the subtraction for the offset does not go below zero, and the entry lies inside
that cell. -/
theorem cell_lookup_exact :
    (∀ divisor index : Nat, 1 ≤ divisor → divisor ≤ 64 → index < 2 ^ 26 →
      index * (reciprocal divisor).toNat < 2 ^ 64 ∧
        ((BitVec.ofNat 64 index * reciprocal divisor) >>> 32).toNat = index / divisor) ∧
    (∀ bits : Nat, 1 ≤ bits → bits ≤ maxBits → 1 ≤ 64 / bits ∧ 64 / bits ≤ 64) ∧
    (∀ (s : BitStorage) (index : Nat), index < s.len →
      index * s.magic.toNat < 2 ^ 64 ∧
        s.cellOf index = index / s.valuesPerLong ∧
        s.cellOf index < s.data.length ∧
        s.cellOf index * s.valuesPerLong ≤ index ∧
        index < (s.cellOf index + 1) * s.valuesPerLong ∧
        s.offsetOf index + s.bits ≤ 64) := by
  constructor
  · intro divisor index hpos hle hindex
    exact ⟨mul_reciprocal_lt hpos hle hindex, reciprocal_exact hpos hle hindex⟩
  constructor
  · intro bits hpos hle
    unfold maxBits at hle
    exact ⟨Nat.div_pos (by omega) hpos, Nat.div_le_self 64 bits⟩
  · intro s index hindex
    have hproduct : index * s.magic.toNat < 2 ^ 64 := by
      rw [s.magic_eq]
      exact mul_reciprocal_lt valuesPerLong_pos valuesPerLong_le (hindex.trans s.len_lt)
    have hcell : s.cellOf index < s.data.length := by
      rw [cellOf_eq hindex]
      exact cell_lt hindex
    exact ⟨hproduct, cellOf_eq hindex, hcell, cellOf_mul_le hindex,
      lt_cellOf_succ_mul hindex, offsetOf_add_bits_le hindex⟩

/-- The last index at the divisor with the largest error. -/
theorem cell_lookup_exact_last :
    (2 ^ 26 - 1) * (reciprocal 63).toNat < 2 ^ 64 ∧
      ((BitVec.ofNat 64 (2 ^ 26 - 1) * reciprocal 63) >>> 32).toNat = (2 ^ 26 - 1) / 63 :=
  cell_lookup_exact.1 63 (2 ^ 26 - 1) (by decide) (by decide) (by decide)

/-! ## The entries as an array -/

/-- The value of entry `index`, as a total function. -/
def entry (s : BitStorage) (index : Nat) : UInt32 :=
  UInt32.ofBitVec ((Words.entry s.valuesPerLong s.bits s.data index).setWidth 32)

/-- The storage after a write that is in range. -/
def write (s : BitStorage) (index : Nat) (value : UInt32) : BitStorage :=
  s.withData (Words.setEntry s.valuesPerLong s.bits s.data index (value.toBitVec.setWidth 64))
    (Words.length_setEntry ..)

@[simp] theorem len_write (index : Nat) (value : UInt32) : (s.write index value).len = s.len := rfl

@[simp] theorem bits_write (index : Nat) (value : UInt32) :
    (s.write index value).bits = s.bits := rfl

theorem toNat_entry_lt (index : Nat) : (s.entry index).toNat < 2 ^ s.bits := by
  have hlt : (Words.entry s.valuesPerLong s.bits s.data index).toNat < 2 ^ s.bits :=
    Words.toNat_entry_lt bits_lt s.data index
  rw [entry, UInt32.toNat_ofBitVec, BitVec.toNat_setWidth]
  exact (Nat.mod_le _ _).trans_lt hlt

theorem toBitVec_entry (index : Nat) :
    (s.entry index).toBitVec.setWidth 64 =
      Words.entry s.valuesPerLong s.bits s.data index := by
  have hlt : (Words.entry s.valuesPerLong s.bits s.data index).toNat < 2 ^ s.bits :=
    Words.toNat_entry_lt bits_lt s.data index
  have hpow : 2 ^ s.bits ≤ 2 ^ 32 := Nat.pow_le_pow_right (by decide) s.bits_le
  apply BitVec.eq_of_toNat_eq
  simp only [entry, BitVec.toNat_setWidth]
  omega

theorem get_eq {index : Nat} (hindex : index < s.len) : s.get index = some (s.entry index) := by
  rw [get, if_pos hindex, cellOf_eq hindex, offsetOf_eq hindex,
    List.getElem?_eq_getElem (cell_lt hindex), s.mask_eq]
  simp [entry, Words.entry, Words.field, Words.cellAt, List.getD_eq_getElem?_getD,
    cell_lt hindex]

theorem get_eq_none {index : Nat} (hindex : s.len ≤ index) : s.get index = none := by
  rw [get, if_neg (by omega)]

theorem setWidth_toNat_lt {value : UInt32} {bits : Nat} (hvalue : value.toNat < 2 ^ bits) :
    (value.toBitVec.setWidth 64).toNat < 2 ^ bits := by
  rw [BitVec.toNat_setWidth]
  exact (Nat.mod_le _ _).trans_lt hvalue

theorem set_eq {index : Nat} (hindex : index < s.len) {value : UInt32}
    (hvalue : value.toNat < 2 ^ s.bits) :
    s.set index value = some (s.write index value, s.entry index) := by
  have hmask : value.toBitVec.setWidth 64 ≤ s.mask := by
    rw [s.mask_eq, Words.le_mask_iff bits_lt]
    exact setWidth_toNat_lt hvalue
  simp only [set, if_pos hindex, if_pos hmask, cellOf_eq hindex, offsetOf_eq hindex,
    List.getElem?_eq_getElem (cell_lt hindex)]
  simp [s.mask_eq, entry, write, Words.entry, Words.setEntry, Words.field, Words.setField,
    Words.cellAt, List.getD_eq_getElem?_getD, cell_lt hindex]

theorem set_eq_none_of_len_le {index : Nat} (hindex : s.len ≤ index) (value : UInt32) :
    s.set index value = none := by
  rw [set, if_neg (by omega)]

theorem set_eq_none_of_wide (index : Nat) {value : UInt32}
    (hvalue : 2 ^ s.bits ≤ value.toNat) : s.set index value = none := by
  have hmask : ¬ value.toBitVec.setWidth 64 ≤ s.mask := by
    rw [s.mask_eq, Words.le_mask_iff bits_lt, BitVec.toNat_setWidth]
    have := value.toNat_lt
    simp only [UInt32.toNat_toBitVec]
    omega
  simp [set, hmask]

/-- `set` panics exactly when the index or the value is out of range. -/
theorem set_isSome_iff (index : Nat) (value : UInt32) :
    (s.set index value).isSome ↔ index < s.len ∧ value.toNat < 2 ^ s.bits := by
  constructor
  · intro hsome
    constructor
    · by_contra hindex
      simp [set_eq_none_of_len_le (Nat.le_of_not_lt hindex)] at hsome
    · by_contra hvalue
      simp [set_eq_none_of_wide index (Nat.le_of_not_lt hvalue)] at hsome
  · rintro ⟨hindex, hvalue⟩
    simp [set_eq hindex hvalue]

theorem entry_write_same {index : Nat} (hindex : index < s.len) {value : UInt32}
    (hvalue : value.toNat < 2 ^ s.bits) : (s.write index value).entry index = value := by
  have hwords := Words.entry_setEntry_same valuesPerLong_pos bits_lt
    valuesPerLong_mul_bits_le (cell_lt hindex) (setWidth_toNat_lt hvalue)
  apply UInt32.toNat_inj.mp
  rw [entry]
  change ((Words.entry s.valuesPerLong s.bits (Words.setEntry s.valuesPerLong s.bits s.data
    index (value.toBitVec.setWidth 64)) index).setWidth 32).toNat = _
  rw [hwords, BitVec.setWidth_setWidth_of_le _ (by decide), BitVec.setWidth_eq]
  rfl

theorem entry_write_ne {index other : Nat} (hindex : index < s.len) {value : UInt32}
    (hvalue : value.toNat < 2 ^ s.bits) (hne : other ≠ index) :
    (s.write index value).entry other = s.entry other := by
  have hwords := Words.entry_setEntry_ne valuesPerLong_pos bits_lt
    valuesPerLong_mul_bits_le (cell_lt hindex) (setWidth_toNat_lt hvalue) hne
  rw [entry, entry]
  change UInt32.ofBitVec ((Words.entry s.valuesPerLong s.bits (Words.setEntry s.valuesPerLong
    s.bits s.data index (value.toBitVec.setWidth 64)) other).setWidth 32) = _
  rw [hwords]

/-- Writing an entry with the value it has changes nothing. -/
theorem write_entry (s : BitStorage) (index : Nat) : s.write index (s.entry index) = s := by
  have hwords : Words.setEntry s.valuesPerLong s.bits s.data index
      ((s.entry index).toBitVec.setWidth 64) = s.data := by
    rw [toBitVec_entry]
    exact Words.setEntry_entry valuesPerLong_pos bits_lt valuesPerLong_mul_bits_le _ _
  unfold write withData
  simp only [hwords]

/-! ## Padding -/

/-- No bit is set outside the entries: neither the unused high bits of a cell nor
the unused tail of the last one. -/
def Clean (s : BitStorage) : Prop := Words.Clean s.valuesPerLong s.bits s.len s.data

theorem clean_write {index : Nat} (hindex : index < s.len) {value : UInt32}
    (hvalue : value.toNat < 2 ^ s.bits) (hclean : s.Clean) : (s.write index value).Clean :=
  Words.clean_setEntry valuesPerLong_pos bits_lt valuesPerLong_mul_bits_le (cell_lt hindex)
    hindex (setWidth_toNat_lt hvalue) hclean

/-- A storage without stray bits is determined by its shape and its entries. -/
theorem eq_of_entries {s t : BitStorage} (hs : s.Clean) (ht : t.Clean) (hlen : s.len = t.len)
    (hbits : s.bits = t.bits) (hentries : ∀ i < s.len, s.entry i = t.entry i) : s = t := by
  have hper : s.valuesPerLong = t.valuesPerLong := by
    rw [s.valuesPerLong_eq, t.valuesPerLong_eq, hbits]
  have hlength : s.data.length = t.data.length := by
    rw [s.data_length, t.data_length, hlen, hbits]
  have hdata : s.data = t.data := by
    rw [Clean, ← hper, ← hbits, ← hlen] at ht
    apply Words.eq_of_entries valuesPerLong_pos s.bits_pos bits_lt hs ht hlength
    intro i hi
    have hentry := congrArg (fun v : UInt32 => v.toBitVec.setWidth 64) (hentries i hi)
    simpa only [toBitVec_entry, ← hper, ← hbits] using hentry
  have hmagic : s.magic = t.magic := by rw [s.magic_eq, t.magic_eq, hper]
  have hmask : s.mask = t.mask := by rw [s.mask_eq, t.mask_eq, hbits]
  cases s
  cases t
  simp_all

/-! ## `new` -/

theorem new_isSome {len bits : Nat} (hpos : 0 < bits) (hle : bits ≤ maxBits)
    (hlen : len < 2 ^ 26) : (new len bits).isSome := by
  rw [new, dif_pos ⟨hpos, hle⟩, dif_pos hlen]
  rfl

/-- A new storage has the requested shape and holds zeros. -/
theorem new_spec {len bits : Nat} {out : BitStorage} (h : new len bits = some out) :
    out.len = len ∧ out.bits = bits ∧ out.Clean ∧ ∀ i, out.entry i = 0 := by
  unfold new at h
  split at h
  · split at h
    · simp only [Option.some.injEq] at h
      subst h
      refine ⟨rfl, rfl, Words.clean_zero _ _, ?_⟩
      intro i
      apply UInt32.toNat_inj.mp
      have hzero : ∀ c count : Nat, Words.cellAt (List.replicate count 0#64) c = 0#64 := by
        intro c count
        by_cases hc : c < count <;>
          simp [Words.cellAt, List.getD_eq_getElem?_getD, hc]
      simp [entry, Words.entry, Words.field, hzero]
    · simp at h
  · simp at h

/-- The cells determine a storage of known shape. -/
theorem fromData_data (s : BitStorage) : fromData s.len s.bits s.data = some s := by
  have hpos := s.bits_pos
  have hle := s.bits_le
  have hlen := s.len_lt
  rw [fromData, dif_neg (by omega), dif_neg (not_not.mpr s.data_length)]
  obtain ⟨data, len, bits, per, magic, mask, _, _, _, _, rfl, rfl, rfl⟩ := s
  rfl

/-! ## `for_each` -/

theorem visitCell_eq (c : Nat) : ∀ count k : Nat, k + count = s.valuesPerLong →
    s.visitCell count (Words.cellAt s.data c >>> (k * s.bits)) (c * s.valuesPerLong + k) =
      (List.range' (c * s.valuesPerLong + k)
        (min count (s.len - (c * s.valuesPerLong + k)))).map fun i => (i, s.entry i) := by
  intro count
  induction count with
  | zero => intro k _; simp [visitCell]
  | succ count ih =>
      intro k hk
      rw [visitCell]
      by_cases hdone : s.len ≤ c * s.valuesPerLong + k
      · rw [if_pos hdone, Nat.sub_eq_zero_of_le hdone]
        rfl
      · have hmin : min (count + 1) (s.len - (c * s.valuesPerLong + k)) =
            min count (s.len - (c * s.valuesPerLong + (k + 1))) + 1 := by omega
        have hdiv : (c * s.valuesPerLong + k) / s.valuesPerLong = c := by
          rw [Nat.add_comm, Nat.add_mul_div_right _ _ valuesPerLong_pos,
            Nat.div_eq_of_lt (by omega), Nat.zero_add]
        have hmod : (c * s.valuesPerLong + k) % s.valuesPerLong = k := by
          rw [Nat.add_comm, Nat.add_mul_mod_self_right, Nat.mod_eq_of_lt (by omega)]
        have hentry : s.entry (c * s.valuesPerLong + k) = UInt32.ofBitVec
            ((Words.cellAt s.data c >>> (k * s.bits) &&& s.mask).setWidth 32) := by
          rw [entry, Words.entry, hdiv, hmod, Words.field, s.mask_eq]
        have hshift : Words.cellAt s.data c >>> (k * s.bits) >>> s.bits =
            Words.cellAt s.data c >>> ((k + 1) * s.bits) := by
          rw [← BitVec.shiftRight_add, Nat.add_mul, Nat.one_mul]
        rw [if_neg hdone, hmin, List.range'_succ, List.map_cons, ← hentry, hshift,
          Nat.add_assoc, ih (k + 1) (by omega)]

theorem visitCells_eq : ∀ (cells : List (BitVec 64)) (c : Nat), cells = s.data.drop c →
    s.visitCells cells (c * s.valuesPerLong) =
      (List.range' (c * s.valuesPerLong) (s.len - c * s.valuesPerLong)).map
        fun i => (i, s.entry i) := by
  intro cells
  induction cells with
  | nil =>
      intro c hcells
      have hc : s.data.length ≤ c := by
        have := congrArg List.length hcells
        simp only [List.length_nil, List.length_drop] at this
        omega
      have hend : s.len ≤ c * s.valuesPerLong := by
        by_contra hlt
        have hcell : c * s.valuesPerLong / s.valuesPerLong < s.data.length := cell_lt (by omega)
        rw [Nat.mul_div_cancel _ valuesPerLong_pos] at hcell
        omega
      rw [visitCells, Nat.sub_eq_zero_of_le hend]
      rfl
  | cons cell cells ih =>
      intro c hcells
      have hc : c < s.data.length := by
        have := congrArg List.length hcells
        simp only [List.length_cons, List.length_drop] at this
        omega
      rw [List.drop_eq_getElem_cons hc, List.cons.injEq] at hcells
      obtain ⟨hcell, hrest⟩ := hcells
      have hhead : Words.cellAt s.data c = cell := by
        simp [Words.cellAt, List.getD_eq_getElem?_getD, hc, hcell]
      have hvisit := visitCell_eq (s := s) c s.valuesPerLong 0 (by omega)
      rw [Nat.zero_mul, BitVec.ushiftRight_zero, hhead, Nat.add_zero] at hvisit
      have hnext := ih (c + 1) hrest
      rw [Nat.add_mul, Nat.one_mul] at hnext
      rw [visitCells, hvisit, hnext, ← List.map_append]
      congr 1
      by_cases hlast : s.len ≤ c * s.valuesPerLong + s.valuesPerLong
      · rw [Nat.sub_eq_zero_of_le hlast, List.range'_zero, List.append_nil,
          Nat.min_eq_right (by omega)]
      · rw [Nat.min_eq_left (by omega),
          show s.len - c * s.valuesPerLong =
            s.valuesPerLong + (s.len - (c * s.valuesPerLong + s.valuesPerLong)) by omega,
          ← List.range'_append_1]

/-- `for_each` visits every index once, in order, with the value `get` reads. -/
theorem forEach_eq : s.forEach = (List.range s.len).map fun i => (i, s.entry i) := by
  have hall := visitCells_eq (s := s) s.data 0 rfl
  rw [Nat.zero_mul, Nat.sub_zero, ← List.range_eq_range'] at hall
  exact hall

/-! ## Writing every entry -/

theorem setEach_range_succ (out : BitStorage) (e : Nat → UInt32) (f : UInt32 → Option UInt32)
    (n : Nat) :
    out.setEach ((List.range (n + 1)).map fun i => (i, e i)) f =
      (out.setEach ((List.range n).map fun i => (i, e i)) f).bind fun t =>
        (f (e n)).bind fun v => (t.set n v).map Prod.fst := by
  rw [setEach, setEach, List.range_succ, List.map_append, List.foldlM_append]
  simp [Option.map_eq_bind]

/-- What a completed sweep over the first `n` entries leaves behind. -/
theorem setEach_spec {out t : BitStorage} {e : Nat → UInt32} {f : UInt32 → Option UInt32}
    {n : Nat} (h : out.setEach ((List.range n).map fun i => (i, e i)) f = some t) :
    t.len = out.len ∧ t.bits = out.bits ∧ (out.Clean → t.Clean) ∧
      ∀ i < n, ∃ v, f (e i) = some v ∧ v.toNat < 2 ^ out.bits ∧ t.entry i = v := by
  induction n generalizing t with
  | zero =>
      simp only [setEach, List.range_zero, List.map_nil, List.foldlM_nil, Option.pure_def,
        Option.some.injEq] at h
      subst h
      exact ⟨rfl, rfl, id, by omega⟩
  | succ n ih =>
      rw [setEach_range_succ] at h
      simp only [Option.bind_eq_some_iff, Option.map_eq_some_iff, Prod.exists] at h
      obtain ⟨mid, hmid, v, hv, t', previous, hset, rfl⟩ := h
      obtain ⟨hlen, hbits, hclean, hentries⟩ := ih hmid
      have hrange := (set_isSome_iff (s := mid) n v).mp (by rw [hset]; rfl)
      rw [set_eq hrange.1 hrange.2, Option.some.injEq, Prod.mk.injEq] at hset
      obtain ⟨rfl, -⟩ := hset
      refine ⟨hlen, hbits, fun hout => clean_write hrange.1 hrange.2 (hclean hout), ?_⟩
      intro i hi
      by_cases hlast : i = n
      · subst hlast
        exact ⟨v, hv, hbits ▸ hrange.2, entry_write_same hrange.1 hrange.2⟩
      · obtain ⟨u, hu, hlt, hentry⟩ := hentries i (by omega)
        exact ⟨u, hu, hlt, (entry_write_ne hrange.1 hrange.2 hlast).trans hentry⟩

/-- A sweep completes when every value exists and fits. -/
theorem setEach_isSome {out : BitStorage} {e : Nat → UInt32} {f : UInt32 → Option UInt32}
    {n : Nat} (hn : n ≤ out.len)
    (hf : ∀ i < n, ∃ v, f (e i) = some v ∧ v.toNat < 2 ^ out.bits) :
    (out.setEach ((List.range n).map fun i => (i, e i)) f).isSome := by
  induction n with
  | zero => rfl
  | succ n ih =>
      obtain ⟨mid, hmid⟩ := Option.isSome_iff_exists.mp
        (ih (by omega) fun i hi => hf i (by omega))
      obtain ⟨hlen, hbits, -⟩ := setEach_spec hmid
      obtain ⟨v, hv, hlt⟩ := hf n (by omega)
      rw [setEach_range_succ, hmid, Option.bind_some, hv, Option.bind_some,
        set_eq (by omega) (by rw [hbits]; exact hlt)]
      rfl

/-- A sweep that writes the values that are there changes nothing. -/
theorem setEach_entries {e : Nat → UInt32} {n : Nat} (hn : n ≤ s.len)
    (he : ∀ i < n, e i = s.entry i) :
    s.setEach ((List.range n).map fun i => (i, e i)) some = some s := by
  induction n with
  | zero => rfl
  | succ n ih =>
      rw [setEach_range_succ, ih (by omega) fun i hi => he i (by omega), Option.bind_some,
        Option.bind_some, he n (by omega), set_eq (by omega) (toNat_entry_lt n), write_entry]
      rfl

/-- What a completed `remap` returns. -/
theorem remap_spec {newBits : Nat} {f : UInt32 → Option UInt32} {t : BitStorage}
    (h : s.remap newBits f = some t) :
    t.len = s.len ∧ t.bits = newBits ∧ t.Clean ∧
      ∀ i < s.len, ∃ v, f (s.entry i) = some v ∧ v.toNat < 2 ^ newBits ∧ t.entry i = v := by
  simp only [remap, Option.bind_eq_bind, Option.bind_eq_some_iff] at h
  obtain ⟨out, hnew, hsweep⟩ := h
  obtain ⟨hlen, hbits, hclean, -⟩ := new_spec hnew
  rw [forEach_eq] at hsweep
  obtain ⟨hlen', hbits', hclean', hentries⟩ := setEach_spec hsweep
  exact ⟨hlen'.trans hlen, hbits'.trans hbits, hclean' hclean, hbits ▸ hentries⟩

/-- `remap` completes when every mapped entry exists and fits the new width. -/
theorem remap_isSome {newBits : Nat} {f : UInt32 → Option UInt32} (hpos : 0 < newBits)
    (hle : newBits ≤ maxBits)
    (hf : ∀ i < s.len, ∃ v, f (s.entry i) = some v ∧ v.toNat < 2 ^ newBits) :
    (s.remap newBits f).isSome := by
  obtain ⟨out, hnew⟩ := Option.isSome_iff_exists.mp (new_isSome hpos hle s.len_lt)
  obtain ⟨hlen, hbits, -⟩ := new_spec hnew
  simp only [remap, Option.bind_eq_bind, hnew, Option.bind_some, forEach_eq]
  exact setEach_isSome (by omega) (by rw [hbits]; exact hf)

end BitStorage

end Rukkit.World
