import Rukkit.Lib.Words
import Rukkit.Protocol.Error

/-!
# VarInt and VarLong

The model of `rukkit-protocol/src/varint.rs`.  The two widths run the same loops,
which are written once over words of any width; seven bits go into a byte, the
low ones first, and the high bit says that more follow.
-/

namespace Rukkit.Protocol

open Rukkit.Lib

/-- Maximum encoded length of a VarInt. -/
def maxVarintBytes : Nat := 5

/-- Maximum encoded length of a VarLong. -/
def maxVarlongBytes : Nat := 10

section Loops

variable {w : Nat}

/-- The number of bytes `bits.saturating_sub(1) / 7 + 1` for the significant bits
of a word. -/
def groupsLen (value : BitVec w) : Nat := (w - value.clz.toNat - 1) / 7 + 1

/-- The write loop.  The source loops until the rest fits one byte; `fuel` bounds
the number of bytes and is never reached (`writeGroups_ne_nil` and the round trip
below hold for the fuel in use). -/
def writeGroups : (fuel : Nat) → (v : BitVec w) → Bytes
  | 0, _ => []
  | fuel + 1, v =>
      if v &&& ~~~0x7F#w = 0#w then [UInt8.ofBitVec (v.setWidth 8)]
      else (UInt8.ofBitVec (v.setWidth 8) &&& 0x7F ||| 0x80) :: writeGroups fuel (v >>> 7)

/-- The read loop over the first `limit` bytes: `value` is what the bytes so far
denote, `shift` where the next group goes and `i` how many bytes were read. -/
def readGroups : (limit : Nat) → (buf : Bytes) → (value : BitVec w) → (shift i : Nat) →
    Option (BitVec w × Nat)
  | limit + 1, byte :: buf, value, shift, i =>
      let value := value ||| ((byte &&& 0x7F).toBitVec.setWidth w <<< shift)
      if byte &&& 0x80 = 0 then some (value, i + 1)
      else readGroups limit buf value (shift + 7) (i + 1)
  | _, _, _, _, _ => none

end Loops

/-- Bytes `writeVarint` will emit for `value`. -/
def varintLen (value : Int32) : Nat := groupsLen value.toBitVec

/-- Bytes `writeVarlong` will emit for `value`. -/
def varlongLen (value : Int64) : Nat := groupsLen value.toBitVec

def writeVarint (value : Int32) : Bytes := writeGroups maxVarintBytes value.toBitVec

def writeVarlong (value : Int64) : Bytes := writeGroups maxVarlongBytes value.toBitVec

/-- Reads a VarInt from the front of `buf`, returning it and the bytes consumed. -/
def readVarint (buf : Bytes) : Except ProtocolError (Int32 × Nat) :=
  let limit := if buf.length < maxVarintBytes then buf.length else maxVarintBytes
  match readGroups limit buf 0#32 0 0 with
  | some (value, used) => .ok (Int32.ofBitVec value, used)
  | none =>
      if buf.length < maxVarintBytes then .error (.unexpectedEof 1 0)
      else .error (.varIntTooLong maxVarintBytes)

def readVarlong (buf : Bytes) : Except ProtocolError (Int64 × Nat) :=
  let limit := if buf.length < maxVarlongBytes then buf.length else maxVarlongBytes
  match readGroups limit buf 0#64 0 0 with
  | some (value, used) => .ok (Int64.ofBitVec value, used)
  | none =>
      if buf.length < maxVarlongBytes then .error (.unexpectedEof 1 0)
      else .error (.varIntTooLong maxVarlongBytes)

/-! ## One group -/

section Groups

variable {w : Nat}

theorem and_not_low_eq_zero_iff (v : BitVec w) :
    v &&& ~~~0x7F#w = 0#w ↔ v.toNat < 128 := by
  have hlow : ∀ i, (0x7F#w).getLsbD i = (decide (i < w) && decide (i < 7)) := by
    intro i
    rw [BitVec.getLsbD_ofNat, show 0x7F = 2 ^ 7 - 1 from rfl, Nat.testBit_two_pow_sub_one]
  constructor
  · intro h
    apply Nat.lt_pow_two_of_testBit (n := 7)
    intro i hi
    by_cases hiw : i < w
    · have hbit := congrArg (fun u => u.getLsbD i) h
      simp only [BitVec.getLsbD_and, BitVec.getLsbD_not, hlow, BitVec.getLsbD_zero] at hbit
      have hnot : ¬ i < 7 := by omega
      change v.getLsbD i = false
      simpa [hiw, hnot] using hbit
    · exact BitVec.getLsbD_of_ge v i (by omega)
  · intro h
    apply BitVec.eq_of_getLsbD_eq
    intro i hiw
    simp only [BitVec.getLsbD_and, BitVec.getLsbD_not, hlow, BitVec.getLsbD_zero]
    by_cases hi : i < 7
    · simp [hiw, hi]
    · have hzero : v.getLsbD i = false :=
        Nat.testBit_lt_two_pow (h.trans_le (Nat.pow_le_pow_right (n := 2) (by decide)
          (by omega : 7 ≤ i)))
      simp [hzero]

/-- The seven low bits and the rest make up the word again. -/
theorem low_or_rest (v : BitVec w) (shift : Nat) :
    ((UInt8.ofBitVec (v.setWidth 8) &&& 0x7F ||| 0x80) &&& 0x7F).toBitVec.setWidth w <<< shift |||
      (v >>> 7) <<< (shift + 7) = v <<< shift := by
  apply BitVec.eq_of_getLsbD_eq
  intro i hi
  have hseven : ∀ j, (0x7F#8).getLsbD j = decide (j < 7) := by
    intro j
    rw [BitVec.getLsbD_ofNat, show 0x7F = 2 ^ 7 - 1 from rfl, Nat.testBit_two_pow_sub_one]
    by_cases hj : j < 8
    · simp [hj]
    · simp [hj]
      omega
  have height : ∀ j, (0x80#8).getLsbD j = decide (j = 7) := by
    intro j
    rw [BitVec.getLsbD_ofNat, show 0x80 = 2 ^ 7 from rfl, Nat.testBit_two_pow]
    by_cases hj : j < 8
    · simp [hj, eq_comm]
    · simp [hj]
      omega
  simp only [UInt8.toBitVec_and, UInt8.toBitVec_or, UInt8.toBitVec_ofNat, BitVec.getLsbD_or,
    BitVec.getLsbD_shiftLeft, BitVec.getLsbD_setWidth, BitVec.getLsbD_and, hseven,
    height, BitVec.getLsbD_ushiftRight]
  by_cases hlow : i < shift
  · simp [hlow, show i < shift + 7 by omega]
  · by_cases hgroup : i < shift + 7
    · have hj : i - shift < 7 := by omega
      simp [hlow, hgroup, hi, hj, show i - shift < 8 by omega, show i - shift ≠ 7 by omega,
        show i - shift < w by omega]
    · have hj : ¬ i - shift < 7 := by omega
      simp [hlow, hgroup, hi, hj, show 7 + (i - (shift + 7)) = i - shift by omega]

theorem last_group {v : BitVec w} (h : v.toNat < 128) :
    (UInt8.ofBitVec (v.setWidth 8) &&& 0x7F).toBitVec.setWidth w = v ∧
      UInt8.ofBitVec (v.setWidth 8) &&& 0x80 = 0 := by
  constructor
  · apply BitVec.eq_of_toNat_eq
    have hlow : v.toNat &&& 127 = v.toNat := by
      rw [show 127 = 2 ^ 7 - 1 from rfl, Nat.and_two_pow_sub_one_eq_mod]
      omega
    rw [BitVec.toNat_setWidth, UInt8.toNat_toBitVec, UInt8.toNat_and, UInt8.toNat_ofBitVec,
      BitVec.toNat_setWidth, Nat.mod_eq_of_lt (by omega : v.toNat < 2 ^ 8)]
    change (v.toNat &&& 127) % 2 ^ w = v.toNat
    rw [hlow, Nat.mod_eq_of_lt v.isLt]
  · apply UInt8.toNat_inj.mp
    have hhigh : v.toNat &&& 128 = 0 := by
      rw [show 128 = 2 ^ 7 from rfl, Nat.and_two_pow, Nat.testBit_lt_two_pow h]
      rfl
    simp [Nat.mod_eq_of_lt (by omega : v.toNat < 256), hhigh]

theorem continuation_ne_zero (b : UInt8) : (b &&& 0x7F ||| 0x80) &&& 0x80 ≠ 0 := by
  have habsorb : (b &&& 0x7F ||| 0x80) &&& 0x80 = 0x80 := by
    apply UInt8.toBitVec_inj.mp
    apply BitVec.eq_of_getLsbD_eq
    intro i _
    simp only [UInt8.toBitVec_and, UInt8.toBitVec_or, BitVec.getLsbD_and, BitVec.getLsbD_or]
    cases (UInt8.toBitVec 0x80).getLsbD i <;> simp
  rw [habsorb]
  decide

end Groups

/-! ## The loops -/

section Loops

variable {w : Nat}

theorem writeGroups_one {v : BitVec w} (h : v.toNat < 128) (fuel : Nat) :
    writeGroups (fuel + 1) v = [UInt8.ofBitVec (v.setWidth 8)] := by
  rw [writeGroups, if_pos ((and_not_low_eq_zero_iff v).mpr h)]

theorem writeGroups_more {v : BitVec w} (h : 128 ≤ v.toNat) (fuel : Nat) :
    writeGroups (fuel + 1) v =
      (UInt8.ofBitVec (v.setWidth 8) &&& 0x7F ||| 0x80) :: writeGroups fuel (v >>> 7) := by
  rw [writeGroups, if_neg (by rw [and_not_low_eq_zero_iff]; omega)]

theorem toNat_ushiftRight_lt {v : BitVec w} {fuel : Nat} (h : v.toNat < 128 ^ (fuel + 2)) :
    (v >>> 7).toNat < 128 ^ (fuel + 1) := by
  rw [BitVec.toNat_ushiftRight, Nat.shiftRight_eq_div_pow, Nat.div_lt_iff_lt_mul (by decide)]
  exact h

/-- The read loop undoes the write loop, whatever follows. -/
theorem readGroups_writeGroups (suffix : Bytes) : ∀ {fuel : Nat} {v : BitVec w},
    v.toNat < 128 ^ (fuel + 1) → ∀ {limit : Nat} (acc : BitVec w) (shift i : Nat),
      (writeGroups (fuel + 1) v).length ≤ limit →
        readGroups limit (writeGroups (fuel + 1) v ++ suffix) acc shift i =
          some (acc ||| v <<< shift, i + (writeGroups (fuel + 1) v).length) := by
  intro fuel
  induction fuel with
  | zero =>
      intro v hv limit acc shift i hlimit
      rw [writeGroups_one (by simpa using hv)] at hlimit ⊢
      obtain ⟨limit, rfl⟩ := Nat.exists_eq_add_of_le' hlimit
      obtain ⟨hvalue, hstop⟩ := last_group (by simpa using hv)
      rw [List.singleton_append, List.length_singleton, readGroups, if_pos hstop, hvalue]
  | succ fuel ih =>
      intro v hv limit acc shift i hlimit
      by_cases hlast : v.toNat < 128
      · rw [writeGroups_one hlast] at hlimit ⊢
        obtain ⟨limit, rfl⟩ := Nat.exists_eq_add_of_le' hlimit
        obtain ⟨hvalue, hstop⟩ := last_group hlast
        rw [List.singleton_append, List.length_singleton, readGroups, if_pos hstop, hvalue]
      · rw [writeGroups_more (by omega)] at hlimit ⊢
        rw [List.length_cons] at hlimit
        obtain ⟨limit, rfl⟩ := Nat.exists_eq_add_of_le' (by omega : 1 ≤ limit)
        rw [List.cons_append, readGroups, if_neg (continuation_ne_zero _),
          ih (toNat_ushiftRight_lt hv) _ _ _ (by omega), BitVec.or_assoc, low_or_rest,
          List.length_cons, Nat.add_assoc i, Nat.add_comm 1]

/-- Input that stops inside an encoding is not a number. -/
theorem readGroups_truncated : ∀ {fuel : Nat} {v : BitVec w} {p q : Bytes},
    writeGroups fuel v = p ++ q → q ≠ [] → ∀ (limit : Nat) (acc : BitVec w) (shift i : Nat),
      readGroups limit p acc shift i = none := by
  intro fuel
  induction fuel with
  | zero =>
      intro v p q h hq
      rw [writeGroups, List.nil_eq, List.append_eq_nil_iff] at h
      exact absurd h.2 hq
  | succ fuel ih =>
      intro v p q h hq limit acc shift i
      cases p with
      | nil => cases limit <;> rfl
      | cons byte p =>
          cases limit with
          | zero => rfl
          | succ limit =>
              by_cases hlast : v.toNat < 128
              · rw [writeGroups_one hlast, List.cons_append, List.cons.injEq] at h
                exact absurd (List.append_eq_nil_iff.mp h.2.symm).2 hq
              · rw [writeGroups_more (by omega), List.cons_append, List.cons.injEq] at h
                obtain ⟨rfl, hrest⟩ := h
                rw [readGroups, if_neg (continuation_ne_zero _)]
                exact ih hrest hq limit _ _ _

theorem readGroups_used : ∀ {limit : Nat} {buf : Bytes} {acc value : BitVec w}
    {shift i used : Nat}, readGroups limit buf acc shift i = some (value, used) →
      i < used ∧ used ≤ i + limit ∧ used ≤ i + buf.length := by
  intro limit
  induction limit with
  | zero =>
      intro buf acc value shift i used h
      simp [readGroups] at h
  | succ limit ih =>
      intro buf acc value shift i used h
      cases buf with
      | nil => simp [readGroups] at h
      | cons byte buf =>
          rw [readGroups] at h
          split at h
          · simp only [Option.some.injEq, Prod.mk.injEq] at h
            rw [List.length_cons]
            omega
          · have := ih h
            rw [List.length_cons]
            omega

/-- Bytes beyond those read make no difference. -/
theorem readGroups_append (more : Bytes) : ∀ {limit : Nat} {buf : Bytes} (acc : BitVec w)
    (shift i : Nat), limit ≤ buf.length →
      readGroups limit (buf ++ more) acc shift i = readGroups limit buf acc shift i := by
  intro limit
  induction limit with
  | zero => intro buf acc shift i _; rfl
  | succ limit ih =>
      intro buf acc shift i hlimit
      cases buf with
      | nil => simp at hlimit
      | cons byte buf =>
          rw [List.cons_append, readGroups, readGroups, ih]
          rw [List.length_cons] at hlimit
          omega

/-- A number that was read is read again with more bytes at hand. -/
theorem readGroups_mono (more : Bytes) : ∀ {limit limit' : Nat} {buf : Bytes} {acc : BitVec w}
    {shift i : Nat} {result : BitVec w × Nat}, readGroups limit buf acc shift i = some result →
      limit ≤ limit' → readGroups limit' (buf ++ more) acc shift i = some result := by
  intro limit
  induction limit with
  | zero =>
      intro limit' buf acc shift i result h
      simp [readGroups] at h
  | succ limit ih =>
      intro limit' buf acc shift i result h hlimit
      obtain ⟨limit', rfl⟩ := Nat.exists_eq_add_of_le' (by omega : 1 ≤ limit')
      cases buf with
      | nil => simp [readGroups] at h
      | cons byte buf =>
          rw [readGroups] at h
          rw [List.cons_append, readGroups]
          split at h
          · rename_i hlast
            rw [if_pos hlast]
            exact h
          · rename_i hmore
            rw [if_neg hmore]
            exact ih h (by omega)

theorem length_writeGroups_pos (fuel : Nat) (v : BitVec w) :
    0 < (writeGroups (fuel + 1) v).length := by
  by_cases h : v.toNat < 128
  · rw [writeGroups_one h]
    simp
  · rw [writeGroups_more (by omega)]
    simp

theorem length_writeGroups_le : ∀ (fuel : Nat) (v : BitVec w),
    (writeGroups fuel v).length ≤ fuel := by
  intro fuel
  induction fuel with
  | zero => intro v; simp [writeGroups]
  | succ fuel ih =>
      intro v
      rw [writeGroups]
      split
      · simp
      · have := ih (v >>> 7)
        rw [List.length_cons]
        omega

theorem groupsLen_one {v : BitVec w} (h : v.toNat < 128) : groupsLen v = 1 := by
  have hsize : v.toNat.size ≤ 7 := Nat.size_le.mpr h
  rw [groupsLen, Words.sub_clz_eq_size]
  omega

theorem groupsLen_more {v : BitVec w} (h : 128 ≤ v.toNat) :
    groupsLen v = groupsLen (v >>> 7) + 1 := by
  have hshift : (v >>> 7).toNat = v.toNat / 128 := by
    rw [BitVec.toNat_ushiftRight, Nat.shiftRight_eq_div_pow]
  have hlarge : 7 < v.toNat.size := Nat.lt_size.mpr h
  have hsize : v.toNat.size = (v.toNat / 128).size + 7 := by
    apply Nat.le_antisymm
    · rw [Nat.size_le, Nat.pow_add]
      have := Nat.lt_size_self (v.toNat / 128)
      omega
    · have hle : (v.toNat / 128).size ≤ v.toNat.size - 7 := by
        rw [Nat.size_le, Nat.div_lt_iff_lt_mul (by decide), show 128 = 2 ^ 7 from rfl,
          ← Nat.pow_add, Nat.sub_add_cancel hlarge.le]
        exact Nat.lt_size_self v.toNat
      omega
  rw [groupsLen, groupsLen, Words.sub_clz_eq_size, Words.sub_clz_eq_size, hshift]
  omega

/-- The length formula counts the bytes of the write loop. -/
theorem length_writeGroups : ∀ {fuel : Nat} {v : BitVec w}, v.toNat < 128 ^ (fuel + 1) →
    (writeGroups (fuel + 1) v).length = groupsLen v := by
  intro fuel
  induction fuel with
  | zero =>
      intro v hv
      rw [writeGroups_one (by simpa using hv), groupsLen_one (by simpa using hv)]
      rfl
  | succ fuel ih =>
      intro v hv
      by_cases hlast : v.toNat < 128
      · rw [writeGroups_one hlast, groupsLen_one hlast]
        rfl
      · rw [writeGroups_more (by omega), groupsLen_more (by omega), List.length_cons,
          ih (toNat_ushiftRight_lt hv)]

end Loops

/-! ## Both widths -/

/-- The three functions are the loops over words of `w` bits and at most `max` bytes. -/
structure RunsLoops {w : Nat} {α : Type} (max : Nat) (bits : α → BitVec w)
    (read : Bytes → Except ProtocolError (α × Nat)) (write : α → Bytes) (len : α → Nat) :
    Prop where
  max_pos : 0 < max
  wide : 2 ^ w ≤ 128 ^ max
  bits_inj : Function.Injective bits
  read_some : ∀ buf value used,
    readGroups (if buf.length < max then buf.length else max) buf 0#w 0 0 = some (value, used) →
      ∃ v, bits v = value ∧ read buf = .ok (v, used)
  read_none : ∀ buf,
    readGroups (if buf.length < max then buf.length else max) buf 0#w 0 0 = none →
      read buf = if buf.length < max then .error (.unexpectedEof 1 0)
        else .error (.varIntTooLong max)
  write_eq : ∀ v, write v = writeGroups max (bits v)
  len_eq : ∀ v, len v = groupsLen (bits v)

theorem readVarint_runsLoops :
    RunsLoops maxVarintBytes Int32.toBitVec readVarint writeVarint varintLen where
  max_pos := by decide
  wide := by decide
  bits_inj := fun a b h => Int32.toBitVec_inj.mp h
  read_some := by
    intro buf value used hgroups
    refine ⟨Int32.ofBitVec value, rfl, ?_⟩
    rw [readVarint, hgroups]
  read_none := by
    intro buf hgroups
    rw [readVarint, hgroups]
  write_eq := fun v => rfl
  len_eq := fun v => rfl

theorem readVarlong_runsLoops :
    RunsLoops maxVarlongBytes Int64.toBitVec readVarlong writeVarlong varlongLen where
  max_pos := by decide
  wide := by decide
  bits_inj := fun a b h => Int64.toBitVec_inj.mp h
  read_some := by
    intro buf value used hgroups
    refine ⟨Int64.ofBitVec value, rfl, ?_⟩
    rw [readVarlong, hgroups]
  read_none := by
    intro buf hgroups
    rw [readVarlong, hgroups]
  write_eq := fun v => rfl
  len_eq := fun v => rfl

namespace RunsLoops

variable {w max : Nat} {α : Type} {bits : α → BitVec w}
  {read : Bytes → Except ProtocolError (α × Nat)} {write : α → Bytes} {len : α → Nat}
  (h : RunsLoops max bits read write len)

include h

theorem ok_iff_groups {buf : Bytes} {v : α} {n : Nat} : read buf = .ok (v, n) ↔
    readGroups (if buf.length < max then buf.length else max) buf 0#w 0 0 = some (bits v, n) := by
  constructor
  · intro hread
    cases hgroups : readGroups (if buf.length < max then buf.length else max) buf 0#w 0 0 with
    | none =>
        have hnone := h.read_none buf hgroups
        rw [hread] at hnone
        split at hnone <;> simp at hnone
    | some result =>
        obtain ⟨u, hu, hok⟩ := h.read_some buf result.1 result.2 hgroups
        rw [hread, Except.ok.injEq, Prod.mk.injEq] at hok
        rw [hok.1, hok.2, hu]
  · intro hgroups
    obtain ⟨u, hu, hok⟩ := h.read_some buf (bits v) n hgroups
    rw [hok, h.bits_inj hu]

theorem toNat_bits_lt (v : α) : (bits v).toNat < 128 ^ max := (bits v).isLt.trans_le h.wide

theorem length_write (v : α) : (write v).length = len v := by
  obtain ⟨fuel, hfuel⟩ := Nat.exists_eq_add_of_le' h.max_pos
  have hbits := h.toNat_bits_lt v
  rw [hfuel] at hbits
  rw [h.write_eq, h.len_eq, hfuel]
  exact length_writeGroups hbits

theorem length_write_pos (v : α) : 0 < (write v).length := by
  obtain ⟨fuel, hfuel⟩ := Nat.exists_eq_add_of_le' h.max_pos
  rw [h.write_eq, hfuel]
  exact length_writeGroups_pos fuel (bits v)

theorem length_write_le (v : α) : (write v).length ≤ max := by
  rw [h.write_eq]
  exact length_writeGroups_le max (bits v)

/-- Reading what was written gives the value back and consumes exactly its bytes. -/
theorem read_write (v : α) (suffix : Bytes) :
    read (write v ++ suffix) = .ok (v, (write v).length) := by
  obtain ⟨fuel, hfuel⟩ := Nat.exists_eq_add_of_le' h.max_pos
  have hbits := h.toNat_bits_lt v
  have hlimit : (write v).length ≤
      if (write v ++ suffix).length < max then (write v ++ suffix).length else max := by
    have hle := h.length_write_le v
    rw [List.length_append]
    split <;> omega
  have hwrite := h.write_eq v
  rw [hfuel] at hbits hwrite
  rw [hwrite] at hlimit
  have hgroups := readGroups_writeGroups suffix hbits 0#w 0 0 hlimit
  rw [← hwrite, BitVec.zero_or, BitVec.shiftLeft_zero, Nat.zero_add] at hgroups
  exact h.ok_iff_groups.mpr hgroups

/-- A truncated number asks for more input; it is never taken for a malformed one. -/
theorem read_prefix {v : α} {p q : Bytes} (hwrite : write v = p ++ q) (hq : q ≠ []) :
    read p = .error (.unexpectedEof 1 0) := by
  have hshort : p.length < max := by
    have hle := h.length_write_le v
    have hpos := List.length_pos_iff.mpr hq
    rw [hwrite, List.length_append] at hle
    omega
  rw [h.write_eq] at hwrite
  have hread := h.read_none p (readGroups_truncated hwrite hq _ _ _ _)
  rwa [if_pos hshort] at hread

theorem used_le {buf : Bytes} {v : α} {used : Nat} (hread : read buf = .ok (v, used)) :
    0 < used ∧ used ≤ max ∧ used ≤ buf.length := by
  have hused := readGroups_used (h.ok_iff_groups.mp hread)
  split at hused <;> omega

/-- Only input that more bytes could complete asks for more. -/
theorem length_lt_of_eof {buf : Bytes} {needed available : Nat}
    (hread : read buf = .error (.unexpectedEof needed available)) : buf.length < max := by
  cases hgroups : readGroups (if buf.length < max then buf.length else max) buf 0#w 0 0 with
  | none =>
      have hnone := h.read_none buf hgroups
      rw [hread] at hnone
      split at hnone
      · assumption
      · simp at hnone
  | some result =>
      obtain ⟨u, _, hok⟩ := h.read_some buf result.1 result.2 hgroups
      rw [hread] at hok
      simp at hok

/-- What is read, or refused, does not change when more bytes follow. -/
theorem read_append {buf : Bytes} (more : Bytes)
    (heof : ∀ needed available, read buf ≠ .error (.unexpectedEof needed available)) :
    read (buf ++ more) = read buf := by
  have hlength : (buf ++ more).length = buf.length + more.length := List.length_append
  cases hgroups : readGroups (if buf.length < max then buf.length else max) buf 0#w 0 0 with
  | none =>
      have hnone := h.read_none buf hgroups
      by_cases hshort : buf.length < max
      · rw [if_pos hshort] at hnone
        exact absurd hnone (heof 1 0)
      · have hlong : ¬ (buf ++ more).length < max := by omega
        have hmore := readGroups_append more 0#w 0 0 (Nat.le_of_not_lt hshort)
        rw [if_neg hshort] at hgroups
        rw [hnone, h.read_none (buf ++ more) (by rw [if_neg hlong, hmore, hgroups]),
          if_neg hlong, if_neg hshort]
  | some result =>
      obtain ⟨v, hv, hok⟩ := h.read_some buf result.1 result.2 hgroups
      have hmore := readGroups_mono more hgroups
        (show _ ≤ if (buf ++ more).length < max then (buf ++ more).length else max by
          split <;> split <;> omega)
      rw [hok]
      apply h.ok_iff_groups.mpr
      rw [hmore, hv]

end RunsLoops

/-! ## VarInt -/

theorem length_writeVarint (value : Int32) : (writeVarint value).length = varintLen value :=
  readVarint_runsLoops.length_write value

theorem length_writeVarlong (value : Int64) : (writeVarlong value).length = varlongLen value :=
  readVarlong_runsLoops.length_write value

theorem length_writeVarint_pos (value : Int32) : 0 < (writeVarint value).length :=
  readVarint_runsLoops.length_write_pos value

theorem length_writeVarint_le (value : Int32) : (writeVarint value).length ≤ maxVarintBytes :=
  readVarint_runsLoops.length_write_le value

theorem readVarint_writeVarint (value : Int32) (suffix : Bytes) :
    readVarint (writeVarint value ++ suffix) = .ok (value, (writeVarint value).length) :=
  readVarint_runsLoops.read_write value suffix

theorem readVarlong_writeVarlong (value : Int64) (suffix : Bytes) :
    readVarlong (writeVarlong value ++ suffix) = .ok (value, (writeVarlong value).length) :=
  readVarlong_runsLoops.read_write value suffix

theorem readVarint_prefix {value : Int32} {p q : Bytes} (h : writeVarint value = p ++ q)
    (hq : q ≠ []) : readVarint p = .error (.unexpectedEof 1 0) :=
  readVarint_runsLoops.read_prefix h hq

theorem readVarint_used {buf : Bytes} {value : Int32} {used : Nat}
    (h : readVarint buf = .ok (value, used)) :
    0 < used ∧ used ≤ maxVarintBytes ∧ used ≤ buf.length :=
  readVarint_runsLoops.used_le h

theorem readVarlong_used {buf : Bytes} {value : Int64} {used : Nat}
    (h : readVarlong buf = .ok (value, used)) :
    0 < used ∧ used ≤ maxVarlongBytes ∧ used ≤ buf.length :=
  readVarlong_runsLoops.used_le h

theorem readVarint_eof {buf : Bytes} {needed available : Nat}
    (h : readVarint buf = .error (.unexpectedEof needed available)) :
    buf.length < maxVarintBytes :=
  readVarint_runsLoops.length_lt_of_eof h

theorem readVarint_append {buf : Bytes} (more : Bytes)
    (h : ∀ needed available, readVarint buf ≠ .error (.unexpectedEof needed available)) :
    readVarint (buf ++ more) = readVarint buf :=
  readVarint_runsLoops.read_append more h

end Rukkit.Protocol
