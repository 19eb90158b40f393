import Rukkit.Protocol.Varint

/-!
# The variable-length number format

What the readers of `rukkit-protocol/src/varint.rs` accept, stated without their
loops: some bytes with the continuation bit, one without it, and the sum of the
seven-bit groups reduced to the width of the word.  The two widths are one format.
-/

namespace Rukkit.Protocol

open Rukkit.Lib

/-- The high bit of a byte says that more follow. -/
def Continues (byte : UInt8) : Prop := byte &&& 0x80 ≠ 0

/-- The sum of the seven-bit groups of some bytes, the first one the lowest. -/
def groupSum (bytes : Bytes) : Nat :=
  Nat.ofDigits 128 (bytes.map fun byte => (byte &&& 0x7F).toNat)

/-- The first `n` bytes of `buf` are one number: the `n`-th is the first that does
not continue. -/
def EndsAt (buf : Bytes) (n : Nat) : Prop :=
  ∃ lead last rest, buf = lead ++ last :: rest ∧ n = lead.length + 1 ∧
    (∀ byte ∈ lead, Continues byte) ∧ ¬ Continues last

/-- A reader, a writer and a length formula for numbers of `w` bits in at most `max`
bytes, `bits` being the word of a number. -/
structure NumberFormat (w max : Nat) {α : Type} (bits : α → BitVec w)
    (read : Bytes → Except ProtocolError (α × Nat)) (write : α → Bytes) (len : α → Nat) :
    Prop where
  ok_iff : ∀ buf v n, read buf = .ok (v, n) ↔
    n ≤ max ∧ EndsAt buf n ∧ (bits v).toNat = groupSum (buf.take n) % 2 ^ w
  eof_iff : ∀ buf needed available, read buf = .error (.unexpectedEof needed available) ↔
    (needed = 1 ∧ available = 0) ∧ buf.length < max ∧ ∀ byte ∈ buf, Continues byte
  tooLong_iff : ∀ buf limit, read buf = .error (.varIntTooLong limit) ↔
    limit = max ∧ max ≤ buf.length ∧ ∀ byte ∈ buf.take max, Continues byte
  read_write : ∀ v suffix, read (write v ++ suffix) = .ok (v, len v)
  length_write : ∀ v, (write v).length = len v
  read_prefix : ∀ v p q, write v = p ++ q → q ≠ [] →
    ∃ needed available, read p = .error (.unexpectedEof needed available)
  shortest : ∀ v buf n, read buf = .ok (v, n) → len v ≤ n

/-! ## Groups and their sum -/

theorem groupSum_cons (byte : UInt8) (bytes : Bytes) :
    groupSum (byte :: bytes) = (byte &&& 0x7F).toNat + 128 * groupSum bytes := by
  rw [groupSum, List.map_cons, Nat.ofDigits_cons, groupSum]

theorem toNat_group_lt (byte : UInt8) : (byte &&& 0x7F).toNat < 128 := by
  rw [UInt8.toNat_and]
  exact Nat.and_le_right.trans_lt (by decide)

theorem groupSum_lt (bytes : Bytes) : groupSum bytes < 128 ^ bytes.length := by
  have hlength : bytes.length = (bytes.map fun byte => (byte &&& 0x7F).toNat).length :=
    List.length_map _ |>.symm
  rw [groupSum, hlength]
  apply Nat.ofDigits_lt_base_pow_length (by decide)
  intro digit hdigit
  rw [List.mem_map] at hdigit
  obtain ⟨byte, _, rfl⟩ := hdigit
  exact toNat_group_lt byte

theorem endsAt_cons_last {byte : UInt8} {buf : Bytes} {n : Nat} (h : ¬ Continues byte) :
    EndsAt (byte :: buf) n ↔ n = 1 := by
  constructor
  · rintro ⟨lead, last, rest, hbuf, rfl, hlead, _⟩
    cases lead with
    | nil => rfl
    | cons first lead =>
        rw [List.cons_append, List.cons.injEq] at hbuf
        have hfirst := hlead first (by simp)
        rw [← hbuf.1] at hfirst
        exact absurd hfirst h
  · rintro rfl
    exact ⟨[], byte, buf, rfl, rfl, by simp, h⟩

theorem endsAt_cons_more {byte : UInt8} {buf : Bytes} {n : Nat} (h : Continues byte) :
    EndsAt (byte :: buf) n ↔ ∃ m, n = m + 1 ∧ EndsAt buf m := by
  constructor
  · rintro ⟨lead, last, rest, hbuf, rfl, hlead, hlast⟩
    cases lead with
    | nil =>
        rw [List.nil_append, List.cons.injEq] at hbuf
        rw [← hbuf.1] at hlast
        exact absurd h hlast
    | cons first lead =>
        rw [List.cons_append, List.cons.injEq] at hbuf
        have htail : ∀ byte ∈ lead, Continues byte :=
          fun byte hbyte => hlead byte (List.mem_cons_of_mem first hbyte)
        exact ⟨lead.length + 1, rfl, lead, last, rest, hbuf.2, rfl, htail, hlast⟩
  · rintro ⟨m, rfl, lead, last, rest, rfl, rfl, hlead, hlast⟩
    refine ⟨byte :: lead, last, rest, rfl, rfl, ?_, hlast⟩
    intro other hother
    rcases List.mem_cons.mp hother with rfl | hother
    · exact h
    · exact hlead other hother

theorem EndsAt.pos {buf : Bytes} {n : Nat} (h : EndsAt buf n) : 0 < n := by
  obtain ⟨lead, _, _, _, rfl, _⟩ := h
  omega

theorem EndsAt.le_length {buf : Bytes} {n : Nat} (h : EndsAt buf n) : n ≤ buf.length := by
  obtain ⟨lead, last, rest, rfl, rfl, _⟩ := h
  simp

/-- One more group on top of those that follow it. -/
theorem or_group {w : Nat} (byte : UInt8) (rest shift : Nat) :
    ((byte &&& 0x7F).toBitVec.setWidth w <<< shift) ||| (BitVec.ofNat w rest <<< (shift + 7)) =
      BitVec.ofNat w ((byte &&& 0x7F).toNat + 128 * rest) <<< shift := by
  have hlow : BitVec.ofNat w (byte &&& 0x7F).toNat = (byte &&& 0x7F).toBitVec.setWidth w :=
    BitVec.ofNat_toNat w (byte &&& 0x7F).toBitVec
  have hhigh : BitVec.ofNat w (2 ^ 7 * rest) = BitVec.ofNat w rest <<< 7 := by
    apply BitVec.eq_of_toNat_eq
    simp [Nat.shiftLeft_eq, Nat.mul_comm]
  have hsum : BitVec.ofNat w ((byte &&& 0x7F).toNat + 128 * rest) =
      (byte &&& 0x7F).toBitVec.setWidth w ||| BitVec.ofNat w rest <<< 7 := by
    rw [Nat.add_comm, show 128 = 2 ^ 7 from rfl,
      Nat.two_pow_add_eq_or_of_lt (toNat_group_lt byte), BitVec.ofNat_or, hlow, hhigh,
      BitVec.or_comm]
  rw [hsum, BitVec.shiftLeft_or_distrib, Nat.add_comm shift, BitVec.shiftLeft_add]

/-! ## The read loop -/

section Loop

variable {w : Nat}

theorem ofNat_groupSum_singleton (byte : UInt8) :
    BitVec.ofNat w (groupSum [byte]) = (byte &&& 0x7F).toBitVec.setWidth w := by
  rw [groupSum, List.map_singleton, Nat.ofDigits_singleton]
  exact BitVec.ofNat_toNat w (byte &&& 0x7F).toBitVec

/-- The loop stops at the first byte that does not continue, with the sum of the groups
so far laid over the accumulator. -/
theorem readGroups_eq_some_iff : ∀ {limit : Nat} {buf : Bytes} {acc value : BitVec w}
    {shift i used : Nat}, readGroups limit buf acc shift i = some (value, used) ↔
      ∃ n, used = i + n ∧ n ≤ limit ∧ EndsAt buf n ∧
        value = acc ||| BitVec.ofNat w (groupSum (buf.take n)) <<< shift := by
  intro limit
  induction limit with
  | zero =>
      intro buf acc value shift i used
      constructor
      · intro h
        simp [readGroups] at h
      · rintro ⟨n, _, hn, hends, _⟩
        have := hends.pos
        omega
  | succ limit ih =>
      intro buf acc value shift i used
      cases buf with
      | nil =>
          constructor
          · intro h
            simp [readGroups] at h
          · rintro ⟨n, _, _, hends, _⟩
            have hpos := hends.pos
            have hlength := hends.le_length
            rw [List.length_nil] at hlength
            omega
      | cons byte buf =>
          rw [readGroups]
          by_cases hlast : byte &&& 0x80 = 0
          · have hstop : ¬ Continues byte := fun h => h hlast
            rw [if_pos hlast]
            simp only [endsAt_cons_last hstop]
            constructor
            · intro h
              simp only [Option.some.injEq, Prod.mk.injEq] at h
              refine ⟨1, h.2.symm, by omega, rfl, ?_⟩
              rw [List.take_succ_cons, List.take_zero, ofNat_groupSum_singleton]
              exact h.1.symm
            · rintro ⟨n, rfl, _, rfl, rfl⟩
              rw [List.take_succ_cons, List.take_zero, ofNat_groupSum_singleton]
          · have hmore : Continues byte := hlast
            rw [if_neg hlast, ih]
            simp only [endsAt_cons_more hmore]
            constructor
            · rintro ⟨n, rfl, hn, hends, rfl⟩
              refine ⟨n + 1, by omega, by omega, ⟨n, rfl, hends⟩, ?_⟩
              rw [List.take_succ_cons, groupSum_cons, ← or_group, BitVec.or_assoc]
            · rintro ⟨_, rfl, hn, ⟨m, rfl, hends⟩, rfl⟩
              refine ⟨m, by omega, by omega, hends, ?_⟩
              rw [List.take_succ_cons, groupSum_cons, ← or_group, BitVec.or_assoc]

theorem readGroups_eq_none_iff : ∀ {limit : Nat} {buf : Bytes} {acc : BitVec w} {shift i : Nat},
    readGroups limit buf acc shift i = none ↔ ∀ byte ∈ buf.take limit, Continues byte := by
  intro limit
  induction limit with
  | zero =>
      intro buf acc shift i
      simp [readGroups]
  | succ limit ih =>
      intro buf acc shift i
      cases buf with
      | nil => simp [readGroups]
      | cons byte buf =>
          rw [readGroups, List.take_succ_cons, List.forall_mem_cons]
          by_cases hlast : byte &&& 0x80 = 0
          · simp [hlast, Continues]
          · rw [if_neg hlast, ih]
            simp [hlast, Continues]

/-- No number takes fewer groups than the formula says. -/
theorem groupsLen_le {v : BitVec w} {n : Nat} (hn : 0 < n) (hv : v.toNat < 128 ^ n) :
    groupsLen v ≤ n := by
  have hsize : v.toNat.size ≤ 7 * n := by
    rw [Nat.size_le, Nat.pow_mul]
    exact hv
  rw [groupsLen, Words.sub_clz_eq_size]
  omega

end Loop

/-! ## The format -/

section Format

variable {w max : Nat} {α : Type} {bits : α → BitVec w}
  {read : Bytes → Except ProtocolError (α × Nat)} {write : α → Bytes} {len : α → Nat}

/-- Where the loop finds no last byte, every byte that it may look at continues. -/
theorem readGroups_limit_none_iff {buf : Bytes} :
    readGroups (if buf.length < max then buf.length else max) buf 0#w 0 0 = none ↔
      ∀ byte ∈ buf.take max, Continues byte := by
  rw [readGroups_eq_none_iff]
  by_cases hshort : buf.length < max
  · rw [if_pos hshort, List.take_length, List.take_of_length_le (Nat.le_of_lt hshort)]
  · rw [if_neg hshort]

theorem readGroups_limit_some_iff {buf : Bytes} {value : BitVec w} {n : Nat} :
    readGroups (if buf.length < max then buf.length else max) buf 0#w 0 0 = some (value, n) ↔
      n ≤ max ∧ EndsAt buf n ∧ value = BitVec.ofNat w (groupSum (buf.take n)) := by
  rw [readGroups_eq_some_iff]
  simp only [BitVec.zero_or, BitVec.shiftLeft_zero, Nat.zero_add]
  constructor
  · rintro ⟨_, rfl, hn, hends, hvalue⟩
    have hmax : n ≤ max := by
      split at hn <;> omega
    exact ⟨hmax, hends, hvalue⟩
  · rintro ⟨hn, hends, hvalue⟩
    have hlength := hends.le_length
    have hlimit : n ≤ if buf.length < max then buf.length else max := by
      split <;> omega
    exact ⟨n, rfl, hlimit, hends, hvalue⟩

variable (h : RunsLoops max bits read write len)

include h

theorem RunsLoops.ok_iff (buf : Bytes) (v : α) (n : Nat) : read buf = .ok (v, n) ↔
    n ≤ max ∧ EndsAt buf n ∧ (bits v).toNat = groupSum (buf.take n) % 2 ^ w := by
  rw [h.ok_iff_groups, readGroups_limit_some_iff, ← BitVec.toNat_inj, BitVec.toNat_ofNat]

/-- Where no number is read, the length of the input decides the error. -/
theorem RunsLoops.error_cases (buf : Bytes) :
    (∃ v n, read buf = .ok (v, n)) ∧ (∃ byte ∈ buf.take max, ¬ Continues byte) ∨
      (∀ byte ∈ buf.take max, Continues byte) ∧
        read buf = if buf.length < max then .error (.unexpectedEof 1 0)
          else .error (.varIntTooLong max) := by
  cases hgroups : readGroups (if buf.length < max then buf.length else max) buf 0#w 0 0 with
  | none =>
      right
      exact ⟨readGroups_limit_none_iff.mp hgroups, h.read_none buf hgroups⟩
  | some result =>
      left
      obtain ⟨v, _, hread⟩ := h.read_some buf result.1 result.2 hgroups
      have hstop : ¬ ∀ byte ∈ buf.take max, Continues byte := by
        rw [← readGroups_limit_none_iff (w := w), hgroups]
        simp
      push Not at hstop
      exact ⟨⟨v, result.2, hread⟩, hstop⟩

theorem RunsLoops.eof_iff (buf : Bytes) (needed available : Nat) :
    read buf = .error (.unexpectedEof needed available) ↔
      (needed = 1 ∧ available = 0) ∧ buf.length < max ∧ ∀ byte ∈ buf, Continues byte := by
  rcases h.error_cases buf with ⟨⟨v, n, hread⟩, byte, hbyte, hstop⟩ | ⟨hall, hread⟩
  · rw [hread]
    constructor
    · intro herror
      simp at herror
    · rintro ⟨_, _, hall⟩
      exact absurd (hall byte (List.mem_of_mem_take hbyte)) hstop
  · rw [hread]
    by_cases hshort : buf.length < max
    · rw [List.take_of_length_le (Nat.le_of_lt hshort)] at hall
      rw [if_pos hshort]
      constructor
      · intro herror
        simp only [Except.error.injEq, ProtocolError.unexpectedEof.injEq] at herror
        exact ⟨⟨herror.1.symm, herror.2.symm⟩, hshort, hall⟩
      · rintro ⟨⟨rfl, rfl⟩, _⟩
        rfl
    · rw [if_neg hshort]
      simp [hshort]

theorem RunsLoops.tooLong_iff (buf : Bytes) (limit : Nat) :
    read buf = .error (.varIntTooLong limit) ↔
      limit = max ∧ max ≤ buf.length ∧ ∀ byte ∈ buf.take max, Continues byte := by
  rcases h.error_cases buf with ⟨⟨v, n, hread⟩, byte, hbyte, hstop⟩ | ⟨hall, hread⟩
  · rw [hread]
    constructor
    · intro herror
      simp at herror
    · rintro ⟨_, _, hall⟩
      exact absurd (hall byte hbyte) hstop
  · rw [hread]
    by_cases hshort : buf.length < max
    · rw [if_pos hshort]
      simp [hshort]
    · rw [if_neg hshort]
      constructor
      · intro herror
        simp only [Except.error.injEq, ProtocolError.varIntTooLong.injEq] at herror
        exact ⟨herror.symm, Nat.le_of_not_lt hshort, hall⟩
      · rintro ⟨rfl, _⟩
        rfl

/-- The bytes of a number hold at most seven bits each, so fewer than the formula says
cannot hold it. -/
theorem RunsLoops.shortest (v : α) (buf : Bytes) (n : Nat) (hread : read buf = .ok (v, n)) :
    len v ≤ n := by
  obtain ⟨_, hends, hvalue⟩ := (h.ok_iff buf v n).mp hread
  have hlength : (buf.take n).length = n := by
    rw [List.length_take]
    exact Nat.min_eq_left hends.le_length
  have hsum := groupSum_lt (buf.take n)
  rw [hlength] at hsum
  rw [h.len_eq]
  apply groupsLen_le hends.pos
  rw [hvalue]
  exact (Nat.mod_le _ _).trans_lt hsum

theorem RunsLoops.numberFormat : NumberFormat w max bits read write len where
  ok_iff := h.ok_iff
  eof_iff := h.eof_iff
  tooLong_iff := h.tooLong_iff
  read_write := fun v suffix => (h.length_write v) ▸ h.read_write v suffix
  length_write := h.length_write
  read_prefix := fun _ _ _ hwrite hq => ⟨1, 0, h.read_prefix hwrite hq⟩
  shortest := h.shortest

end Format

/-! ## The two widths -/

/-- The VarInt functions are a number format of 32 bits in five bytes, the VarLong
functions one of 64 bits in ten. -/
theorem varint_varlong_format :
    NumberFormat 32 5 Int32.toBitVec readVarint writeVarint varintLen ∧
      NumberFormat 64 10 Int64.toBitVec readVarlong writeVarlong varlongLen :=
  ⟨readVarint_runsLoops.numberFormat, readVarlong_runsLoops.numberFormat⟩

end Rukkit.Protocol
