import Rukkit.Protocol.CheckedNbt

/-!
# The grammar of modified UTF-8

Which byte strings the decoder of `nbt.rs` accepts, stated without its scanning: a
concatenation of units, each standing for one code point.  A code point above `U+FFFF`
is a pair of surrogates in the three-byte form.
-/

namespace Rukkit.Protocol

open Rukkit.Lib

/-- `1110xxxx 10yyyyyy 10zzzzzz`, and the 16-bit value `xxxxyyyyyyzzzzzz`. -/
inductive ThreeByteForm : Bytes → Nat → Prop where
  | mk {x y z : Nat} (hx : x < 2 ^ 4) (hy : y < 2 ^ 6) (hz : z < 2 ^ 6) :
      ThreeByteForm [0b11100000 ||| UInt8.ofNat x, 0b10000000 ||| UInt8.ofNat y,
        0b10000000 ||| UInt8.ofNat z] (x * 2 ^ 12 + y * 2 ^ 6 + z)

def IsHighSurrogate (unit : Nat) : Prop := 0xD800 ≤ unit ∧ unit < 0xDC00

def IsLowSurrogate (unit : Nat) : Prop := 0xDC00 ≤ unit ∧ unit < 0xE000

/-- The forms of a unit, with the code point that each denotes. -/
inductive ModifiedUnit : Bytes → Nat → Prop where
  /-- `0xxxxxxx` -/
  | one {x : Nat} (hx : x < 2 ^ 7) : ModifiedUnit [UInt8.ofNat x] x
  /-- `110xxxxx 10yyyyyy` -/
  | two {x y : Nat} (hx : x < 2 ^ 5) (hy : y < 2 ^ 6) :
      ModifiedUnit [0b11000000 ||| UInt8.ofNat x, 0b10000000 ||| UInt8.ofNat y] (x * 2 ^ 6 + y)
  /-- One three-byte form whose value is no surrogate. -/
  | three {bytes : Bytes} {unit : Nat} (h : ThreeByteForm bytes unit)
      (hhigh : ¬ IsHighSurrogate unit) (hlow : ¬ IsLowSurrogate unit) : ModifiedUnit bytes unit
  /-- Two three-byte forms, a high surrogate and a low one. -/
  | pair {first second : Bytes} {high low : Nat} (hfirst : ThreeByteForm first high)
      (hsecond : ThreeByteForm second low) (hhigh : IsHighSurrogate high)
      (hlow : IsLowSurrogate low) :
      ModifiedUnit (first ++ second) (0x10000 + (high - 0xD800) * 0x400 + (low - 0xDC00))

/-- `bytes` is the concatenation of `units`. -/
def IsSplit (units : List Bytes) (bytes : Bytes) : Prop :=
  units.flatten = bytes ∧ ∀ unit ∈ units, ∃ cp, ModifiedUnit unit cp

/-! ## Bytes by their high bits -/

/-- A byte is its marker bits and its payload bits. -/
theorem marker_or_payload (b : UInt8) {marker payload value : UInt8}
    (hall : marker ||| payload = 0xFF) (hmarker : b &&& marker = value) :
    b = value ||| UInt8.ofNat (b &&& payload).toNat := by
  rw [UInt8.ofNat_toNat, ← hmarker]
  apply UInt8.toBitVec_inj.mp
  ext i hi
  have hbit := congrArg (fun byte => byte.toBitVec[i]) hall
  have hones : (0xFF#8)[i] = true := BitVec.getElem_allOnes i hi
  simp only [UInt8.toBitVec_or, BitVec.getElem_or] at hbit
  simp only [UInt8.toBitVec_or, UInt8.toBitVec_and, BitVec.getElem_or, BitVec.getElem_and,
    ← Bool.and_or_distrib_left]
  rw [hbit]
  change b.toBitVec[i] = (b.toBitVec[i] && (0xFF#8)[i])
  rw [hones, Bool.and_true]

/-- The payload is a number below the bound of its bits. -/
theorem exists_payload (b payload : UInt8) {marker value : UInt8} {bound : Nat}
    (hall : marker ||| payload = 0xFF) (hpayload : payload.toNat < bound)
    (hmarker : b &&& marker = value) :
    ∃ x < bound, b = value ||| UInt8.ofNat x ∧ (b &&& payload).toUInt32 = UInt32.ofNat x := by
  have hlt : (b &&& payload).toNat < bound := by
    rw [UInt8.toNat_and]
    exact Nat.and_le_right.trans_lt hpayload
  refine ⟨(b &&& payload).toNat, hlt, marker_or_payload b hall hmarker, ?_⟩
  rw [← toUInt32_ofNat (b &&& payload).toNat_lt, UInt8.ofNat_toNat]

/-- An accepted continuation byte is `10yyyyyy`. -/
theorem continuation_eq_ok {bytes : Bytes} {i : Nat} {tail : UInt32}
    (h : continuation bytes i = .ok tail) :
    ∃ y < 2 ^ 6, bytes[i]? = some (0b10000000 ||| UInt8.ofNat y) ∧ tail = UInt32.ofNat y := by
  unfold continuation at h
  split at h
  · cases h
  · rename_i b hat
    split at h
    · cases h
    · rename_i hmarker
      rw [not_not] at hmarker
      simp only [Except.ok.injEq] at h
      obtain ⟨y, hy, hbyte, hvalue⟩ :=
        exists_payload b 0x3F (by decide) (by decide : _ < 2 ^ 6) hmarker
      refine ⟨y, hy, ?_, ?_⟩
      · rw [hat, hbyte]
      · rw [← h, hvalue]

theorem drop_eq_cons {bytes : Bytes} {i : Nat} {b : UInt8} (h : bytes[i]? = some b) :
    bytes.drop i = b :: bytes.drop (i + 1) := by
  obtain ⟨hi, rfl⟩ := List.getElem?_eq_some_iff.mp h
  exact List.drop_eq_getElem_cons hi

/-- An accepted three-byte form, wherever it starts. -/
theorem readUnit_eq_ok {bytes : Bytes} {lead : UInt8} {i : Nat} {unit : UInt32}
    (hat : bytes[i]? = some lead) (hlead : lead &&& 0xF0 = 0xE0)
    (h : readUnit bytes lead i = .ok unit) :
    ∃ form, bytes.drop i = form ++ bytes.drop (i + 3) ∧ ThreeByteForm form unit.toNat := by
  rw [readUnit] at h
  obtain ⟨middle, hmiddle, hrest⟩ := Outcome.except_bind_eq_ok h
  obtain ⟨low, hlow, hunit⟩ := Outcome.except_bind_eq_ok hrest
  obtain ⟨y, hy, haty, rfl⟩ := continuation_eq_ok hmiddle
  obtain ⟨z, hz, hatz, rfl⟩ := continuation_eq_ok hlow
  obtain ⟨x, hx, hbyte, hpayload⟩ :=
    exists_payload lead 0x0F (by decide) (by decide : _ < 2 ^ 4) hlead
  have hvalue : unit.toNat = x * 2 ^ 12 + y * 2 ^ 6 + z := by
    have hjoin := join_three hx hy hz
    rw [← hpayload] at hjoin
    cases hunit
    rw [hjoin, UInt32.toNat_ofNat']
    omega
  refine ⟨[lead, 0b10000000 ||| UInt8.ofNat y, 0b10000000 ||| UInt8.ofNat z], ?_, ?_⟩
  · rw [drop_eq_cons hat, drop_eq_cons haty, drop_eq_cons hatz]
    rfl
  · rw [hvalue, hbyte]
    exact ThreeByteForm.mk hx hy hz

/-! ## What one turn of the decoder accepts -/

theorem charFromU32_eq_ok {cp : UInt32} {c : Char} (h : charFromU32 cp = .ok c) : c.val = cp := by
  unfold charFromU32 at h
  split at h
  · cases h
    rfl
  · cases h

theorem readLowSurrogate_eq_ok {bytes : Bytes} {low : UInt32}
    (h : readLowSurrogate bytes = .ok low) :
    ∃ form, bytes.drop 3 = form ++ bytes.drop 6 ∧ ThreeByteForm form low.toNat ∧
      IsLowSurrogate low.toNat := by
  unfold readLowSurrogate at h
  split at h
  · cases h
  · rename_i lead hat
    split at h
    · cases h
    · rename_i hlead
      rw [not_not] at hlead
      obtain ⟨unit, hunit, hrest⟩ := Outcome.except_bind_eq_ok h
      split at hrest
      · rename_i hrange
        cases hrest
        rw [UInt32.le_iff_toNat_le, UInt32.lt_iff_toNat_lt] at hrange
        obtain ⟨form, hbytes, hform⟩ := readUnit_eq_ok hat hlead hunit
        exact ⟨form, hbytes, hform, hrange⟩
      · cases hrest

theorem ThreeByteForm.length {form : Bytes} {unit : Nat} (h : ThreeByteForm form unit) :
    form.length = 3 := by
  cases h
  rfl

theorem toNat_val_ofNat {n : Nat} (hvalid : n.isValidChar) : (Char.ofNat n).val.toNat = n := by
  have hchar := Char.toNat_ofNat n
  rw [if_pos hvalid] at hchar
  exact hchar

/-- The first `used` bytes are a unit, and `c` is the character that it denotes. -/
def TakesUnit (bytes : Bytes) (c : Char) (used : Nat) : Prop :=
  ∃ form, bytes = form ++ bytes.drop used ∧ form.length = used ∧ ModifiedUnit form c.val.toNat

theorem takesUnit_one {b : UInt8} {rest : Bytes} (hone : b < 0x80) :
    TakesUnit (b :: rest) (Char.ofNat b.toNat) 1 := by
  have hlt : b.toNat < 2 ^ 7 := UInt8.lt_iff_toNat_lt.mp hone
  have hunit := ModifiedUnit.one hlt
  rw [UInt8.ofNat_toNat] at hunit
  refine ⟨[b], rfl, rfl, ?_⟩
  rw [toNat_val_ofNat (Or.inl (by omega))]
  exact hunit

theorem takesUnit_two {b : UInt8} {rest : Bytes} {tail : UInt32} {c : Char}
    (htwo : b &&& 0xE0 = 0xC0) (htail : continuation (b :: rest) 1 = .ok tail)
    (hchar : charFromU32 ((b &&& 0x1F).toUInt32 <<< 6 ||| tail) = .ok c) :
    TakesUnit (b :: rest) c 2 := by
  obtain ⟨y, hy, haty, rfl⟩ := continuation_eq_ok htail
  obtain ⟨x, hx, hbyte, hpayload⟩ :=
    exists_payload b 0x1F (by decide) (by decide : _ < 2 ^ 5) htwo
  have hvalue : c.val.toNat = x * 2 ^ 6 + y := by
    rw [charFromU32_eq_ok hchar, hpayload, join_two (by omega) hy, UInt32.toNat_ofNat']
    omega
  have hbytes : b :: rest = [b, 0b10000000 ||| UInt8.ofNat y] ++ (b :: rest).drop 2 := by
    have hdrop := drop_eq_cons haty
    rw [List.drop_succ_cons, List.drop_zero] at hdrop
    rw [hdrop]
    rfl
  refine ⟨_, hbytes, rfl, ?_⟩
  rw [hvalue, hbyte]
  exact ModifiedUnit.two hx hy

/-- What a turn of the loop takes off the front is a unit. -/
theorem decodeModifiedChar_eq_ok {b : UInt8} {rest : Bytes} {c : Char} {used : Nat}
    (h : decodeModifiedChar (b :: rest) b = .ok (c, used)) : TakesUnit (b :: rest) c used := by
  rw [decodeModifiedChar] at h
  by_cases hone : b < 0x80
  · rw [if_pos hone] at h
    cases h
    exact takesUnit_one hone
  rw [if_neg hone] at h
  by_cases htwo : b &&& 0xE0 = 0xC0
  · rw [if_pos htwo] at h
    obtain ⟨tail, htail, hrest⟩ := Outcome.except_bind_eq_ok h
    obtain ⟨c', hchar, hresult⟩ := Outcome.except_bind_eq_ok hrest
    cases hresult
    exact takesUnit_two htwo htail hchar
  rw [if_neg htwo] at h
  by_cases hthree : b &&& 0xF0 = 0xE0
  · rw [if_pos hthree] at h
    obtain ⟨unit, hunit, hrest⟩ := Outcome.except_bind_eq_ok h
    obtain ⟨first, hfirst, hform⟩ := readUnit_eq_ok (i := 0) rfl hthree hunit
    rw [List.drop_zero, Nat.zero_add] at hfirst
    by_cases hhigh : 0xD800 ≤ unit ∧ unit < 0xDC00
    · rw [if_pos hhigh] at hrest
      obtain ⟨low, hlow, htail⟩ := Outcome.except_bind_eq_ok hrest
      obtain ⟨c', hchar, hresult⟩ := Outcome.except_bind_eq_ok htail
      cases hresult
      obtain ⟨second, hsecond, hform', hisLow⟩ := readLowSurrogate_eq_ok hlow
      rw [UInt32.le_iff_toNat_le, UInt32.lt_iff_toNat_lt] at hhigh
      have hpair := ModifiedUnit.pair hform hform' hhigh hisLow
      rw [← toNat_pair hhigh hisLow, ← charFromU32_eq_ok hchar] at hpair
      refine ⟨first ++ second, ?_, ?_, hpair⟩
      · rw [List.append_assoc, ← hsecond]
        exact hfirst
      · rw [List.length_append, hform.length, hform'.length]
    rw [if_neg hhigh] at hrest
    by_cases hlow : 0xDC00 ≤ unit ∧ unit < 0xE000
    · rw [if_pos hlow] at hrest
      cases hrest
    · rw [if_neg hlow] at hrest
      obtain ⟨c', hchar, hresult⟩ := Outcome.except_bind_eq_ok hrest
      cases hresult
      rw [UInt32.le_iff_toNat_le, UInt32.lt_iff_toNat_lt] at hhigh hlow
      refine ⟨first, hfirst, hform.length, ?_⟩
      rw [charFromU32_eq_ok hchar]
      exact ModifiedUnit.three hform hhigh hlow
  · rw [if_neg hthree] at h
    cases h

/-! ## What the decoder makes of a unit -/

/-- A code point that is no surrogate and not too large is a character. -/
theorem exists_char {cp : Nat} (hlt : cp < 0x110000) (hhigh : ¬ IsHighSurrogate cp)
    (hlow : ¬ IsLowSurrogate cp) : ∃ c : Char, c.val.toNat = cp := by
  have hvalid : cp.isValidChar := by
    unfold IsHighSurrogate at hhigh
    unfold IsLowSurrogate at hlow
    unfold Nat.isValidChar
    omega
  exact ⟨Char.ofNat cp, toNat_val_ofNat hvalid⟩

/-- The three-byte form of a value is the one the writer uses. -/
theorem ThreeByteForm.eq_writeUnit {form : Bytes} {unit : Nat} (h : ThreeByteForm form unit) :
    unit < 0x10000 ∧ ∀ word : UInt32, word.toNat = unit → form = writeUnit word := by
  obtain @⟨x, y, z, hx, hy, hz⟩ := h
  refine ⟨by omega, ?_⟩
  intro word hword
  rw [writeUnit, high_digit, middle_digit, low_digit, hword]
  have hxv : (x * 2 ^ 12 + y * 2 ^ 6 + z) / 4096 = x := by omega
  have hyv : (x * 2 ^ 12 + y * 2 ^ 6 + z) / 64 % 64 = y := by omega
  have hzv : (x * 2 ^ 12 + y * 2 ^ 6 + z) % 64 = z := by omega
  rw [hxv, hyv, hzv]

/-- A unit in front of any bytes is taken off whole. -/
theorem ModifiedUnit.decode {form : Bytes} {cp : Nat} (h : ModifiedUnit form cp)
    (suffix : Bytes) :
    ∃ b rest c, form ++ suffix = b :: rest ∧ c.val.toNat = cp ∧
      decodeModifiedChar (b :: rest) b = .ok (c, form.length) := by
  cases h with
  | @one x hx =>
      have hnotHigh : ¬ IsHighSurrogate cp := fun h => absurd h.1 (by omega)
      have hnotLow : ¬ IsLowSurrogate cp := fun h => absurd h.1 (by omega)
      obtain ⟨c, rfl⟩ := exists_char (by omega) hnotHigh hnotLow
      have hlt : c.val < 0x80 := UInt32.lt_iff_toNat_lt.mpr hx
      have hdecode := decode_oneByte hlt suffix
      rw [toUInt8_eq] at hdecode
      exact ⟨_, suffix, c, rfl, rfl, hdecode⟩
  | @two x y hx hy =>
      have hnotHigh : ¬ IsHighSurrogate (x * 2 ^ 6 + y) := fun h => absurd h.1 (by omega)
      have hnotLow : ¬ IsLowSurrogate (x * 2 ^ 6 + y) := fun h => absurd h.1 (by omega)
      obtain ⟨c, hc⟩ := exists_char (by omega) hnotHigh hnotLow
      have hlt : c.val < 0x800 := by
        rw [UInt32.lt_iff_toNat_lt, hc]
        change _ < 2048
        omega
      have hdecode := decode_twoBytes hlt suffix
      have hhigh : (c.val >>> 6).toUInt8 = UInt8.ofNat x := by
        rw [toUInt8_eq, UInt32.toNat_shiftRight, hc]
        congr 1
        change (x * 2 ^ 6 + y) >>> 6 = x
        rw [Nat.shiftRight_eq_div_pow]
        omega
      have hlow : (c.val &&& 0x3F).toUInt8 = UInt8.ofNat y := by
        rw [low_digit, hc]
        congr 1
        omega
      rw [hhigh, hlow] at hdecode
      exact ⟨_, _, c, rfl, hc, hdecode⟩
  | three hform hhigh hlow =>
      obtain ⟨hlt, hwrite⟩ := hform.eq_writeUnit
      obtain ⟨c, hc⟩ := exists_char (by omega) hhigh hlow
      have hsmall : c.val < 0x10000 := by
        rw [UInt32.lt_iff_toNat_lt, hc]
        exact hlt
      obtain ⟨b, rest, hbytes, hdecode⟩ := decode_unit hsmall suffix
      rw [hform.length]
      exact ⟨b, rest, c, by rw [hwrite c.val hc, hbytes], hc, hdecode⟩
  | @pair first second high low hfirst hsecond hhigh hlow =>
      obtain ⟨-, hwriteHigh⟩ := hfirst.eq_writeUnit
      obtain ⟨-, hwriteLow⟩ := hsecond.eq_writeUnit
      unfold IsHighSurrogate at hhigh
      unfold IsLowSurrogate at hlow
      have hnotHigh : ¬ IsHighSurrogate (0x10000 + (high - 0xD800) * 0x400 + (low - 0xDC00)) :=
        fun h => absurd h.2 (by omega)
      have hnotLow : ¬ IsLowSurrogate (0x10000 + (high - 0xD800) * 0x400 + (low - 0xDC00)) :=
        fun h => absurd h.2 (by omega)
      obtain ⟨c, hc⟩ := exists_char (by omega) hnotHigh hnotLow
      have hlarge : ¬ c.val < 0x10000 := by
        rw [UInt32.lt_iff_toNat_lt, hc]
        change ¬ _ < 65536
        omega
      obtain ⟨hhighNat, hlowNat⟩ := surrogates (v := c.val) (by omega) (by omega)
      obtain ⟨b, rest, hbytes, hdecode⟩ := decode_pair hlarge suffix
      rw [← hwriteHigh _ (by rw [hhighNat, hc]; omega),
        ← hwriteLow _ (by rw [hlowNat, hc]; omega)] at hbytes
      rw [List.length_append, hfirst.length, hsecond.length]
      exact ⟨b, rest, c, hbytes, hc, hdecode⟩

theorem ModifiedUnit.length_pos {form : Bytes} {cp : Nat} (h : ModifiedUnit form cp) :
    0 < form.length := by
  obtain ⟨b, rest, _, hbytes, -⟩ := h.decode []
  rw [List.append_nil] at hbytes
  rw [hbytes]
  exact Nat.succ_pos _

/-- Two units at the front of the same bytes are the same, and denote the same: there is
one decoder. -/
theorem ModifiedUnit.unique {form form' rest rest' : Bytes} {cp cp' : Nat}
    (h : ModifiedUnit form cp) (h' : ModifiedUnit form' cp')
    (heq : form ++ rest = form' ++ rest') : form = form' ∧ cp = cp' ∧ rest = rest' := by
  obtain ⟨b, tail, c, hbytes, hc, hdecode⟩ := h.decode rest
  obtain ⟨b', tail', c', hbytes', hc', hdecode'⟩ := h'.decode rest'
  rw [← heq, hbytes] at hbytes'
  cases hbytes'
  rw [hdecode, Except.ok.injEq, Prod.mk.injEq] at hdecode'
  obtain ⟨hform, hrest⟩ := List.append_inj heq hdecode'.2
  refine ⟨hform, ?_, hrest⟩
  rw [← hc, ← hc', hdecode'.1]

/-! ## Whole strings -/

theorem isSplit_nil : IsSplit [] [] := ⟨rfl, fun _ h => by cases h⟩

theorem isSplit_cons {form : Bytes} {units : List Bytes} {bytes : Bytes} :
    IsSplit (form :: units) bytes ↔
      ∃ rest, bytes = form ++ rest ∧ (∃ cp, ModifiedUnit form cp) ∧ IsSplit units rest := by
  constructor
  · rintro ⟨hbytes, hunits⟩
    rw [List.flatten_cons] at hbytes
    rw [List.forall_mem_cons] at hunits
    exact ⟨units.flatten, hbytes.symm, hunits.1, rfl, hunits.2⟩
  · rintro ⟨rest, rfl, hform, rfl, hunits⟩
    exact ⟨List.flatten_cons, List.forall_mem_cons.mpr ⟨hform, hunits⟩⟩

theorem IsSplit.unique : ∀ {units units' : List Bytes} {bytes : Bytes},
    IsSplit units bytes → IsSplit units' bytes → units = units' := by
  intro units
  induction units with
  | nil =>
      intro units' bytes h h'
      cases units' with
      | nil => rfl
      | cons form units' =>
          obtain ⟨rest, hbytes, ⟨cp, hform⟩, -⟩ := isSplit_cons.mp h'
          have hempty : form ++ rest = [] := hbytes.symm.trans h.1.symm
          have hpos := hform.length_pos
          rw [(List.append_eq_nil_iff.mp hempty).1] at hpos
          exact absurd hpos (by decide)
  | cons form units ih =>
      intro units' bytes h h'
      obtain ⟨rest, hbytes, ⟨cp, hform⟩, hrest⟩ := isSplit_cons.mp h
      cases units' with
      | nil =>
          have hempty : form ++ rest = [] := hbytes.symm.trans h'.1.symm
          have hpos := hform.length_pos
          rw [(List.append_eq_nil_iff.mp hempty).1] at hpos
          exact absurd hpos (by decide)
      | cons form' units' =>
          obtain ⟨rest', hbytes', ⟨cp', hform'⟩, hrest'⟩ := isSplit_cons.mp h'
          obtain ⟨rfl, -, rfl⟩ := hform.unique hform' (hbytes.symm.trans hbytes')
          rw [ih hrest hrest']

/-- Every string the grammar derives is decoded, to the code points of its units. -/
theorem decodeModifiedChars_of_isSplit : ∀ {units : List Bytes} {bytes : Bytes},
    IsSplit units bytes → ∃ chars, decodeModifiedChars bytes = .ok chars ∧
      List.Forall₂ ModifiedUnit units (chars.map fun c => c.val.toNat) := by
  intro units
  induction units with
  | nil =>
      rintro bytes ⟨rfl, -⟩
      exact ⟨[], by rw [List.flatten_nil, decodeModifiedChars], List.Forall₂.nil⟩
  | cons form units ih =>
      intro bytes h
      obtain ⟨rest, rfl, ⟨cp, hform⟩, hrest⟩ := isSplit_cons.mp h
      obtain ⟨chars, hchars, hcodes⟩ := ih hrest
      obtain ⟨b, tail, c, hbytes, rfl, hdecode⟩ := hform.decode rest
      have htail : tail.drop (form.length - 1) = rest := by
        have hdrop := congrArg (List.drop form.length) hbytes
        rw [List.drop_left, ← Nat.sub_add_cancel hform.length_pos, List.drop_succ_cons] at hdrop
        exact hdrop.symm
      refine ⟨c :: chars, ?_, List.Forall₂.cons hform hcodes⟩
      rw [hbytes, decodeModifiedChars, hdecode]
      change (decodeModifiedChars (tail.drop (form.length - 1))).bind _ = _
      rw [htail, hchars]
      rfl

/-- Only strings that the grammar derives are decoded. -/
theorem isSplit_of_decodeModifiedChars {bytes : Bytes} {chars : List Char}
    (h : decodeModifiedChars bytes = .ok chars) : ∃ units, IsSplit units bytes := by
  fun_induction decodeModifiedChars bytes generalizing chars with
  | case1 => exact ⟨[], isSplit_nil⟩
  | case2 b rest ih =>
      obtain ⟨⟨c, used⟩, hdecode, hrest⟩ := Outcome.except_bind_eq_ok h
      obtain ⟨others, hothers, -⟩ := Outcome.except_bind_eq_ok hrest
      obtain ⟨form, hbytes, hlength, hform⟩ := decodeModifiedChar_eq_ok hdecode
      obtain ⟨units, hunits⟩ := ih used hothers
      have hpos := hform.length_pos
      have hdrop : (b :: rest).drop used = rest.drop (used - 1) := by
        rw [List.drop_cons (by omega)]
      rw [hdrop] at hbytes
      exact ⟨form :: units, isSplit_cons.mpr ⟨_, hbytes, ⟨_, hform⟩, hunits⟩⟩

/-- The decoder accepts exactly the strings of the grammar, whose units are then the only
ones that the string splits into, and returns what they denote.  It refuses every other
string, and on none does it look past the end. -/
theorem decodeModifiedUtf8_grammar :
    (∀ bytes, (∃ s, decodeModifiedUtf8 bytes = .ok s) ↔ ∃ units, IsSplit units bytes) ∧
    (∀ bytes units units', IsSplit units bytes → IsSplit units' bytes → units = units') ∧
    (∀ form cp cp', ModifiedUnit form cp → ModifiedUnit form cp' → cp = cp') ∧
    (∀ bytes units s, IsSplit units bytes → decodeModifiedUtf8 bytes = .ok s →
      List.Forall₂ ModifiedUnit units (s.toList.map fun c => c.val.toNat)) ∧
    (∀ bytes, (¬ ∃ units, IsSplit units bytes) → ∃ e, decodeModifiedUtf8 bytes = .error e) ∧
    (∀ bytes, Checked.decodeModifiedUtf8 bytes = some (decodeModifiedUtf8 bytes)) := by
  have haccepted (bytes : Bytes) (units : List Bytes) (h : IsSplit units bytes) :
      ∃ s, decodeModifiedUtf8 bytes = .ok s ∧
        List.Forall₂ ModifiedUnit units (s.toList.map fun c => c.val.toNat) := by
    obtain ⟨chars, hchars, hcodes⟩ := decodeModifiedChars_of_isSplit h
    refine ⟨String.ofList chars, ?_, ?_⟩
    · rw [decodeModifiedUtf8, hchars]
      rfl
    · rw [String.toList_ofList]
      exact hcodes
  have honly (bytes : Bytes) (s : String) (h : decodeModifiedUtf8 bytes = .ok s) :
      ∃ units, IsSplit units bytes := by
    obtain ⟨chars, hchars, -⟩ := Outcome.except_bind_eq_ok h
    exact isSplit_of_decodeModifiedChars hchars
  refine ⟨?_, fun bytes units units' => IsSplit.unique, ?_, ?_, ?_, ?_⟩
  · intro bytes
    constructor
    · rintro ⟨s, h⟩
      exact honly bytes s h
    · rintro ⟨units, h⟩
      obtain ⟨s, hs, -⟩ := haccepted bytes units h
      exact ⟨s, hs⟩
  · intro form cp cp' h h'
    exact (h.unique h' (rfl : form ++ [] = form ++ [])).2.1
  · intro bytes units s h hs
    obtain ⟨s', hs', hcodes⟩ := haccepted bytes units h
    rw [hs, Except.ok.injEq] at hs'
    rw [hs']
    exact hcodes
  · intro bytes h
    cases hresult : decodeModifiedUtf8 bytes with
    | error e => exact ⟨e, rfl⟩
    | ok s => exact absurd (honly bytes s hresult) h
  · intro bytes
    exact Checked.decodeModifiedUtf8_eq bytes

end Rukkit.Protocol
