import Rukkit.Protocol.Reader

/-!
# Modified UTF-8

The string coding of `rukkit-protocol/src/nbt.rs`: supplementary characters are
written as a surrogate pair of three bytes each and `U+0000` as `C0 80`.  The
16-bit length prefix cannot hold more than 65535 bytes, so the writer cuts longer
strings at a character boundary.
-/

namespace Rukkit.Protocol

open Rukkit.Lib Rukkit.Lib.Reading

/-! ## Encoding -/

/-- Bytes `c` takes in modified UTF-8. -/
def modifiedCharLen (c : Char) : Nat :=
  if c.val = 0 then 2
  else if c.val < 0x80 then 1
  else if c.val < 0x800 then 2
  else if c.val < 0x10000 then 3
  else 6

def modifiedUtf8Len (s : String) : Nat := (s.toList.map modifiedCharLen).sum

/-- The largest length the prefix can hold, `u16::MAX`. -/
def maxModifiedLen : Nat := 65535

/-- The loop over `char_indices`: the characters taken while they fit, and the
bytes they use. -/
def takeFitting : (chars : List Char) → (used : Nat) → List Char × Nat
  | [], used => ([], used)
  | c :: chars, used =>
      let need := modifiedCharLen c
      if maxModifiedLen < used + need then ([], used)
      else
        let (taken, total) := takeFitting chars (used + need)
        (c :: taken, total)

/-- One 16-bit unit as three bytes. -/
def writeUnit (unit : UInt32) : Bytes :=
  [(0xE0 : UInt8) ||| (unit >>> 12).toUInt8,
    (0x80 : UInt8) ||| ((unit >>> 6) &&& 0x3F).toUInt8,
    (0x80 : UInt8) ||| (unit &&& 0x3F).toUInt8]

def writeModifiedChar (c : Char) : Bytes :=
  let cp := c.val
  if cp ≠ 0 ∧ cp < 0x80 then [cp.toUInt8]
  else if cp = 0 ∨ cp < 0x800 then
    [(0xC0 : UInt8) ||| (cp >>> 6).toUInt8, (0x80 : UInt8) ||| (cp &&& 0x3F).toUInt8]
  else if cp < 0x10000 then writeUnit cp
  else
    let v := cp - 0x10000
    writeUnit ((0xD800 : UInt32) + (v >>> 10)) ++ writeUnit ((0xDC00 : UInt32) + (v &&& 0x3FF))

def writeModifiedUtf8 (s : String) : Bytes :=
  let len := modifiedUtf8Len s
  let (chars, len) := if maxModifiedLen < len then takeFitting s.toList 0 else (s.toList, len)
  writeU16 (UInt16.ofNat len) ++ chars.flatMap writeModifiedChar

/-! ## Decoding -/

def continuation (bytes : Bytes) (i : Nat) : Except ProtocolError UInt32 :=
  match bytes[i]? with
  | none => .error (.nbt "truncated modified UTF-8 sequence")
  | some b =>
      if b &&& 0xC0 ≠ 0x80 then .error (.nbt "bad continuation byte")
      else .ok (b &&& 0x3F).toUInt32

/-- `char::from_u32`, failing with the decoder's error. -/
def charFromU32 (cp : UInt32) : Except ProtocolError Char :=
  if h : cp.isValidChar then .ok ⟨cp, h⟩ else .error (.nbt "invalid code point")

/-- The unit whose lead byte `lead` stands at index `i`. -/
def readUnit (bytes : Bytes) (lead : UInt8) (i : Nat) : Except ProtocolError UInt32 := do
  return (lead &&& 0x0F).toUInt32 <<< 12 ||| (← continuation bytes (i + 1)) <<< 6 |||
    (← continuation bytes (i + 2))

/-- The low surrogate that has to follow a high one. -/
def readLowSurrogate (bytes : Bytes) : Except ProtocolError UInt32 :=
  match bytes[3]? with
  | none => .error (.nbt "unpaired high surrogate")
  | some lead =>
      if lead &&& 0xF0 ≠ 0xE0 then .error (.nbt "unpaired high surrogate")
      else do
        let low ← readUnit bytes lead 3
        if 0xDC00 ≤ low ∧ low < 0xE000 then return low
        else throw (.nbt "unpaired high surrogate")

/-- One turn of the decoding loop on the bytes from index `i` on, which start with
`b`: the character and the bytes it takes. -/
def decodeModifiedChar (bytes : Bytes) (b : UInt8) : Except ProtocolError (Char × Nat) :=
  if b < 0x80 then .ok (Char.ofNat b.toNat, 1)
  else if b &&& 0xE0 = 0xC0 then do
    let cp := (b &&& 0x1F).toUInt32 <<< 6 ||| (← continuation bytes 1)
    return (← charFromU32 cp, 2)
  else if b &&& 0xF0 = 0xE0 then do
    let unit ← readUnit bytes b 0
    if 0xD800 ≤ unit ∧ unit < 0xDC00 then
      let low ← readLowSurrogate bytes
      let cp := (0x10000 : UInt32) + ((unit - 0xD800) <<< 10) + (low - 0xDC00)
      return (← charFromU32 cp, 6)
    else if 0xDC00 ≤ unit ∧ unit < 0xE000 then throw (.nbt "unpaired low surrogate")
    else return (← charFromU32 unit, 3)
  else .error (.nbt "invalid modified UTF-8 lead byte")

/-- The decoding loop.  A turn always takes at least one byte. -/
def decodeModifiedChars (bytes : Bytes) : Except ProtocolError (List Char) :=
  match bytes with
  | [] => .ok []
  | b :: rest => do
      let (c, used) ← decodeModifiedChar (b :: rest) b
      return c :: (← decodeModifiedChars (rest.drop (used - 1)))
termination_by bytes.length
decreasing_by
  rw [List.length_drop, List.length_cons]
  omega

def decodeModifiedUtf8 (bytes : Bytes) : Except ProtocolError String := do
  return String.ofList (← decodeModifiedChars bytes)

def readModifiedUtf8 : Reader String := do
  let len ← readU16
  let bytes ← readBytes len.toNat
  match decodeModifiedUtf8 bytes with
  | .ok s => return s
  | .error e => throw e

/-! ## Lengths -/

/-- The string takes at most 65535 bytes of modified UTF-8. -/
def FitsPrefix (s : String) : Prop := modifiedUtf8Len s ≤ maxModifiedLen

instance (s : String) : Decidable (FitsPrefix s) :=
  inferInstanceAs (Decidable (modifiedUtf8Len s ≤ maxModifiedLen))

/-- What the writer keeps of a string. -/
def clipString (s : String) : String :=
  if maxModifiedLen < modifiedUtf8Len s then String.ofList (takeFitting s.toList 0).1 else s

theorem clipString_of_fits {s : String} (h : FitsPrefix s) : clipString s = s :=
  if_neg (Nat.not_lt.mpr h)

theorem takeFitting_spec (chars : List Char) : ∀ used ≤ maxModifiedLen,
    (takeFitting chars used).2 = used + ((takeFitting chars used).1.map modifiedCharLen).sum ∧
      (takeFitting chars used).2 ≤ maxModifiedLen := by
  induction chars with
  | nil => intro used hused; exact ⟨rfl, hused⟩
  | cons c chars ih =>
      intro used hused
      rw [takeFitting]
      by_cases hfull : maxModifiedLen < used + modifiedCharLen c
      · rw [if_pos hfull]
        exact ⟨rfl, hused⟩
      · rw [if_neg hfull]
        obtain ⟨htotal, hle⟩ := ih (used + modifiedCharLen c) (Nat.le_of_not_lt hfull)
        refine ⟨?_, hle⟩
        simp only [htotal, List.map_cons, List.sum_cons]
        omega

/-- What is kept always fits. -/
theorem fits_clipString (s : String) : FitsPrefix (clipString s) := by
  unfold clipString
  split
  · obtain ⟨htotal, hle⟩ := takeFitting_spec s.toList 0 (Nat.zero_le _)
    rw [FitsPrefix, modifiedUtf8Len, String.toList_ofList]
    omega
  · rename_i h
    exact Nat.le_of_not_lt h

/-- A string survives the writer exactly when it fits. -/
theorem clipString_eq_self_iff (s : String) : clipString s = s ↔ FitsPrefix s := by
  constructor
  · intro h
    rw [← h]
    exact fits_clipString s
  · exact clipString_of_fits

/-- The writer writes what it keeps, behind its length. -/
theorem writeModifiedUtf8_eq (s : String) :
    writeModifiedUtf8 s = writeU16 (UInt16.ofNat (modifiedUtf8Len (clipString s))) ++
      (clipString s).toList.flatMap writeModifiedChar := by
  unfold writeModifiedUtf8 clipString
  by_cases hlong : maxModifiedLen < modifiedUtf8Len s
  · obtain ⟨htotal, -⟩ := takeFitting_spec s.toList 0 (Nat.zero_le _)
    simp only [if_pos hlong]
    rw [modifiedUtf8Len, String.toList_ofList, htotal, Nat.zero_add]
  · simp only [if_neg hlong]

/-! ## Bytes of one unit -/

theorem tail_byte : ∀ x : Fin 64, (0x80 ||| UInt8.ofNat x) &&& 0xC0 = 0x80 ∧
    (0x80 ||| UInt8.ofNat x) &&& 0x3F = UInt8.ofNat x := by
  decide

theorem lead_two : ∀ x : Fin 32, ¬ (0xC0 ||| UInt8.ofNat x) < 0x80 ∧
    (0xC0 ||| UInt8.ofNat x) &&& 0xE0 = 0xC0 ∧
    (0xC0 ||| UInt8.ofNat x) &&& 0x1F = UInt8.ofNat x := by
  decide

theorem lead_three : ∀ x : Fin 16, ¬ (0xE0 ||| UInt8.ofNat x) < 0x80 ∧
    (0xE0 ||| UInt8.ofNat x) &&& 0xE0 ≠ 0xC0 ∧ (0xE0 ||| UInt8.ofNat x) &&& 0xF0 = 0xE0 ∧
    (0xE0 ||| UInt8.ofNat x) &&& 0x0F = UInt8.ofNat x := by
  decide

theorem toUInt32_ofNat {x : Nat} (hx : x < 256) :
    (UInt8.ofNat x).toUInt32 = UInt32.ofNat x := by
  apply UInt32.toNat_inj.mp
  simp
  omega

theorem continuation_tail {bytes : Bytes} {i x : Nat} (hx : x < 64)
    (hat : bytes[i]? = some (0x80 ||| UInt8.ofNat x)) :
    continuation bytes i = .ok (UInt32.ofNat x) := by
  obtain ⟨hmarker, hvalue⟩ := tail_byte ⟨x, hx⟩
  simp only [continuation, hat, ne_eq, hmarker, not_true_eq_false, if_false, hvalue]
  rw [toUInt32_ofNat (by omega)]

theorem toUInt8_eq (v : UInt32) : v.toUInt8 = UInt8.ofNat v.toNat := by
  apply UInt8.toNat_inj.mp
  simp

/-- The six-bit digits of a code point, as the writer extracts them. -/
theorem low_digit (v : UInt32) : (v &&& 0x3F).toUInt8 = UInt8.ofNat (v.toNat % 64) := by
  rw [toUInt8_eq, UInt32.toNat_and]
  congr 1
  exact Nat.and_two_pow_sub_one_eq_mod v.toNat 6

theorem middle_digit (v : UInt32) :
    ((v >>> 6) &&& 0x3F).toUInt8 = UInt8.ofNat (v.toNat / 64 % 64) := by
  rw [low_digit, UInt32.toNat_shiftRight]
  congr 2
  exact Nat.shiftRight_eq_div_pow v.toNat 6

theorem high_digit (v : UInt32) : (v >>> 12).toUInt8 = UInt8.ofNat (v.toNat / 4096) := by
  rw [toUInt8_eq, UInt32.toNat_shiftRight]
  congr 1
  exact Nat.shiftRight_eq_div_pow v.toNat 12

theorem join_two {x y : Nat} (hx : x < 64) (hy : y < 64) :
    (UInt32.ofNat x) <<< 6 ||| UInt32.ofNat y = UInt32.ofNat (x * 64 + y) := by
  apply UInt32.toNat_inj.mp
  have hjoin := Nat.two_pow_add_eq_or_of_lt (i := 6) hy x
  simp only [Nat.reducePow, Nat.mul_comm 64 x] at hjoin
  have hx' : x % 4294967296 = x := Nat.mod_eq_of_lt (by omega)
  have hy' : y % 4294967296 = y := Nat.mod_eq_of_lt (by omega)
  have hxy : x * 64 % 4294967296 = x * 64 := Nat.mod_eq_of_lt (by omega)
  simp only [UInt32.toNat_or, UInt32.toNat_shiftLeft, UInt32.toNat_ofNat', Nat.reducePow,
    UInt32.reduceToNat, Nat.reduceMod, Nat.shiftLeft_eq, hx', hy', hxy]
  omega

theorem join_three {x y z : Nat} (hx : x < 16) (hy : y < 64) (hz : z < 64) :
    (UInt32.ofNat x) <<< 12 ||| (UInt32.ofNat y) <<< 6 ||| UInt32.ofNat z =
      UInt32.ofNat (x * 4096 + y * 64 + z) := by
  rw [UInt32.or_assoc, join_two hy hz]
  apply UInt32.toNat_inj.mp
  have hjoin := Nat.two_pow_add_eq_or_of_lt (i := 12) (b := y * 64 + z) (by omega) x
  simp only [Nat.reducePow, Nat.mul_comm 4096 x] at hjoin
  have hx' : x % 4294967296 = x := Nat.mod_eq_of_lt (by omega)
  have hyz : (y * 64 + z) % 4294967296 = y * 64 + z := Nat.mod_eq_of_lt (by omega)
  have hxy : x * 4096 % 4294967296 = x * 4096 := Nat.mod_eq_of_lt (by omega)
  have hall : (x * 4096 + y * 64 + z) % 4294967296 = x * 4096 + y * 64 + z :=
    Nat.mod_eq_of_lt (by omega)
  simp only [UInt32.toNat_or, UInt32.toNat_shiftLeft, UInt32.toNat_ofNat', Nat.reducePow,
    UInt32.reduceToNat, Nat.reduceMod, Nat.shiftLeft_eq, hx', hyz, hxy, hall]
  omega

/-- A unit is read back from its three bytes. -/
theorem readUnit_writeUnit (unit : UInt32) (hunit : unit.toNat < 0x10000) (bytes : Bytes)
    (i : Nat) {suffix : Bytes} (hbytes : bytes.drop i = writeUnit unit ++ suffix) :
    ∃ lead, bytes[i]? = some lead ∧ ¬ lead < 0x80 ∧ lead &&& 0xE0 ≠ 0xC0 ∧
      lead &&& 0xF0 = 0xE0 ∧ readUnit bytes lead i = .ok unit := by
  have hat : ∀ k, bytes[i + k]? = (writeUnit unit ++ suffix)[k]? := by
    intro k
    rw [← hbytes, List.getElem?_drop]
  obtain ⟨hhigh, htwo, hthree, hvalue⟩ := lead_three ⟨unit.toNat / 4096, by omega⟩
  have hmiddle : continuation bytes (i + 1) = .ok (UInt32.ofNat (unit.toNat / 64 % 64)) :=
    continuation_tail (by omega) (by rw [hat 1, ← middle_digit]; rfl)
  have hlow : continuation bytes (i + 2) = .ok (UInt32.ofNat (unit.toNat % 64)) :=
    continuation_tail (by omega) (by rw [hat 2, ← low_digit]; rfl)
  refine ⟨_, ?_, hhigh, htwo, hthree, ?_⟩
  · have h := hat 0
    rw [Nat.add_zero] at h
    rw [h, ← high_digit]
    rfl
  · have hjoin := join_three (x := unit.toNat / 4096) (y := unit.toNat / 64 % 64)
      (z := unit.toNat % 64) (by omega) (by omega) (by omega)
    have hsum : unit.toNat / 4096 * 4096 + unit.toNat / 64 % 64 * 64 + unit.toNat % 64 =
        unit.toNat := by omega
    rw [readUnit, hmiddle, hlow, hvalue, toUInt32_ofNat (by omega)]
    rw [hsum, UInt32.ofNat_toNat] at hjoin
    exact congrArg Except.ok hjoin

/-! ## One character -/

theorem charFromU32_val (c : Char) : charFromU32 c.val = .ok c := by
  rw [charFromU32, dif_pos c.valid]

theorem length_writeModifiedChar (c : Char) :
    (writeModifiedChar c).length = modifiedCharLen c := by
  unfold writeModifiedChar modifiedCharLen
  by_cases hzero : c.val = 0
  · simp [hzero]
  · by_cases hone : c.val < 0x80
    · simp [hzero, hone]
    · by_cases htwo : c.val < 0x800
      · simp [hzero, hone, htwo]
      · by_cases hthree : c.val < 0x10000
        · simp [hzero, hone, htwo, hthree, writeUnit]
        · simp [hzero, hone, htwo, hthree, writeUnit]

/-- What `Char` guarantees of a code point. -/
theorem codePoint_range (c : Char) :
    c.val.toNat < 0x110000 ∧ ¬ (0xD800 ≤ c.val.toNat ∧ c.val.toNat < 0xE000) := by
  have hvalid := c.valid
  unfold UInt32.isValidChar Nat.isValidChar at hvalid
  omega

theorem decode_oneByte {c : Char} (hlt : c.val < 0x80) (suffix : Bytes) :
    decodeModifiedChar (c.val.toUInt8 :: suffix) c.val.toUInt8 = .ok (c, 1) := by
  have hsmall : c.val.toNat < 128 := UInt32.lt_iff_toNat_lt.mp hlt
  have hbyte : c.val.toUInt8.toNat = c.val.toNat := by
    rw [UInt32.toNat_toUInt8]
    omega
  have hchar : Char.ofNat c.val.toUInt8.toNat = c := by
    rw [hbyte]
    exact Char.ofNat_toNat c
  rw [decodeModifiedChar, if_pos (by rw [UInt8.lt_iff_toNat_lt, hbyte]; exact hsmall), hchar]

theorem decode_twoBytes {c : Char} (hlt : c.val < 0x800) (suffix : Bytes) :
    decodeModifiedChar (((0xC0 : UInt8) ||| (c.val >>> 6).toUInt8) ::
      ((0x80 : UInt8) ||| (c.val &&& 0x3F).toUInt8) :: suffix)
      ((0xC0 : UInt8) ||| (c.val >>> 6).toUInt8) = .ok (c, 2) := by
  have hsmall : c.val.toNat < 2048 := UInt32.lt_iff_toNat_lt.mp hlt
  have hhigh : (c.val >>> 6).toUInt8 = UInt8.ofNat (c.val.toNat / 64) := by
    rw [toUInt8_eq, UInt32.toNat_shiftRight]
    congr 1
    exact Nat.shiftRight_eq_div_pow c.val.toNat 6
  rw [hhigh, low_digit]
  obtain ⟨hnotOne, htwo, hvalue⟩ := lead_two ⟨c.val.toNat / 64, by omega⟩
  have htail : continuation ((0xC0 ||| UInt8.ofNat (c.val.toNat / 64)) ::
      (0x80 ||| UInt8.ofNat (c.val.toNat % 64)) :: suffix) 1 =
      .ok (UInt32.ofNat (c.val.toNat % 64)) := continuation_tail (by omega) rfl
  have hjoin := join_two (x := c.val.toNat / 64) (y := c.val.toNat % 64) (by omega) (by omega)
  rw [show c.val.toNat / 64 * 64 + c.val.toNat % 64 = c.val.toNat by omega,
    UInt32.ofNat_toNat] at hjoin
  rw [decodeModifiedChar, if_neg hnotOne, if_pos htwo, htail, hvalue, toUInt32_ofNat (by omega)]
  change (charFromU32 (UInt32.ofNat (c.val.toNat / 64) <<< 6 |||
    UInt32.ofNat (c.val.toNat % 64))).bind _ = _
  rw [hjoin, charFromU32_val]
  rfl

theorem decode_unit {c : Char} (hlt : c.val < 0x10000) (suffix : Bytes) :
    ∃ b rest, writeUnit c.val ++ suffix = b :: rest ∧
      decodeModifiedChar (b :: rest) b = .ok (c, 3) := by
  have hrange := codePoint_range c
  obtain ⟨lead, hlead, hhigh, htwo, hthree, hunit⟩ := readUnit_writeUnit c.val
    (UInt32.lt_iff_toNat_lt.mp hlt) (writeUnit c.val ++ suffix) 0 rfl
  have hb : lead = (0xE0 : UInt8) ||| (c.val >>> 12).toUInt8 := (Option.some.inj hlead).symm
  have hnotHigh : ¬ (0xD800 ≤ c.val ∧ c.val < 0xDC00) := by
    rw [UInt32.le_iff_toNat_le, UInt32.lt_iff_toNat_lt]
    intro h
    exact hrange.2 ⟨h.1, h.2.trans (by decide)⟩
  have hnotLow : ¬ (0xDC00 ≤ c.val ∧ c.val < 0xE000) := by
    rw [UInt32.le_iff_toNat_le, UInt32.lt_iff_toNat_lt]
    intro h
    exact hrange.2 ⟨Nat.le_trans (by decide) h.1, h.2⟩
  refine ⟨lead, _, by rw [hb]; rfl, ?_⟩
  rw [hb] at hhigh htwo hthree hunit ⊢
  change decodeModifiedChar (writeUnit c.val ++ suffix) _ = _
  rw [decodeModifiedChar, if_neg hhigh, if_neg htwo, if_pos hthree, hunit]
  change (if 0xD800 ≤ c.val ∧ c.val < 0xDC00 then _
    else if 0xDC00 ≤ c.val ∧ c.val < 0xE000 then _ else _) = _
  rw [if_neg hnotHigh, if_neg hnotLow, charFromU32_val]
  rfl

/-- The surrogate pair of a supplementary character. -/
theorem surrogates {v : UInt32} (hlow : 0x10000 ≤ v.toNat) (hhigh : v.toNat < 0x110000) :
    ((0xD800 : UInt32) + ((v - 0x10000) >>> 10)).toNat = 0xD800 + (v.toNat - 0x10000) / 1024 ∧
      ((0xDC00 : UInt32) + ((v - 0x10000) &&& 0x3FF)).toNat =
        0xDC00 + (v.toNat - 0x10000) % 1024 := by
  have hsub : (v - 0x10000).toNat = v.toNat - 0x10000 := by
    rw [UInt32.toNat_sub_of_le _ _ (by rw [UInt32.le_iff_toNat_le]; exact hlow)]
    rfl
  constructor
  · rw [UInt32.toNat_add, UInt32.toNat_shiftRight, hsub]
    change (0xD800 + (v.toNat - 0x10000) >>> 10) % 2 ^ 32 = _
    rw [Nat.shiftRight_eq_div_pow]
    omega
  · rw [UInt32.toNat_add, UInt32.toNat_and, hsub]
    change (0xDC00 + ((v.toNat - 0x10000) &&& (2 ^ 10 - 1))) % 2 ^ 32 = _
    rw [Nat.and_two_pow_sub_one_eq_mod]
    omega

/-- The code point of a surrogate pair. -/
theorem toNat_pair {high low : UInt32} (hhigh : 0xD800 ≤ high.toNat ∧ high.toNat < 0xDC00)
    (hlow : 0xDC00 ≤ low.toNat ∧ low.toNat < 0xE000) :
    ((0x10000 : UInt32) + ((high - 0xD800) <<< 10) + (low - 0xDC00)).toNat =
      0x10000 + (high.toNat - 0xD800) * 0x400 + (low.toNat - 0xDC00) := by
  have hh : (high - 0xD800).toNat = high.toNat - 0xD800 :=
    UInt32.toNat_sub_of_le _ _ (UInt32.le_iff_toNat_le.mpr hhigh.1)
  have hl : (low - 0xDC00).toNat = low.toNat - 0xDC00 :=
    UInt32.toNat_sub_of_le _ _ (UInt32.le_iff_toNat_le.mpr hlow.1)
  rw [UInt32.toNat_add, UInt32.toNat_add, UInt32.toNat_shiftLeft, hh, hl]
  change ((0x10000 + (high.toNat - 0xD800) <<< 10 % 2 ^ 32) % 2 ^ 32 + (low.toNat - 0xDC00)) %
    2 ^ 32 = _
  rw [Nat.shiftLeft_eq]
  omega

theorem decode_pair {c : Char} (hge : ¬ c.val < 0x10000) (suffix : Bytes) :
    ∃ b rest, writeUnit ((0xD800 : UInt32) + ((c.val - 0x10000) >>> 10)) ++
        writeUnit ((0xDC00 : UInt32) + ((c.val - 0x10000) &&& 0x3FF)) ++ suffix = b :: rest ∧
      decodeModifiedChar (b :: rest) b = .ok (c, 6) := by
  have hrange := codePoint_range c
  have hlarge : 0x10000 ≤ c.val.toNat := by
    rw [UInt32.lt_iff_toNat_lt] at hge
    exact Nat.le_of_not_lt hge
  obtain ⟨hhighNat, hlowNat⟩ := surrogates hlarge hrange.1
  generalize hhighDef : (0xD800 : UInt32) + ((c.val - 0x10000) >>> 10) = high at hhighNat ⊢
  generalize hlowDef : (0xDC00 : UInt32) + ((c.val - 0x10000) &&& 0x3FF) = low at hlowNat ⊢
  have hjoined : (0x10000 : UInt32) + ((high - 0xD800) <<< 10) + (low - 0xDC00) = c.val := by
    apply UInt32.toNat_inj.mp
    rw [toNat_pair (by omega) (by omega)]
    omega
  obtain ⟨lead, hlead, hnotOne, htwo, hthree, hunit⟩ := readUnit_writeUnit high (by omega)
    (writeUnit high ++ writeUnit low ++ suffix) 0 (by rw [List.append_assoc]; rfl)
  obtain ⟨lead', hlead', -, -, hthree', hunit'⟩ := readUnit_writeUnit low (by omega)
    (writeUnit high ++ writeUnit low ++ suffix) 3 rfl
  have hb : lead = (0xE0 : UInt8) ||| (high >>> 12).toUInt8 := (Option.some.inj hlead).symm
  have hisHigh : 0xD800 ≤ high ∧ high < 0xDC00 := by
    rw [UInt32.le_iff_toNat_le, UInt32.lt_iff_toNat_lt]
    change 0xD800 ≤ high.toNat ∧ high.toNat < 0xDC00
    omega
  have hisLow : 0xDC00 ≤ low ∧ low < 0xE000 := by
    rw [UInt32.le_iff_toNat_le, UInt32.lt_iff_toNat_lt]
    change 0xDC00 ≤ low.toNat ∧ low.toNat < 0xE000
    omega
  have hreadLow : readLowSurrogate (writeUnit high ++ writeUnit low ++ suffix) = .ok low := by
    rw [readLowSurrogate, hlead']
    simp only [hthree', ne_eq, not_true_eq_false, if_false, hunit']
    change (if 0xDC00 ≤ low ∧ low < 0xE000 then _ else _) = _
    rw [if_pos hisLow]
    rfl
  refine ⟨lead, _, by rw [hb]; rfl, ?_⟩
  rw [hb] at hnotOne htwo hthree hunit ⊢
  change decodeModifiedChar (writeUnit high ++ writeUnit low ++ suffix) _ = _
  rw [decodeModifiedChar, if_neg hnotOne, if_neg htwo, if_pos hthree, hunit]
  change (if 0xD800 ≤ high ∧ high < 0xDC00 then _ else _) = _
  rw [if_pos hisHigh, hreadLow]
  change (charFromU32 ((0x10000 : UInt32) + ((high - 0xD800) <<< 10) + (low - 0xDC00))).bind _ = _
  rw [hjoined, charFromU32_val]
  rfl

/-- A character is read back from its bytes, whatever follows. -/
theorem decodeModifiedChar_write (c : Char) (suffix : Bytes) :
    ∃ b rest, writeModifiedChar c ++ suffix = b :: rest ∧
      decodeModifiedChar (b :: rest) b = .ok (c, modifiedCharLen c) := by
  unfold writeModifiedChar modifiedCharLen
  by_cases hzero : c.val = 0
  · have htwo := decode_twoBytes (c := c) (by rw [hzero]; decide) suffix
    simp only [hzero, ne_eq, not_true_eq_false, false_and, if_false, true_or, if_true]
    rw [hzero] at htwo
    exact ⟨_, _, rfl, htwo⟩
  · by_cases hone : c.val < 0x80
    · refine ⟨c.val.toUInt8, suffix, by simp [hzero, hone], ?_⟩
      rw [if_neg hzero, if_pos hone]
      exact decode_oneByte hone suffix
    · by_cases htwo : c.val < 0x800
      · simp only [hzero, hone, htwo, and_false, if_false, or_true, if_true]
        exact ⟨_, _, rfl, decode_twoBytes htwo suffix⟩
      · by_cases hthree : c.val < 0x10000
        · simp only [hzero, hone, htwo, hthree, and_false, or_self, if_false, if_true]
          exact decode_unit hthree suffix
        · simp only [hzero, hone, htwo, hthree, and_false, or_self, if_false]
          exact decode_pair hthree suffix

/-! ## Whole strings -/

theorem decodeModifiedChars_write (chars : List Char) :
    decodeModifiedChars (chars.flatMap writeModifiedChar) = .ok chars := by
  induction chars with
  | nil => rw [List.flatMap_nil, decodeModifiedChars]
  | cons c chars ih =>
      obtain ⟨b, rest, hbytes, hdecode⟩ :=
        decodeModifiedChar_write c (chars.flatMap writeModifiedChar)
      have hpos : 0 < modifiedCharLen c := by
        unfold modifiedCharLen
        split_ifs <;> decide
      have hrest : rest.drop (modifiedCharLen c - 1) = chars.flatMap writeModifiedChar := by
        have hdrop := congrArg (List.drop (modifiedCharLen c)) hbytes
        rw [← length_writeModifiedChar, List.drop_left, length_writeModifiedChar,
          show modifiedCharLen c = modifiedCharLen c - 1 + 1 by omega, List.drop_succ_cons] at hdrop
        exact hdrop.symm
      rw [List.flatMap_cons, hbytes, decodeModifiedChars, hdecode]
      change (decodeModifiedChars (rest.drop (modifiedCharLen c - 1))).bind _ = _
      rw [hrest, ih]
      rfl

theorem length_writeModifiedChars (chars : List Char) :
    (chars.flatMap writeModifiedChar).length = (chars.map modifiedCharLen).sum := by
  rw [List.length_flatMap]
  congr 1
  apply List.map_congr_left
  intro c _
  exact length_writeModifiedChar c

/-- Any bytes the decoder accepts are read as a string behind their length. -/
theorem readModifiedUtf8_of_decode {bytes : Bytes} {s : String} (hlength : bytes.length < 65536)
    (hdecode : decodeModifiedUtf8 bytes = .ok s) :
    ReadsAs readModifiedUtf8 (writeU16 (UInt16.ofNat bytes.length) ++ bytes) s := by
  have hprefix : (UInt16.ofNat bytes.length).toNat = bytes.length := by
    rw [UInt16.toNat_ofNat']
    exact Nat.mod_eq_of_lt hlength
  have htake := take_reads bytes
  rw [← hprefix] at htake
  apply (readU16_reads _).bind
  refine Reads.congr (Reads.bind htake ?_) (List.append_nil bytes)
  rw [hdecode]
  exact Reads.pure s

theorem decodeModifiedUtf8_write (s : String) :
    decodeModifiedUtf8 (s.toList.flatMap writeModifiedChar) = .ok s := by
  rw [decodeModifiedUtf8, decodeModifiedChars_write]
  exact congrArg Except.ok String.ofList_toList

/-- Reading a written string gives back what the writer kept of it. -/
theorem readModifiedUtf8_reads (s : String) :
    ReadsAs readModifiedUtf8 (writeModifiedUtf8 s) (clipString s) := by
  have hfits := fits_clipString s
  have hlength := length_writeModifiedChars (clipString s).toList
  rw [writeModifiedUtf8_eq, modifiedUtf8Len, ← hlength]
  apply readModifiedUtf8_of_decode _ (decodeModifiedUtf8_write (clipString s))
  rw [hlength]
  exact Nat.lt_succ_of_le hfits

/-! ## Where a long string is cut -/

theorem takeFitting_prefix (chars : List Char) : ∀ used, (takeFitting chars used).1 <+: chars := by
  induction chars with
  | nil => exact fun _ => List.prefix_refl []
  | cons c chars ih =>
      intro used
      rw [takeFitting]
      by_cases hfull : maxModifiedLen < used + modifiedCharLen c
      · rw [if_pos hfull]
        exact List.nil_prefix
      · rw [if_neg hfull]
        exact (List.prefix_cons_inj c).mpr (ih (used + modifiedCharLen c))

/-- The loop stops at the first character that does not fit, and no prefix past it fits. -/
theorem takeFitting_longest (chars : List Char) : ∀ {used : Nat} {other : List Char},
    other <+: chars → used + (other.map modifiedCharLen).sum ≤ maxModifiedLen →
      other <+: (takeFitting chars used).1 := by
  induction chars with
  | nil => exact fun hother _ => hother
  | cons c chars ih =>
      intro used other hother hfits
      cases other with
      | nil => exact List.nil_prefix
      | cons d rest =>
          obtain ⟨rfl, hrest⟩ := List.cons_prefix_cons.mp hother
          rw [List.map_cons, List.sum_cons] at hfits
          rw [takeFitting, if_neg (by omega)]
          exact (List.prefix_cons_inj d).mpr (ih hrest (by omega))

/-- `cut` is the longest prefix of `s`, in whole characters, that the length prefix can
announce. -/
structure IsCutOf (cut s : String) : Prop where
  isPrefix : cut.toList <+: s.toList
  fits : FitsPrefix cut
  longest : ∀ other : String, other.toList <+: s.toList → FitsPrefix other →
    other.toList <+: cut.toList

theorem clipString_isCutOf (s : String) : IsCutOf (clipString s) s where
  isPrefix := by
    unfold clipString
    split
    · rw [String.toList_ofList]
      exact takeFitting_prefix s.toList 0
    · exact List.prefix_refl s.toList
  fits := fits_clipString s
  longest := by
    intro other hother hfits
    unfold clipString
    split
    · rw [String.toList_ofList]
      apply takeFitting_longest s.toList hother
      rw [Nat.zero_add]
      exact hfits
    · exact hother

/-- A string is written as its longest prefix that fits, behind the number of bytes that
takes. -/
theorem modifiedUtf8_cut (s : String) :
    ∃ bytes cut, writeModifiedUtf8 s = writeU16 (UInt16.ofNat bytes.length) ++ bytes ∧
      bytes.length ≤ maxModifiedLen ∧ decodeModifiedUtf8 bytes = .ok cut ∧ IsCutOf cut s ∧
      (modifiedUtf8Len s ≤ maxModifiedLen → cut = s) := by
  have hlength := length_writeModifiedChars (clipString s).toList
  refine ⟨(clipString s).toList.flatMap writeModifiedChar, clipString s, ?_, ?_,
    decodeModifiedUtf8_write (clipString s), clipString_isCutOf s, clipString_of_fits⟩
  · rw [writeModifiedUtf8_eq, hlength]
    rfl
  · rw [hlength]
    exact fits_clipString s

/-- A raw NUL byte is accepted, though the writer never emits one. -/
theorem decodeModifiedUtf8_zeros (n : Nat) :
    decodeModifiedUtf8 (List.replicate n 0) =
      .ok (String.ofList (List.replicate n (Char.ofNat 0))) := by
  have hchars : decodeModifiedChars (List.replicate n 0) =
      .ok (List.replicate n (Char.ofNat 0)) := by
    induction n with
    | zero => rw [List.replicate_zero, decodeModifiedChars, List.replicate_zero]
    | succ n ih =>
        rw [List.replicate_succ, decodeModifiedChars, decodeModifiedChar, if_pos (by decide)]
        change (decodeModifiedChars (List.replicate n 0)).bind _ = _
        rw [ih]
        rfl
  rw [decodeModifiedUtf8, hchars]
  rfl

theorem modifiedUtf8Len_zeros (n : Nat) :
    modifiedUtf8Len (String.ofList (List.replicate n (Char.ofNat 0))) = n * 2 := by
  rw [modifiedUtf8Len, String.toList_ofList, List.map_replicate, List.sum_replicate]
  rfl

end Rukkit.Protocol
