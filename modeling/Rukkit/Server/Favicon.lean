import Rukkit.Lib.Base64
import Rukkit.Protocol.Error

/-!
# The favicon

The data URI of `rukkit-server/src/status.rs` and the base64 encoder behind it.
-/

namespace Rukkit.Server

open Rukkit.Lib Rukkit.Protocol

/-- `ALPHABET`, one character for each value of six bits. -/
def alphabet : List Char :=
  ['A', 'B', 'C', 'D', 'E', 'F', 'G', 'H', 'I', 'J', 'K', 'L', 'M', 'N', 'O', 'P', 'Q', 'R', 'S',
    'T', 'U', 'V', 'W', 'X', 'Y', 'Z', 'a', 'b', 'c', 'd', 'e', 'f', 'g', 'h', 'i', 'j', 'k', 'l',
    'm', 'n', 'o', 'p', 'q', 'r', 's', 't', 'u', 'v', 'w', 'x', 'y', 'z', '0', '1', '2', '3', '4',
    '5', '6', '7', '8', '9', '+', '/']

/-- `ALPHABET[n as usize & 0x3F] as char`; the mask keeps the index in range. -/
def alphabetAt (n : UInt32) : Char :=
  alphabet.get ⟨n.toNat &&& 0x3F, Nat.lt_of_le_of_lt Nat.and_le_right (by decide)⟩

/-- `<[u8]>::chunks(3)`: groups of three bytes and what is left. -/
def chunksOfThree : Bytes → List Bytes
  | [] => []
  | [a] => [[a]]
  | [a, b] => [[a, b]]
  | a :: b :: c :: rest => [a, b, c] :: chunksOfThree rest

/-- The four characters of a chunk, which is not empty. -/
def base64Chunk (chunk : Bytes) : List Char :=
  let b0 := chunk[0]?.getD 0
  let b1 := chunk[1]?.getD 0
  let b2 := chunk[2]?.getD 0
  let n := b0.toUInt32 <<< 16 ||| b1.toUInt32 <<< 8 ||| b2.toUInt32
  [alphabetAt (n >>> 18), alphabetAt (n >>> 12),
    if 1 < chunk.length then alphabetAt (n >>> 6) else '=',
    if 2 < chunk.length then alphabetAt n else '=']

/-- The characters `base64_encode` pushes. -/
def base64Chars (input : Bytes) : List Char := (chunksOfThree input).flatMap base64Chunk

def base64Encode (input : Bytes) : String := String.ofList (base64Chars input)

/-- What every PNG file starts with. -/
def pngSignature : Bytes := [0x89, 0x50, 0x4E, 0x47, 0x0D, 0x0A, 0x1A, 0x0A]

/-- Parses a favicon file into the data URI the protocol expects. -/
def faviconDataUri (png : Bytes) : Option String :=
  if pngSignature.isPrefixOf png then some ("data:image/png;base64," ++ base64Encode png)
  else none

/-! ## Digits -/

/-- The character of six bits. -/
def sextetChar (v : BitVec 6) : Char := alphabet.get ⟨v.toNat, v.isLt⟩

theorem digitValue_sextetChar (v : BitVec 6) : Base64.digitValue (sextetChar v) = some v := by
  have hall : ∀ i : Fin 64, Base64.digitValue (alphabet.get i) = some (BitVec.ofFin i) := by
    decide
  exact hall v.toFin

/-- The three bytes side by side in the word that the source assembles. -/
theorem toBitVec_group (a b c : UInt8) :
    (a.toUInt32 <<< 16 ||| b.toUInt32 <<< 8 ||| c.toUInt32).toBitVec =
      (a.toBitVec ++ b.toBitVec ++ c.toBitVec).setWidth 32 := by
  change a.toBitVec.setWidth 32 <<< 16 ||| b.toBitVec.setWidth 32 <<< 8 |||
    c.toBitVec.setWidth 32 = _
  apply BitVec.eq_of_getLsbD_eq
  intro i hi
  simp only [BitVec.getLsbD_or, BitVec.getLsbD_shiftLeft, BitVec.getLsbD_setWidth,
    BitVec.getLsbD_append]
  grind

/-- The masked index is the sextet that starts at the shift. -/
theorem alphabetAt_shift {n : UInt32} {group : BitVec 24} {shift : Nat}
    (hn : n.toNat = group.toNat >>> shift) :
    alphabetAt n = sextetChar (Base64.sextet group shift) := by
  have hindex : n.toNat &&& 0x3F = (Base64.sextet group shift).toNat := by
    rw [hn, Base64.sextet, BitVec.extractLsb'_toNat]
    exact Nat.and_two_pow_sub_one_eq_mod _ 6
  unfold alphabetAt sextetChar
  congr 1
  exact Fin.ext hindex

section Chunk

variable (a b c : UInt8)

theorem toNat_group :
    (a.toUInt32 <<< 16 ||| b.toUInt32 <<< 8 ||| c.toUInt32).toNat =
      (a.toBitVec ++ b.toBitVec ++ c.toBitVec).toNat := by
  have hgroup := congrArg BitVec.toNat (toBitVec_group a b c)
  have hlt := (a.toBitVec ++ b.toBitVec ++ c.toBitVec).isLt
  rw [UInt32.toNat_toBitVec, BitVec.toNat_setWidth, Nat.mod_eq_of_lt (by omega)] at hgroup
  exact hgroup

/-- The digits of a chunk at each of its shifts. -/
theorem alphabetAt_group :
    alphabetAt ((a.toUInt32 <<< 16 ||| b.toUInt32 <<< 8 ||| c.toUInt32) >>> 18) =
        sextetChar (Base64.sextet (a.toBitVec ++ b.toBitVec ++ c.toBitVec) 18) ∧
      alphabetAt ((a.toUInt32 <<< 16 ||| b.toUInt32 <<< 8 ||| c.toUInt32) >>> 12) =
        sextetChar (Base64.sextet (a.toBitVec ++ b.toBitVec ++ c.toBitVec) 12) ∧
      alphabetAt ((a.toUInt32 <<< 16 ||| b.toUInt32 <<< 8 ||| c.toUInt32) >>> 6) =
        sextetChar (Base64.sextet (a.toBitVec ++ b.toBitVec ++ c.toBitVec) 6) ∧
      alphabetAt (a.toUInt32 <<< 16 ||| b.toUInt32 <<< 8 ||| c.toUInt32) =
        sextetChar (Base64.sextet (a.toBitVec ++ b.toBitVec ++ c.toBitVec) 0) := by
  refine ⟨alphabetAt_shift ?_, alphabetAt_shift ?_, alphabetAt_shift ?_, alphabetAt_shift ?_⟩
  · rw [UInt32.toNat_shiftRight, toNat_group]
    rfl
  · rw [UInt32.toNat_shiftRight, toNat_group]
    rfl
  · rw [UInt32.toNat_shiftRight, toNat_group]
    rfl
  · rw [toNat_group, Nat.shiftRight_zero]

theorem base64Chunk_three :
    base64Chunk [a, b, c] =
      [sextetChar (Base64.sextet (a.toBitVec ++ b.toBitVec ++ c.toBitVec) 18),
        sextetChar (Base64.sextet (a.toBitVec ++ b.toBitVec ++ c.toBitVec) 12),
        sextetChar (Base64.sextet (a.toBitVec ++ b.toBitVec ++ c.toBitVec) 6),
        sextetChar (Base64.sextet (a.toBitVec ++ b.toBitVec ++ c.toBitVec) 0)] := by
  obtain ⟨h18, h12, h6, h0⟩ := alphabetAt_group a b c
  rw [← h18, ← h12, ← h6, ← h0]
  rfl

theorem base64Chunk_two :
    base64Chunk [a, b] =
      [sextetChar (Base64.sextet (a.toBitVec ++ b.toBitVec ++ 0#8) 18),
        sextetChar (Base64.sextet (a.toBitVec ++ b.toBitVec ++ 0#8) 12),
        sextetChar (Base64.sextet (a.toBitVec ++ b.toBitVec ++ 0#8) 6), Base64.pad] := by
  obtain ⟨h18, h12, h6, -⟩ := alphabetAt_group a b 0
  change _ = [sextetChar (Base64.sextet (a.toBitVec ++ b.toBitVec ++ (0 : UInt8).toBitVec) 18),
    sextetChar (Base64.sextet (a.toBitVec ++ b.toBitVec ++ (0 : UInt8).toBitVec) 12),
    sextetChar (Base64.sextet (a.toBitVec ++ b.toBitVec ++ (0 : UInt8).toBitVec) 6), Base64.pad]
  rw [← h18, ← h12, ← h6]
  rfl

theorem base64Chunk_one :
    base64Chunk [a] =
      [sextetChar (Base64.sextet (a.toBitVec ++ 0#8 ++ 0#8) 18),
        sextetChar (Base64.sextet (a.toBitVec ++ 0#8 ++ 0#8) 12), Base64.pad, Base64.pad] := by
  obtain ⟨h18, h12, -, -⟩ := alphabetAt_group a 0 0
  change _ = [sextetChar (Base64.sextet (a.toBitVec ++ (0 : UInt8).toBitVec ++
      (0 : UInt8).toBitVec) 18),
    sextetChar (Base64.sextet (a.toBitVec ++ (0 : UInt8).toBitVec ++ (0 : UInt8).toBitVec) 12),
    Base64.pad, Base64.pad]
  rw [← h18, ← h12]
  rfl

end Chunk

/-! ## The encoding -/

theorem base64Chars_cons (a b c : UInt8) (rest : Bytes) :
    base64Chars (a :: b :: c :: rest) = base64Chunk [a, b, c] ++ base64Chars rest := by
  rw [base64Chars, chunksOfThree, List.flatMap_cons, base64Chars]

theorem base64Chars_last {chunk : Bytes} (hchunk : chunksOfThree chunk = [chunk]) :
    base64Chars chunk = base64Chunk chunk := by
  rw [base64Chars, hchunk, List.flatMap_singleton]

/-- Standard decoding inverts the encoder. -/
theorem decode_base64Chars (input : Bytes) :
    Base64.decode (base64Chars input) = some input := by
  fun_induction chunksOfThree input with
  | case1 => rfl
  | case2 a =>
      rw [base64Chars_last rfl, base64Chunk_one, Base64.decode_one digitValue_sextetChar]
  | case3 a b =>
      rw [base64Chars_last rfl, base64Chunk_two, Base64.decode_two digitValue_sextetChar]
  | case4 a b c rest ih =>
      rw [base64Chars_cons, base64Chunk_three]
      simp only [List.cons_append, List.nil_append]
      rw [Base64.decode_group digitValue_sextetChar, ih, Base64.octets_append]
      rfl

theorem isDigit_sextetChar (v : BitVec 6) : Base64.IsDigit (sextetChar v) :=
  ⟨v, digitValue_sextetChar v⟩

/-- Digits, then the padding of the last group. -/
theorem base64Chars_shape (input : Bytes) :
    ∃ digits, base64Chars input =
        digits ++ List.replicate (Base64.padCount input.length) Base64.pad ∧
      ∀ c ∈ digits, Base64.IsDigit c := by
  fun_induction chunksOfThree input with
  | case1 => exact ⟨[], rfl, by simp⟩
  | case2 a =>
      rw [base64Chars_last rfl, base64Chunk_one]
      exact ⟨[_, _], rfl, by simp [isDigit_sextetChar]⟩
  | case3 a b =>
      rw [base64Chars_last rfl, base64Chunk_two]
      exact ⟨[_, _, _], rfl, by simp [isDigit_sextetChar]⟩
  | case4 a b c rest ih =>
      obtain ⟨digits, hchars, hdigits⟩ := ih
      have hcount : Base64.padCount (a :: b :: c :: rest).length =
          Base64.padCount rest.length := by
        simp only [Base64.padCount, List.length_cons]
        omega
      rw [base64Chars_cons, base64Chunk_three, hchars, hcount, ← List.append_assoc]
      refine ⟨_, rfl, ?_⟩
      intro d hd
      rw [List.mem_append] at hd
      rcases hd with hd | hd
      · simp only [List.mem_cons, List.not_mem_nil, or_false] at hd
        rcases hd with rfl | rfl | rfl | rfl <;> exact isDigit_sextetChar _
      · exact hdigits d hd

@[simp] theorem length_base64Chunk (chunk : Bytes) : (base64Chunk chunk).length = 4 := rfl

theorem length_base64Chars (input : Bytes) :
    (base64Chars input).length = 4 * ((input.length + 2) / 3) := by
  fun_induction chunksOfThree input with
  | case1 => rfl
  | case2 a => simp [@base64Chars_last [a] rfl]
  | case3 a b => simp [@base64Chars_last [a, b] rfl]
  | case4 a b c rest ih =>
      rw [base64Chars_cons, List.length_append, ih, length_base64Chunk]
      simp only [List.length_cons]
      omega

/-- The encoder is standard base64: four characters for every three bytes begun, the
padding that the length asks for behind characters of the alphabet, and decoding gives
the input back. -/
theorem base64Encode_standard (input : Bytes) :
    (base64Encode input).length = 4 * ((input.length + 2) / 3) ∧
      (∃ digits, (base64Encode input).toList =
          digits ++ List.replicate (Base64.padCount input.length) '=' ∧
        ∀ c ∈ digits, Base64.IsDigit c) ∧
      Base64.decode (base64Encode input).toList = some input := by
  refine ⟨?_, ?_, ?_⟩
  · rw [base64Encode, String.length_ofList, length_base64Chars]
  · rw [base64Encode, String.toList_ofList]
    exact base64Chars_shape input
  · rw [base64Encode, String.toList_ofList, decode_base64Chars]

/-- The URI carries the whole file: decoding what follows its head gives the file back. -/
theorem faviconDataUri_decode {png : Bytes} {uri : String} (h : faviconDataUri png = some uri) :
    ∃ data, uri = "data:image/png;base64," ++ String.ofList data ∧
      Base64.decode data = some png := by
  unfold faviconDataUri at h
  split at h
  · rw [Option.some.injEq] at h
    exact ⟨base64Chars png, h.symm, decode_base64Chars png⟩
  · cases h

end Rukkit.Server
