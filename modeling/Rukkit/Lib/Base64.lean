import Mathlib

/-!
# Base64

The standard base64 decoder: four digits of six bits make a group of three octets, and
a last group of one or two octets is filled up with padding.  The bits that the padding
stands for have to be zero.
-/

namespace Rukkit.Lib.Base64

/-- The character that fills the last group. -/
def pad : Char := '='

/-- The value of a digit of the standard alphabet. -/
def digitValue (c : Char) : Option (BitVec 6) :=
  if 'A' ≤ c ∧ c ≤ 'Z' then some (BitVec.ofNat 6 (c.toNat - 'A'.toNat))
  else if 'a' ≤ c ∧ c ≤ 'z' then some (BitVec.ofNat 6 (c.toNat - 'a'.toNat + 26))
  else if '0' ≤ c ∧ c ≤ '9' then some (BitVec.ofNat 6 (c.toNat - '0'.toNat + 52))
  else if c = '+' then some 62
  else if c = '/' then some 63
  else none

/-- A character of the standard alphabet. -/
def IsDigit (c : Char) : Prop := ∃ v, digitValue c = some v

/-- The octets of a group, the high one first. -/
def octets (group : BitVec 24) : List UInt8 :=
  [UInt8.ofBitVec (group.extractLsb' 16 8), UInt8.ofBitVec (group.extractLsb' 8 8),
    UInt8.ofBitVec (group.extractLsb' 0 8)]

/-- The first `count` octets of a padded group, whose others have to be zero. -/
def paddedOctets (count : Nat) (group : BitVec 24) : Option (List UInt8) :=
  if (octets group).drop count = List.replicate (3 - count) 0 then
    some ((octets group).take count)
  else none

/-- Decodes groups of four characters, the last of which may end in one or two pads. -/
def decode : List Char → Option (List UInt8)
  | [] => some []
  | a :: b :: c :: d :: rest => do
      let x ← digitValue a
      let y ← digitValue b
      if rest = [] ∧ c = pad ∧ d = pad then paddedOctets 1 (x ++ y ++ 0#6 ++ 0#6)
      else do
        let z ← digitValue c
        if rest = [] ∧ d = pad then paddedOctets 2 (x ++ y ++ z ++ 0#6)
        else do
          let w ← digitValue d
          return octets (x ++ y ++ z ++ w) ++ (← decode rest)
  | _ => none

/-- The number of pads behind the digits of `n` octets. -/
def padCount (n : Nat) : Nat := (3 - n % 3) % 3

/-- The digit of a group that starts at bit `offset`. -/
def sextet (group : BitVec 24) (offset : Nat) : BitVec 6 := group.extractLsb' offset 6

theorem not_isDigit_pad : ¬ IsDigit pad := by
  rintro ⟨v, hv⟩
  have hnone : digitValue pad = none := by decide
  rw [hnone] at hv
  cases hv

theorem IsDigit.ne_pad {c : Char} (h : IsDigit c) : c ≠ pad := by
  rintro rfl
  exact not_isDigit_pad h

/-! ## Regrouping -/

section Groups

variable (a b c : BitVec 8)

theorem octets_append :
    octets (a ++ b ++ c) = [UInt8.ofBitVec a, UInt8.ofBitVec b, UInt8.ofBitVec c] := by
  have hhigh : (a ++ b ++ c).extractLsb' 16 8 = a := by
    rw [BitVec.extractLsb'_append_eq_of_le (by decide), BitVec.extractLsb'_append_eq_left]
  have hmiddle : (a ++ b ++ c).extractLsb' 8 8 = b := by
    rw [BitVec.extractLsb'_append_eq_of_le (by decide), BitVec.extractLsb'_append_eq_right]
  have hlow : (a ++ b ++ c).extractLsb' 0 8 = c := BitVec.extractLsb'_append_eq_right
  rw [octets, hhigh, hmiddle, hlow]

theorem sextets_append (group : BitVec 24) :
    sextet group 18 ++ sextet group 12 ++ sextet group 6 ++ sextet group 0 = group := by
  rw [sextet, sextet, sextet, sextet,
    BitVec.extractLsb'_append_extractLsb'_eq_extractLsb' (show 18 = 12 + 6 from rfl),
    BitVec.extractLsb'_append_extractLsb'_eq_extractLsb' (show 12 = 6 + 6 from rfl),
    BitVec.extractLsb'_append_extractLsb'_eq_extractLsb' (show 6 = 0 + 6 from rfl)]
  exact BitVec.extractLsb'_eq_self

theorem sextet_zero_of_two : sextet (a ++ b ++ 0#8) 0 = 0#6 :=
  BitVec.extractLsb'_append_eq_of_add_le (by decide)

theorem sextet_six_of_one : sextet (a ++ 0#8 ++ 0#8) 6 = 0#6 := by
  apply BitVec.eq_of_getLsbD_eq
  intro i hi
  simp only [sextet, BitVec.getLsbD_extractLsb', BitVec.getLsbD_append, BitVec.getLsbD_zero]
  grind

end Groups

/-! ## Decoding one group -/

section Decode

variable {digit : BitVec 6 → Char} (hdigit : ∀ v, digitValue (digit v) = some v)

include hdigit

/-- A full group, whatever follows it. -/
theorem decode_group (group : BitVec 24) (rest : List Char) :
    decode (digit (sextet group 18) :: digit (sextet group 12) :: digit (sextet group 6) ::
        digit (sextet group 0) :: rest) =
      (decode rest).map (octets group ++ ·) := by
  have hthird : digit (sextet group 6) ≠ pad := IsDigit.ne_pad ⟨_, hdigit _⟩
  have hfourth : digit (sextet group 0) ≠ pad := IsDigit.ne_pad ⟨_, hdigit _⟩
  rw [decode]
  simp only [hdigit, Option.bind_eq_bind, Option.bind_some, hthird, hfourth, and_false, if_false,
    sextets_append]
  cases decode rest <;> rfl

/-- Two octets and one pad. -/
theorem decode_two (a b : BitVec 8) :
    decode [digit (sextet (a ++ b ++ 0#8) 18), digit (sextet (a ++ b ++ 0#8) 12),
        digit (sextet (a ++ b ++ 0#8) 6), pad] =
      some [UInt8.ofBitVec a, UInt8.ofBitVec b] := by
  have hthird : digit (sextet (a ++ b ++ 0#8) 6) ≠ pad := IsDigit.ne_pad ⟨_, hdigit _⟩
  have hgroup := sextets_append (a ++ b ++ 0#8)
  rw [sextet_zero_of_two] at hgroup
  rw [decode]
  simp only [hdigit, Option.bind_eq_bind, Option.bind_some, hthird, false_and, and_false, if_false,
    and_self, if_true, hgroup]
  rw [paddedOctets, octets_append]
  rfl

/-- One octet and two pads. -/
theorem decode_one (a : BitVec 8) :
    decode [digit (sextet (a ++ 0#8 ++ 0#8) 18), digit (sextet (a ++ 0#8 ++ 0#8) 12), pad, pad] =
      some [UInt8.ofBitVec a] := by
  have hgroup := sextets_append (a ++ 0#8 ++ 0#8)
  rw [sextet_zero_of_two, sextet_six_of_one] at hgroup
  rw [decode]
  simp only [hdigit, Option.bind_eq_bind, Option.bind_some, and_self, if_true, hgroup]
  rw [paddedOctets, octets_append]
  rfl

end Decode

end Rukkit.Lib.Base64
