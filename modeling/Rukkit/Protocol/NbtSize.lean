import Rukkit.Lib.Checked
import Rukkit.Protocol.NbtTags

/-!
# The size of decoded tags

A tag that the reader returns is no bigger than the bytes it was read from, whatever
lengths those bytes claim: every tag, every array element and every character of a
string or key has taken at least one byte.
-/

namespace Rukkit.Protocol

open Rukkit.Lib Rukkit.Lib.Reading

namespace NbtTag

mutual

/-- The sum of `weight` over a tag and the tags inside it. -/
def total (weight : NbtTag → Nat) : NbtTag → Nat
  | list elementType items => weight (list elementType items) + totalItems weight items
  | compound entries => weight (compound entries) + totalEntries weight entries
  | tag => weight tag

def totalItems (weight : NbtTag → Nat) : List NbtTag → Nat
  | [] => 0
  | item :: items => total weight item + totalItems weight items

def totalEntries (weight : NbtTag → Nat) : List (String × NbtTag) → Nat
  | [] => 0
  | (_, value) :: entries => total weight value + totalEntries weight entries

end

/-- Elements of an array; the items of a list are tags of their own. -/
def elements : NbtTag → Nat
  | byteArray v => v.length
  | intArray v => v.length
  | longArray v => v.length
  | _ => 0

/-- Characters of a string or of the keys of a compound. -/
def characters : NbtTag → Nat
  | string v => v.length
  | compound entries => (entries.map fun entry => entry.1.length).sum
  | _ => 0

/-- The number of tags, the tag itself included. -/
def tagCount (tag : NbtTag) : Nat := tag.total fun _ => 1

/-- The number of array elements in a tag. -/
def elementCount (tag : NbtTag) : Nat := tag.total elements

/-- The number of characters of all strings and keys in a tag. -/
def charCount (tag : NbtTag) : Nat := tag.total characters

/-- Tags, array elements and characters together. -/
def size (tag : NbtTag) : Nat := tag.total fun tag => 1 + tag.elements + tag.characters

theorem totalItems_eq (weight : NbtTag → Nat) (items : List NbtTag) :
    totalItems weight items = (items.map (total weight)).sum := by
  induction items with
  | nil => rfl
  | cons item items ih => rw [totalItems, ih, List.map_cons, List.sum_cons]

theorem totalEntries_eq (weight : NbtTag → Nat) (entries : List (String × NbtTag)) :
    totalEntries weight entries = (entries.map fun entry => total weight entry.2).sum := by
  induction entries with
  | nil => rfl
  | cons entry entries ih => rw [totalEntries, ih, List.map_cons, List.sum_cons]

/-- A tag and its children. -/
theorem total_eq (weight : NbtTag → Nat) (tag : NbtTag) :
    tag.total weight = weight tag + (tag.children.map (total weight)).sum := by
  cases tag with
  | list elementType items => rw [total, totalItems_eq, children]
  | compound entries =>
      rw [total, totalEntries_eq, children, List.map_map]
      rfl
  | _ => rfl

theorem total_add (f g : NbtTag → Nat) (tag : NbtTag) :
    (tag.total fun tag => f tag + g tag) = tag.total f + tag.total g := by
  induction tag using NbtTag.induction with
  | step tag ih =>
      have hchildren : (tag.children.map (total fun tag => f tag + g tag)).sum =
          (tag.children.map (total f)).sum + (tag.children.map (total g)).sum := by
        rw [← List.sum_map_add, List.map_congr_left ih]
      rw [total_eq, total_eq f, total_eq g, hchildren]
      omega

theorem size_eq (tag : NbtTag) : tag.size = tag.tagCount + tag.elementCount + tag.charCount := by
  rw [size, total_add, total_add, tagCount, elementCount, charCount]

theorem size_list (elementType : UInt8) (items : List NbtTag) :
    (list elementType items).size = 1 + (items.map size).sum := by
  rw [size, total_eq]
  rfl

/-- The size of the entries of a compound, their keys included. -/
def entriesSize (entries : List (String × NbtTag)) : Nat :=
  (entries.map fun entry => entry.1.length + entry.2.size).sum

theorem size_compound (entries : List (String × NbtTag)) :
    (compound entries).size = 1 + entriesSize entries := by
  rw [size, total_eq, entriesSize, List.sum_map_add, children, List.map_map]
  change 1 + 0 + (entries.map fun entry => entry.1.length).sum +
    (entries.map fun entry => entry.2.size).sum = _
  omega

end NbtTag

open NbtTag

/-- An entry takes the place of one with its key, or is added. -/
theorem entriesSize_nbtInsert_le (key : String) (value : NbtTag)
    (entries : List (String × NbtTag)) :
    entriesSize (nbtInsert entries key value) ≤ entriesSize entries + key.length + value.size := by
  induction entries with
  | nil => simp [nbtInsert, entriesSize]
  | cons entry entries ih =>
      obtain ⟨k, v⟩ := entry
      unfold entriesSize at ih ⊢
      rw [nbtInsert]
      split
      · simp only [List.map_cons, List.sum_cons]
        omega
      · simp only [List.map_cons, List.sum_cons]
        omega

/-! ## What the readers use up -/

/-- The reader leaves at least `cost` fewer bytes. -/
abbrev Spends {α : Type} (m : Reader α) (cost : α → Nat) : Prop :=
  Consumes PacketReader.remaining m cost

theorem take_spends (n : Nat) : Spends (take n) fun bytes => bytes.length := by
  intro r bytes t h
  have hlength := take_eq_ok h
  unfold take at h
  split at h
  · cases h
    change r.buf.length - (r.pos + n) + (r.peekRest.take n).length ≤ r.buf.length - r.pos
    rw [hlength]
    omega
  · cases h

/-- A number of `n` bytes. -/
theorem take_spends_fixed (n : Nat) : Spends (take n) fun _ => n := by
  intro r bytes t h
  have hspent : t.remaining + bytes.length ≤ r.remaining := take_spends n r bytes t h
  rw [take_eq_ok h] at hspent
  exact hspent

theorem readU8_spends : Spends readU8 fun _ => 1 :=
  (take_spends_fixed 1).bind_pure fun _ => Nat.le_refl 1

theorem readI8_spends : Spends readI8 fun _ => 1 :=
  readU8_spends.bind_pure fun _ => Nat.le_refl 1

theorem readU16_spends : Spends readU16 fun _ => 2 :=
  (take_spends_fixed 2).bind_pure fun _ => Nat.le_refl 2

theorem readI16_spends : Spends readI16 fun _ => 2 :=
  (take_spends_fixed 2).bind_pure fun _ => Nat.le_refl 2

theorem readI32_spends : Spends readI32 fun _ => 4 :=
  (take_spends_fixed 4).bind_pure fun _ => Nat.le_refl 4

theorem readI64_spends : Spends readI64 fun _ => 8 :=
  (take_spends_fixed 8).bind_pure fun _ => Nat.le_refl 8

theorem readF32_spends : Spends readF32 fun _ => 4 :=
  (take_spends_fixed 4).bind_pure fun _ => Nat.le_refl 4

theorem readF64_spends : Spends readF64 fun _ => 8 :=
  (take_spends_fixed 8).bind_pure fun _ => Nat.le_refl 8

theorem readNbtLen_spends : Spends readNbtLen fun _ => 4 := by
  apply readI32_spends.bind
  intro len
  dsimp only
  apply Consumes.ite
  · exact Consumes.throw_bind _
  · apply Consumes.ite
    · exact Consumes.throw_bind _
    · exact Consumes.pure rfl

/-- Every character has taken at least one byte. -/
theorem length_decodeModifiedChars_le {bytes : Bytes} {chars : List Char}
    (h : decodeModifiedChars bytes = .ok chars) : chars.length ≤ bytes.length := by
  fun_induction decodeModifiedChars bytes generalizing chars with
  | case1 =>
      cases h
      exact Nat.le_refl 0
  | case2 b rest ih =>
      obtain ⟨⟨c, used⟩, -, hrest⟩ := Outcome.except_bind_eq_ok h
      obtain ⟨others, hothers, hchars⟩ := Outcome.except_bind_eq_ok hrest
      cases hchars
      have hlength := ih used hothers
      rw [List.length_drop] at hlength
      simp only [List.length_cons]
      omega

theorem readModifiedUtf8_spends : Spends readModifiedUtf8 fun s => 2 + s.length := by
  apply readU16_spends.bind
  intro len
  apply (take_spends len.toNat).bind
  intro bytes
  cases hdecode : decodeModifiedUtf8 bytes with
  | error e => exact Consumes.throw e
  | ok s =>
      obtain ⟨chars, hchars, hs⟩ := Outcome.except_bind_eq_ok hdecode
      have hlength := length_decodeModifiedChars_le hchars
      cases hs
      apply Consumes.pure
      rw [String.length_ofList]
      omega

/-- The compound loop: its own end marker on top of what the entries add. -/
theorem readEntries_spends {read : UInt8 → Reader NbtTag}
    (hread : ∀ typeId, Spends (read typeId) size) : ∀ turns compound,
      Spends (readEntries read turns compound)
        fun entries => entriesSize entries + 1 - entriesSize compound := by
  intro turns
  induction turns with
  | zero => exact fun compound => Consumes.throw _
  | succ turns ih =>
      intro compound
      apply readU8_spends.bind
      intro entryType
      apply Consumes.ite
      · apply Consumes.pure
        omega
      · apply readModifiedUtf8_spends.bind
        intro name
        apply (hread entryType).bind
        intro value
        apply (ih (nbtInsert compound name value)).mono
        intro entries
        have hinsert := entriesSize_nbtInsert_le name value compound
        omega

/-- The payload reader uses up a byte for everything it returns. -/
theorem readPayload_spends : ∀ levels typeId, Spends (readPayload levels typeId) size := by
  intro levels
  induction levels with
  | zero => exact fun typeId => Consumes.throw _
  | succ levels ih =>
      intro typeId
      unfold readPayload
      split
      · exact readI8_spends.bind_pure fun v => Nat.le_refl 1
      · exact readI16_spends.bind_pure fun v => (by decide : 1 ≤ 2)
      · exact readI32_spends.bind_pure fun v => (by decide : 1 ≤ 4)
      · exact readI64_spends.bind_pure fun v => (by decide : 1 ≤ 8)
      · exact readF32_spends.bind_pure fun v => (by decide : 1 ≤ 4)
      · exact readF64_spends.bind_pure fun v => (by decide : 1 ≤ 8)
      · -- byte array
        apply readNbtLen_spends.bind
        intro len
        apply (take_spends len).bind_pure
        intro bytes
        rw [size, total_eq]
        change 1 + (bytes.map UInt8.toInt8).length + 0 + 0 - 4 ≤ bytes.length
        rw [List.length_map]
        omega
      · -- string
        apply readModifiedUtf8_spends.bind_pure
        intro s
        change 1 + 0 + s.length ≤ 2 + s.length
        omega
      · -- list
        apply readU8_spends.bind
        intro elementType
        apply readNbtLen_spends.bind
        intro len
        apply Consumes.ite
        · exact Consumes.throw _
        · apply ((ih elementType).replicateM len).bind_pure
          intro items
          rw [size_list]
          omega
      · -- compound
        have hloop : Spends (fun r => readEntries (readPayload levels) r.remaining [] r)
            fun entries => entriesSize entries + 1 := by
          intro r entries t h
          exact readEntries_spends ih r.remaining [] r entries t h
        apply hloop.bind_pure
        intro entries
        rw [size_compound]
        omega
      · -- int array
        apply readNbtLen_spends.bind
        intro len
        apply (readI32_spends.replicateM len).bind_pure
        intro values
        rw [size, total_eq]
        change 1 + values.length + 0 + 0 - 4 ≤ (values.map fun _ => 4).sum
        rw [List.map_const', List.sum_replicate]
        simp only [smul_eq_mul]
        omega
      · -- long array
        apply readNbtLen_spends.bind
        intro len
        apply (readI64_spends.replicateM len).bind_pure
        intro values
        rw [size, total_eq]
        change 1 + values.length + 0 + 0 - 4 ≤ (values.map fun _ => 8).sum
        rw [List.map_const', List.sum_replicate]
        simp only [smul_eq_mul]
        omega
      · exact Consumes.throw _

theorem readNetwork_spends : Spends readNetwork size := by
  apply readU8_spends.bind
  intro typeId
  apply Consumes.ite
  · exact Consumes.throw _
  · apply (readPayload_spends (maxDepth + 1) typeId).mono
    intro tag
    omega

/-- The root name counts too. -/
theorem readNamed_spends : Spends readNamed fun named => named.1.length + named.2.size := by
  apply readU8_spends.bind
  intro typeId
  apply Consumes.ite
  · exact Consumes.throw _
  · apply readModifiedUtf8_spends.bind
    intro name
    apply (readPayload_spends (maxDepth + 1) typeId).bind_pure
    intro tag
    dsimp only
    omega

/-! ## Decoded tags -/

/-- A decoded tag is no bigger than the bytes it took: its tags, its array elements and the
characters of its strings and keys together are no more than those.  It is nested no deeper
than the limit, its lists are homogeneous and the keys of each of its compounds are distinct.
The same holds of the named form, with its name among the characters. -/
theorem decoded_nbt_bounded :
    (∀ r tag t, readNetwork r = .ok tag t →
      t.remaining + (tag.tagCount + tag.elementCount + tag.charCount) ≤ r.remaining ∧
        tag.depth ≤ maxDepth ∧ tag.All LocallyTyped) ∧
    (∀ r name tag t, readNamed r = .ok (name, tag) t →
      t.remaining + (tag.tagCount + tag.elementCount + (name.length + tag.charCount)) ≤
          r.remaining ∧
        tag.depth ≤ maxDepth ∧ tag.All LocallyTyped) := by
  constructor
  · intro r tag t h
    have haccepted := readNetwork_accepted h
    have hspent := readNetwork_spends r tag t h
    rw [size_eq] at hspent
    exact ⟨hspent, Nat.le_of_lt_succ haccepted.depth_lt, haccepted.typed⟩
  · intro r name tag t h
    have haccepted := readNamed_accepted h
    have hspent : t.remaining + (name.length + tag.size) ≤ r.remaining :=
      readNamed_spends r (name, tag) t h
    rw [size_eq] at hspent
    exact ⟨by omega, Nat.le_of_lt_succ haccepted.depth_lt, haccepted.typed⟩

theorem decoded_nbt_bounded_list :
    0 + ((NbtTag.list tagByte [.byte 5, .byte 6]).tagCount +
        (NbtTag.list tagByte [.byte 5, .byte 6]).elementCount +
        (NbtTag.list tagByte [.byte 5, .byte 6]).charCount) ≤ 8 ∧
      (NbtTag.list tagByte [.byte 5, .byte 6]).depth ≤ maxDepth ∧
      (NbtTag.list tagByte [.byte 5, .byte 6]).All LocallyTyped :=
  decoded_nbt_bounded.1 (PacketReader.new [9, 1, 0, 0, 0, 2, 5, 6]) _
    { buf := [9, 1, 0, 0, 0, 2, 5, 6], pos := 8, pos_le := by decide } rfl

end Rukkit.Protocol
