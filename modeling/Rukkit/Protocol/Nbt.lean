import Rukkit.Protocol.ModifiedUtf8

/-!
# Binary NBT

The model of the tag tree, the writer and the reader of
`rukkit-protocol/src/nbt.rs`.  `NbtList` is inlined in its tag as the element type
and the items, `NbtCompound` as its entries in insertion order.  Floats are their
bit patterns.
-/

namespace Rukkit.Protocol

open Rukkit.Lib Rukkit.Lib.Reading

@[match_pattern] abbrev tagEnd : UInt8 := 0
@[match_pattern] abbrev tagByte : UInt8 := 1
@[match_pattern] abbrev tagShort : UInt8 := 2
@[match_pattern] abbrev tagInt : UInt8 := 3
@[match_pattern] abbrev tagLong : UInt8 := 4
@[match_pattern] abbrev tagFloat : UInt8 := 5
@[match_pattern] abbrev tagDouble : UInt8 := 6
@[match_pattern] abbrev tagByteArray : UInt8 := 7
@[match_pattern] abbrev tagString : UInt8 := 8
@[match_pattern] abbrev tagList : UInt8 := 9
@[match_pattern] abbrev tagCompound : UInt8 := 10
@[match_pattern] abbrev tagIntArray : UInt8 := 11
@[match_pattern] abbrev tagLongArray : UInt8 := 12

/-- Nesting limit. -/
def maxDepth : Nat := 512

/-- Element limit for a single array. -/
def maxArrayLen : Nat := 2 ^ 24

inductive NbtTag where
  | byte (v : Int8)
  | short (v : Int16)
  | int (v : Int32)
  | long (v : Int64)
  | float (bits : UInt32)
  | double (bits : UInt64)
  | byteArray (v : List Int8)
  | string (v : String)
  | list (elementType : UInt8) (items : List NbtTag)
  | compound (entries : List (String × NbtTag))
  | intArray (v : List Int32)
  | longArray (v : List Int64)

namespace NbtTag

/-- The wire type id for this tag. -/
def typeId : NbtTag → UInt8
  | byte _ => tagByte
  | short _ => tagShort
  | int _ => tagInt
  | long _ => tagLong
  | float _ => tagFloat
  | double _ => tagDouble
  | byteArray _ => tagByteArray
  | string _ => tagString
  | list _ _ => tagList
  | compound _ => tagCompound
  | intArray _ => tagIntArray
  | longArray _ => tagLongArray

theorem typeId_ne_end (tag : NbtTag) : tag.typeId ≠ tagEnd := by
  cases tag <;> (rw [typeId]; decide)

/-- The tags directly inside a tag. -/
def children : NbtTag → List NbtTag
  | list _ items => items
  | compound entries => entries.map Prod.snd
  | _ => []

end NbtTag

/-- `NbtList::new`: all items must have the type of the first. -/
def nbtListNew (items : List NbtTag) : Option NbtTag :=
  match items with
  | [] => some (.list tagEnd [])
  | first :: _ =>
      if items.any fun t => t.typeId != first.typeId then none
      else some (.list first.typeId items)

/-- `NbtCompound::insert`: replace the value of the key's entry, or append one. -/
def nbtInsert : (entries : List (String × NbtTag)) → (key : String) → (value : NbtTag) →
    List (String × NbtTag)
  | [], key, value => [(key, value)]
  | (k, v) :: entries, key, value =>
      if k = key then (k, value) :: entries else (k, v) :: nbtInsert entries key value

/-! ## Encoding -/

mutual

def writePayload : NbtTag → Bytes
  | .byte v => writeI8 v
  | .short v => writeI16 v
  | .int v => writeI32 v
  | .long v => writeI64 v
  | .float bits => writeF32 bits
  | .double bits => writeF64 bits
  | .byteArray v => writeI32 (asI32 v.length) ++ v.flatMap writeI8
  | .string v => writeModifiedUtf8 v
  | .list elementType items =>
      writeU8 elementType ++ writeI32 (asI32 items.length) ++ writeItems items
  | .compound entries => writeEntries entries ++ writeU8 tagEnd
  | .intArray v => writeI32 (asI32 v.length) ++ v.flatMap writeI32
  | .longArray v => writeI32 (asI32 v.length) ++ v.flatMap writeI64

def writeItems : List NbtTag → Bytes
  | [] => []
  | item :: items => writePayload item ++ writeItems items

def writeEntries : List (String × NbtTag) → Bytes
  | [] => []
  | (name, value) :: entries =>
      writeU8 value.typeId ++ writeModifiedUtf8 name ++ writePayload value ++ writeEntries entries

end

/-- Writes a root tag in network form: type byte and payload, no name. -/
def writeNetwork (tag : NbtTag) : Bytes := writeU8 tag.typeId ++ writePayload tag

/-- Writes a root tag in file form: type byte, name, payload. -/
def writeNamed (name : String) (tag : NbtTag) : Bytes :=
  writeU8 tag.typeId ++ writeModifiedUtf8 name ++ writePayload tag

/-! ## Decoding -/

def readNbtLen : Reader Nat := do
  let len ← readI32
  if len < 0 then throw (.negativeLength len)
  let len := len.toNatClampNeg
  if maxArrayLen < len then throw (.lengthLimitExceeded len maxArrayLen)
  return len

/-- The loop of a compound.  Every turn takes a byte, so the bytes that are left
bound the turns; with none left the type byte cannot be read. -/
def readEntries (read : UInt8 → Reader NbtTag) :
    (turns : Nat) → (compound : List (String × NbtTag)) → Reader (List (String × NbtTag))
  | 0, _ => throw (.unexpectedEof 1 0)
  | turns + 1, compound => do
      let entryType ← readU8
      if entryType = tagEnd then return compound
      else
        let name ← readModifiedUtf8
        let value ← read entryType
        readEntries read turns (nbtInsert compound name value)

/-- `levels` counts down where the source counts `depth` up: it is
`MAX_DEPTH + 1 - depth`. -/
def readPayload : (levels : Nat) → (typeId : UInt8) → Reader NbtTag
  | 0, _ => throw (.nbtTooDeep maxDepth)
  | levels + 1, typeId =>
      match typeId with
      | tagByte => do return .byte (← readI8)
      | tagShort => do return .short (← readI16)
      | tagInt => do return .int (← readI32)
      | tagLong => do return .long (← readI64)
      | tagFloat => do return .float (← readF32)
      | tagDouble => do return .double (← readF64)
      | tagByteArray => do
          let len ← readNbtLen
          let bytes ← readBytes len
          return .byteArray (bytes.map UInt8.toInt8)
      | tagString => do return .string (← readModifiedUtf8)
      | tagList => do
          let elementType ← readU8
          let len ← readNbtLen
          if elementType = tagEnd ∧ 0 < len then throw (.nbt "non-empty list of TAG_End")
          else
            let items ← replicateM (readPayload levels elementType) len
            return .list elementType items
      | tagCompound => do
          let entries ← fun r => readEntries (readPayload levels) r.remaining [] r
          return .compound entries
      | tagIntArray => do
          let len ← readNbtLen
          return .intArray (← replicateM readI32 len)
      | tagLongArray => do
          let len ← readNbtLen
          return .longArray (← replicateM readI64 len)
      | other => throw (.invalidEnum "NBT tag type" other.toUInt64.toInt64)

/-- Reads a root tag in network form, with no root name. -/
def readNetwork : Reader NbtTag := do
  let typeId ← readU8
  if typeId = tagEnd then throw (.nbt "root tag is TAG_End")
  else readPayload (maxDepth + 1) typeId

/-- Reads a root tag in file form, returning its name. -/
def readNamed : Reader (String × NbtTag) := do
  let typeId ← readU8
  if typeId = tagEnd then throw (.nbt "root tag is TAG_End")
  else
    let name ← readModifiedUtf8
    return (name, ← readPayload (maxDepth + 1) typeId)

/-! ## Shape of a tag tree -/

namespace NbtTag

mutual

/-- Levels of lists and compounds below the root that hold something. -/
def depth : NbtTag → Nat
  | list _ items => depthItems items
  | compound entries => depthEntries entries
  | _ => 0

def depthItems : List NbtTag → Nat
  | [] => 0
  | item :: items => max (depth item + 1) (depthItems items)

def depthEntries : List (String × NbtTag) → Nat
  | [] => 0
  | (_, value) :: entries => max (depth value + 1) (depthEntries entries)

end

/-- `p` holds of the tag and of every tag inside it. -/
inductive All (p : NbtTag → Prop) : NbtTag → Prop
  | intro {tag : NbtTag} (here : p tag) (below : ∀ child ∈ tag.children, All p child) : All p tag

/-- Items have the list's element type and keys are distinct. -/
def LocallyTyped : NbtTag → Prop
  | list elementType items => ∀ item ∈ items, item.typeId = elementType
  | compound entries => (entries.map Prod.fst).Nodup
  | _ => True

/-- Arrays and lists are within the reader's element limit. -/
def LocallySized : NbtTag → Prop
  | byteArray v => v.length ≤ maxArrayLen
  | list _ items => items.length ≤ maxArrayLen
  | intArray v => v.length ≤ maxArrayLen
  | longArray v => v.length ≤ maxArrayLen
  | _ => True

/-- Strings and keys take at most 65535 bytes of modified UTF-8. -/
def LocallyFits : NbtTag → Prop
  | string v => FitsPrefix v
  | compound entries => ∀ entry ∈ entries, FitsPrefix entry.1
  | _ => True

theorem All.here {p : NbtTag → Prop} {tag : NbtTag} (h : All p tag) : p tag := by
  cases h with
  | intro here _ => exact here

theorem All.child {p : NbtTag → Prop} {tag : NbtTag} (h : All p tag) :
    ∀ child ∈ tag.children, All p child := by
  cases h with
  | intro _ below => exact below

theorem All.leaf {p : NbtTag → Prop} {tag : NbtTag} (here : p tag) (hleaf : tag.children = []) :
    All p tag := by
  refine .intro here ?_
  rw [hleaf]
  intro child hchild
  exact absurd hchild List.not_mem_nil

/-- Induction over the tag tree, from the children to the tag. -/
theorem induction {motive : NbtTag → Prop}
    (step : ∀ tag, (∀ child ∈ tag.children, motive child) → motive tag) (tag : NbtTag) :
    motive tag := by
  apply step
  intro child hchild
  have hsize : sizeOf child < sizeOf tag := by
    cases tag with
    | list elementType items =>
        have := List.sizeOf_lt_of_mem (show child ∈ items from hchild)
        simp only [NbtTag.list.sizeOf_spec]
        omega
    | compound entries =>
        obtain ⟨entry, hentry, rfl⟩ := List.mem_map.mp hchild
        have := List.sizeOf_lt_of_mem hentry
        have hpair : sizeOf entry.2 < sizeOf entry := by
          cases entry
          simp only [Prod.mk.sizeOf_spec]
          omega
        simp only [NbtTag.compound.sizeOf_spec]
        omega
    | _ => exact absurd hchild List.not_mem_nil
  exact induction step child
termination_by sizeOf tag

theorem depthItems_le_iff (items : List NbtTag) (n : Nat) :
    depthItems items ≤ n ↔ ∀ item ∈ items, depth item + 1 ≤ n := by
  induction items with
  | nil => simp [depthItems]
  | cons item items ih =>
      rw [depthItems, max_le_iff, ih]
      simp

theorem depthEntries_le_iff (entries : List (String × NbtTag)) (n : Nat) :
    depthEntries entries ≤ n ↔ ∀ entry ∈ entries, depth entry.2 + 1 ≤ n := by
  induction entries with
  | nil => simp [depthEntries]
  | cons entry entries ih =>
      rw [depthEntries, max_le_iff, ih]
      simp

/-- The depth is bounded exactly by the depths of the children. -/
theorem depth_le_iff (tag : NbtTag) (n : Nat) :
    tag.depth ≤ n ↔ ∀ child ∈ tag.children, child.depth + 1 ≤ n := by
  cases tag with
  | list elementType items => exact depthItems_le_iff items n
  | compound entries =>
      rw [depth, depthEntries_le_iff, children, List.forall_mem_map]
  | _ => simp [depth, children]

theorem depth_lt_of_child {tag child : NbtTag} (h : child ∈ tag.children) :
    child.depth < tag.depth := (depth_le_iff tag tag.depth).mp (Nat.le_refl _) child h

end NbtTag

end Rukkit.Protocol
