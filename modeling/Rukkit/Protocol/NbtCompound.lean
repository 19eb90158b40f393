import Rukkit.Lib.Entries
import Rukkit.Protocol.NbtRoundTrip

/-!
# Compounds as maps

The rest of `NbtCompound` of `rukkit-protocol/src/nbt.rs`: a compound is a map that keeps
the order in which its keys were first inserted, however it came about.
-/

namespace Rukkit.Protocol

open Rukkit.Lib Rukkit.Lib.Reading

abbrev NbtCompound := List (String × NbtTag)

namespace NbtCompound

variable (c : NbtCompound)

def get (key : String) : Option NbtTag :=
  (c.find? fun entry => entry.1 = key).map Prod.snd

def containsKey (key : String) : Bool := (c.get key).isSome

def len : Nat := c.length

end NbtCompound

theorem nbtInsert_eq (c : NbtCompound) (key : String) (value : NbtTag) :
    nbtInsert c key value = Entries.insert c key value := by
  induction c with
  | nil => rfl
  | cons entry c ih =>
      obtain ⟨k, v⟩ := entry
      rw [nbtInsert, Entries.insert, ih]

/-- The compound after a sequence of insertions. -/
def nbtInsertAll (ops : List (String × NbtTag)) : NbtCompound :=
  ops.foldl (fun c op => nbtInsert c op.1 op.2) []

theorem nbtInsertAll_eq (ops : List (String × NbtTag)) :
    nbtInsertAll ops = Entries.insertAll ops := by
  simp only [nbtInsertAll, Entries.insertAll, nbtInsert_eq]

/-- An entry that is written and read whole. -/
structure EntryWithin (op : String × NbtTag) : Prop where
  key : FitsPrefix op.1
  depth_lt : op.2.depth < maxDepth
  typed : op.2.All NbtTag.LocallyTyped
  sized : op.2.All NbtTag.LocallySized
  fits : op.2.All NbtTag.LocallyFits

theorem clipEntries_eq (ops : List (String × NbtTag)) (hops : ∀ op ∈ ops, EntryWithin op) :
    ∀ c : NbtCompound, NbtTag.clipEntries c ops =
      ops.foldl (fun c op => nbtInsert c op.1 op.2) c := by
  induction ops with
  | nil => exact fun _ => rfl
  | cons op ops ih =>
      intro c
      obtain ⟨key, value⟩ := op
      have hop := hops _ List.mem_cons_self
      rw [NbtTag.clipEntries, clipString_of_fits hop.key, NbtTag.clip_of_fits hop.typed hop.fits,
        ih fun op hmem => hops op (List.mem_cons_of_mem _ hmem)]
      rfl

/-- Reading entries is inserting them, whether or not keys are repeated. -/
theorem readNetwork_entries {ops : List (String × NbtTag)} (hops : ∀ op ∈ ops, EntryWithin op) :
    ReadsAs readNetwork (writeNetwork (.compound ops)) (.compound (nbtInsertAll ops)) := by
  apply (readU8_reads tagCompound).bind
  rw [if_neg (by decide : ¬ tagCompound = tagEnd)]
  have hread : ∀ op ∈ ops, ReadsAs (readPayload maxDepth op.2.typeId) (writePayload op.2)
      op.2.clip := fun op hop =>
    readPayload_reads op.2 maxDepth (hops op hop).depth_lt (hops op hop).typed (hops op hop).sized
  have hentries := (readCompound_reads hread).bind_pure (f := NbtTag.compound)
  rw [clipEntries_eq ops hops] at hentries
  exact hentries

/-- Whether inserted one by one or read off the wire, and however often its keys are
repeated, a compound lists each key once, in the order of their first occurrences, with the
value that came last. -/
theorem compound_is_map (ops : List (String × NbtTag)) :
    (nbtInsertAll ops).map Prod.fst = (ops.map Prod.fst).eraseDups ∧
      (nbtInsertAll ops).len = (ops.map Prod.fst).eraseDups.length ∧
      (∀ key, (nbtInsertAll ops).get key = NbtCompound.get ops.reverse key) ∧
      (∀ key, (nbtInsertAll ops).containsKey key ↔ key ∈ ops.map Prod.fst) ∧
      ((∀ op ∈ ops, EntryWithin op) → ∀ suffix,
        ∃ r, readNetwork (PacketReader.new (writeNetwork (.compound ops) ++ suffix)) =
          .ok (.compound (nbtInsertAll ops)) r ∧ r.peekRest = suffix) := by
  have hkeys := Entries.keys_insertAll ops
  have hget : ∀ key, (nbtInsertAll ops).get key = NbtCompound.get ops.reverse key := by
    intro key
    rw [nbtInsertAll_eq]
    exact Entries.get_insertAll ops key
  refine ⟨nbtInsertAll_eq ops ▸ hkeys, ?_, hget, ?_, ?_⟩
  · rw [NbtCompound.len, nbtInsertAll_eq, ← hkeys, List.length_map]
  · intro key
    rw [NbtCompound.containsKey, hget, NbtCompound.get, Option.isSome_map, List.find?_isSome]
    simp
  · intro hops suffix
    exact readNetwork_entries hops _ suffix (PacketReader.peekRest_new _)

theorem compound_is_map_repeated : ∃ r,
    readNetwork (PacketReader.new (writeNetwork (.compound
        [("a", .byte 1), ("b", .byte 2), ("a", .byte 3)]) ++ [7])) =
      .ok (.compound [("a", .byte 3), ("b", .byte 2)]) r ∧ r.peekRest = [7] := by
  refine (compound_is_map [("a", .byte 1), ("b", .byte 2), ("a", .byte 3)]).2.2.2.2 ?_ [7]
  intro op hop
  have hbyte : ∀ {key : String} (v : Int8), FitsPrefix key → EntryWithin (key, .byte v) :=
    fun v hkey => ⟨hkey, (by decide : 0 < maxDepth), .leaf trivial rfl, .leaf trivial rfl,
      .leaf trivial rfl⟩
  simp only [List.mem_cons, List.not_mem_nil, or_false] at hop
  rcases hop with rfl | rfl | rfl <;> exact hbyte _ (by decide)

end Rukkit.Protocol
