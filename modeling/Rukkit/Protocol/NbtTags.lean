import Rukkit.Protocol.NbtRoundTrip

/-!
# Tags that can be built

Every tag that the public functions can produce, decoding included, is typed:
lists are homogeneous and keys are distinct.  Together with what the reader checks
while decoding this settles which tags survive a trip over the wire.
-/

namespace Rukkit.Protocol

open Rukkit.Lib Rukkit.Lib.Reading

/-! ## What the reader accepts -/

/-- What the reader guarantees of a tag it returns with `levels` levels left. -/
structure Accepted (levels : Nat) (typeId : UInt8) (tag : NbtTag) : Prop where
  typeId_eq : tag.typeId = typeId
  typed : tag.All NbtTag.LocallyTyped
  sized : tag.All NbtTag.LocallySized
  depth_lt : tag.depth < levels

theorem Accepted.leaf {levels : Nat} {typeId : UInt8} {tag : NbtTag} (htypeId : tag.typeId = typeId)
    (htyped : tag.LocallyTyped) (hsized : tag.LocallySized) (hleaf : tag.children = []) :
    Accepted (levels + 1) typeId tag where
  typeId_eq := htypeId
  typed := .leaf htyped hleaf
  sized := .leaf hsized hleaf
  depth_lt := by
    apply Nat.lt_succ_of_le
    rw [NbtTag.depth_le_iff, hleaf]
    intro child hchild
    exact absurd hchild List.not_mem_nil

theorem Accepted.node {levels : Nat} {typeId : UInt8} {tag : NbtTag} (htypeId : tag.typeId = typeId)
    (htyped : tag.LocallyTyped) (hsized : tag.LocallySized)
    (hchild : ∀ child ∈ tag.children, Accepted levels child.typeId child) :
    Accepted (levels + 1) typeId tag where
  typeId_eq := htypeId
  typed := .intro htyped fun child hmem => (hchild child hmem).typed
  sized := .intro hsized fun child hmem => (hchild child hmem).sized
  depth_lt := by
    apply Nat.lt_succ_of_le
    rw [NbtTag.depth_le_iff]
    exact fun child hmem => (hchild child hmem).depth_lt

theorem readNbtLen_eq_ok {r t : PacketReader} {n : Nat} (h : readNbtLen r = .ok n t) :
    n ≤ maxArrayLen := by
  obtain ⟨len, mid, -, hrest⟩ := bind_eq_ok h
  by_cases hneg : len < 0
  · simp only [if_pos hneg] at hrest
    obtain ⟨_, _, hthrow, _⟩ := bind_eq_ok hrest
    cases hthrow
  · by_cases hlong : maxArrayLen < len.toNatClampNeg
    · simp only [if_neg hneg, if_pos hlong] at hrest
      obtain ⟨_, _, hthrow, _⟩ := bind_eq_ok hrest
      cases hthrow
    · simp only [if_neg hneg, if_neg hlong] at hrest
      obtain ⟨rfl, -⟩ := pure_eq_ok hrest
      exact Nat.le_of_not_lt hlong

/-- An array is as long as its length field says. -/
theorem length_le_of_readNbtLen {α : Type} {m : Reader α} {r mid t : PacketReader} {n : Nat}
    {values : List α} (hlen : readNbtLen r = .ok n mid)
    (hvalues : Reading.replicateM m n mid = .ok values t) : values.length ≤ maxArrayLen := by
  obtain ⟨hlength, -⟩ := replicateM_eq_ok (p := fun _ => True) (fun _ _ _ _ => trivial) hvalues
  rw [hlength]
  exact readNbtLen_eq_ok hlen

/-- The compound loop keeps keys distinct and collects only accepted values. -/
theorem readEntries_eq_ok {read : UInt8 → Reader NbtTag} {p : NbtTag → Prop}
    (hread : ∀ typeId r value t, read typeId r = .ok value t → p value) :
    ∀ {turns : Nat} {compound entries : List (String × NbtTag)} {r t : PacketReader},
      readEntries read turns compound r = .ok entries t → (compound.map Prod.fst).Nodup →
        (∀ entry ∈ compound, p entry.2) →
          (entries.map Prod.fst).Nodup ∧ ∀ entry ∈ entries, p entry.2 := by
  intro turns
  induction turns with
  | zero => intro compound entries r t h; cases h
  | succ turns ih =>
      intro compound entries r t h hnodup hall
      rw [readEntries] at h
      obtain ⟨entryType, mid, -, hrest⟩ := bind_eq_ok h
      by_cases hend : entryType = tagEnd
      · rw [if_pos hend] at hrest
        obtain ⟨rfl, -⟩ := pure_eq_ok hrest
        exact ⟨hnodup, hall⟩
      · rw [if_neg hend] at hrest
        obtain ⟨name, mid', -, hrest⟩ := bind_eq_ok hrest
        obtain ⟨value, mid'', hvalue, hrest⟩ := bind_eq_ok hrest
        apply ih hrest (nodup_keys_nbtInsert name value hnodup)
        exact forall_nbtInsert (p := fun entry => p entry.2) (hread _ _ _ _ hvalue) hall

/-- Every tag the payload reader returns is typed, within the element limit and
within the levels that were left. -/
theorem readPayload_accepted : ∀ {levels : Nat} {typeId : UInt8} {r t : PacketReader}
    {tag : NbtTag}, readPayload levels typeId r = .ok tag t → Accepted levels typeId tag := by
  intro levels
  induction levels with
  | zero => intro typeId r t tag h; cases h
  | succ levels ih =>
      intro typeId r t tag h
      unfold readPayload at h
      split at h
      · obtain ⟨v, -, rfl⟩ := bind_pure_eq_ok h
        exact .leaf rfl trivial trivial rfl
      · obtain ⟨v, -, rfl⟩ := bind_pure_eq_ok h
        exact .leaf rfl trivial trivial rfl
      · obtain ⟨v, -, rfl⟩ := bind_pure_eq_ok h
        exact .leaf rfl trivial trivial rfl
      · obtain ⟨v, -, rfl⟩ := bind_pure_eq_ok h
        exact .leaf rfl trivial trivial rfl
      · obtain ⟨v, -, rfl⟩ := bind_pure_eq_ok h
        exact .leaf rfl trivial trivial rfl
      · obtain ⟨v, -, rfl⟩ := bind_pure_eq_ok h
        exact .leaf rfl trivial trivial rfl
      · -- byte array
        obtain ⟨len, mid, hlen, hrest⟩ := bind_eq_ok h
        obtain ⟨bytes, hbytes, rfl⟩ := bind_pure_eq_ok hrest
        refine .leaf rfl trivial ?_ rfl
        change (bytes.map UInt8.toInt8).length ≤ maxArrayLen
        rw [List.length_map, take_eq_ok hbytes]
        exact readNbtLen_eq_ok hlen
      · obtain ⟨v, -, rfl⟩ := bind_pure_eq_ok h
        exact .leaf rfl trivial trivial rfl
      · -- list
        obtain ⟨elementType, mid, -, hrest⟩ := bind_eq_ok h
        obtain ⟨len, mid', hlen, hrest⟩ := bind_eq_ok hrest
        by_cases hend : elementType = tagEnd ∧ 0 < len
        · rw [if_pos hend] at hrest
          cases hrest
        · rw [if_neg hend] at hrest
          obtain ⟨items, hitems, rfl⟩ := bind_pure_eq_ok hrest
          obtain ⟨-, hall⟩ := replicateM_eq_ok
            (p := fun item => Accepted levels elementType item) (fun s a t ha => ih ha) hitems
          refine .node rfl (fun item hitem => (hall item hitem).typeId_eq)
            (length_le_of_readNbtLen hlen hitems) ?_
          intro item hitem
          have haccepted := hall item hitem
          rw [← haccepted.typeId_eq] at haccepted
          exact haccepted
      · -- compound
        obtain ⟨entries, hentries, rfl⟩ := bind_pure_eq_ok h
        obtain ⟨hnodup, hall⟩ := readEntries_eq_ok
          (p := fun value => Accepted levels value.typeId value)
          (fun typeId r value t hvalue => by
            have haccepted := ih hvalue
            rw [← haccepted.typeId_eq] at haccepted
            exact haccepted)
          hentries List.nodup_nil (fun entry hentry => absurd hentry List.not_mem_nil)
        refine .node rfl hnodup trivial ?_
        intro child hchild
        obtain ⟨entry, hentry, rfl⟩ := List.mem_map.mp hchild
        exact hall entry hentry
      · -- int array
        obtain ⟨len, mid, hlen, hrest⟩ := bind_eq_ok h
        obtain ⟨values, hvalues, rfl⟩ := bind_pure_eq_ok hrest
        exact .leaf rfl trivial (length_le_of_readNbtLen hlen hvalues) rfl
      · -- long array
        obtain ⟨len, mid, hlen, hrest⟩ := bind_eq_ok h
        obtain ⟨values, hvalues, rfl⟩ := bind_pure_eq_ok hrest
        exact .leaf rfl trivial (length_le_of_readNbtLen hlen hvalues) rfl
      · cases h

theorem readNetwork_accepted {r t : PacketReader} {tag : NbtTag} (h : readNetwork r = .ok tag t) :
    Accepted (maxDepth + 1) tag.typeId tag := by
  obtain ⟨typeId, mid, -, hrest⟩ := bind_eq_ok h
  by_cases hend : typeId = tagEnd
  · rw [if_pos hend] at hrest
    cases hrest
  · rw [if_neg hend] at hrest
    have haccepted := readPayload_accepted hrest
    rw [← haccepted.typeId_eq] at haccepted
    exact haccepted

theorem readNamed_accepted {r t : PacketReader} {name : String} {tag : NbtTag}
    (h : readNamed r = .ok (name, tag) t) : Accepted (maxDepth + 1) tag.typeId tag := by
  obtain ⟨typeId, mid, -, hrest⟩ := bind_eq_ok h
  by_cases hend : typeId = tagEnd
  · rw [if_pos hend] at hrest
    cases hrest
  · rw [if_neg hend] at hrest
    obtain ⟨name', mid', -, hrest⟩ := bind_eq_ok hrest
    obtain ⟨tag', htag, hpair⟩ := bind_pure_eq_ok hrest
    obtain ⟨-, rfl⟩ := Prod.mk.inj hpair
    have haccepted := readPayload_accepted htag
    rw [← haccepted.typeId_eq] at haccepted
    exact haccepted

/-! ## What the public functions build -/

/-- Tags that can be made through the public functions: the plain variants, lists
from `NbtList::new` and `empty`, compounds from `new` and `insert`, decoded tags,
and anything taken out of a tag. -/
inductive Built : NbtTag → Prop
  | byte (v : Int8) : Built (.byte v)
  | short (v : Int16) : Built (.short v)
  | int (v : Int32) : Built (.int v)
  | long (v : Int64) : Built (.long v)
  | float (bits : UInt32) : Built (.float bits)
  | double (bits : UInt64) : Built (.double bits)
  | byteArray (v : List Int8) : Built (.byteArray v)
  | string (v : String) : Built (.string v)
  | intArray (v : List Int32) : Built (.intArray v)
  | longArray (v : List Int64) : Built (.longArray v)
  | emptyList : Built (.list tagEnd [])
  | list {items : List NbtTag} {tag : NbtTag} (hitems : ∀ item ∈ items, Built item)
      (hnew : nbtListNew items = some tag) : Built tag
  | emptyCompound : Built (.compound [])
  | insert {entries : List (String × NbtTag)} {value : NbtTag}
      (hcompound : Built (.compound entries)) (key : String) (hvalue : Built value) :
      Built (.compound (nbtInsert entries key value))
  | network {r t : PacketReader} {tag : NbtTag} (h : readNetwork r = .ok tag t) : Built tag
  | named {r t : PacketReader} {name : String} {tag : NbtTag}
      (h : readNamed r = .ok (name, tag) t) : Built tag
  | child {tag child : NbtTag} (htag : Built tag) (hchild : child ∈ tag.children) : Built child

theorem nbtListNew_eq_some {items : List NbtTag} {tag : NbtTag} (h : nbtListNew items = some tag) :
    ∃ elementType, tag = .list elementType items ∧ ∀ item ∈ items, item.typeId = elementType := by
  unfold nbtListNew at h
  split at h
  · cases h
    exact ⟨tagEnd, rfl, fun item hitem => absurd hitem List.not_mem_nil⟩
  · rename_i first rest
    split at h
    · cases h
    · rename_i hany
      cases h
      refine ⟨first.typeId, rfl, ?_⟩
      intro item hitem
      by_contra hne
      apply hany
      rw [List.any_eq_true]
      exact ⟨item, hitem, by simp [hne]⟩

/-- Every tag that can be built is typed throughout. -/
theorem Built.typed {tag : NbtTag} (h : Built tag) : tag.All NbtTag.LocallyTyped := by
  induction h with
  | list hitems hnew ih =>
      obtain ⟨elementType, rfl, helement⟩ := nbtListNew_eq_some hnew
      exact .intro helement ih
  | emptyList => exact .leaf (fun item hitem => absurd hitem List.not_mem_nil) rfl
  | emptyCompound => exact .leaf List.nodup_nil rfl
  | insert hcompound key hvalue ihcompound ihvalue =>
      refine .intro (nodup_keys_nbtInsert key _ ihcompound.here) ?_
      intro child hchild
      obtain ⟨entry, hentry, rfl⟩ := List.mem_map.mp hchild
      apply forall_nbtInsert (p := fun entry => entry.2.All NbtTag.LocallyTyped) ihvalue _ entry
        hentry
      exact fun other hother => ihcompound.child other.2 (List.mem_map_of_mem hother)
  | network h => exact (readNetwork_accepted h).typed
  | named h => exact (readNamed_accepted h).typed
  | child htag hchild ih => exact ih.child _ hchild
  | _ => exact .leaf trivial rfl

/-! ## Round trips -/

/-- A tag that can be built and is within the limits of depth, element count and
string length comes back from either form, with exactly what followed it. -/
theorem nbt_round_trip (tag : NbtTag) (hbuilt : Built tag) (hdepth : tag.depth ≤ maxDepth)
    (hsized : tag.All NbtTag.LocallySized) (hfits : tag.All NbtTag.LocallyFits) (suffix : Bytes) :
    (∃ r, readNetwork (PacketReader.new (writeNetwork tag ++ suffix)) = .ok tag r ∧
      r.peekRest = suffix) ∧
    ∀ name, FitsPrefix name →
      ∃ r, readNamed (PacketReader.new (writeNamed name tag ++ suffix)) = .ok (name, tag) r ∧
        r.peekRest = suffix := by
  have hkept := NbtTag.clip_of_fits hbuilt.typed hfits
  constructor
  · have hread := readNetwork_reads hdepth hbuilt.typed hsized
    rw [hkept] at hread
    exact hread _ suffix rfl
  · intro name hname
    have hread := readNamed_reads name hdepth hbuilt.typed hsized
    rw [hkept, clipString_of_fits hname] at hread
    exact hread _ suffix rfl

theorem nbt_round_trip_nested :
    (∃ r, readNetwork (PacketReader.new (writeNetwork
        (.compound [("list", .list tagByte [.byte 1, .byte 2])]) ++ [7])) =
      .ok (.compound [("list", .list tagByte [.byte 1, .byte 2])]) r ∧ r.peekRest = [7]) ∧
    ∀ name, FitsPrefix name →
      ∃ r, readNamed (PacketReader.new (writeNamed name
          (.compound [("list", .list tagByte [.byte 1, .byte 2])]) ++ [7])) =
        .ok (name, .compound [("list", .list tagByte [.byte 1, .byte 2])]) r ∧
        r.peekRest = [7] := by
  have hlist : Built (.list tagByte [.byte 1, .byte 2]) := by
    refine @Built.list [.byte 1, .byte 2] _ ?_ ?_
    · intro item hitem
      simp only [List.mem_cons, List.not_mem_nil, or_false] at hitem
      rcases hitem with rfl | rfl
      · exact .byte 1
      · exact .byte 2
    · rfl
  apply nbt_round_trip
  · exact Built.insert .emptyCompound "list" hlist
  · decide
  · refine .intro trivial ?_
    simp only [NbtTag.children, List.map_cons, List.map_nil, List.mem_singleton, forall_eq]
    refine .intro (by decide : 2 ≤ maxArrayLen) ?_
    simp only [NbtTag.children, List.mem_cons, List.not_mem_nil, or_false, forall_eq_or_imp,
      forall_eq]
    exact ⟨.leaf trivial rfl, .leaf trivial rfl⟩
  · refine .intro ?_ ?_
    · intro entry hentry
      rw [List.mem_singleton.mp hentry]
      decide
    · simp only [NbtTag.children, List.map_cons, List.map_nil, List.mem_singleton, forall_eq]
      refine .intro trivial ?_
      simp only [NbtTag.children, List.mem_cons, List.not_mem_nil, or_false, forall_eq_or_imp,
        forall_eq]
      exact ⟨.leaf trivial rfl, .leaf trivial rfl⟩

/-- Writing an accepted tag and reading the result gives the tag cut to the length
prefix. -/
theorem reread_accepted {r t : PacketReader} {tag : NbtTag} (h : readNetwork r = .ok tag t) :
    ∃ t', readNetwork (PacketReader.new (writeNetwork tag)) = .ok tag.clip t' := by
  have haccepted := readNetwork_accepted h
  have hread := readNetwork_reads (Nat.le_of_lt_succ haccepted.depth_lt) haccepted.typed
    haccepted.sized
  obtain ⟨t', hok, -⟩ := hread (PacketReader.new (writeNetwork tag)) [] (by simp)
  exact ⟨t', hok⟩

/-- Re-encoding a tag decoded from any buffer cuts its strings and keys to the length prefix,
and so the tag survives exactly when every one of them takes at most 65535 bytes of modified
UTF-8. -/
theorem nbt_reencode_iff (buf : Bytes) (tag : NbtTag) (r : PacketReader)
    (h : readNetwork (PacketReader.new buf) = .ok tag r) :
    (∃ r', readNetwork (PacketReader.new (writeNetwork tag)) = .ok tag.clip r') ∧
      ((∃ r', readNetwork (PacketReader.new (writeNetwork tag)) = .ok tag r') ↔
        tag.All NbtTag.LocallyFits) := by
  obtain ⟨t, ht⟩ := reread_accepted h
  refine ⟨⟨t, ht⟩, ?_⟩
  rw [← NbtTag.clip_eq_self_iff (readNetwork_accepted h).typed]
  constructor
  · rintro ⟨r', hr'⟩
    rw [ht] at hr'
    exact (EStateM.Result.ok.inj hr').1
  · intro hclip
    rw [hclip] at ht
    exact ⟨t, ht⟩

/-- A string under a key, with a NUL that the writer spells otherwise. -/
theorem nbt_reencode_iff_rawNul :
    ∃ r r', readNetwork (PacketReader.new [10, 8, 0, 1, 107, 0, 3, 97, 0, 98, 0]) =
        .ok (.compound [("k", .string "a\x00b")]) r ∧
      writeNetwork (.compound [("k", .string "a\x00b")]) =
        [10, 8, 0, 1, 107, 0, 4, 97, 0xC0, 0x80, 98, 0] ∧
      readNetwork (PacketReader.new (writeNetwork (.compound [("k", .string "a\x00b")]))) =
        .ok (.compound [("k", .string "a\x00b")]) r' := by
  have hread : readNetwork (PacketReader.new [10, 8, 0, 1, 107, 0, 3, 97, 0, 98, 0]) =
      .ok (.compound [("k", .string "a\x00b")])
        { buf := [10, 8, 0, 1, 107, 0, 3, 97, 0, 98, 0], pos := 11, pos_le := by decide } := by
    with_unfolding_all rfl
  have hfits : NbtTag.All NbtTag.LocallyFits (.compound [("k", .string "a\x00b")]) := by
    refine .intro (fun entry hentry => ?_) (fun child hchild => ?_)
    · rw [List.mem_singleton.mp hentry]
      decide
    · rw [List.mem_singleton.mp hchild]
      exact .leaf (by decide : FitsPrefix "a\x00b") rfl
  obtain ⟨r', hr'⟩ := (nbt_reencode_iff _ _ _ hread).2.mpr hfits
  exact ⟨_, r', hread, by decide +kernel, hr'⟩

/-- A string of 32768 raw NUL bytes is accepted, but the writer needs two bytes for
each NUL and cuts the string. -/
theorem nbt_reencode_loses_nuls :
    ∃ buf tag r, readNetwork (PacketReader.new buf) = .ok tag r ∧
      ¬ ∃ r', readNetwork (PacketReader.new (writeNetwork tag)) = .ok tag r' := by
  have hstring := readModifiedUtf8_of_decode (by rw [List.length_replicate]; decide)
    (decodeModifiedUtf8_zeros 32768)
  have hread : ReadsAs readNetwork
      (writeU8 tagString ++ (writeU16 (UInt16.ofNat (List.replicate 32768 (0 : UInt8)).length) ++
        List.replicate 32768 0))
      (.string (String.ofList (List.replicate 32768 (Char.ofNat 0)))) := by
    apply (readU8_reads tagString).bind
    rw [if_neg (by decide)]
    exact hstring.bind_pure
  obtain ⟨r, hr, -⟩ := hread (PacketReader.new _) [] (List.append_nil _).symm
  refine ⟨_, _, r, hr, ?_⟩
  rintro ⟨r', hr'⟩
  obtain ⟨t, ht⟩ := reread_accepted hr
  rw [ht] at hr'
  have hfits := (clipString_eq_self_iff _).mp (NbtTag.string.inj (EStateM.Result.ok.inj hr').1)
  rw [FitsPrefix, modifiedUtf8Len_zeros] at hfits
  exact absurd hfits (by decide)

end Rukkit.Protocol
