import Rukkit.Protocol.Nbt

/-!
# Reading written NBT back

What the writer puts on the wire is read back as the tag with its strings cut to
the length prefix.  The tag itself comes back exactly when no string had to be
cut.
-/

namespace Rukkit.Protocol

open Rukkit.Lib Rukkit.Lib.Reading

namespace NbtTag

mutual

/-- The tag that reading a written tag gives back: strings and keys are cut to
what the length prefix can hold, and keys that then coincide are merged. -/
def clip : NbtTag → NbtTag
  | string v => string (clipString v)
  | list elementType items => list elementType (clipItems items)
  | compound entries => compound (clipEntries [] entries)
  | tag => tag

def clipItems : List NbtTag → List NbtTag
  | [] => []
  | item :: items => clip item :: clipItems items

def clipEntries (compound : List (String × NbtTag)) :
    List (String × NbtTag) → List (String × NbtTag)
  | [] => compound
  | (name, value) :: entries =>
      clipEntries (nbtInsert compound (clipString name) (clip value)) entries

end

theorem clipItems_eq (items : List NbtTag) : clipItems items = items.map clip := by
  induction items with
  | nil => rfl
  | cons item items ih => rw [clipItems, ih, List.map_cons]

end NbtTag

theorem writeItems_eq (items : List NbtTag) : writeItems items = items.flatMap writePayload := by
  induction items with
  | nil => rfl
  | cons item items ih => rw [writeItems, ih, List.flatMap_cons]

/-! ## Lengths and arrays -/

theorem readNbtLen_reads {n : Nat} (hn : n ≤ maxArrayLen) :
    ReadsAs readNbtLen (writeI32 (asI32 n)) n := by
  have hvalue := toInt_asI32 (n := n) (by unfold maxArrayLen at hn; omega)
  have hnonneg : ¬ asI32 n < 0 := by
    rw [Int32.lt_iff_toInt_lt, hvalue]
    simp
  have hnat : (asI32 n).toNatClampNeg = n := by
    rw [← Int32.toNat_toInt, hvalue, Int.toNat_natCast]
  intro r suffix hr
  obtain ⟨t, ht, hrest⟩ := readI32_reads (asI32 n) r suffix hr
  refine ⟨t, ?_, hrest⟩
  change EStateM.bind readI32 _ r = _
  rw [EStateM.bind, ht]
  simp only [if_neg hnonneg, hnat, if_neg (by omega : ¬ maxArrayLen < n)]
  rfl

theorem readBytes_reads (v : List Int8) :
    ReadsAs (do return NbtTag.byteArray ((← readBytes v.length).map UInt8.toInt8))
      (v.flatMap writeI8) (.byteArray v) := by
  have hbytes : v.flatMap writeI8 = v.map Int8.toUInt8 := List.map_eq_flatMap.symm
  have htake := take_reads (v.map Int8.toUInt8)
  rw [List.length_map] at htake
  have hback : (v.map Int8.toUInt8).map UInt8.toInt8 = v := by
    rw [List.map_map]
    exact List.map_id v
  have h := htake.bind_pure (f := fun bytes => NbtTag.byteArray (bytes.map UInt8.toInt8))
  rw [hback] at h
  rw [hbytes]
  exact h

/-! ## Compounds -/

section Compound

variable {read : UInt8 → Reader NbtTag}

theorem length_writeEntries_le (entries : List (String × NbtTag)) :
    entries.length ≤ (writeEntries entries).length := by
  induction entries with
  | nil => exact Nat.le_refl 0
  | cons entry entries ih =>
      rw [writeEntries, List.length_append, List.length_append, List.length_append,
        List.length_cons]
      change _ ≤ 1 + _ + _ + _
      omega

/-- The compound loop inserts the entries one by one, up to the end marker. -/
theorem readEntries_reads : ∀ (entries compound : List (String × NbtTag)) (turns : Nat),
    entries.length < turns →
    (∀ entry ∈ entries, ReadsAs (read entry.2.typeId) (writePayload entry.2) entry.2.clip) →
    ReadsAs (readEntries read turns compound) (writeEntries entries ++ writeU8 tagEnd)
      (NbtTag.clipEntries compound entries) := by
  intro entries
  induction entries with
  | nil =>
      intro compound turns hturns _
      obtain ⟨turns, rfl⟩ := Nat.exists_eq_add_of_lt (Nat.zero_lt_of_lt hturns)
      rw [Nat.zero_add, readEntries, writeEntries, List.nil_append, ← List.append_nil (writeU8 _)]
      apply (readU8_reads tagEnd).bind
      rw [if_pos rfl]
      exact Reads.pure compound
  | cons entry entries ih =>
      intro compound turns hturns hread
      obtain ⟨name, value⟩ := entry
      obtain ⟨turns, rfl⟩ := Nat.exists_eq_add_of_lt (Nat.zero_lt_of_lt hturns)
      rw [Nat.zero_add, readEntries, writeEntries, NbtTag.clipEntries]
      simp only [List.append_assoc]
      apply (readU8_reads value.typeId).bind
      rw [if_neg value.typeId_ne_end]
      apply (readModifiedUtf8_reads name).bind
      apply (hread (name, value) List.mem_cons_self).bind
      apply ih
      · rw [List.length_cons] at hturns
        omega
      · exact fun other hother => hread other (List.mem_cons_of_mem _ hother)

theorem readCompound_reads {entries : List (String × NbtTag)}
    (hread : ∀ entry ∈ entries,
      ReadsAs (read entry.2.typeId) (writePayload entry.2) entry.2.clip) :
    ReadsAs (fun r => readEntries read r.remaining [] r) (writeEntries entries ++ writeU8 tagEnd)
      (NbtTag.clipEntries [] entries) := by
  intro r suffix hr
  have hturns : entries.length < r.remaining := by
    have hlength := congrArg List.length hr
    have hle := length_writeEntries_le entries
    rw [r.length_peekRest, List.length_append, List.length_append] at hlength
    change r.remaining = _ + 1 + _ at hlength
    omega
  exact readEntries_reads entries [] r.remaining hturns hread r suffix hr

end Compound

/-! ## Tags -/

/-- A written payload is read back as the clipped tag, from any depth that leaves
enough levels. -/
theorem readPayload_reads (tag : NbtTag) : ∀ (levels : Nat), tag.depth < levels →
    tag.All NbtTag.LocallyTyped → tag.All NbtTag.LocallySized →
      ReadsAs (readPayload levels tag.typeId) (writePayload tag) tag.clip := by
  induction tag using NbtTag.induction with
  | step tag ih =>
      intro levels hdepth htyped hsized
      obtain ⟨levels, rfl⟩ := Nat.exists_eq_add_of_lt (Nat.zero_lt_of_lt hdepth)
      rw [Nat.zero_add] at hdepth ⊢
      have hchild : ∀ child ∈ tag.children,
          ReadsAs (readPayload levels child.typeId) (writePayload child) child.clip := by
        intro child hmem
        apply ih child hmem levels _ (htyped.child child hmem) (hsized.child child hmem)
        have := NbtTag.depth_lt_of_child hmem
        omega
      cases tag with
      | byte v => exact (readI8_reads v).bind_pure
      | short v => exact (readI16_reads v).bind_pure
      | int v => exact (readI32_reads v).bind_pure
      | long v => exact (readI64_reads v).bind_pure
      | float bits => exact (readF32_reads bits).bind_pure
      | double bits => exact (readF64_reads bits).bind_pure
      | string v => exact (readModifiedUtf8_reads v).bind_pure
      | byteArray v =>
          have hlength : v.length ≤ maxArrayLen := hsized.here
          exact (readNbtLen_reads hlength).bind (readBytes_reads v)
      | list elementType items =>
          have hlength : items.length ≤ maxArrayLen := hsized.here
          have helement : ∀ item ∈ items, item.typeId = elementType := htyped.here
          have hempty : ¬ (elementType = tagEnd ∧ 0 < items.length) := by
            rintro ⟨hend, hpos⟩
            obtain ⟨item, hitem⟩ := List.exists_mem_of_length_pos hpos
            exact item.typeId_ne_end ((helement item hitem).trans hend)
          have hitems : ReadsAs (replicateM (readPayload levels elementType) items.length)
              (items.flatMap writePayload) (items.map NbtTag.clip) := by
            apply Reads.replicateM_map
            intro item hitem
            rw [← helement item hitem]
            exact hchild item hitem
          rw [writePayload, writeItems_eq, NbtTag.clip, NbtTag.clipItems_eq, List.append_assoc]
          apply (readU8_reads elementType).bind
          apply (readNbtLen_reads hlength).bind
          rw [if_neg hempty]
          exact hitems.bind_pure
      | compound entries =>
          have hentries : ∀ entry ∈ entries,
              ReadsAs (readPayload levels entry.2.typeId) (writePayload entry.2) entry.2.clip :=
            fun entry hentry => hchild entry.2 (List.mem_map_of_mem hentry)
          rw [writePayload, NbtTag.clip]
          exact (readCompound_reads hentries).bind_pure
      | intArray v =>
          have hlength : v.length ≤ maxArrayLen := hsized.here
          apply (readNbtLen_reads hlength).bind
          exact (Reads.replicateM v fun n _ => readI32_reads n).bind_pure
      | longArray v =>
          have hlength : v.length ≤ maxArrayLen := hsized.here
          apply (readNbtLen_reads hlength).bind
          exact (Reads.replicateM v fun n _ => readI64_reads n).bind_pure

theorem readNetwork_reads {tag : NbtTag} (hdepth : tag.depth ≤ maxDepth)
    (htyped : tag.All NbtTag.LocallyTyped) (hsized : tag.All NbtTag.LocallySized) :
    ReadsAs readNetwork (writeNetwork tag) tag.clip := by
  apply (readU8_reads tag.typeId).bind
  rw [if_neg tag.typeId_ne_end]
  exact readPayload_reads tag _ (Nat.lt_succ_of_le hdepth) htyped hsized

theorem readNamed_reads (name : String) {tag : NbtTag} (hdepth : tag.depth ≤ maxDepth)
    (htyped : tag.All NbtTag.LocallyTyped) (hsized : tag.All NbtTag.LocallySized) :
    ReadsAs readNamed (writeNamed name tag) (clipString name, tag.clip) := by
  rw [writeNamed, List.append_assoc]
  apply (readU8_reads tag.typeId).bind
  rw [if_neg tag.typeId_ne_end]
  apply (readModifiedUtf8_reads name).bind
  exact (readPayload_reads tag _ (Nat.lt_succ_of_le hdepth) htyped hsized).bind_pure
    (f := fun tag => (clipString name, tag))

/-! ## Tags that are kept whole -/

theorem nbtInsert_fresh {entries : List (String × NbtTag)} {key : String} (value : NbtTag)
    (h : key ∉ entries.map Prod.fst) : nbtInsert entries key value = entries ++ [(key, value)] := by
  induction entries with
  | nil => rfl
  | cons entry entries ih =>
      obtain ⟨k, v⟩ := entry
      rw [List.map_cons, List.mem_cons, not_or] at h
      rw [nbtInsert, if_neg (Ne.symm h.1), ih h.2, List.cons_append]

theorem mem_keys_nbtInsert {entries : List (String × NbtTag)} {key k : String} {value : NbtTag} :
    k ∈ (nbtInsert entries key value).map Prod.fst ↔ k = key ∨ k ∈ entries.map Prod.fst := by
  induction entries with
  | nil => simp [nbtInsert]
  | cons entry entries ih =>
      obtain ⟨first, v⟩ := entry
      rw [nbtInsert]
      by_cases hsame : first = key
      · rw [if_pos hsame, List.map_cons, List.map_cons, List.mem_cons, hsame, or_self_left]
      · rw [if_neg hsame, List.map_cons, List.mem_cons, ih, List.map_cons, List.mem_cons,
          or_left_comm]

theorem nodup_keys_nbtInsert {entries : List (String × NbtTag)} (key : String) (value : NbtTag)
    (h : (entries.map Prod.fst).Nodup) : ((nbtInsert entries key value).map Prod.fst).Nodup := by
  induction entries with
  | nil => exact List.nodup_singleton key
  | cons entry entries ih =>
      obtain ⟨first, v⟩ := entry
      rw [List.map_cons, List.nodup_cons] at h
      rw [nbtInsert]
      by_cases hsame : first = key
      · rw [if_pos hsame, List.map_cons, List.nodup_cons]
        exact h
      · rw [if_neg hsame, List.map_cons, List.nodup_cons, mem_keys_nbtInsert, not_or]
        exact ⟨⟨hsame, h.1⟩, ih h.2⟩

/-- Whatever holds of the new entry and of the old ones holds of all entries. -/
theorem forall_nbtInsert {p : String × NbtTag → Prop} {entries : List (String × NbtTag)}
    {key : String} {value : NbtTag} (hnew : p (key, value)) (hold : ∀ entry ∈ entries, p entry) :
    ∀ entry ∈ nbtInsert entries key value, p entry := by
  induction entries with
  | nil =>
      intro entry hentry
      rw [List.mem_singleton.mp hentry]
      exact hnew
  | cons first entries ih =>
      obtain ⟨k, v⟩ := first
      intro entry hentry
      rw [nbtInsert] at hentry
      by_cases hsame : k = key
      · rw [if_pos hsame, hsame, List.mem_cons] at hentry
        rcases hentry with rfl | hentry
        · exact hnew
        · exact hold entry (List.mem_cons_of_mem _ hentry)
      · rw [if_neg hsame, List.mem_cons] at hentry
        rcases hentry with rfl | hentry
        · exact hold _ List.mem_cons_self
        · exact ih (fun e he => hold e (List.mem_cons_of_mem _ he)) entry hentry

namespace NbtTag

/-- Entries with fresh distinct keys that fit are appended as they are. -/
theorem clipEntries_fresh {entries : List (String × NbtTag)} :
    ∀ {compound : List (String × NbtTag)}, ((compound ++ entries).map Prod.fst).Nodup →
      (∀ entry ∈ entries, FitsPrefix entry.1 ∧ entry.2.clip = entry.2) →
        clipEntries compound entries = compound ++ entries := by
  induction entries with
  | nil => intro compound _ _; rw [clipEntries, List.append_nil]
  | cons entry entries ih =>
      intro compound hnodup hkept
      obtain ⟨name, value⟩ := entry
      obtain ⟨hname, hvalue⟩ := hkept (name, value) List.mem_cons_self
      have hfresh : name ∉ compound.map Prod.fst := by
        rw [List.map_append, List.nodup_append] at hnodup
        intro hmem
        exact hnodup.2.2 name hmem name (by simp) rfl
      rw [clipEntries, clipString_of_fits hname, hvalue, nbtInsert_fresh value hfresh, ih]
      · rw [List.append_assoc]
        rfl
      · rw [List.append_assoc]
        exact hnodup
      · exact fun other hother => hkept other (List.mem_cons_of_mem _ hother)

theorem clip_of_fits {tag : NbtTag} (htyped : tag.All LocallyTyped) (hfits : tag.All LocallyFits) :
    tag.clip = tag := by
  induction tag using NbtTag.induction with
  | step tag ih =>
      have hchild : ∀ child ∈ tag.children, child.clip = child :=
        fun child hmem => ih child hmem (htyped.child child hmem) (hfits.child child hmem)
      cases tag with
      | string v => exact congrArg string (clipString_of_fits hfits.here)
      | list elementType items =>
          rw [clip, clipItems_eq]
          congr 1
          exact (List.map_congr_left hchild).trans (List.map_id items)
      | compound entries =>
          have hkeys : ∀ entry ∈ entries, FitsPrefix entry.1 := hfits.here
          rw [clip, clipEntries_fresh]
          · rfl
          · exact htyped.here
          · exact fun entry hentry =>
              ⟨hkeys entry hentry, hchild entry.2 (List.mem_map_of_mem hentry)⟩
      | _ => rfl

theorem forall_clipEntries {p : String × NbtTag → Prop} {entries : List (String × NbtTag)} :
    ∀ {compound : List (String × NbtTag)}, (∀ entry ∈ compound, p entry) →
      (∀ entry ∈ entries, p (clipString entry.1, entry.2.clip)) →
        ∀ entry ∈ clipEntries compound entries, p entry := by
  induction entries with
  | nil =>
      intro compound hcompound _
      rw [clipEntries]
      exact hcompound
  | cons entry entries ih =>
      intro compound hcompound hentries
      obtain ⟨name, value⟩ := entry
      rw [clipEntries]
      apply ih
      · exact forall_nbtInsert (hentries (name, value) List.mem_cons_self) hcompound
      · exact fun other hother => hentries other (List.mem_cons_of_mem _ hother)

/-- What comes back always fits. -/
theorem fits_clip (tag : NbtTag) : tag.clip.All LocallyFits := by
  induction tag using NbtTag.induction with
  | step tag ih =>
      cases tag with
      | string v => exact .leaf (fits_clipString v) rfl
      | list elementType items =>
          rw [clip, clipItems_eq]
          refine .intro trivial ?_
          intro child hchild
          obtain ⟨item, hitem, rfl⟩ := List.mem_map.mp hchild
          exact ih item hitem
      | compound entries =>
          have hentries : ∀ entry ∈ clipEntries [] entries,
              FitsPrefix entry.1 ∧ entry.2.All LocallyFits := by
            apply forall_clipEntries
              (p := fun entry => FitsPrefix entry.1 ∧ entry.2.All LocallyFits)
            · exact fun entry hentry => absurd hentry List.not_mem_nil
            · exact fun entry hentry =>
                ⟨fits_clipString entry.1, ih entry.2 (List.mem_map_of_mem hentry)⟩
          rw [clip]
          refine .intro (fun entry hentry => (hentries entry hentry).1) ?_
          intro child hchild
          obtain ⟨entry, hentry, rfl⟩ := List.mem_map.mp hchild
          exact (hentries entry hentry).2
      | _ => exact .leaf trivial rfl

/-- A typed tag is kept whole exactly when all its strings and keys fit. -/
theorem clip_eq_self_iff {tag : NbtTag} (htyped : tag.All LocallyTyped) :
    tag.clip = tag ↔ tag.All LocallyFits := by
  constructor
  · intro h
    rw [← h]
    exact fits_clip tag
  · exact clip_of_fits htyped

end NbtTag

end Rukkit.Protocol
