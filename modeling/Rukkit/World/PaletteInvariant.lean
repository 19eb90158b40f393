import Rukkit.World.Palette

/-!
# Paletted containers keep their invariant

Each operation of a container, taken from any state that satisfies the invariant:
it returns, the next state satisfies the invariant again, and its entries are the
ones the operation is meant to leave.
-/

namespace Rukkit.World

open Rukkit.Lib

inductive ReprInv (kind : ContainerKind) (directBits : Nat) : PalettedContainer.Repr → Prop
  | single {value : UInt32} (h : value.toNat < 2 ^ directBits) :
      ReprInv kind directBits (.single value)
  | indirect {palette : List UInt32} {storage : BitStorage}
      (h : IndirectInv kind directBits palette storage) :
      ReprInv kind directBits (.indirect palette storage)
  | direct {storage : BitStorage} (h : DirectInv kind directBits storage) :
      ReprInv kind directBits (.direct storage)

namespace PalettedContainer

structure Inv (c : PalettedContainer) : Prop where
  directBits_pos : 0 < c.directBits
  directBits_le : c.directBits ≤ maxBits
  repr : ReprInv c.kind c.directBits c.repr

/-- The id at an index, as a total function. -/
def entry (c : PalettedContainer) (index : Nat) : UInt32 :=
  match c.repr with
  | .single value => value
  | .indirect palette storage => palette.getD (storage.entry index).toNat 0
  | .direct storage => storage.entry index

theorem volume_blocks {c : PalettedContainer} (h : c.kind = .blocks) : c.volume = 4096 := by
  rw [volume, h]
  rfl

theorem volume_biomes {c : PalettedContainer} (h : c.kind = .biomes) : c.volume = 64 := by
  rw [volume, h]
  rfl

theorem entry_single {c : PalettedContainer} {value : UInt32} (h : c.repr = .single value)
    (index : Nat) : c.entry index = value := by
  rw [entry, h]

theorem entry_indirect {c : PalettedContainer} {palette : List UInt32} {storage : BitStorage}
    (h : c.repr = .indirect palette storage) (index : Nat) :
    c.entry index = palette.getD (storage.entry index).toNat 0 := by
  rw [entry, h]

theorem entry_direct {c : PalettedContainer} {storage : BitStorage} (h : c.repr = .direct storage)
    (index : Nat) : c.entry index = storage.entry index := by
  rw [entry, h]

/-- The ids in index order. -/
def entries (c : PalettedContainer) : List UInt32 := (List.range c.volume).map c.entry

variable {c : PalettedContainer}

theorem Inv.filled {kind : ContainerKind} {directBits : Nat} (hpos : 0 < directBits)
    (hle : directBits ≤ maxBits) {value : UInt32} (hvalue : value.toNat < 2 ^ directBits) :
    (filled kind directBits value).Inv where
  directBits_pos := hpos
  directBits_le := hle
  repr := .single hvalue

theorem Inv.withRepr (h : c.Inv) {repr : Repr} (hrepr : ReprInv c.kind c.directBits repr) :
    (c.withRepr repr).Inv where
  directBits_pos := h.directBits_pos
  directBits_le := h.directBits_le
  repr := hrepr

theorem Inv.wellFormed (h : c.Inv) : c.WellFormed := by
  obtain ⟨kind, directBits, repr⟩ := c
  cases h.repr with
  | single h => trivial
  | indirect h => exact h.toIndirectWellFormed
  | direct h => exact h.toDirectWellFormed

/-! ## Reading -/

theorem getElem?_eq_getD {palette : List UInt32} {slot : Nat} (h : slot < palette.length) :
    palette[slot]? = some (palette.getD slot 0) := by
  simp [List.getD_eq_getElem?_getD, h]

theorem get_eq (h : c.WellFormed) {index : Nat} (hindex : index < c.volume) :
    c.get index = some (c.entry index) := by
  obtain ⟨kind, directBits, repr⟩ := c
  cases repr with
  | single value => rfl
  | indirect palette storage =>
      change IndirectWellFormed kind palette storage at h
      change (storage.get index).bind (fun slot => palette[slot.toNat]?) = _
      rw [BitStorage.get_eq (by rw [h.len_eq]; exact hindex), Option.bind_some,
        getElem?_eq_getD (h.entry_lt hindex)]
      rfl
  | direct storage =>
      change DirectWellFormed kind directBits storage at h
      exact BitStorage.get_eq (by rw [h.len_eq]; exact hindex)

theorem entry_lt (h : c.Inv) {index : Nat} (hindex : index < c.volume) :
    (c.entry index).toNat < 2 ^ c.directBits := by
  obtain ⟨kind, directBits, repr⟩ := c
  cases h.repr with
  | single h => exact h
  | @indirect palette storage h =>
      apply h.ids_lt
      change palette.getD (storage.entry index).toNat 0 ∈ palette
      exact List.mem_of_getElem? (getElem?_eq_getD (h.entry_lt hindex))
  | @direct storage h =>
      have hlt := BitStorage.toNat_entry_lt (s := storage) index
      rw [h.bits_eq] at hlt
      exact hlt

theorem mapM_eq_map {α β γ : Type} {f : β → Option γ} {g : α → β} {e : α → γ} (as : List α)
    (h : ∀ a ∈ as, f (g a) = some (e a)) : (as.map g).mapM f = some (as.map e) := by
  induction as with
  | nil => rfl
  | cons a as ih =>
      rw [List.map_cons, List.mapM_cons, h a List.mem_cons_self,
        ih fun b hb => h b (List.mem_cons_of_mem a hb)]
      rfl

/-- `for_each` visits every index once, in order, with the id at it. -/
theorem forEach_eq (h : c.WellFormed) :
    c.forEach = some ((List.range c.volume).map fun index => (index, c.entry index)) := by
  obtain ⟨kind, directBits, repr⟩ := c
  cases repr with
  | single value => rfl
  | indirect palette storage =>
      change IndirectWellFormed kind palette storage at h
      change storage.forEach.mapM _ = _
      rw [BitStorage.forEach_eq, h.len_eq]
      apply mapM_eq_map
      intro index hindex
      have hlt := h.entry_lt (List.mem_range.mp hindex)
      simp only [Option.bind_eq_bind, getElem?_eq_getD hlt]
      rfl
  | direct storage =>
      change DirectWellFormed kind directBits storage at h
      change some storage.forEach = _
      rw [BitStorage.forEach_eq, h.len_eq]
      rfl

theorem foldl_count (accepts : UInt32 → Bool) (visits : List (Nat × UInt32)) (total : Nat) :
    visits.foldl (fun total visit => if accepts visit.2 then total + 1 else total) total =
      total + (visits.map Prod.snd).countP accepts := by
  induction visits generalizing total with
  | nil => rfl
  | cons visit visits ih =>
      rw [List.foldl_cons, ih, List.map_cons, List.countP_cons]
      split <;> omega

/-- A count by a lookup that succeeds at every visit. -/
theorem foldlM_count (lookup : UInt32 → Option Bool) (accepts : UInt32 → Bool)
    (visits : List (Nat × UInt32)) (total : Nat)
    (h : ∀ visit ∈ visits, lookup visit.2 = some (accepts visit.2)) :
    visits.foldlM (fun total visit => do
      return if ← lookup visit.2 then total + 1 else total) total =
      some (total + (visits.map Prod.snd).countP accepts) := by
  rw [← foldl_count]
  induction visits generalizing total with
  | nil => rfl
  | cons visit visits ih =>
      rw [List.foldlM_cons, List.foldl_cons, h visit List.mem_cons_self]
      exact ih _ fun next hnext => h next (List.mem_cons_of_mem visit hnext)

/-- `count` counts the indices whose id satisfies the predicate. -/
theorem count_eq (h : c.WellFormed) (predicate : UInt32 → Bool) :
    c.count predicate = some (c.entries.countP predicate) := by
  obtain ⟨kind, directBits, repr⟩ := c
  cases repr with
  | single value =>
      have hentries : entries ⟨kind, directBits, .single value⟩ =
          List.replicate kind.volume value := by
        apply List.ext_getElem
        · simp [entries, volume]
        · intro i _ _
          simp [entries, entry]
      rw [hentries, List.countP_replicate]
      rfl
  | indirect palette storage =>
      change IndirectWellFormed kind palette storage at h
      have hlookup : ∀ visit ∈ storage.forEach, (palette.map predicate)[visit.2.toNat]? =
          some (predicate (palette.getD visit.2.toNat 0)) := by
        intro visit hvisit
        rw [BitStorage.forEach_eq, h.len_eq] at hvisit
        obtain ⟨index, hindex, rfl⟩ := List.mem_map.mp hvisit
        have hlt := h.entry_lt (List.mem_range.mp hindex)
        rw [List.getElem?_map, getElem?_eq_getD hlt, Option.map_some]
      have hcount := foldlM_count (fun slot => (palette.map predicate)[slot.toNat]?)
        (fun slot => predicate (palette.getD slot.toNat 0)) storage.forEach 0 hlookup
      refine hcount.trans ?_
      rw [BitStorage.forEach_eq, h.len_eq, Nat.zero_add, List.map_map, List.countP_map, entries,
        List.countP_map]
      rfl
  | direct storage =>
      change DirectWellFormed kind directBits storage at h
      have hcount := foldl_count predicate storage.forEach 0
      refine congrArg some (hcount.trans ?_)
      rw [BitStorage.forEach_eq, h.len_eq, Nat.zero_add, List.map_map]
      rfl

/-! ## Writing -/

/-- `c'` is `c` with `value` at `index`. -/
structure Wrote (c c' : PalettedContainer) (index : Nat) (value : UInt32) : Prop where
  kind_eq : c'.kind = c.kind
  directBits_eq : c'.directBits = c.directBits
  inv : c'.Inv
  entry_eq : ∀ other < c.volume, c'.entry other = if other = index then value else c.entry other

/-- The write ends in a palette, whatever the ids in it, with `value` at `index`. -/
def WritesSlot (c : PalettedContainer) (idBits : Nat) (outcome : Outcome PalettedContainer UInt32)
    (index : Nat) (value : UInt32) : Prop :=
  ∃ palette storage,
    outcome = .returned (c.withRepr (.indirect palette storage)) (c.entry index) ∧
    IndirectInv c.kind idBits palette storage ∧
    ∀ other < c.volume, palette.getD (storage.entry other).toNat 0 =
      if other = index then value else c.entry other

/-- The same for ids stored inline. -/
def WritesId (c : PalettedContainer) (outcome : Outcome PalettedContainer UInt32)
    (index : Nat) (value : UInt32) : Prop :=
  ∃ storage, outcome = .returned (c.withRepr (.direct storage)) (c.entry index) ∧
    DirectWellFormed c.kind c.directBits storage ∧ storage.Clean ∧
    ∀ other < c.volume, storage.entry other = if other = index then value else c.entry other

variable {idBits : Nat} {outcome : Outcome PalettedContainer UInt32} {index : Nat} {value : UInt32}

theorem WritesSlot.wrote (h : c.WritesSlot c.directBits outcome index value) (hc : c.Inv) :
    ∃ c', outcome = .returned c' (c.entry index) ∧ Wrote c c' index value := by
  obtain ⟨palette, storage, houtcome, hinv, hentry⟩ := h
  exact ⟨_, houtcome, rfl, rfl, hc.withRepr (.indirect hinv), hentry⟩

theorem WritesId.wrote (h : c.WritesId outcome index value) (hc : c.Inv)
    (hwide : c.kind.maxIndirectBits < c.directBits) :
    ∃ c', outcome = .returned c' (c.entry index) ∧ Wrote c c' index value := by
  obtain ⟨storage, houtcome, hformed, hclean, hentry⟩ := h
  have hinv : DirectInv c.kind c.directBits storage := ⟨hformed, hclean, hwide⟩
  exact ⟨_, houtcome, rfl, rfl, hc.withRepr (.direct hinv), hentry⟩

/-- Every indirect write, seen from a palette and storage that already hold what
the container held before. -/
theorem entry_writeSlot {palette : List UInt32} {storage : BitStorage}
    (h : IndirectInv c.kind idBits palette storage)
    (hentry : ∀ index < c.volume, palette.getD (storage.entry index).toNat 0 = c.entry index)
    {slot : Nat} (hindex : index < c.volume) (hslot : slot < palette.length)
    (hvalue : palette.getD slot 0 = value) :
    ∀ other < c.volume,
      palette.getD ((storage.write index (UInt32.ofNat slot)).entry other).toNat 0 =
        if other = index then value else c.entry other := by
  intro other hother
  obtain ⟨heq, hfit⟩ := h.toNat_slot hslot
  have hlen : index < storage.len := by rw [h.len_eq]; exact hindex
  by_cases hsame : other = index
  · rw [if_pos hsame, hsame, BitStorage.entry_write_same hlen hfit, heq, hvalue]
  · rw [if_neg hsame, BitStorage.entry_write_ne hlen hfit hsame, hentry other hother]

/-- A write that stores a palette slot. -/
theorem storeSlot_spec {palette : List UInt32} {storage : BitStorage}
    (h : IndirectInv c.kind idBits palette storage)
    (hentry : ∀ index < c.volume, palette.getD (storage.entry index).toNat 0 = c.entry index)
    {slot : Nat} (hindex : index < c.volume) (hslot : slot < palette.length)
    (hvalue : palette.getD slot 0 = value) :
    c.WritesSlot idBits (c.storeSlot palette storage index slot) index value := by
  refine ⟨_, _, ?_, h.write hindex hslot, entry_writeSlot h hentry hindex hslot hvalue⟩
  rw [storeSlot, BitStorage.set_eq (by rw [h.len_eq]; exact hindex) (h.toNat_slot hslot).2]
  simp only [getElem?_eq_getD (h.entry_lt hindex), hentry index hindex]

/-- A write of an id inline, into storage that already holds what the container held. -/
theorem storeId_spec {storage : BitStorage} (h : DirectWellFormed c.kind c.directBits storage)
    (hclean : storage.Clean) (hentry : ∀ index < c.volume, storage.entry index = c.entry index)
    (hindex : index < c.volume) (hvalue : value.toNat < 2 ^ c.directBits) :
    storage.set index value = some (storage.write index value, c.entry index) ∧
    DirectWellFormed c.kind c.directBits (storage.write index value) ∧
    (storage.write index value).Clean ∧
    ∀ other < c.volume, (storage.write index value).entry other =
      if other = index then value else c.entry other := by
  have hlen : index < storage.len := by rw [h.len_eq]; exact hindex
  have hfit : value.toNat < 2 ^ storage.bits := by rw [h.bits_eq]; exact hvalue
  refine ⟨?_, ⟨h.len_eq, h.bits_eq⟩, BitStorage.clean_write hlen hfit hclean, ?_⟩
  · rw [BitStorage.set_eq hlen hfit, hentry index hindex]
  · intro other hother
    by_cases hsame : other = index
    · rw [if_pos hsame, hsame, BitStorage.entry_write_same hlen hfit]
    · rw [if_neg hsame, BitStorage.entry_write_ne hlen hfit hsame, hentry other hother]

theorem promote_spec {previous : UInt32} (hrepr : c.repr = .single previous)
    (hindex : index < c.volume) (hne : previous ≠ value)
    (hprevious : previous.toNat < 2 ^ idBits) (hvalue : value.toNat < 2 ^ idBits) :
    c.WritesSlot idBits (c.promote previous index value) index value := by
  have hentry := entry_single hrepr
  have hmin := c.kind.minIndirectBits_pos
  have hmax := c.kind.minIndirectBits_le.trans c.kind.maxIndirectBits_le
  obtain ⟨storage, hnew⟩ := Option.isSome_iff_exists.mp
    (BitStorage.new_isSome hmin (hmax.trans (by decide)) c.kind.volume_lt)
  obtain ⟨hlen, hbits, hclean, hzero⟩ := BitStorage.new_spec hnew
  have hroom : 2 ≤ 2 ^ storage.bits := by
    have := Nat.pow_le_pow_right (n := 2) (by decide) (by omega : 1 ≤ storage.bits)
    omega
  have hinv : IndirectInv c.kind idBits [previous, value] storage :=
    { nodup := by simp [hne]
      length_le := hroom
      minIndirectBits_le := Nat.le_of_eq hbits.symm
      le_maxIndirectBits := by rw [hbits]; exact c.kind.minIndirectBits_le
      len_eq := hlen
      slot_lt := by
        intro i slot hget
        by_cases hi : i < storage.len
        · rw [BitStorage.get_eq hi, hzero, Option.some.injEq] at hget
          rw [← hget]
          exact Nat.two_pos
        · rw [BitStorage.get_eq_none (Nat.le_of_not_lt hi)] at hget
          simp at hget
      clean := hclean
      ids_lt := by
        intro id hid
        rcases List.mem_cons.mp hid with rfl | hid
        · exact hprevious
        · rw [List.mem_singleton.mp hid]
          exact hvalue }
  refine ⟨_, _, ?_, hinv.write hindex Nat.one_lt_two,
    entry_writeSlot hinv ?_ hindex Nat.one_lt_two rfl⟩
  · have hset : storage.set index 1 = some (storage.write index 1, storage.entry index) :=
      BitStorage.set_eq (by rw [hlen]; exact hindex) (by change 1 < 2 ^ storage.bits; omega)
    rw [promote, volume, hnew]
    simp only [hset, hentry]
    rfl
  · intro i _
    rw [hzero, hentry]
    rfl

/-- A list without repetitions of ids below `n` has at most `n` of them. -/
theorem length_le_of_nodup {palette : List UInt32} {n : Nat} (hnodup : palette.Nodup)
    (hlt : ∀ id ∈ palette, id.toNat < n) : palette.length ≤ n := by
  have hmap : (palette.map UInt32.toNat).Nodup :=
    hnodup.map fun _ _ => UInt32.toNat_inj.mp
  have hsub : palette.map UInt32.toNat ⊆ List.range n := by
    intro k hk
    obtain ⟨id, hid, rfl⟩ := List.mem_map.mp hk
    exact List.mem_range.mpr (hlt id hid)
  have hle := (List.subperm_of_subset hmap hsub).length_le
  rwa [List.length_map, List.length_range] at hle

theorem getD_append_left {palette : List UInt32} {slot : Nat} (h : slot < palette.length)
    (value : UInt32) : (palette ++ [value]).getD slot 0 = palette.getD slot 0 := by
  rw [List.getD_append _ _ _ _ h]

theorem getD_append_length (palette : List UInt32) (value : UInt32) :
    (palette ++ [value]).getD palette.length 0 = value := by
  simp [List.getD_eq_getElem?_getD]

section FullPalette

variable {palette : List UInt32} {storage : BitStorage}

theorem widen_spec (hrepr : c.repr = .indirect palette storage)
    (h : IndirectInv c.kind idBits palette storage) (hindex : index < c.volume)
    (hnew : value ∉ palette) (hvalue : value.toNat < 2 ^ idBits)
    (hwider : storage.bits + 1 ≤ c.kind.maxIndirectBits) :
    c.WritesSlot idBits (c.widen palette storage index value) index value := by
  have hmax := c.kind.maxIndirectBits_le
  have hpow : 2 ^ (storage.bits + 1) = 2 ^ storage.bits * 2 := Nat.pow_succ ..
  have hpos := Nat.two_pow_pos storage.bits
  have hlength := h.length_le
  have hremap : (storage.remap (storage.bits + 1) some).isSome := by
    apply BitStorage.remap_isSome (Nat.succ_pos _) (by unfold maxBits; omega)
    intro i _
    refine ⟨_, rfl, ?_⟩
    have := BitStorage.toNat_entry_lt (s := storage) i
    omega
  obtain ⟨grown, hgrown⟩ := Option.isSome_iff_exists.mp hremap
  obtain ⟨hlen, hbits, hclean, hentries⟩ := BitStorage.remap_spec hgrown
  have hkept : ∀ i < c.volume, grown.entry i = storage.entry i := by
    intro i hi
    obtain ⟨v, hv, -, hentry⟩ := hentries i (by rw [h.len_eq]; exact hi)
    rw [hentry, ← Option.some.inj hv]
  have hgrownInv : IndirectInv c.kind idBits palette grown :=
    { nodup := h.nodup
      length_le := by rw [hbits]; omega
      minIndirectBits_le := by
        have := h.minIndirectBits_le
        rw [hbits]
        omega
      le_maxIndirectBits := by rw [hbits]; exact hwider
      len_eq := hlen.trans h.len_eq
      slot_lt := by
        intro i slot hget
        by_cases hi : i < grown.len
        · have hi' : i < c.volume := by rwa [hlen, h.len_eq] at hi
          rw [BitStorage.get_eq hi, Option.some.injEq, hkept i hi'] at hget
          rw [← hget]
          exact h.entry_lt hi'
        · rw [BitStorage.get_eq_none (Nat.le_of_not_lt hi)] at hget
          simp at hget
      clean := hclean
      ids_lt := h.ids_lt }
  have hpushed := hgrownInv.push hnew (by rw [hbits]; omega) hvalue
  have hentry : ∀ i < c.volume,
      (palette ++ [value]).getD (grown.entry i).toNat 0 = c.entry i := by
    intro i hi
    rw [hkept i hi, getD_append_left (h.entry_lt hi), entry_indirect hrepr]
  have hslot : palette.length < (palette ++ [value]).length := by simp
  refine ⟨_, _, ?_, hpushed.write hindex hslot,
    entry_writeSlot hpushed hentry hindex hslot (getD_append_length palette value)⟩
  rw [widen, hgrown]
  simp only [BitStorage.set_eq (s := grown) (by rw [hpushed.len_eq]; exact hindex)
    (hpushed.toNat_slot hslot).2, getElem?_eq_getD (hpushed.entry_lt hindex),
    hentry index hindex]

theorem convert_spec (hrepr : c.repr = .indirect palette storage)
    (h : IndirectInv c.kind idBits palette storage) (hindex : index < c.volume)
    (hpos : 0 < c.directBits) (hle : c.directBits ≤ maxBits)
    (hids : ∀ i < c.volume, (c.entry i).toNat < 2 ^ c.directBits)
    (hvalue : value.toNat < 2 ^ c.directBits) :
    c.WritesId (c.convert palette storage index value) index value := by
  have hentry := entry_indirect hrepr
  have hremap : (storage.remap c.directBits fun slot => palette[slot.toNat]?).isSome := by
    apply BitStorage.remap_isSome hpos hle
    intro i hi
    have hi' : i < c.volume := by rwa [h.len_eq] at hi
    refine ⟨c.entry i, ?_, hids i hi'⟩
    rw [getElem?_eq_getD (h.entry_lt hi'), hentry]
  obtain ⟨direct, hdirect⟩ := Option.isSome_iff_exists.mp hremap
  obtain ⟨hlen, hbits, hclean, hentries⟩ := BitStorage.remap_spec hdirect
  have hkept : ∀ i < c.volume, direct.entry i = c.entry i := by
    intro i hi
    obtain ⟨v, hv, -, hi'⟩ := hentries i (by rw [h.len_eq]; exact hi)
    rw [getElem?_eq_getD (h.entry_lt hi), Option.some.injEq] at hv
    rw [hi', ← hv, hentry]
  obtain ⟨hset, hformed, hclean', hwritten⟩ :=
    storeId_spec ⟨hlen.trans h.len_eq, hbits⟩ hclean hkept hindex hvalue
  refine ⟨_, ?_, hformed, hclean', hwritten⟩
  rw [convert, hdirect]
  simp only [hset]

/-- A full palette and one id more do not fit the widest indirect width. -/
theorem maxIndirectBits_lt_of_full (h : IndirectInv c.kind c.directBits palette storage)
    (hnew : value ∉ palette) (hvalue : value.toNat < 2 ^ c.directBits)
    (hfull : 2 ^ storage.bits ≤ palette.length)
    (hwidest : c.kind.maxIndirectBits ≤ storage.bits) :
    c.kind.maxIndirectBits < c.directBits := by
  have hids : (palette ++ [value]).length ≤ 2 ^ c.directBits := by
    apply length_le_of_nodup (nodup_push h.nodup hnew)
    intro id hid
    rcases List.mem_append.mp hid with hid | hid
    · exact h.ids_lt id hid
    · rw [List.mem_singleton.mp hid]
      exact hvalue
  rw [List.length_append, List.length_singleton] at hids
  by_contra hnot
  have := Nat.pow_le_pow_right (n := 2) (by decide)
    (by omega : c.directBits ≤ storage.bits)
  omega

end FullPalette

/-- `set` on a palette, unless it has to convert: whatever the ids, the palette takes one
more or grows. -/
theorem set_indirect_spec {palette : List UInt32} {storage : BitStorage}
    (hrepr : c.repr = .indirect palette storage) (h : IndirectInv c.kind idBits palette storage)
    (hindex : index < c.volume) (hvalue : value.toNat < 2 ^ idBits)
    (hroom : value ∈ palette ∨ palette.length < 2 ^ storage.bits ∨
      storage.bits + 1 ≤ c.kind.maxIndirectBits) :
    c.WritesSlot idBits (c.set index value) index value := by
  have hentry : ∀ i < c.volume, palette.getD (storage.entry i).toNat 0 = c.entry i :=
    fun i _ => (entry_indirect hrepr i).symm
  rw [set, if_pos hindex, hrepr]
  cases hslot : palette.idxOf? value with
  | some slot =>
      obtain ⟨hlt, hfound, -⟩ := List.idxOf?_eq_some_iff.mp hslot
      simp only [hslot]
      apply storeSlot_spec h hentry hindex hlt
      rw [List.getD_eq_getElem _ _ hlt, hfound]
  | none =>
      have hnew : value ∉ palette := List.idxOf?_eq_none_iff.mp hslot
      simp only [hslot]
      by_cases hshort : palette.length < 2 ^ storage.bits
      · simp only [if_pos hshort]
        apply storeSlot_spec (h.push hnew hshort hvalue) _ hindex (by simp)
          (getD_append_length palette value)
        intro i hi
        rw [getD_append_left (h.entry_lt hi), hentry i hi]
      · have hwider := (hroom.resolve_left hnew).resolve_left hshort
        simp only [if_neg hshort, if_pos hwider]
        exact widen_spec hrepr h hindex hnew hvalue hwider

/-- `set` on a full palette of the widest width converts. -/
theorem set_eq_convert {palette : List UInt32} {storage : BitStorage}
    (hrepr : c.repr = .indirect palette storage) (hindex : index < c.volume)
    (hnew : value ∉ palette) (hfull : 2 ^ storage.bits ≤ palette.length)
    (hwidest : c.kind.maxIndirectBits ≤ storage.bits) :
    c.set index value = c.convert palette storage index value := by
  have hslot : palette.idxOf? value = none := List.idxOf?_eq_none_iff.mpr hnew
  rw [set, if_pos hindex, hrepr]
  simp only [hslot, if_neg (Nat.not_lt.mpr hfull),
    if_neg (by omega : ¬ storage.bits + 1 ≤ c.kind.maxIndirectBits)]

theorem set_direct_spec {storage : BitStorage} (hrepr : c.repr = .direct storage)
    (h : DirectWellFormed c.kind c.directBits storage) (hclean : storage.Clean)
    (hindex : index < c.volume) (hvalue : value.toNat < 2 ^ c.directBits) :
    c.WritesId (c.set index value) index value := by
  have hentry : ∀ i < c.volume, storage.entry i = c.entry i :=
    fun i _ => (entry_direct hrepr i).symm
  obtain ⟨hset, hformed, hclean', hwritten⟩ := storeId_spec h hclean hentry hindex hvalue
  refine ⟨_, ?_, hformed, hclean', hwritten⟩
  rw [set, if_pos hindex, hrepr]
  simp only [hset]

theorem set_single_same (hrepr : c.repr = .single value) (hindex : index < c.volume) :
    c.set index value = .returned c (c.entry index) := by
  rw [set, if_pos hindex, hrepr, entry_single hrepr]
  simp only [if_true]

theorem set_single_other {previous : UInt32} (hrepr : c.repr = .single previous)
    (hindex : index < c.volume) (hne : previous ≠ value) :
    c.set index value = c.promote previous index value := by
  rw [set, if_pos hindex, hrepr]
  simp only [if_neg hne]

/-- `set` never panics on an index in range and an id the direct width can hold:
it returns the id that was there and changes that entry only. -/
theorem set_spec (hc : c.Inv) {index : Nat} (hindex : index < c.volume) {value : UInt32}
    (hvalue : value.toNat < 2 ^ c.directBits) :
    ∃ c', c.set index value = .returned c' (c.entry index) ∧ Wrote c c' index value := by
  have hinv := hc.repr
  cases hrepr : c.repr with
  | single existing =>
      have hentry := entry_single hrepr
      by_cases hsame : existing = value
      · refine ⟨c, set_single_same (hsame ▸ hrepr) hindex, rfl, rfl, hc, ?_⟩
        intro other _
        rw [hentry, hsame, ite_self]
      · rw [set_single_other hrepr hindex hsame]
        have hexisting := entry_lt hc hindex
        rw [hentry] at hexisting
        exact (promote_spec hrepr hindex hsame hexisting hvalue).wrote hc
  | direct storage =>
      rw [hrepr] at hinv
      cases hinv with
      | direct h =>
          exact (set_direct_spec hrepr h.toDirectWellFormed h.clean hindex hvalue).wrote hc
            h.maxIndirectBits_lt
  | indirect palette storage =>
      rw [hrepr] at hinv
      cases hinv with
      | indirect h =>
          by_cases hroom : value ∈ palette ∨ palette.length < 2 ^ storage.bits ∨
              storage.bits + 1 ≤ c.kind.maxIndirectBits
          · exact (set_indirect_spec hrepr h hindex hvalue hroom).wrote hc
          · simp only [not_or, not_lt, not_le] at hroom
            obtain ⟨hnew, hfull, hwidest⟩ := hroom
            rw [set_eq_convert hrepr hindex hnew hfull (by omega)]
            exact (convert_spec hrepr h hindex hc.directBits_pos hc.directBits_le
              (fun i hi => entry_lt hc hi) hvalue).wrote hc
              (maxIndirectBits_lt_of_full h hnew hvalue hfull (by omega))

end PalettedContainer

end Rukkit.World
