import Rukkit.World.PaletteInvariant

/-!
# Shrinking a container

`shrink` returns the narrowest representation of the entries, and that
representation is a function of the entries alone: two containers that hold the
same ids shrink to the same value, palette order and padding included.
-/

namespace Rukkit.World

open Rukkit.Lib

/-! ## Distinct ids in order of appearance -/

theorem mem_foldl_distinct (ids acc : List UInt32) (id : UInt32) :
    id ∈ ids.foldl (fun distinct id => if id ∈ distinct then distinct else distinct ++ [id]) acc ↔
      id ∈ acc ∨ id ∈ ids := by
  induction ids generalizing acc with
  | nil => simp
  | cons head ids ih =>
      rw [List.foldl_cons, ih, List.mem_cons]
      by_cases hseen : head ∈ acc
      · rw [if_pos hseen]
        constructor
        · rintro (h | h)
          · exact Or.inl h
          · exact Or.inr (Or.inr h)
        · rintro (h | rfl | h)
          · exact Or.inl h
          · exact Or.inl hseen
          · exact Or.inr h
      · rw [if_neg hseen, List.mem_append, List.mem_singleton, or_assoc]

theorem nodup_foldl_distinct (ids acc : List UInt32) (hacc : acc.Nodup) :
    (ids.foldl (fun distinct id => if id ∈ distinct then distinct else distinct ++ [id])
      acc).Nodup := by
  induction ids generalizing acc with
  | nil => exact hacc
  | cons head ids ih =>
      rw [List.foldl_cons]
      apply ih
      by_cases hseen : head ∈ acc
      · rw [if_pos hseen]
        exact hacc
      · rw [if_neg hseen]
        exact nodup_push hacc hseen

theorem mem_collectDistinct (ids : List UInt32) (id : UInt32) :
    id ∈ collectDistinct ids ↔ id ∈ ids := by
  rw [collectDistinct, mem_foldl_distinct]
  simp

theorem nodup_collectDistinct (ids : List UInt32) : (collectDistinct ids).Nodup :=
  nodup_foldl_distinct ids [] List.nodup_nil

theorem length_collectDistinct (ids : List UInt32) :
    (collectDistinct ids).length = ids.toFinset.card := by
  rw [← List.toFinset_card_of_nodup (nodup_collectDistinct ids)]
  congr 1
  ext id
  rw [List.mem_toFinset, List.mem_toFinset, mem_collectDistinct]

/-- A constant, non-empty sequence has one distinct id. -/
theorem collectDistinct_constant {ids : List UInt32} {value : UInt32} (hne : ids ≠ [])
    (hall : ∀ id ∈ ids, id = value) : collectDistinct ids = [value] := by
  have hmem : value ∈ collectDistinct ids := by
    obtain ⟨id, hid⟩ := List.exists_mem_of_ne_nil ids hne
    rw [mem_collectDistinct, ← hall id hid]
    exact hid
  have hnodup := nodup_collectDistinct ids
  have hdistinct : ∀ id ∈ collectDistinct ids, id = value := by
    intro id hid
    exact hall id ((mem_collectDistinct ids id).mp hid)
  revert hmem hnodup hdistinct
  cases collectDistinct ids with
  | nil => simp
  | cons first rest =>
      intro _ hnodup hdistinct
      have hfirst := hdistinct first List.mem_cons_self
      cases rest with
      | nil => rw [hfirst]
      | cons second rest =>
          have hsecond := hdistinct second (List.mem_cons_of_mem _ List.mem_cons_self)
          rw [List.nodup_cons] at hnodup
          rw [hfirst, hsecond] at hnodup
          exact absurd List.mem_cons_self hnodup.1

namespace PalettedContainer

/-- The slot width a container with these entries needs. -/
def neededBits (c : PalettedContainer) : Nat :=
  max (bitsFor (collectDistinct c.entries).length) c.kind.minIndirectBits

/-- The representation is the narrowest one for the entries. -/
def Canonical (c : PalettedContainer) : Prop :=
  match c.repr with
  | .single _ => True
  | .indirect palette storage =>
      palette = collectDistinct c.entries ∧ 1 < palette.length ∧ storage.bits = c.neededBits
  | .direct _ => c.kind.maxIndirectBits < c.neededBits

variable {c : PalettedContainer}

theorem entries_ne_nil (c : PalettedContainer) : c.entries ≠ [] := by
  have hpos := c.kind.volume_pos
  rw [← List.length_pos_iff, entries, List.length_map, List.length_range]
  exact hpos

theorem mem_entries {id : UInt32} : id ∈ c.entries ↔ ∃ index < c.volume, c.entry index = id := by
  simp [entries]

theorem entry_mem_distinct {index : Nat} (hindex : index < c.volume) :
    c.entry index ∈ collectDistinct c.entries := by
  rw [mem_collectDistinct]
  exact mem_entries.mpr ⟨index, hindex, rfl⟩

theorem length_entries (c : PalettedContainer) : c.entries.length = c.volume := by
  simp [entries]

theorem length_distinct_pos (c : PalettedContainer) : 0 < (collectDistinct c.entries).length :=
  List.length_pos_of_mem (entry_mem_distinct c.kind.volume_pos)

theorem length_distinct_le (c : PalettedContainer) :
    (collectDistinct c.entries).length ≤ c.volume := by
  rw [length_collectDistinct, ← length_entries]
  exact List.toFinset_card_le _

theorem length_distinct_lt (c : PalettedContainer) :
    (collectDistinct c.entries).length < 2 ^ 32 := by
  have hle := length_distinct_le c
  have hlt := c.kind.volume_lt
  rw [volume] at hle
  omega

theorem distinct_single {value : UInt32} (hrepr : c.repr = .single value) :
    collectDistinct c.entries = [value] := by
  apply collectDistinct_constant (entries_ne_nil c)
  intro id hid
  obtain ⟨index, -, rfl⟩ := mem_entries.mp hid
  exact entry_single hrepr index

theorem neededBits_of_one (h : (collectDistinct c.entries).length = 1) :
    c.neededBits ≤ c.kind.maxIndirectBits := by
  rw [neededBits, h]
  cases c.kind <;> decide

/-- An indirect container never needs more than the widest indirect width, even
when its palette holds ids that no entry uses any more. -/
theorem neededBits_indirect {palette : List UInt32} {storage : BitStorage}
    (hrepr : c.repr = .indirect palette storage) (h : IndirectWellFormed c.kind palette storage) :
    c.neededBits ≤ c.kind.maxIndirectBits := by
  by_cases hone : (collectDistinct c.entries).length = 1
  · exact neededBits_of_one hone
  · have hsub : collectDistinct c.entries ⊆ palette := by
      intro id hid
      rw [mem_collectDistinct] at hid
      obtain ⟨index, hindex, rfl⟩ := mem_entries.mp hid
      rw [entry_indirect hrepr]
      exact List.mem_of_getElem? (getElem?_eq_getD (h.entry_lt hindex))
    have hlength := (List.subperm_of_subset (nodup_collectDistinct _) hsub).length_le
    have hpos := length_distinct_pos c
    have hlt := length_distinct_lt c
    have hbits : bitsFor (collectDistinct c.entries).length ≤ storage.bits := by
      rw [bitsFor_le_iff (by omega) (by omega)]
      exact hlength.trans h.length_le
    exact max_le (hbits.trans h.le_maxIndirectBits) c.kind.minIndirectBits_le

/-! ## `shrink` -/

/-- `c'` has the same entries in its narrowest representation. -/
structure Shrunk (c c' : PalettedContainer) : Prop where
  kind_eq : c'.kind = c.kind
  directBits_eq : c'.directBits = c.directBits
  inv : c'.Inv
  entry_eq : ∀ index < c.volume, c'.entry index = c.entry index
  canonical : c'.Canonical

/-- The slot of an id that occurs. -/
theorem distinct_slot {index : Nat} (hindex : index < c.volume) :
    ∃ slot, (collectDistinct c.entries).idxOf? (c.entry index) = some slot ∧
      slot < (collectDistinct c.entries).length ∧ (UInt32.ofNat slot).toNat = slot ∧
      (collectDistinct c.entries).getD slot 0 = c.entry index := by
  have hsome := List.isSome_idxOf?.mpr (entry_mem_distinct hindex)
  obtain ⟨slot, hfound⟩ := Option.isSome_iff_exists.mp hsome
  obtain ⟨hlt, hat, -⟩ := List.idxOf?_eq_some_iff.mp hfound
  have hlength := length_distinct_lt c
  refine ⟨slot, hfound, hlt, ?_, ?_⟩
  · exact UInt32.toNat_ofNat_of_lt' (hlt.trans hlength)
  · rw [List.getD_eq_getElem _ _ hlt, hat]

/-- Packing the entries against their own distinct ids. -/
theorem pack_spec {idBits : Nat} (hids : ∀ index < c.volume, (c.entry index).toNat < 2 ^ idBits)
    (hmany : 1 < (collectDistinct c.entries).length)
    (hfit : c.neededBits ≤ c.kind.maxIndirectBits) :
    ∃ storage, c.pack c.neededBits (collectDistinct c.entries)
        ((List.range c.volume).map fun index => (index, c.entry index)) = some storage ∧
      IndirectInv c.kind idBits (collectDistinct c.entries) storage ∧
      storage.bits = c.neededBits ∧
      ∀ index < c.volume,
        (collectDistinct c.entries).getD (storage.entry index).toNat 0 = c.entry index := by
  have hmax := c.kind.maxIndirectBits_le
  have hmin : c.kind.minIndirectBits ≤ c.neededBits := le_max_right _ _
  have hminPos := c.kind.minIndirectBits_pos
  have hnewSome : (BitStorage.new c.volume c.neededBits).isSome :=
    BitStorage.new_isSome (by omega) (by unfold maxBits; omega) c.kind.volume_lt
  obtain ⟨out, hnew⟩ := Option.isSome_iff_exists.mp hnewSome
  obtain ⟨houtLen, houtBits, houtClean, -⟩ := BitStorage.new_spec hnew
  have hlength : (collectDistinct c.entries).length ≤ 2 ^ c.neededBits := by
    have hlt := length_distinct_lt c
    rw [← bitsFor_le_iff hmany (by omega)]
    exact le_max_left _ _
  have hvalues : ∀ index < c.volume, ∃ v,
      ((collectDistinct c.entries).idxOf? (c.entry index)).map UInt32.ofNat = some v ∧
        v.toNat < 2 ^ out.bits := by
    intro index hindex
    obtain ⟨slot, hfound, hlt, htoNat, -⟩ := distinct_slot hindex
    refine ⟨UInt32.ofNat slot, by rw [hfound]; rfl, ?_⟩
    rw [htoNat, houtBits]
    omega
  have hsweepSome : (out.setEach ((List.range c.volume).map fun index => (index, c.entry index))
      fun id => ((collectDistinct c.entries).idxOf? id).map UInt32.ofNat).isSome :=
    BitStorage.setEach_isSome (by omega) hvalues
  obtain ⟨storage, hsweep⟩ := Option.isSome_iff_exists.mp hsweepSome
  obtain ⟨hlen, hbits, hclean, hentries⟩ := BitStorage.setEach_spec hsweep
  have hkept : ∀ index < c.volume, (storage.entry index).toNat <
      (collectDistinct c.entries).length ∧
      (collectDistinct c.entries).getD (storage.entry index).toNat 0 = c.entry index := by
    intro index hindex
    obtain ⟨slot, hfound, hlt, htoNat, hat⟩ := distinct_slot hindex
    obtain ⟨v, hv, -, hentry⟩ := hentries index hindex
    rw [hfound, Option.map_some, Option.some.injEq] at hv
    rw [hentry, ← hv, htoNat]
    exact ⟨hlt, hat⟩
  refine ⟨storage, ?_, ?_, hbits.trans houtBits, fun index hindex => (hkept index hindex).2⟩
  · rw [pack, hnew]
    exact hsweep
  · exact
      { nodup := nodup_collectDistinct _
        length_le := by rw [hbits, houtBits]; exact hlength
        minIndirectBits_le := by rw [hbits, houtBits]; exact hmin
        le_maxIndirectBits := by rw [hbits, houtBits]; exact hfit
        len_eq := hlen.trans houtLen
        slot_lt := by
          intro index slot hget
          by_cases hindex : index < storage.len
          · rw [BitStorage.get_eq hindex, Option.some.injEq] at hget
            rw [← hget]
            exact (hkept index (by omega)).1
          · rw [BitStorage.get_eq_none (Nat.le_of_not_lt hindex)] at hget
            simp at hget
        clean := hclean houtClean
        ids_lt := by
          intro id hid
          rw [mem_collectDistinct] at hid
          obtain ⟨index, hindex, rfl⟩ := mem_entries.mp hid
          exact hids index hindex }

theorem entries_withRepr (repr : Repr)
    (h : ∀ index < c.volume, (c.withRepr repr).entry index = c.entry index) :
    (c.withRepr repr).entries = c.entries := by
  apply List.map_congr_left
  intro index hindex
  exact h index (List.mem_range.mp hindex)

/-- What `shrink` puts in place of a representation: a value or a palette, unless the ids
are already stored inline. -/
inductive Narrowed (c : PalettedContainer) (idBits : Nat) : Repr → Prop
  | single {value : UInt32} (h : value.toNat < 2 ^ idBits) : Narrowed c idBits (.single value)
  | indirect {palette : List UInt32} {storage : BitStorage}
      (h : IndirectInv c.kind idBits palette storage) :
      Narrowed c idBits (.indirect palette storage)
  | direct {storage : BitStorage} (h : c.repr = .direct storage) :
      Narrowed c idBits (.direct storage)

theorem one_lt_length_distinct (h : ∀ only, collectDistinct c.entries = [only] → False) :
    1 < (collectDistinct c.entries).length := by
  have hpos := length_distinct_pos c
  by_contra hle
  obtain ⟨only, honly⟩ := List.length_eq_one_iff.mp
    (by omega : (collectDistinct c.entries).length = 1)
  exact h only honly

/-- What is too varied to palette is stored inline already. -/
theorem direct_of_wide (hc : c.WellFormed) (hmultiple : ∀ value, c.repr = .single value → False)
    (hwide : c.kind.maxIndirectBits < c.neededBits) : ∃ storage, c.repr = .direct storage := by
  cases hrepr : c.repr with
  | single value => exact absurd hrepr (hmultiple value)
  | indirect palette storage =>
      rw [WellFormed, hrepr] at hc
      exact absurd (neededBits_indirect hrepr hc) (by omega)
  | direct storage => exact ⟨storage, rfl⟩

/-- `shrink` never panics, whatever the ids, changes no entry and ends in the narrowest
representation. -/
theorem narrow_spec (idBits : Nat) (hc : c.WellFormed)
    (hids : ∀ index < c.volume, (c.entry index).toNat < 2 ^ idBits) :
    ∃ repr, c.shrink = .returned (c.withRepr repr) () ∧ Narrowed c idBits repr ∧
      (∀ index < c.volume, (c.withRepr repr).entry index = c.entry index) ∧
      (c.withRepr repr).Canonical := by
  have hvisited : ((List.range c.volume).map fun index => (index, c.entry index)).map Prod.snd =
      c.entries := by
    rw [List.map_map]
    rfl
  unfold shrink
  split
  · rename_i value hsingle
    have hvalue := hids 0 c.kind.volume_pos
    rw [entry_single hsingle] at hvalue
    refine ⟨.single value, ?_, .single hvalue, ?_, trivial⟩
    · rw [withRepr, ← hsingle]
    · intro index _
      rw [withRepr, ← hsingle]
  rename_i hmultiple
  rw [forEach_eq hc]
  simp only [hvisited]
  split
  · -- one distinct id
    rename_i only honly
    have hentry : ∀ index < c.volume, only = c.entry index := by
      intro index hindex
      have hmem := entry_mem_distinct hindex
      rw [honly, List.mem_singleton] at hmem
      exact hmem.symm
    refine ⟨_, rfl, .single ?_, hentry, trivial⟩
    rw [hentry 0 c.kind.volume_pos]
    exact hids 0 c.kind.volume_pos
  · rename_i hnotOne
    have hmany := one_lt_length_distinct hnotOne
    by_cases hwide : c.kind.maxIndirectBits < c.neededBits
    · obtain ⟨storage, hdirect⟩ := direct_of_wide hc hmultiple hwide
      have hsame : c.withRepr (.direct storage) = c := by rw [withRepr, ← hdirect]
      refine ⟨.direct storage, by rw [hsame]; exact if_pos hwide, .direct hdirect,
        by rw [hsame]; exact fun _ _ => rfl, ?_⟩
      rw [hsame, Canonical, hdirect]
      exact hwide
    · obtain ⟨storage, hpack, hinv, hbits, hentry⟩ :=
        pack_spec hids hmany (Nat.le_of_not_lt hwide)
      have hsame := entries_withRepr (.indirect (collectDistinct c.entries) storage) hentry
      refine ⟨_, ?_, .indirect hinv, hentry, by rw [hsame], hmany, ?_⟩
      · change (if c.kind.maxIndirectBits < c.neededBits then _ else _) = _
        rw [if_neg hwide]
        simp only [neededBits] at hpack
        simp only [hpack]
      · change storage.bits = max (bitsFor (collectDistinct (c.withRepr _).entries).length) _
        rw [hsame, hbits]
        rfl

/-- `shrink` never panics, changes no entry and ends in the narrowest
representation. -/
theorem shrink_spec (hc : c.Inv) : ∃ c', c.shrink = .returned c' () ∧ Shrunk c c' := by
  obtain ⟨repr, hshrink, hnarrowed, hentry, hcanonical⟩ :=
    narrow_spec c.directBits hc.wellFormed fun index hindex => entry_lt hc hindex
  refine ⟨_, hshrink, rfl, rfl, ?_, hentry, hcanonical⟩
  cases hnarrowed with
  | single h => exact hc.withRepr (.single h)
  | indirect h => exact hc.withRepr (.indirect h)
  | direct h =>
      have hinv := hc.repr
      rw [h] at hinv
      exact hc.withRepr hinv

/-! ## Uniqueness -/

theorem storage_eq_of_slots {kind : ContainerKind} {directBits : Nat} {palette : List UInt32}
    {s t : BitStorage} (hs : IndirectInv kind directBits palette s)
    (ht : IndirectInv kind directBits palette t) (hbits : s.bits = t.bits)
    (hids : ∀ index < kind.volume,
      palette.getD (s.entry index).toNat 0 = palette.getD (t.entry index).toNat 0) : s = t := by
  apply BitStorage.eq_of_entries hs.clean ht.clean (hs.len_eq.trans ht.len_eq.symm) hbits
  intro index hindex
  rw [hs.len_eq] at hindex
  have hlt := hs.entry_lt hindex
  have hlt' := ht.entry_lt hindex
  have hid := hids index hindex
  rw [List.getD_eq_getElem _ _ hlt, List.getD_eq_getElem _ _ hlt',
    hs.nodup.getElem_inj_iff] at hid
  exact UInt32.toNat_inj.mp hid

/-- The three looks of a canonical container, told apart by its entries. -/
inductive CanonicalShape (c : PalettedContainer) : Prop
  | single {value : UInt32} (hrepr : c.repr = .single value)
      (hone : (collectDistinct c.entries).length = 1)
  | indirect {storage : BitStorage} (hrepr : c.repr = .indirect (collectDistinct c.entries) storage)
      (hmany : 1 < (collectDistinct c.entries).length)
      (hfit : c.neededBits ≤ c.kind.maxIndirectBits) (hbits : storage.bits = c.neededBits)
      (hinv : IndirectInv c.kind c.directBits (collectDistinct c.entries) storage)
  | direct {storage : BitStorage} (hrepr : c.repr = .direct storage)
      (hmany : 1 < (collectDistinct c.entries).length)
      (hwide : c.kind.maxIndirectBits < c.neededBits)
      (hinv : DirectInv c.kind c.directBits storage)

theorem Canonical.shape (hcanonical : c.Canonical) (hc : c.Inv) : c.CanonicalShape := by
  have hinv := hc.repr
  cases hrepr : c.repr with
  | single value =>
      refine .single hrepr ?_
      rw [distinct_single hrepr]
      rfl
  | indirect palette storage =>
      rw [hrepr] at hinv
      rw [Canonical, hrepr] at hcanonical
      obtain ⟨rfl, hmany, hbits⟩ := hcanonical
      cases hinv with
      | indirect h =>
        have hfit := neededBits_indirect hrepr h.toIndirectWellFormed
        exact .indirect hrepr hmany hfit hbits h
  | direct storage =>
      rw [hrepr] at hinv
      rw [Canonical, hrepr] at hcanonical
      have hpos := length_distinct_pos c
      have hne : (collectDistinct c.entries).length ≠ 1 := by
        intro hone
        have hle := neededBits_of_one hone
        omega
      cases hinv with
      | direct h => exact .direct hrepr (by omega) hcanonical h

/-- Canonical containers of one kind and width with the same entries look the same. -/
theorem Canonical.repr_unique {c d : PalettedContainer} (hc : c.Inv) (hd : d.Inv)
    (hcc : c.Canonical) (hdc : d.Canonical) (hkind : c.kind = d.kind)
    (hdirect : c.directBits = d.directBits)
    (hentry : ∀ index < c.volume, c.entry index = d.entry index) : c.repr = d.repr := by
  have hentries : c.entries = d.entries := by
    rw [entries, entries, volume, volume, ← hkind]
    apply List.map_congr_left
    intro index hindex
    exact hentry index (List.mem_range.mp hindex)
  have hneeded : c.neededBits = d.neededBits := by
    rw [neededBits, neededBits, hentries, hkind]
  have hlength : (collectDistinct c.entries).length = (collectDistinct d.entries).length := by
    rw [hentries]
  have hmax : c.kind.maxIndirectBits = d.kind.maxIndirectBits := by rw [hkind]
  cases hcc.shape hc with
  | single hrepr hone =>
      cases hdc.shape hd with
      | single hrepr' =>
          have hfirst := hentry 0 c.kind.volume_pos
          rw [entry_single hrepr, entry_single hrepr'] at hfirst
          rw [hrepr, hrepr', hfirst]
      | indirect _ hmany' => omega
      | direct _ hmany' => omega
  | @indirect storage hrepr hmany hfit hbits hinv =>
      cases hdc.shape hd with
      | single _ hone' => omega
      | @indirect storage' hrepr' _ _ hbits' hinv' =>
          rw [← hentries] at hrepr' hinv'
          rw [← hkind, ← hdirect] at hinv'
          have hstorage : storage = storage' := by
            apply storage_eq_of_slots hinv hinv' (by rw [hbits, hbits', hneeded])
            intro index hindex
            have hid := hentry index hindex
            rwa [entry_indirect hrepr, entry_indirect hrepr'] at hid
          rw [hrepr, hrepr', hstorage]
      | direct _ _ hwide' => omega
  | @direct storage hrepr hmany hwide hinv =>
      cases hdc.shape hd with
      | single _ hone' => omega
      | indirect _ _ hfit' => omega
      | @direct storage' hrepr' _ _ hinv' =>
          have hstorage : storage = storage' := by
            apply BitStorage.eq_of_entries hinv.clean hinv'.clean
            · rw [hinv.len_eq, hinv'.len_eq, hkind]
            · rw [hinv.bits_eq, hinv'.bits_eq, hdirect]
            · intro index hindex
              rw [hinv.len_eq] at hindex
              have hid := hentry index hindex
              rwa [entry_direct hrepr, entry_direct hrepr'] at hid
          rw [hrepr, hrepr', hstorage]

/-- Two canonical containers with the same entries are the same container. -/
theorem canonical_unique {c d : PalettedContainer} (hc : c.Inv) (hd : d.Inv)
    (hcc : c.Canonical) (hdc : d.Canonical) (hkind : c.kind = d.kind)
    (hdirect : c.directBits = d.directBits)
    (hentry : ∀ index < c.volume, c.entry index = d.entry index) : c = d := by
  have hrepr := Canonical.repr_unique hc hd hcc hdc hkind hdirect hentry
  obtain ⟨kind, directBits, repr⟩ := c
  obtain ⟨kind', directBits', repr'⟩ := d
  simp only at hkind hdirect hrepr
  rw [hkind, hdirect, hrepr]

/-- The width of a canonical container, from the number of distinct ids. -/
theorem canonical_bitsPerEntry (hc : c.Inv) (hcanonical : c.Canonical) :
    c.bitsPerEntry =
      if (collectDistinct c.entries).length = 1 then 0
      else if c.neededBits ≤ c.kind.maxIndirectBits then c.neededBits else c.directBits := by
  cases hcanonical.shape hc with
  | single hrepr hone =>
      rw [if_pos hone, bitsPerEntry, hrepr]
  | indirect hrepr hmany hfit hbits =>
      rw [if_neg (by omega), if_pos hfit, bitsPerEntry, hrepr]
      exact hbits
  | direct hrepr hmany hwide hinv =>
      rw [if_neg (by omega), if_neg (by omega), bitsPerEntry, hrepr]
      exact hinv.bits_eq

end PalettedContainer

end Rukkit.World
