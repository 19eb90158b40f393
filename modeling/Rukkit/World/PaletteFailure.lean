import Rukkit.World.PaletteHistory

/-!
# When a write fails

A container under operations with any arguments: ids that no direct width can hold, widths
that no storage can have, and the panics that either leads to.
-/

namespace Rukkit.World

open Rukkit.Lib

namespace PalettedContainer

/-- Where operations lead from a filled container, through the panics they may end in. -/
inductive Reachable : PalettedContainer → Prop
  | filled (kind : ContainerKind) (directBits : Nat) (value : UInt32) :
      Reachable (filled kind directBits value)
  | step {c : PalettedContainer} (h : Reachable c) (op : PaletteOp) :
      Reachable (op.onContainer c).state

inductive ReprSound (kind : ContainerKind) (directBits : Nat) : Repr → Prop
  | single (value : UInt32) : ReprSound kind directBits (.single value)
  | indirect {palette : List UInt32} {storage : BitStorage}
      (h : IndirectInv kind maxBits palette storage) :
      ReprSound kind directBits (.indirect palette storage)
  | direct {storage : BitStorage} (h : DirectWellFormed kind directBits storage)
      (hclean : storage.Clean) : ReprSound kind directBits (.direct storage)

/-- The invariant whatever the ids: any of them fits the widest storage. -/
def Sound (c : PalettedContainer) : Prop := ReprSound c.kind c.directBits c.repr

/-- The direct width is one that no storage has, or the id or an entry does not fit it. -/
def TooNarrow (c : PalettedContainer) (value : UInt32) : Prop :=
  c.directBits = 0 ∨ maxBits < c.directBits ∨ 2 ^ c.directBits ≤ value.toNat ∨
    ∃ other < c.volume, ∃ id, c.get other = some id ∧ 2 ^ c.directBits ≤ id.toNat

/-- A full palette of the widest width, an id that is not in it and a direct width that is
too narrow. -/
def Unconvertible (c : PalettedContainer) (value : UInt32) : Prop :=
  ∃ palette storage, c.repr = .indirect palette storage ∧ value ∉ palette ∧
    2 ^ storage.bits ≤ palette.length ∧ c.kind.maxIndirectBits ≤ storage.bits ∧ c.TooNarrow value

/-- A write that completes as it should or leaves every entry alone. -/
def SetIntact (c : PalettedContainer) (index : Nat) (value : UInt32) : Prop :=
  match c.set index value with
  | .returned c' _ =>
      c'.get index = some value ∧ ∀ other < c.volume, other ≠ index → c'.get other = c.get other
  | .panicked c' => ∀ other < c.volume, c'.get other = c.get other

variable {c : PalettedContainer} {index : Nat} {value : UInt32}

theorem toNat_lt_maxBits (value : UInt32) : value.toNat < 2 ^ maxBits := value.toNat_lt

theorem Sound.wellFormed (h : c.Sound) : c.WellFormed := by
  obtain ⟨kind, directBits, repr⟩ := c
  cases h with
  | single value => trivial
  | indirect h => exact h.toIndirectWellFormed
  | direct h _ => exact h

theorem WritesSlot.sound {outcome : Outcome PalettedContainer UInt32}
    (h : c.WritesSlot maxBits outcome index value) : outcome.state.Sound := by
  obtain ⟨palette, storage, rfl, hinv, -⟩ := h
  exact .indirect hinv

theorem WritesId.sound {outcome : Outcome PalettedContainer UInt32}
    (h : c.WritesId outcome index value) : outcome.state.Sound := by
  obtain ⟨storage, rfl, hformed, hclean, -⟩ := h
  exact .direct hformed hclean

/-! ## How `set` ends -/

/-- The conversion runs after the representation was taken out of the container. -/
theorem set_unconvertible (h : c.Sound) (hindex : index < c.volume)
    (hlost : c.Unconvertible value) :
    c.set index value = .panicked (c.withRepr (.single value)) := by
  obtain ⟨palette, storage, hrepr, hnew, hfull, hwidest, hnarrow⟩ := hlost
  have hinv := h
  rw [Sound, hrepr] at hinv
  cases hinv with
  | indirect hinv =>
      rw [set_eq_convert hrepr hindex hnew hfull hwidest, convert]
      cases hremap : storage.remap c.directBits fun slot => palette[slot.toNat]? with
      | none => rfl
      | some direct =>
          obtain ⟨-, hbits, -, hentries⟩ := BitStorage.remap_spec hremap
          have hpos := direct.bits_pos
          have hle := direct.bits_le
          cases hset : direct.set index value with
          | none => simp only [hset]
          | some result =>
              have hfits := ((BitStorage.set_isSome_iff index value).mp (by rw [hset]; rfl)).2
              rw [hbits] at hfits hpos hle
              rcases hnarrow with hzero | hwide | hvalue | ⟨other, hother, id, hid, hlarge⟩
              · omega
              · omega
              · omega
              · obtain ⟨v, hv, hlt, -⟩ := hentries other (by rw [hinv.len_eq]; exact hother)
                rw [get_eq h.wellFormed hother, entry_indirect hrepr] at hid
                rw [getElem?_eq_getD (hinv.entry_lt hother)] at hv
                rw [← Option.some.inj hid, Option.some.inj hv] at hlarge
                omega

/-- Every other way for `set` to end. -/
theorem set_convertible (h : c.Sound) (hindex : index < c.volume)
    (hkept : ¬ c.Unconvertible value) :
    (c.set index value = .returned c value ∧ ∀ other, c.entry other = value) ∨
    c.set index value = .panicked c ∨
    c.WritesSlot maxBits (c.set index value) index value ∨
    c.WritesId (c.set index value) index value := by
  have hinv := h
  rw [Sound] at hinv
  cases hrepr : c.repr with
  | single existing =>
      have hentry := entry_single hrepr
      by_cases hsame : existing = value
      · subst hsame
        refine Or.inl ⟨?_, hentry⟩
        rw [set_single_same hrepr hindex, hentry]
      · rw [set_single_other hrepr hindex hsame]
        exact Or.inr (Or.inr (Or.inl (promote_spec hrepr hindex hsame (toNat_lt_maxBits _)
          (toNat_lt_maxBits _))))
  | direct storage =>
      rw [hrepr] at hinv
      cases hinv with
      | direct hformed hclean =>
          by_cases hvalue : value.toNat < 2 ^ c.directBits
          · exact Or.inr (Or.inr (Or.inr (set_direct_spec hrepr hformed hclean hindex hvalue)))
          · refine Or.inr (Or.inl ?_)
            have hset : storage.set index value = none :=
              BitStorage.set_eq_none_of_wide index (by rw [hformed.bits_eq]; omega)
            rw [set, if_pos hindex, hrepr]
            simp only [hset]
  | indirect palette storage =>
      rw [hrepr] at hinv
      cases hinv with
      | indirect hinv =>
          by_cases hroom : value ∈ palette ∨ palette.length < 2 ^ storage.bits ∨
              storage.bits + 1 ≤ c.kind.maxIndirectBits
          · exact Or.inr (Or.inr (Or.inl
              (set_indirect_spec hrepr hinv hindex (toNat_lt_maxBits _) hroom)))
          · simp only [not_or, not_lt, not_le] at hroom
            obtain ⟨hnew, hfull, hwidest⟩ := hroom
            have hfits : ¬ c.TooNarrow value := fun hnarrow =>
              hkept ⟨palette, storage, hrepr, hnew, hfull, by omega, hnarrow⟩
            simp only [TooNarrow, not_or, not_exists, not_and, not_lt, not_le] at hfits
            obtain ⟨hpos, hle, hvalue, hids⟩ := hfits
            rw [set_eq_convert hrepr hindex hnew hfull (by omega)]
            refine Or.inr (Or.inr (Or.inr ?_))
            apply convert_spec hrepr hinv hindex (by omega) hle _ hvalue
            intro other hother
            exact hids other hother _ (get_eq h.wellFormed hother)

theorem Sound.set (h : c.Sound) (index : Nat) (value : UInt32) :
    (c.set index value).state.Sound := by
  by_cases hindex : index < c.volume
  · by_cases hlost : c.Unconvertible value
    · rw [set_unconvertible h hindex hlost]
      exact ReprSound.single value
    · rcases set_convertible h hindex hlost with ⟨hset, -⟩ | hset | hset | hset
      · rw [hset]
        exact h
      · rw [hset]
        exact h
      · exact hset.sound
      · exact hset.sound
  · rw [PalettedContainer.set, if_neg hindex]
    exact h

/-! ## Reachable containers -/

theorem Sound.shrink (h : c.Sound) : c.shrink.state.Sound := by
  obtain ⟨repr, hshrink, hnarrowed, -⟩ :=
    narrow_spec maxBits h.wellFormed fun _ _ => toNat_lt_maxBits _
  rw [hshrink]
  cases hnarrowed with
  | single _ => exact ReprSound.single _
  | indirect hinv => exact ReprSound.indirect hinv
  | direct hrepr =>
      change ReprSound c.kind c.directBits _
      rw [← hrepr]
      exact h

theorem Reachable.sound (h : c.Reachable) : c.Sound := by
  induction h with
  | filled kind directBits value => exact ReprSound.single value
  | @step c _ op ih =>
      cases op with
      | set index value =>
          have hset := ih.set index value
          rw [PaletteOp.onContainer]
          cases hend : c.set index value <;> rw [hend] at hset <;> exact hset
      | fill value => exact ReprSound.single value
      | shrink =>
          have hshrink := ih.shrink
          rw [PaletteOp.onContainer]
          cases hend : c.shrink <;> rw [hend] at hshrink <;> exact hshrink

theorem get_written {c' : PalettedContainer} (hc : c.WellFormed) (hc' : c'.WellFormed)
    (hvolume : c'.volume = c.volume) (hindex : index < c.volume)
    (hentry : ∀ other < c.volume, c'.entry other = if other = index then value else c.entry other) :
    c'.get index = some value ∧
      ∀ other < c.volume, other ≠ index → c'.get other = c.get other := by
  constructor
  · rw [get_eq hc' (by rwa [hvolume]), hentry index hindex, if_pos rfl]
  · intro other hother hne
    rw [get_eq hc' (by rwa [hvolume]), get_eq hc hother, hentry other hother, if_neg hne]

/-- A write that fails in the conversion to ids inline has overwritten every entry; all
other writes complete or leave the entries alone. -/
theorem set_intact_iff (hc : c.Reachable) (hindex : index < c.volume) :
    c.SetIntact index value ↔ ¬ c.Unconvertible value := by
  have hsound := hc.sound
  constructor
  · intro hintact hlost
    rw [SetIntact, set_unconvertible hsound hindex hlost] at hintact
    obtain ⟨palette, storage, hrepr, hnew, -⟩ := hlost
    have hoverwritten : some value = c.get index := hintact index hindex
    rw [get_eq hsound.wellFormed hindex, Option.some.injEq, entry_indirect hrepr] at hoverwritten
    rw [Sound, hrepr] at hsound
    cases hsound with
    | indirect hinv =>
        rw [hoverwritten] at hnew
        exact hnew (List.mem_of_getElem? (getElem?_eq_getD (hinv.entry_lt hindex)))
  · intro hkept
    rw [SetIntact]
    have hstate := hsound.set index value
    rcases set_convertible hsound hindex hkept with ⟨hset, hentry⟩ | hset | hset | hset
    · rw [hset]
      refine ⟨?_, fun _ _ _ => rfl⟩
      rw [get_eq hsound.wellFormed hindex, hentry]
    · rw [hset]
      exact fun _ _ => rfl
    · obtain ⟨palette, storage, hset, -, hentry⟩ := hset
      rw [hset] at hstate ⊢
      exact get_written hsound.wellFormed hstate.wellFormed rfl hindex hentry
    · obtain ⟨storage, hset, -, -, hentry⟩ := hset
      rw [hset] at hstate ⊢
      exact get_written hsound.wellFormed hstate.wellFormed rfl hindex hentry

theorem not_setIntact {other : Nat} (hother : other < c.volume) (hne : other ≠ index)
    (hlost : (c.set index value).state.get other ≠ c.get other) : ¬ c.SetIntact index value := by
  intro hintact
  rw [SetIntact] at hintact
  cases hset : c.set index value with
  | returned c' previous =>
      rw [hset] at hintact hlost
      exact hlost (hintact.2 other hother hne)
  | panicked c' =>
      rw [hset] at hintact hlost
      exact hlost (hintact other hother)

/-- A section with eight biomes, which is as many as a palette can name. -/
def eightBiomes : PalettedContainer :=
  (List.range 8).foldl (fun c i => ((PaletteOp.set i (UInt32.ofNat i)).onContainer c).state)
    (filled .biomes 6 0)

theorem reachable_eightBiomes : eightBiomes.Reachable := by
  have hfold : ∀ (indices : List Nat) (c : PalettedContainer), c.Reachable →
      (indices.foldl (fun c i => ((PaletteOp.set i (UInt32.ofNat i)).onContainer c).state)
        c).Reachable := by
    intro indices
    induction indices with
    | nil => exact fun c hc => hc
    | cons i indices ih => exact fun c hc => ih _ (hc.step _)
  exact hfold _ _ (.filled _ _ _)

theorem get_eightBiomes :
    1 < eightBiomes.volume ∧ 8 < eightBiomes.volume ∧
      (eightBiomes.set 8 64).state.get 1 ≠ eightBiomes.get 1 := by
  decide +kernel

/-- The ninth id does not fit six bits, and the panic leaves it everywhere. -/
theorem set_overwrites_biomes :
    eightBiomes.Reachable ∧ 8 < eightBiomes.volume ∧ ¬ eightBiomes.SetIntact 8 64 :=
  ⟨reachable_eightBiomes, get_eightBiomes.2.1,
    not_setIntact get_eightBiomes.1 (by decide) get_eightBiomes.2.2⟩

/-- An id that fits converts the same section. -/
theorem set_intact_biomes :
    eightBiomes.SetIntact 8 63 ↔ ¬ eightBiomes.Unconvertible 63 :=
  set_intact_iff reachable_eightBiomes get_eightBiomes.2.1

end PalettedContainer

end Rukkit.World
