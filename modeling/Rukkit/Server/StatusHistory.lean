import Rukkit.Server.Status

/-!
# Histories of the status cache

The cached document is found again by its arguments.  The icon is not one of them.
-/

namespace Rukkit.Server

open Rukkit.Lib Rukkit.Protocol

/-- The operations of one cache. -/
inductive CacheOp where
  | json (online : Int32) (sample : List String)
  | withFavicon (favicon : Option String)

namespace CacheOp

/-- The operation, with the document a call returns. -/
def apply (docs : Documents) (cache : StatusCache) : CacheOp → StatusCache × Option String
  | json online sample =>
      let (cache, document) := cache.json docs online sample
      (cache, some document)
  | withFavicon favicon => (cache.withFavicon favicon, none)

/-- What a call returns if every document is built anew. -/
def uncached (docs : Documents) (cache : StatusCache) : CacheOp → Option String
  | json online sample => some (docs.toJson (cache.build docs online sample))
  | withFavicon _ => none

end CacheOp

/-- Every call of the history returns what it would without a cache. -/
def StatusCache.NeverStale (docs : Documents) : StatusCache → List CacheOp → Prop
  | _, [] => True
  | cache, op :: ops =>
      (op.apply docs cache).2 = op.uncached docs cache ∧
        NeverStale docs (op.apply docs cache).1 ops

/-- The icon, and the arguments of the cached document with the icon at the time. -/
structure Icons where
  favicon : Option String
  stored : Option ((Int32 × List String) × Option String)

namespace Icons

def start : Icons where
  favicon := none
  stored := none

def next (icons : Icons) : CacheOp → Icons
  | .json online sample =>
      if icons.stored.map Prod.fst = some (online, sample) then icons
      else { icons with stored := some ((online, sample), icons.favicon) }
  | .withFavicon favicon => { icons with favicon := favicon }

/-- A document that is found was built with the icon there is now. -/
def Current (icons : Icons) : CacheOp → Prop
  | .json online sample =>
      ∀ icon, icons.stored = some ((online, sample), icon) → icon = icons.favicon
  | .withFavicon _ => True

/-- So it is at every call of the history. -/
def AllCurrent : Icons → List CacheOp → Prop
  | _, [] => True
  | icons, op :: ops => icons.Current op ∧ AllCurrent (icons.next op) ops

end Icons

/-- The icon is part of the document. -/
def Documents.ShowsIcon (docs : Documents) : Prop :=
  ∀ (status : ServerStatus) (icon icon' : Option String),
    docs.toJson { status with favicon := icon } = docs.toJson { status with favicon := icon' } →
      icon = icon'

namespace StatusCache

variable {docs : Documents} {fresh cache : StatusCache} {icons : Icons} {online : Int32}
  {sample : List String}

/-- The cache has its icon and a document built with the icon that was stored with it. -/
structure Tracks (docs : Documents) (fresh cache : StatusCache) (icons : Icons) : Prop where
  fields_eq : cache =
    { fresh.withFavicon icons.favicon with cached := cache.cached, rebuilds := cache.rebuilds }
  cached_eq : cache.cached = icons.stored.map fun stored =>
    { online := stored.1.1
      sample := stored.1.2
      json := docs.toJson ((fresh.withFavicon stored.2).build docs stored.1.1 stored.1.2) }

theorem Tracks.new (docs : Documents) (description : Component) (maxPlayers : Int32) :
    Tracks docs (new description maxPlayers) (new description maxPlayers) Icons.start where
  fields_eq := rfl
  cached_eq := rfl

theorem Tracks.build_eq (h : Tracks docs fresh cache icons) :
    cache.build docs online sample =
      (fresh.withFavicon icons.favicon).build docs online sample := by
  rw [h.fields_eq]
  rfl

theorem Tracks.key_eq (h : Tracks docs fresh cache icons) :
    cache.key = icons.stored.map Prod.fst := by
  rw [key, h.cached_eq, Option.map_map]
  rfl

/-- A call that finds the stored document returns it, and one that does not builds it with
the icon of now. -/
theorem Tracks.json (h : Tracks docs fresh cache icons) :
    Tracks docs fresh (cache.json docs online sample).1 (icons.next (.json online sample)) ∧
      ((∃ icon, icons.stored = some ((online, sample), icon) ∧
          (cache.json docs online sample).2 =
            docs.toJson ((fresh.withFavicon icon).build docs online sample)) ∨
        icons.stored.map Prod.fst ≠ some (online, sample) ∧
          (cache.json docs online sample).2 = docs.toJson (cache.build docs online sample)) := by
  by_cases hkey : icons.stored.map Prod.fst = some (online, sample)
  · obtain ⟨⟨-, icon⟩, hstored, rfl⟩ := Option.map_eq_some_iff.mp hkey
    have hhit : cache.hit online sample =
        some (docs.toJson ((fresh.withFavicon icon).build docs online sample)) := by
      rw [hit, h.cached_eq, hstored]
      simp
    simp only [StatusCache.json, hhit, Icons.next, if_pos hkey]
    exact ⟨h, .inl ⟨icon, hstored, rfl⟩⟩
  · have hmiss : cache.hit online sample = none := by
      rw [hit_eq_none_iff, h.key_eq]
      exact hkey
    simp only [StatusCache.json, rebuild, hmiss, Icons.next, if_neg hkey]
    refine ⟨⟨?_, ?_⟩, .inr ⟨hkey, trivial⟩⟩
    · rw [h.fields_eq]
    · rw [h.build_eq]
      rfl

theorem Tracks.withFavicon (h : Tracks docs fresh cache icons) (favicon : Option String) :
    Tracks docs fresh (cache.withFavicon favicon) (icons.next (.withFavicon favicon)) where
  fields_eq := by
    rw [h.fields_eq]
    rfl
  cached_eq := h.cached_eq

theorem Tracks.apply (h : Tracks docs fresh cache icons) (op : CacheOp) :
    Tracks docs fresh (op.apply docs cache).1 (icons.next op) := by
  cases op with
  | json online sample => exact h.json.1
  | withFavicon favicon => exact h.withFavicon favicon

/-- One operation returns what it would without a cache exactly if the document it finds
is current. -/
theorem Tracks.uncached_iff (h : Tracks docs fresh cache icons)
    (hicon : docs.ShowsIcon) (op : CacheOp) :
    (op.apply docs cache).2 = op.uncached docs cache ↔ icons.Current op := by
  cases op with
  | json online sample =>
      simp only [CacheOp.apply, CacheOp.uncached, Option.some.injEq, Icons.Current]
      rcases h.json.2 with ⟨icon, hstored, hjson⟩ | ⟨hkey, hjson⟩
      · rw [hjson, h.build_eq, hstored]
        constructor
        · rintro hsame icon' ⟨⟩
          exact hicon (fresh.build docs online sample) _ _ hsame
        · intro hcurrent
          rw [hcurrent icon rfl]
      · rw [hjson]
        refine iff_of_true rfl ?_
        intro icon hstored
        rw [hstored] at hkey
        exact absurd rfl hkey
  | withFavicon favicon => exact iff_of_true rfl trivial

theorem Tracks.neverStale_iff (h : Tracks docs fresh cache icons)
    (hicon : docs.ShowsIcon)
    (ops : List CacheOp) : cache.NeverStale docs ops ↔ icons.AllCurrent ops := by
  induction ops generalizing cache icons with
  | nil => exact Iff.rfl
  | cons op ops ih =>
      rw [NeverStale, Icons.AllCurrent, h.uncached_iff hicon op, ih (h.apply op)]

/-- A history of one cache returns no stale document exactly if no call finds a document
that was built with another icon. -/
theorem never_stale_iff
    (hicon : docs.ShowsIcon)
    (description : Component) (maxPlayers : Int32) (ops : List CacheOp) :
    (new description maxPlayers).NeverStale docs ops ↔ Icons.start.AllCurrent ops :=
  (Tracks.new docs description maxPlayers).neverStale_iff hicon ops

/-- The icon's field, left out when there is none. -/
def iconField : Option String → String
  | some icon => ",\"favicon\":\"" ++ icon ++ "\""
  | none => ""

theorem iconField_injective : Function.Injective iconField := by
  have hfield : ∀ icon, iconField (some icon) ≠ "" := by
    intro icon hempty
    have hlength := congrArg String.length hempty
    simp only [iconField, String.length_append] at hlength
    simp at hlength
  intro icon icon' hsame
  cases icon with
  | none =>
      cases icon' with
      | none => rfl
      | some icon' => exact absurd hsame.symm (hfield icon')
  | some icon =>
      cases icon' with
      | none => exact absurd hsame (hfield icon)
      | some icon' =>
          rw [iconField, iconField, String.append_left_inj, String.append_right_inj] at hsame
          rw [hsame]

/-- The serializer on documents without a sample, for plain icons. -/
abbrev iconDocuments : Documents where
  md5 _ := Vector.replicate 16 0
  toJson status :=
    "\x7b\"version\":\x7b\"name\":\"26.2\",\"protocol\":776\x7d,\"players\":\x7b\"max\":" ++
      toString status.players.max.toInt ++ ",\"online\":" ++
      toString status.players.online.toInt ++ "\x7d,\"description\":\x7b\"text\":\"Hi\"\x7d" ++
      iconField status.favicon ++ ",\"enforcesSecureChat\":false\x7d"

theorem iconDocuments_showsIcon : iconDocuments.ShowsIcon := by
  intro status icon icon' hsame
  apply iconField_injective
  simpa only [String.append_left_inj, String.append_right_inj] using hsame

theorem never_stale_icon_first :
    (new (Component.literal "Hi") 20).NeverStale iconDocuments
      [.withFavicon (some "icon"), .json 0 [], .json 0 [], .json 1 []] := by
  refine (never_stale_iff iconDocuments_showsIcon _ _ _).mpr ?_
  simp [Icons.AllCurrent, Icons.Current, Icons.next, Icons.start]

/-- An icon attached after the first call is not in the second. -/
theorem stale_after_icon :
    ¬ (new (Component.literal "Hi") 20).NeverStale iconDocuments
      [.json 0 [], .withFavicon (some "icon"), .json 0 []] := by
  rintro ⟨-, -, hstale, -⟩
  have hsame := iconDocuments_showsIcon
    ((new (Component.literal "Hi") 20).build iconDocuments 0 []) none (some "icon")
    (Option.some.inj hstale)
  cases hsame

end StatusCache

end Rukkit.Server
