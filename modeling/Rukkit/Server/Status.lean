import Rukkit.Lib.Tasks
import Rukkit.Protocol.Packets
import Rukkit.Server.Player

/-!
# The status cache

The model of `rukkit-server/src/status.rs`: the status document and its cache, whose
`json` runs a read-locked check and a write-locked section.  The serializer and the
digest are parameters.
-/

namespace Rukkit.Server

open Rukkit.Lib Rukkit.Protocol

/-! ## The document -/

structure VersionInfo where
  name : String
  protocol : Int32
deriving DecidableEq, Repr

def VersionInfo.default : VersionInfo where
  name := minecraftVersion
  protocol := protocolVersion

structure SamplePlayer where
  name : String
  id : String
deriving DecidableEq, Repr

structure PlayersInfo where
  max : Int32
  online : Int32
  sample : List SamplePlayer
deriving DecidableEq, Repr

/-- The full status document. -/
structure ServerStatus where
  version : VersionInfo
  players : PlayersInfo
  description : Component
  favicon : Option String
  enforcesSecureChat : Bool

/-- The digits of a byte, high one first. -/
def hexDigits (byte : UInt8) : List Char :=
  [Nat.digitChar (byte.toNat / 16), Nat.digitChar (byte.toNat % 16)]

/-- `Uuid::to_string`: lowercase digits in groups of 8, 4, 4, 4 and 12. -/
def uuidString (uuid : Uuid) : String :=
  let digits := (BigEndian.toBytes 16 uuid.toNat).flatMap hexDigits
  String.ofList (digits.take 8 ++ ['-'] ++ (digits.drop 8).take 4 ++ ['-'] ++
    (digits.drop 12).take 4 ++ ['-'] ++ (digits.drop 16).take 4 ++ ['-'] ++ digits.drop 20)

/-- Maximum names listed in the hover sample. -/
def sampleLimit : Nat := 12

/-! ## The cache -/

structure Cached where
  online : Int32
  sample : List String
  json : String
deriving DecidableEq, Repr

/-- Builds and caches the status document. -/
structure StatusCache where
  description : Component
  maxPlayers : Int32
  favicon : Option String
  enforcesSecureChat : Bool
  cached : Option Cached
  rebuilds : UInt64

/-- What the cache calls outside the repository. -/
structure Documents where
  md5 : Bytes → Digest
  toJson : ServerStatus → String

namespace StatusCache

def new (description : Component) (maxPlayers : Int32) : StatusCache where
  description := description
  maxPlayers := maxPlayers
  favicon := none
  enforcesSecureChat := false
  cached := none
  rebuilds := 0

/-- Attaches an icon. -/
def withFavicon (cache : StatusCache) (favicon : Option String) : StatusCache :=
  { cache with favicon := favicon }

variable (docs : Documents) (cache : StatusCache) (online : Int32) (sample : List String)

def build : ServerStatus where
  version := VersionInfo.default
  players := {
    max := cache.maxPlayers
    online := online
    sample := (sample.take sampleLimit).map fun name =>
      { name := name, id := uuidString (offlineUuid docs.md5 name) } }
  description := cache.description
  favicon := cache.favicon
  enforcesSecureChat := cache.enforcesSecureChat

/-- The arguments of the cached document. -/
def key : Option (Int32 × List String) :=
  cache.cached.map fun cached => (cached.online, cached.sample)

/-- The check both sections make. -/
def hit : Option String :=
  match cache.cached with
  | some cached =>
      if cached.online = online ∧ cached.sample = sample then some cached.json else none
  | none => none

/-- The section under the write lock. -/
def rebuild : StatusCache × String :=
  match cache.hit online sample with
  | some json => (cache, json)
  | none =>
      let json := docs.toJson (cache.build docs online sample)
      ({ cache with
          cached := some { online := online, sample := sample, json := json }
          rebuilds := cache.rebuilds + 1 }, json)

/-- The status JSON for the given player count and sample. -/
def json : StatusCache × String :=
  match cache.hit online sample with
  | some json => (cache, json)
  | none => cache.rebuild docs online sample

end StatusCache

/-! ## Threads -/

namespace StatusCache

/-- Where a call to `json` stands. -/
inductive Thread where
  | check
  | locked
  | done (json : String)
deriving DecidableEq, Repr

/-- The sections, with what each found: the result of the check, or the key cached when
the write lock was taken and the JSON returned. -/
inductive Section where
  | checked (online : Int32) (sample : List String) (found : Option String)
  | wrote (online : Int32) (sample : List String) (key : Option (Int32 × List String))
      (json : String)
deriving DecidableEq, Repr

/-- The sections of one call with its arguments. -/
inductive Thread.Step : Int32 × List String → Thread → Section → Thread → Prop
  | hit {online : Int32} {sample : List String} {json : String} :
      Step (online, sample) .check (.checked online sample (some json)) (.done json)
  | miss {online : Int32} {sample : List String} :
      Step (online, sample) .check (.checked online sample none) .locked
  | wrote {online : Int32} {sample : List String} {key : Option (Int32 × List String)}
      {json : String} :
      Step (online, sample) .locked (.wrote online sample key json) (.done json)

/-- What a section does to the cache. -/
def Section.Acts (docs : Documents) (step : Section) (cache cache' : StatusCache) : Prop :=
  match step with
  | checked online sample found => found = cache.hit online sample ∧ cache' = cache
  | wrote online sample key json =>
      key = cache.key ∧ cache.rebuild docs online sample = (cache', json)

/-- Threads that call `json`, each with arguments of its own. -/
abbrev Step (docs : Documents) :
    Tasks (Int32 × List String) Thread StatusCache →
      Tasks.Event (Int32 × List String) Section →
      Tasks (Int32 × List String) Thread StatusCache → Prop :=
  Tasks.Step Thread.check Thread.Step (Section.Acts docs)

/-- A write-locked section whose arguments differ from the key cached when it runs. -/
def Misses : Tasks.Event (Int32 × List String) Section → Bool
  | .act _ (.wrote online sample key _) => key ≠ some (online, sample)
  | _ => false

variable {docs : Documents} {fresh cache cache' : StatusCache} {online : Int32}
  {sample : List String} {json : String}

/-- The cache has the fields it was made with, and what it holds was built from them. -/
structure Consistent (docs : Documents) (fresh cache : StatusCache) : Prop where
  fields_eq : cache = { fresh with cached := cache.cached, rebuilds := cache.rebuilds }
  json_eq : ∀ cached, cache.cached = some cached →
    cached.json = docs.toJson (fresh.build docs cached.online cached.sample)

theorem Consistent.start (hempty : fresh.cached = none) : Consistent docs fresh fresh where
  fields_eq := rfl
  json_eq := by
    intro cached hcached
    rw [hempty] at hcached
    cases hcached

theorem Consistent.build_eq (h : Consistent docs fresh cache) :
    cache.build docs online sample = fresh.build docs online sample := by
  rw [h.fields_eq]
  rfl

theorem hit_eq_some (h : cache.hit online sample = some json) :
    cache.cached = some { online, sample, json } := by
  unfold hit at h
  split at h
  · rename_i cached hcached
    split at h
    · rename_i hkey
      obtain ⟨rfl, rfl⟩ := hkey
      obtain rfl := Option.some.inj h
      exact hcached
    · cases h
  · cases h

theorem hit_eq_none_iff : cache.hit online sample = none ↔ cache.key ≠ some (online, sample) := by
  unfold hit key
  cases cache.cached with
  | none => simp
  | some cached => simp [Prod.ext_iff]

/-- The check finds the caller's own document. -/
theorem Consistent.hit (h : Consistent docs fresh cache)
    (hhit : cache.hit online sample = some json) :
    json = docs.toJson (fresh.build docs online sample) :=
  h.json_eq _ (hit_eq_some hhit)

/-- The write-locked section returns the caller's own document and counts a rebuild exactly
on a key that is not cached. -/
theorem Consistent.rebuild (h : Consistent docs fresh cache)
    (hwrote : cache.rebuild docs online sample = (cache', json)) :
    Consistent docs fresh cache' ∧ json = docs.toJson (fresh.build docs online sample) ∧
      cache'.rebuilds =
        if cache.key ≠ some (online, sample) then cache.rebuilds + 1 else cache.rebuilds := by
  unfold StatusCache.rebuild at hwrote
  split at hwrote
  · rename_i found hfound
    obtain ⟨rfl, rfl⟩ := Prod.mk.inj hwrote
    refine ⟨h, h.hit hfound, ?_⟩
    rw [if_neg]
    intro hmiss
    rw [hit_eq_none_iff.mpr hmiss] at hfound
    cases hfound
  · rename_i hmiss
    rw [h.build_eq] at hwrote
    obtain ⟨rfl, rfl⟩ := Prod.mk.inj hwrote
    refine ⟨⟨?_, ?_⟩, rfl, ?_⟩
    · rw [h.fields_eq]
    · intro cached hcached
      obtain rfl := Option.some.inj hcached
      rfl
    · rw [if_pos (hit_eq_none_iff.mp hmiss)]

/-- A call that nobody else interrupts. -/
theorem Consistent.call (h : Consistent docs fresh cache) :
    Consistent docs fresh (cache.json docs online sample).1 ∧
      (cache.json docs online sample).2 = docs.toJson (fresh.build docs online sample) := by
  unfold StatusCache.json
  split
  · rename_i found hfound
    exact ⟨h, h.hit hfound⟩
  · obtain ⟨hconsistent, hjson, -⟩ := h.rebuild (Prod.ext rfl rfl)
    exact ⟨hconsistent, hjson⟩

/-- What holds after any schedule of sections. -/
structure Inv (docs : Documents) (fresh : StatusCache)
    (events : List (Tasks.Event (Int32 × List String) Section))
    (s : Tasks (Int32 × List String) Thread StatusCache) : Prop where
  consistent : Consistent docs fresh s.shared
  returned : ∀ id online sample json, s.task id = some ((online, sample), .done json) →
    json = docs.toJson (fresh.build docs online sample)
  rebuilds_eq : s.shared.rebuilds = UInt64.ofNat (events.countP Misses)

theorem countP_snoc (events : List (Tasks.Event (Int32 × List String) Section))
    (event : Tasks.Event (Int32 × List String) Section) :
    UInt64.ofNat ((events ++ [event]).countP Misses) =
      if Misses event then UInt64.ofNat (events.countP Misses) + 1
      else UInt64.ofNat (events.countP Misses) := by
  rw [List.countP_append, List.countP_singleton]
  split
  · exact UInt64.ofNat_add _ _
  · rfl

theorem Inv.step {events : List (Tasks.Event (Int32 × List String) Section)}
    {s s' : Tasks (Int32 × List String) Thread StatusCache}
    {event : Tasks.Event (Int32 × List String) Section} (h : Inv docs fresh events s)
    (hstep : Step docs s event s') : Inv docs fresh (events ++ [event]) s' := by
  cases hstep with
  | @start id arg hfree =>
      refine ⟨h.consistent, ?_, ?_⟩
      · intro id' online sample json htask
        dsimp only at htask
        by_cases hid : id' = id
        · rw [hid, Function.update_self] at htask
          cases htask
        · rw [Function.update_of_ne hid] at htask
          exact h.returned id' online sample json htask
      · rw [countP_snoc]
        exact h.rebuilds_eq
  | @act id arg thread next section' cache' htask hthread hacts =>
      -- only the thread that moves can have returned by this step
      have hreturned : (∀ online sample json, arg = (online, sample) → next = .done json →
            json = docs.toJson (fresh.build docs online sample)) →
          ∀ id' online sample json, Function.update s.task id (some (arg, next)) id' =
            some ((online, sample), .done json) →
          json = docs.toJson (fresh.build docs online sample) := by
        intro hown id' online sample json htask'
        by_cases hid : id' = id
        · rw [hid, Function.update_self, Option.some.injEq, Prod.mk.injEq] at htask'
          exact hown online sample json htask'.1 htask'.2
        · rw [Function.update_of_ne hid] at htask'
          exact h.returned id' online sample json htask'
      cases hthread with
      | @hit online sample json =>
          obtain ⟨hfound, rfl⟩ := hacts
          refine ⟨h.consistent, hreturned ?_, by rw [countP_snoc]; exact h.rebuilds_eq⟩
          rintro _ _ _ ⟨⟩ ⟨⟩
          exact h.consistent.hit hfound.symm
      | @miss online sample =>
          obtain ⟨-, rfl⟩ := hacts
          refine ⟨h.consistent, hreturned ?_, by rw [countP_snoc]; exact h.rebuilds_eq⟩
          rintro _ _ _ _ ⟨⟩
      | @wrote online sample key json =>
          obtain ⟨rfl, hwrote⟩ := hacts
          obtain ⟨hconsistent, hjson, hrebuilds⟩ := h.consistent.rebuild hwrote
          refine ⟨hconsistent, hreturned ?_, ?_⟩
          · rintro _ _ _ ⟨⟩ ⟨⟩
            exact hjson
          · rw [countP_snoc, hrebuilds, h.rebuilds_eq]
            simp only [Misses, decide_eq_true_eq]

/-- Under every schedule of the sections of any number of calls, each call that has returned
has returned the document of its own arguments, and the counter has counted the write-locked
sections that found another key (or none) cached. -/
theorem json_transparent {description : Component} {maxPlayers : Int32} {favicon : Option String}
    {events : List (Tasks.Event (Int32 × List String) Section)}
    {s : Tasks (Int32 × List String) Thread StatusCache}
    (hrun : Run (Step docs)
      (Tasks.initial ((StatusCache.new description maxPlayers).withFavicon favicon)) events s) :
    (∀ id online sample json, s.task id = some ((online, sample), .done json) →
      json = docs.toJson
        (((StatusCache.new description maxPlayers).withFavicon favicon).build docs online
          sample)) ∧
      s.shared.rebuilds = UInt64.ofNat (events.countP Misses) := by
  have hinv := hrun.invariant_labels
    (I := Inv docs ((StatusCache.new description maxPlayers).withFavicon favicon))
    ⟨Consistent.start rfl, by rintro id online sample json ⟨⟩, rfl⟩
    fun _ _ _ _ h hstep => h.step hstep
  exact ⟨hinv.returned, hinv.rebuilds_eq⟩

/-- The serializer on documents without a sample or an icon. -/
abbrev plainDocuments : Documents where
  md5 _ := Vector.replicate 16 0
  toJson status :=
    "\x7b\"version\":\x7b\"name\":\"26.2\",\"protocol\":776\x7d,\"players\":\x7b\"max\":" ++
      toString status.players.max.toInt ++ ",\"online\":" ++
      toString status.players.online.toInt ++
      "\x7d,\"description\":\x7b\"text\":\"Hi\"\x7d,\"enforcesSecureChat\":false\x7d"

/-- Two calls miss, the second writes first, and the first evicts its document. -/
theorem json_transparent_evicted : ∃ (json : String) (s : Tasks (Int32 × List String) Thread
    StatusCache), s.task 0 = some ((3, []), .done json) ∧
      json = plainDocuments.toJson
        ((StatusCache.new (Component.literal "Hi") 20).build plainDocuments 3 []) ∧
      s.shared.rebuilds = 2 := by
  let fresh := (StatusCache.new (Component.literal "Hi") 20).withFavicon none
  let four := fresh.rebuild plainDocuments 4 []
  let three := four.1.rebuild plainDocuments 3 []
  let idle : Nat → Option ((Int32 × List String) × Thread) := fun _ => none
  let started₀ := Function.update idle 0 (some ((3, []), Thread.check))
  let started₁ := Function.update started₀ 1 (some ((4, []), Thread.check))
  let missed₀ := Function.update started₁ 0 (some ((3, []), Thread.locked))
  let missed₁ := Function.update missed₀ 1 (some ((4, []), Thread.locked))
  let wrote₁ := Function.update missed₁ 1 (some ((4, []), Thread.done four.2))
  let wrote₀ := Function.update wrote₁ 0 (some ((3, []), Thread.done three.2))
  have h₁ : Step plainDocuments (Tasks.initial fresh) (.start 0 (3, [])) ⟨fresh, started₀⟩ :=
    Tasks.Step.start rfl
  have h₂ : Step plainDocuments ⟨fresh, started₀⟩ (.start 1 (4, [])) ⟨fresh, started₁⟩ :=
    Tasks.Step.start rfl
  have h₃ : Step plainDocuments ⟨fresh, started₁⟩ (.act 0 (.checked 3 [] none))
      ⟨fresh, missed₀⟩ := Tasks.Step.act rfl Thread.Step.miss ⟨rfl, rfl⟩
  have h₄ : Step plainDocuments ⟨fresh, missed₀⟩ (.act 1 (.checked 4 [] none))
      ⟨fresh, missed₁⟩ := Tasks.Step.act rfl Thread.Step.miss ⟨rfl, rfl⟩
  have h₅ : Step plainDocuments ⟨fresh, missed₁⟩ (.act 1 (.wrote 4 [] none four.2))
      ⟨four.1, wrote₁⟩ := Tasks.Step.act rfl Thread.Step.wrote ⟨rfl, rfl⟩
  have h₆ : Step plainDocuments ⟨four.1, wrote₁⟩ (.act 0 (.wrote 3 [] (some (4, [])) three.2))
      ⟨three.1, wrote₀⟩ := Tasks.Step.act rfl Thread.Step.wrote ⟨rfl, rfl⟩
  have hrun := (((((Run.single h₁).snoc h₂).snoc h₃).snoc h₄).snoc h₅).snoc h₆
  obtain ⟨hreturned, hrebuilds⟩ := json_transparent hrun
  exact ⟨three.2, _, rfl, hreturned 0 3 [] three.2 rfl, hrebuilds⟩

end StatusCache

end Rukkit.Server
