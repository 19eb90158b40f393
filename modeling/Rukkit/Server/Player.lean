import Mathlib.Data.List.AList
import Rukkit.Protocol.Writer

/-!
# Connected players

The model of `rukkit-server/src/player.rs`.  The hash map is an association list
with distinct keys; its iteration order is left open.  The MD5 digest is a
parameter.
-/

namespace Rukkit.Server

open Rukkit.Lib Rukkit.Protocol

inductive IpAddr where
  | v4 (bits : BitVec 32)
  | v6 (bits : BitVec 128)
deriving DecidableEq, Repr

structure SocketAddr where
  ip : IpAddr
  port : UInt16
deriving DecidableEq, Repr

/-- A player's identity for the life of their connection. -/
structure PlayerInfo where
  uuid : Uuid
  name : String
  addr : SocketAddr
deriving DecidableEq, Repr

/-- Why a login was refused. -/
inductive JoinError where
  | full
  | nameTaken
deriving DecidableEq, Repr

def JoinError.toString : JoinError → String
  | .full => "The server is full"
  | .nameTaken => "A player with that name is already connected"

/-- The set of players currently connected.  Each operation below runs under one
lock. -/
structure PlayerRegistry where
  players : AList fun _ : Uuid => PlayerInfo

namespace PlayerRegistry

def new : PlayerRegistry := ⟨∅⟩

variable (r : PlayerRegistry)

def values : List PlayerInfo := r.players.entries.map Sigma.snd

/-- Admits a player, or explains why not. -/
def tryInsert (info : PlayerInfo) (maxPlayers : Nat) : PlayerRegistry × Except JoinError Unit :=
  if maxPlayers ≤ r.players.entries.length then (r, .error .full)
  else if r.values.any fun p => p.name == info.name then (r, .error .nameTaken)
  else (⟨r.players.insert info.uuid info⟩, .ok ())

def remove (uuid : Uuid) : PlayerRegistry × Option PlayerInfo :=
  (⟨r.players.erase uuid⟩, r.players.lookup uuid)

def count : Nat := r.players.entries.length

def get (uuid : Uuid) : Option PlayerInfo := r.players.lookup uuid

/-- `names` are the names of up to `limit` players, in some order of iteration. -/
def SampleNames (limit : Nat) (names : List String) : Prop :=
  ∃ order : List PlayerInfo, order.Perm r.values ∧ names = (order.take limit).map PlayerInfo.name

variable {r}

theorem get_new (uuid : Uuid) : new.get uuid = none := rfl

theorem mem_values_of_get {uuid : Uuid} {info : PlayerInfo} (h : r.get uuid = some info) :
    info ∈ r.values :=
  List.mem_map_of_mem (f := Sigma.snd) (AList.mem_lookup_iff.mp h)

theorem eq_new_of_get (h : ∀ uuid, r.get uuid = none) : r = new := by
  obtain ⟨players⟩ := r
  have hentries : players.entries = [] := by
    refine List.eq_nil_iff_forall_not_mem.mpr ?_
    rintro ⟨uuid, info⟩ hmem
    have hget : players.lookup uuid = some info := AList.mem_lookup_iff.mpr hmem
    exact absurd hget (by rw [show players.lookup uuid = none from h uuid]; simp)
  exact congrArg PlayerRegistry.mk (AList.ext hentries)

/-- An admitted player's name was free, and nobody else's entry changes. -/
theorem tryInsert_ok {r' : PlayerRegistry} {info : PlayerInfo} {maxPlayers : Nat}
    (h : r.tryInsert info maxPlayers = (r', .ok ())) :
    (∀ p ∈ r.values, p.name ≠ info.name) ∧ r'.get info.uuid = some info ∧
      ∀ uuid, uuid ≠ info.uuid → r'.get uuid = r.get uuid := by
  unfold tryInsert at h
  split at h
  · simp at h
  · split at h
    · simp at h
    · rename_i hfree
      simp only [Prod.mk.injEq, and_true] at h
      subst h
      refine ⟨?_, AList.lookup_insert _, ?_⟩
      · intro p hp heq
        exact hfree (List.any_eq_true.mpr ⟨p, hp, beq_iff_eq.mpr heq⟩)
      · intro uuid hne
        exact AList.lookup_insert_ne hne

theorem tryInsert_error {r' : PlayerRegistry} {info : PlayerInfo} {maxPlayers : Nat}
    {why : JoinError} (h : r.tryInsert info maxPlayers = (r', .error why)) : r' = r := by
  unfold tryInsert at h
  split at h
  · exact (Prod.mk.inj h).1.symm
  · split at h
    · exact (Prod.mk.inj h).1.symm
    · simp at h

theorem remove_get {r' : PlayerRegistry} {uuid : Uuid} {removed : Option PlayerInfo}
    (h : r.remove uuid = (r', removed)) :
    removed = r.get uuid ∧ r'.get uuid = none ∧
      ∀ other, other ≠ uuid → r'.get other = r.get other := by
  cases h
  exact ⟨rfl, AList.lookup_erase _ _, fun other hne => AList.lookup_erase_ne hne⟩

end PlayerRegistry

/-- An MD5 digest. -/
abbrev Digest := Vector UInt8 16

/-- The identifier an offline-mode player is given: the digest of the prefixed name with
the version and variant bits forced. -/
def offlineUuid (md5 : Bytes → Digest) (name : String) : Uuid :=
  let bytes := md5 (utf8 ("OfflinePlayer:" ++ name))
  let bytes := bytes.set 6 ((bytes[6] &&& 0x0F) ||| 0x30)
  let bytes := bytes.set 8 ((bytes[8] &&& 0x3F) ||| 0x80)
  BitVec.ofNat 128 (BigEndian.toNat bytes.toList)

end Rukkit.Server
