import Rukkit.Lib.Runs
import Rukkit.Server.Player

/-!
# The registry under any order of calls

What holds of the registry whatever calls any number of tasks make, each under the
lock.
-/

namespace Rukkit.Server

open Rukkit.Lib Rukkit.Protocol

namespace PlayerRegistry

/-- The calls that change the registry, with their results. -/
inductive Change where
  | tryInsert (info : PlayerInfo) (result : Except JoinError Unit)
  | remove (uuid : Uuid) (removed : Option PlayerInfo)

/-- One call by the task with the given number. -/
inductive Step (maxPlayers : Nat) : PlayerRegistry → Nat × Change → PlayerRegistry → Prop
  | tryInsert {r r' : PlayerRegistry} {task : Nat} {info : PlayerInfo}
      {result : Except JoinError Unit} : r.tryInsert info maxPlayers = (r', result) →
      Step maxPlayers r (task, .tryInsert info result) r'
  | remove {r r' : PlayerRegistry} {task : Nat} {uuid : Uuid} {removed : Option PlayerInfo} :
      r.remove uuid = (r', removed) → Step maxPlayers r (task, .remove uuid removed) r'

/-- The invariant of a registry that is only used with one capacity. -/
structure Inv (maxPlayers : Nat) (r : PlayerRegistry) : Prop where
  count_le : r.count ≤ maxPlayers
  names_nodup : (r.values.map PlayerInfo.name).Nodup
  key_eq : ∀ entry ∈ r.players.entries, entry.2.uuid = entry.1

variable {r r' : PlayerRegistry} {maxPlayers : Nat} {info : PlayerInfo} {uuid : Uuid}

/-- A call is refused exactly at capacity or when the name is present. -/
theorem tryInsert_refused_iff :
    (∃ why, (r.tryInsert info maxPlayers).2 = .error why) ↔
      maxPlayers ≤ r.count ∨ ∃ p ∈ r.values, p.name = info.name := by
  have hnames : (r.values.any fun p => p.name == info.name) = true ↔
      ∃ p ∈ r.values, p.name = info.name := by
    simp only [List.any_eq_true, beq_iff_eq]
  unfold tryInsert
  split
  · rename_i hfull
    exact ⟨fun _ => .inl hfull, fun _ => ⟨.full, rfl⟩⟩
  · rename_i hroom
    split
    · rename_i htaken
      exact ⟨fun _ => .inr (hnames.mp htaken), fun _ => ⟨.nameTaken, rfl⟩⟩
    · rename_i hfree
      constructor
      · rintro ⟨why, hwhy⟩
        cases hwhy
      · rintro (hfull | htaken)
        · exact absurd hfull hroom
        · exact absurd (hnames.mpr htaken) hfree

theorem tryInsert_ok_room (h : r.tryInsert info maxPlayers = (r', .ok ())) :
    r.count < maxPlayers ∧ r' = ⟨r.players.insert info.uuid info⟩ := by
  unfold tryInsert at h
  split at h
  · cases (Prod.mk.inj h).2
  · rename_i hroom
    split at h
    · cases (Prod.mk.inj h).2
    · exact ⟨Nat.lt_of_not_le hroom, (Prod.mk.inj h).1.symm⟩

theorem Inv.new : Inv maxPlayers new where
  count_le := Nat.zero_le _
  names_nodup := List.nodup_nil
  key_eq := by rintro entry ⟨⟩

/-- Dropping entries keeps the invariant. -/
theorem Inv.of_sublist (h : Inv maxPlayers r)
    (hsub : r'.players.entries.Sublist r.players.entries) : Inv maxPlayers r' where
  count_le := hsub.length_le.trans h.count_le
  names_nodup := by
    have hvalues : r'.values.Sublist r.values :=
      hsub.map fun entry : Sigma fun _ : Uuid => PlayerInfo => entry.snd
    exact h.names_nodup.sublist (hvalues.map PlayerInfo.name)
  key_eq := fun entry hmem => h.key_eq entry (hsub.subset hmem)

/-- An insertion may replace an entry under the same key; there is room either way. -/
theorem Inv.insert (h : Inv maxPlayers r) (hinsert : r.tryInsert info maxPlayers = (r', .ok ())) :
    Inv maxPlayers r' := by
  obtain ⟨hroom, rfl⟩ := tryInsert_ok_room hinsert
  have hfree := (tryInsert_ok hinsert).1
  have hentries : (r.players.insert info.uuid info).entries =
      ⟨info.uuid, info⟩ :: r.players.entries.kerase info.uuid := AList.entries_insert
  have hrest : Inv maxPlayers ⟨r.players.erase info.uuid⟩ :=
    h.of_sublist (List.kerase_sublist info.uuid r.players.entries)
  refine ⟨?_, ?_, ?_⟩
  · have hlength := (List.kerase_sublist info.uuid r.players.entries).length_le
    rw [count, hentries, List.length_cons]
    exact (Nat.succ_le_succ hlength).trans hroom
  · rw [values, hentries, List.map_cons, List.map_cons, List.nodup_cons]
    refine ⟨?_, hrest.names_nodup⟩
    rintro hmem
    obtain ⟨p, hp, hname⟩ := List.mem_map.mp hmem
    have hsub := (List.kerase_sublist info.uuid r.players.entries).map Sigma.snd
    exact hfree p (hsub.subset hp) hname
  · intro entry hmem
    rw [hentries] at hmem
    rcases List.mem_cons.mp hmem with rfl | hmem
    · rfl
    · exact hrest.key_eq entry hmem

theorem Inv.step {label : Nat × Change} (h : Inv maxPlayers r)
    (hstep : Step maxPlayers r label r') : Inv maxPlayers r' := by
  cases hstep with
  | @tryInsert _ _ info result hcall =>
      cases result with
      | ok _ => exact h.insert hcall
      | error why => exact tryInsert_error hcall ▸ h
  | remove hcall =>
      obtain ⟨rfl, -⟩ := Prod.mk.inj hcall
      exact h.of_sublist (List.kerase_sublist _ _)

/-- Whatever calls any number of tasks have made, the registry is within its capacity, its
names are distinct and every entry is stored under its own identifier; a refused call
changes nothing, and it is refused exactly at capacity or when the name is present. -/
theorem registry_invariant {calls : List (Nat × Change)}
    (hrun : Run (Step maxPlayers) new calls r) :
    r.count ≤ maxPlayers ∧ (r.values.map PlayerInfo.name).Nodup ∧
      (∀ uuid info, r.get uuid = some info → info.uuid = uuid) ∧
      (∀ info r' why, r.tryInsert info maxPlayers = (r', .error why) → r' = r) ∧
      ∀ info, (∃ why, (r.tryInsert info maxPlayers).2 = .error why) ↔
        maxPlayers ≤ r.count ∨ ∃ p ∈ r.values, p.name = info.name := by
  have hinv : Inv maxPlayers r := hrun.invariant Inv.new fun _ _ _ h hstep => h.step hstep
  refine ⟨hinv.count_le, hinv.names_nodup, ?_, fun _ _ _ => tryInsert_error,
    fun _ => tryInsert_refused_iff⟩
  intro uuid info hget
  exact hinv.key_eq ⟨uuid, info⟩ (AList.mem_lookup_iff.mp hget)

/-- Two joins race for one slot, and the one refused removes nothing. -/
theorem registry_invariant_race :
    ∃ r, Run (Step 1) new
      [(0, .tryInsert ⟨1, "a", ⟨.v4 0, 1⟩⟩ (.ok ())),
        (1, .tryInsert ⟨2, "b", ⟨.v4 0, 2⟩⟩ (.error .full)),
        (1, .remove 2 none)] r ∧ r.count ≤ 1 ∧ (r.values.map PlayerInfo.name).Nodup := by
  let r := (new.tryInsert ⟨1, "a", ⟨.v4 0, 1⟩⟩ 1).1
  have hjoin : Step 1 new (0, .tryInsert ⟨1, "a", ⟨.v4 0, 1⟩⟩ (.ok ())) r := Step.tryInsert rfl
  have hfull : Step 1 r (1, .tryInsert ⟨2, "b", ⟨.v4 0, 2⟩⟩ (.error .full)) r :=
    Step.tryInsert rfl
  have hleave : Step 1 r (1, .remove 2 none) r := Step.remove rfl
  have hrun := ((Run.single hjoin).snoc hfull).snoc hleave
  obtain ⟨hcount, hnames, -⟩ := registry_invariant hrun
  exact ⟨_, hrun, hcount, hnames⟩

/-! ## Admission and the entries before it -/

/-- Where calls with any capacities lead from the empty registry. -/
inductive Reachable : PlayerRegistry → Prop
  | new : Reachable new
  | tryInsert {r : PlayerRegistry} (h : Reachable r) (info : PlayerInfo) (maxPlayers : Nat) :
      Reachable (r.tryInsert info maxPlayers).1
  | remove {r : PlayerRegistry} (h : Reachable r) (uuid : Uuid) : Reachable (r.remove uuid).1

/-- If the call admits the player, every entry stays, the count grows by one, and removing
the player again restores the registry. -/
def Undisturbed (r : PlayerRegistry) (info : PlayerInfo) (maxPlayers : Nat) : Prop :=
  ∀ r', r.tryInsert info maxPlayers = (r', .ok ()) →
    (∀ uuid p, r.get uuid = some p → r'.get uuid = some p) ∧ r'.count = r.count + 1 ∧
      r'.remove info.uuid = (r, some info)

/-- Every entry is stored under its own identifier, whatever the capacities. -/
theorem Reachable.key_eq (h : Reachable r) :
    ∀ entry ∈ r.players.entries, entry.2.uuid = entry.1 := by
  induction h with
  | new => rintro entry ⟨⟩
  | @tryInsert r _ info maxPlayers ih =>
      unfold PlayerRegistry.tryInsert
      split
      · exact ih
      · split
        · exact ih
        · intro entry hmem
          rw [AList.entries_insert] at hmem
          rcases List.mem_cons.mp hmem with rfl | hmem
          · rfl
          · exact ih entry ((List.kerase_sublist _ _).subset hmem)
  | remove _ uuid ih =>
      intro entry hmem
      exact ih entry ((List.kerase_sublist _ _).subset hmem)

theorem Reachable.get_eq_none_iff (h : Reachable r) :
    r.get uuid = none ↔ ∀ p ∈ r.values, p.uuid ≠ uuid := by
  constructor
  · rintro hfree p hp rfl
    obtain ⟨⟨key, p⟩, hmem, rfl⟩ := List.mem_map.mp hp
    have hkey : p.uuid = key := h.key_eq ⟨key, p⟩ hmem
    rw [← hkey] at hmem
    have hget : r.get p.uuid = some p := AList.mem_lookup_iff.mpr hmem
    rw [hfree] at hget
    cases hget
  · intro hnobody
    by_contra hget
    obtain ⟨p, hp⟩ := Option.ne_none_iff_exists'.mp hget
    exact hnobody p (mem_values_of_get hp) (h.key_eq ⟨uuid, p⟩ (AList.mem_lookup_iff.mp hp))

theorem undisturbed_of_free (hfree : r.get info.uuid = none) : Undisturbed r info maxPlayers := by
  intro r' hok
  obtain ⟨-, rfl⟩ := tryInsert_ok_room hok
  have hnew : info.uuid ∉ r.players := AList.lookup_eq_none.mp hfree
  have hentries : (r.players.insert info.uuid info).entries =
      ⟨info.uuid, info⟩ :: r.players.entries := AList.entries_insert_of_notMem hnew
  refine ⟨?_, ?_, ?_⟩
  · intro uuid p hget
    have hne : uuid ≠ info.uuid := by
      rintro rfl
      rw [hfree] at hget
      cases hget
    exact (AList.lookup_insert_ne hne).trans hget
  · rw [count, hentries, List.length_cons, count]
  · refine Prod.ext (congrArg PlayerRegistry.mk (AList.ext ?_)) (AList.lookup_insert _)
    change (r.players.insert info.uuid info).entries.kerase info.uuid = r.players.entries
    rw [hentries]
    exact List.kerase_cons_eq rfl

/-- Admission disturbs nobody exactly if it is refused or nobody connected has the
player's identifier, which is not checked. -/
theorem admission_undisturbed_iff (hr : Reachable r) :
    Undisturbed r info maxPlayers ↔
      maxPlayers ≤ r.count ∨ (∃ p ∈ r.values, p.name = info.name) ∨
        ∀ p ∈ r.values, p.uuid ≠ info.uuid := by
  rw [← hr.get_eq_none_iff, ← or_assoc, ← tryInsert_refused_iff]
  constructor
  · intro hundisturbed
    cases hcall : r.tryInsert info maxPlayers with
    | mk r' result =>
        cases result with
        | error why => exact .inl ⟨why, rfl⟩
        | ok _ =>
            -- the registry that the removal restores has nobody under the identifier
            obtain ⟨-, -, hrestored⟩ := hundisturbed r' hcall
            exact .inr (remove_get hrestored).2.1
  · rintro (⟨why, hrefused⟩ | hfree)
    · intro r' hok
      rw [hok] at hrefused
      cases hrefused
    · exact undisturbed_of_free hfree

theorem admission_undisturbed_second :
    Undisturbed (new.tryInsert ⟨1, "alice", ⟨.v4 0, 1⟩⟩ 20).1 ⟨2, "bob", ⟨.v4 0, 2⟩⟩ 20 :=
  (admission_undisturbed_iff (Reachable.new.tryInsert _ _)).mpr (.inr (.inr (by decide)))

/-- Two names under one identifier: the second player takes the place of the first, and
nobody is left when the second has gone. -/
theorem admission_replaces :
    ∃ r r', Reachable r ∧ r.tryInsert ⟨1, "bob", ⟨.v4 0, 2⟩⟩ 20 = (r', .ok ()) ∧
      r.get 1 = some ⟨1, "alice", ⟨.v4 0, 1⟩⟩ ∧ r'.get 1 = some ⟨1, "bob", ⟨.v4 0, 2⟩⟩ ∧
      r'.count = r.count ∧ (r'.remove 1).1.get 1 = none ∧
      ¬ Undisturbed r ⟨1, "bob", ⟨.v4 0, 2⟩⟩ 20 := by
  let r := (new.tryInsert ⟨1, "alice", ⟨.v4 0, 1⟩⟩ 20).1
  have hget : r.get 1 = some ⟨1, "alice", ⟨.v4 0, 1⟩⟩ := rfl
  have hok : r.tryInsert ⟨1, "bob", ⟨.v4 0, 2⟩⟩ 20 =
      (⟨r.players.insert 1 ⟨1, "bob", ⟨.v4 0, 2⟩⟩⟩, .ok ()) := rfl
  refine ⟨r, _, Reachable.new.tryInsert _ _, hok, hget, rfl, rfl, rfl, ?_⟩
  intro hundisturbed
  have hkept := (hundisturbed _ hok).1 1 _ hget
  simp [PlayerRegistry.get, AList.lookup_insert] at hkept

end PlayerRegistry

end Rukkit.Server
