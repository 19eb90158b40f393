import Mathlib.Data.Set.Card
import Rukkit.Server.StatusMoment

/-!
# Who is let in

Whether a login is refused, told from the connections that are logged in at that moment,
whatever the interleaving that led there.
-/

namespace Rukkit.Server

open Rukkit.Lib Rukkit.Protocol

namespace PlayerRegistry

variable {r : PlayerRegistry} {info : PlayerInfo} {maxPlayers : Nat}

theorem tryInsert_full_iff : (r.tryInsert info maxPlayers).2 = .error .full ↔
    maxPlayers ≤ r.count := by
  unfold tryInsert
  split
  · rename_i hfull
    exact ⟨fun _ => hfull, fun _ => rfl⟩
  · rename_i hroom
    constructor
    · split <;> rintro ⟨⟩
    · exact fun hfull => absurd hfull hroom

theorem tryInsert_ok_iff : (r.tryInsert info maxPlayers).2 = .ok () ↔
    r.count < maxPlayers ∧ ∀ p ∈ r.values, p.name ≠ info.name := by
  have hrefused : (∃ why, (r.tryInsert info maxPlayers).2 = .error why) ↔
      maxPlayers ≤ r.count ∨ ∃ p ∈ r.values, p.name = info.name := tryInsert_refused_iff
  constructor
  · intro hok
    have hnone : ¬ ∃ why, (r.tryInsert info maxPlayers).2 = .error why := by
      rintro ⟨why, hwhy⟩
      rw [hok] at hwhy
      cases hwhy
    rw [hrefused] at hnone
    exact ⟨Nat.lt_of_not_le fun h => hnone (.inl h), fun p hp h => hnone (.inr ⟨p, hp, h⟩)⟩
  · rintro ⟨hroom, hfree⟩
    cases hresult : (r.tryInsert info maxPlayers).2 with
    | ok _ => rfl
    | error why =>
        rcases hrefused.mp ⟨why, hresult⟩ with hfull | ⟨p, hp, hname⟩
        · exact absurd hfull (Nat.not_le_of_lt hroom)
        · exact absurd hname (hfree p hp)

end PlayerRegistry

namespace System

variable {ctx : Context} {events done later : List Event} {s : System} {c : Nat}
  {info : PlayerInfo} {r : PlayerRegistry}

/-- The connections that are logged in. -/
def seats (events : List Event) : Set Nat := {c | (seat events c).isSome}

/-- The connections that were accepted. -/
def accepted (events : List Event) : Set Nat := {c | ∃ addr, Tasks.Event.start c addr ∈ events}

theorem mem_seats : c ∈ seats events ↔ ∃ info, seat events c = some info :=
  Option.isSome_iff_exists

section Registry

variable (h : Inv events r)

include h

theorem Inv.mem_values_iff : info ∈ r.values ↔ ∃ c, seat events c = some info := by
  constructor
  · intro hmem
    obtain ⟨⟨uuid, info⟩, hentry, rfl⟩ := List.mem_map.mp hmem
    exact ((h.entry_iff uuid info).mp (AList.mem_lookup_iff.mpr hentry)).2
  · intro hseat
    exact PlayerRegistry.mem_values_of_get ((h.entry_iff info.uuid info).mpr ⟨rfl, hseat⟩)

theorem Inv.values_nodup : r.values.Nodup := by
  refine List.Nodup.map_on ?_ r.players.nodupKeys.nodup
  rintro ⟨uuid, info⟩ hentry ⟨uuid', info'⟩ hentry' heq
  obtain rfl : info = info' := heq
  have huuid := ((h.entry_iff uuid info).mp (AList.mem_lookup_iff.mpr hentry)).1
  have huuid' := ((h.entry_iff uuid' info).mp (AList.mem_lookup_iff.mpr hentry')).1
  rw [huuid, huuid']

/-- The registry has as many players as there are connections logged in. -/
theorem Inv.encard_seats : (seats events).encard = r.count := by
  have himage : seat events '' seats events = some '' {info | info ∈ r.values} := by
    ext entry
    constructor
    · rintro ⟨c, hc, rfl⟩
      obtain ⟨info, hseat⟩ := mem_seats.mp hc
      exact ⟨info, h.mem_values_iff.mpr ⟨c, hseat⟩, hseat.symm⟩
    · rintro ⟨info, hmem, rfl⟩
      obtain ⟨c, hseat⟩ := h.mem_values_iff.mp hmem
      exact ⟨c, mem_seats.mpr ⟨info, hseat⟩, hseat⟩
  have hinj : Set.InjOn (seat events) (seats events) := by
    intro c hc c' hc' heq
    obtain ⟨info, hseat⟩ := mem_seats.mp hc
    exact h.name_ne c c' info info hseat (heq ▸ hseat) rfl
  have hcard : {info | info ∈ r.values}.encard = r.values.length := by
    rw [← List.toFinset_card_of_nodup h.values_nodup, ← Set.encard_coe_eq_coe_finsetCard,
      List.coe_toFinset]
  rw [← hinj.encard_image, himage, (Option.some_injective _).encard_image, hcard,
    PlayerRegistry.values, List.length_map]
  rfl

end Registry

theorem seats_subset_accepted (hrun : Run (Step ctx) new events s) :
    seats events ⊆ accepted events := by
  intro c hc
  obtain ⟨info, hseat⟩ := mem_seats.mp hc
  obtain ⟨addr, point, hello, htask, -⟩ := exists_of_seat hrun hseat
  exact ⟨addr, (Tasks.project hrun htask).1⟩

/-- A login is decided by who is logged in at that moment and by nothing else: the server is
full exactly if as many connections are logged in as it has slots, a name is taken exactly if
one of them has it, and as long as there are no more connections than slots, none is told that
the server is full. -/
theorem admission_decided (hinj : Set.InjOn (offlineUuid ctx.md5) (namesTried events))
    (hrun : Run (Step ctx) new events s) {maxPlayers : Nat} {result : Except JoinError Unit}
    (hevents : events = done ++ Tasks.Event.act c (.tryInsert info maxPlayers result) :: later) :
    maxPlayers = (max ctx.config.maxPlayers 0).toNatClampNeg ∧
      (seats done).encard ≤ maxPlayers ∧ c ∉ seats done ∧
      (result = .error .full ↔ (seats done).encard = maxPlayers) ∧
      (result = .error .nameTaken ↔ (seats done).encard < maxPlayers ∧
        ∃ c' other, seat done c' = some other ∧ other.name = info.name) ∧
      (result = .ok () ↔ (seats done).encard < maxPlayers ∧
        ∀ c' other, seat done c' = some other → other.name ≠ info.name) ∧
      (result = .error .full → maxPlayers < (accepted done).encard) := by
  subst hevents
  obtain ⟨t, t', hbefore, hstep, -⟩ := hrun.step_at
  have hinv : Inv done t.shared :=
    Inv.of_run hinj hbefore namesTried_append_left
  have hcount := hinv.encard_seats
  have hcapacity := (registryInv_of_run hbefore).count_le
  cases hstep with
  | @act _ addr point next _ r' htask hstep hacts =>
      obtain ⟨hello, rfl, rfl, -⟩ := Point.step_tryInsert hstep
      cases hstep
      have hresult : (t.shared.tryInsert _ _).2 = result := congrArg Prod.snd hacts
      have hstanding : c ∉ seats done := by
        intro hc
        obtain ⟨own, hseat⟩ := mem_seats.mp hc
        rw [seat_of_task hbefore htask] at hseat
        cases hseat
      have hfull : result = .error .full ↔
          (seats done).encard = ((max ctx.config.maxPlayers 0).toNatClampNeg : ℕ∞) := by
        rw [← hresult, PlayerRegistry.tryInsert_full_iff, hcount, Nat.cast_inj]
        omega
      have hok : result = .ok () ↔
          (seats done).encard < ((max ctx.config.maxPlayers 0).toNatClampNeg : ℕ∞) ∧
            ∀ c' other, seat done c' = some other → other.name ≠ hello.name := by
        rw [← hresult, PlayerRegistry.tryInsert_ok_iff, hcount, Nat.cast_lt]
        simp only [hinv.mem_values_iff, forall_exists_index]
        exact and_congr_right fun _ => forall_comm
      have hle : (seats done).encard ≤ ((max ctx.config.maxPlayers 0).toNatClampNeg : ℕ∞) := by
        rw [hcount]
        exact Nat.cast_le.mpr hcapacity
      refine ⟨rfl, hle, hstanding, hfull, ?_, hok, ?_⟩
      · constructor
        · rintro rfl
          have hroom := lt_of_le_of_ne hle fun heq => nomatch hfull.mpr heq
          refine ⟨hroom, ?_⟩
          by_contra hfree
          push Not at hfree
          cases hok.mpr ⟨hroom, hfree⟩
        · rintro ⟨hroom, c', other, hseat, hname⟩
          cases result with
          | ok _ => exact absurd hname ((hok.mp rfl).2 c' other hseat)
          | error why =>
              cases why with
              | full => exact absurd (hfull.mp rfl) hroom.ne
              | nameTaken => rfl
      · intro h
        have hself : c ∈ accepted done := ⟨addr, (Tasks.project hbefore htask).1⟩
        have hmore := Set.encard_le_encard
          (Set.insert_subset hself (seats_subset_accepted hbefore))
        rw [Set.encard_insert_of_notMem hstanding, hfull.mp h] at hmore
        exact (ENat.lt_add_one_iff (ENat.natCast_ne_top _)).mpr le_rfl |>.trans_le hmore

/-- `Notch` is let in while only `alice` is logged in. -/
theorem admission_decided_pair :
    (seats (aliceEvents ++ [.start 0 notchAddr] ++ notchCalls.map (.act 0))).encard < 20 ∧
      ∀ c other, seat (aliceEvents ++ [.start 0 notchAddr] ++ notchCalls.map (.act 0)) c =
        some other → other.name ≠ "Notch" := by
  have hevents : pairEvents =
      aliceEvents ++ [.start 0 notchAddr] ++ notchCalls.map (Tasks.Event.act 0) ++
        Tasks.Event.act 0 (.tryInsert notch 20 (.ok ())) :: aliceLeaves := rfl
  obtain ⟨-, -, -, -, -, hok, -⟩ := admission_decided (injOn_pair.mono namesTried_pair)
    (pair_joined.trans alice_leaves) hevents
  exact hok.mp rfl

end System

end Rukkit.Server
