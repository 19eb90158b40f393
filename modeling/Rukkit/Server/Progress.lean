import Rukkit.Lib.Potentials
import Rukkit.Server.Identity
import Rukkit.Server.Slots
import Rukkit.Server.Transcript

/-!
# Progress

How much a connection does for each packet it reads, and that connections whose peers hang
up come to an end and leave the registry empty.
-/

namespace Rukkit.Server

open Rukkit.Lib Rukkit.Protocol

/-! ## The work of one read -/

namespace Call

def isPacketRead : Call → Bool
  | .read (.ok _) => true
  | _ => false

def isSend : Call → Bool
  | .send _ _ => true
  | _ => false

end Call

namespace Point

variable {ctx : Context} {addr : SocketAddr} {point next : Point} {call : Call}
  {calls : List Call}

/-- The most calls a task makes before it reads again or ends. -/
def callsLeft : Point → Nat
  | run | status | login | loginAcknowledged _ | configuration _ | ended _ => 0
  | refuseVersion _ | statusRespond _ | statusPong _ | refuseOnline | loginFinished _
  | refuseLogin _ | remove _ _ => 1
  | statusJson _ _ | enableCompression _ _ | selectKnownPacks _ | refuseRegistry _ => 2
  | statusSample _ | setCompression _ _ | brand _ => 3
  | statusCount | tryInsert _ => 4

/-- The most packets it sends by then. -/
def sendsLeft : Point → Nat
  | run | status | login | loginAcknowledged _ | configuration _ | remove _ _ | ended _ => 0
  | refuseVersion _ | statusCount | statusSample _ | statusJson _ _ | statusRespond _
  | statusPong _ | refuseOnline | enableCompression _ _ | loginFinished _ | refuseLogin _
  | selectKnownPacks _ | refuseRegistry _ => 1
  | setCompression _ _ | tryInsert _ | brand _ => 2

theorem callsLeft_le (point : Point) : point.callsLeft ≤ 4 := by
  cases point <;> simp [callsLeft]

theorem sendsLeft_le (point : Point) : point.sendsLeft ≤ 2 := by
  cases point <;> simp [sendsLeft]

/-- What a call takes from what is left, a read adding to it. -/
structure Spends (point : Point) (call : Call) (next : Point) : Prop where
  calls : 1 + next.callsLeft ≤ point.callsLeft + if call.isRead then 5 else 0
  sends : (if call.isSend then 1 else 0) + next.sendsLeft ≤
    point.sendsLeft + if call.isPacketRead then 2 else 0

theorem spends_packet (point : Point) (packet : Bytes) (next : Point) :
    Spends point (.read (.ok packet)) next where
  calls := by
    have hle := next.callsLeft_le
    simp only [Call.isRead, if_true]
    omega
  sends := by
    have hle := next.sendsLeft_le
    simp only [Call.isSend, Call.isPacketRead, if_true, Bool.false_eq_true, if_false]
    omega

theorem spends_read {result : Except ConnError Bytes}
    (h : ∀ e, result = .error e → next.sendsLeft = 0) : Spends point (.read result) next := by
  cases result with
  | ok packet => exact spends_packet point packet next
  | error e =>
      have hle := next.callsLeft_le
      refine ⟨?_, ?_⟩
      · simp only [Call.isRead, if_true]
        omega
      · simp [Call.isSend, h e rfl]

theorem spends_step (h : Step ctx addr point call next) : Spends point call next := by
  cases point with
  | run | login | loginAcknowledged | configuration =>
      cases h with
      | read result =>
          apply spends_read
          rintro e rfl
          rfl
  | status =>
      cases h with
      | read result =>
          apply spends_read
          rintro e rfl
          cases e <;> rfl
  | statusCount | statusSample | statusJson | enableCompression | remove =>
      cases h
      exact ⟨Nat.le_refl _, Nat.le_refl _⟩
  | tryInsert hello =>
      cases h with
      | tryInsert result =>
          cases result with
          | ok _ => exact ⟨Nat.le_refl _, Nat.le_refl _⟩
          | error why => exact ⟨Nat.le_of_ble_eq_true rfl, Nat.le_of_ble_eq_true rfl⟩
  | refuseVersion | statusPong =>
      cases h with
      | send result => exact ⟨Nat.le_refl _, Nat.le_refl _⟩
  | setCompression hello threshold | statusRespond json | loginFinished hello | refuseOnline
  | refuseLogin why | brand hello | selectKnownPacks hello | refuseRegistry hello =>
      cases h with
      | send result =>
          cases result <;> exact ⟨Nat.le_of_ble_eq_true rfl, Nat.le_of_ble_eq_true rfl⟩
  | ended outcome => cases h

theorem calls_le (hrun : Run (Step ctx addr) run calls point) :
    calls.length ≤ 5 * calls.countP Call.isRead := by
  have hcost := hrun.cost_add_le fun _ _ _ h => (spends_step h).calls
  rw [sum_map_ite, List.map_const', List.sum_replicate_nat] at hcost
  simp only [callsLeft] at hcost
  omega

theorem length_packetsSent (calls : List Call) :
    (packetsSent calls).length = calls.countP Call.isSend := by
  rw [packetsSent, List.length_filterMap_eq_countP]
  refine List.countP_congr fun call _ => ?_
  cases call <;> simp [Call.isSend]

theorem length_packetsRead (calls : List Call) :
    (packetsRead calls).length = calls.countP Call.isPacketRead := by
  rw [packetsRead, List.length_filterMap_eq_countP]
  refine List.countP_congr fun call _ => ?_
  rcases call with (_ | _) | _ | _ | _ | _ | _ | _ | _ <;> simp [Call.isPacketRead]

theorem sends_le (hrun : Run (Step ctx addr) run calls point) :
    (packetsSent calls).length ≤ 2 * (packetsRead calls).length := by
  have hcost := hrun.cost_add_le fun _ _ _ h => (spends_step h).sends
  rw [sum_map_ite, sum_map_ite, Nat.one_mul] at hcost
  simp only [sendsLeft] at hcost
  rw [length_packetsSent, length_packetsRead]
  omega

/-- A task has nothing left to do but to remove its player. -/
theorem of_remove {hello : Hello} {outcome : Outcome}
    (hrun : Run (Step ctx addr) (remove hello outcome) calls point) :
    calls = [] ∨ ∃ removed, calls = [.remove (offlineUuid ctx.md5 hello.name) removed] := by
  cases calls with
  | nil => exact .inl rfl
  | cons call later =>
      rw [← List.nil_append (call :: later)] at hrun
      obtain ⟨t, t', hnil, hstep, hlater⟩ := hrun.step_at
      rw [← hnil.of_nil] at hstep
      cases hstep with
      | remove removed =>
          obtain rfl := of_ended hlater
          exact .inr ⟨removed, rfl⟩

/-- Where a failed read leads. -/
theorem step_read_error {e : ConnError} (h : Step ctx addr point (.read (.error e)) next) :
    ∃ outcome, next = ended outcome ∨ ∃ hello, point.seat = some hello ∧
      next = remove hello outcome := by
  cases point with
  | run | login | loginAcknowledged =>
      cases h
      exact ⟨_, .inl rfl⟩
  | status =>
      cases h
      cases e <;> exact ⟨_, .inl rfl⟩
  | configuration hello =>
      cases h
      exact ⟨_, .inr ⟨hello, rfl, rfl⟩⟩
  | _ => cases h

end Point

/-- For each read a task makes at most five calls, and for each packet it is sent it sends at
most two; after a read that fails it only removes its player. -/
theorem work_bounded {ctx : Context} {addr : SocketAddr} {calls : List Call} {point : Point}
    (hrun : Run (Point.Step ctx addr) .run calls point) :
    calls.length ≤ 5 * calls.countP Call.isRead ∧
      (packetsSent calls).length ≤ 2 * (packetsRead calls).length ∧
      ∀ done e later, calls = done ++ .read (.error e) :: later →
        later = [] ∨
          ∃ info removed, seated done = some info ∧ later = [.remove info.uuid removed] := by
  refine ⟨Point.calls_le hrun, Point.sends_le hrun, ?_⟩
  rintro done e later rfl
  obtain ⟨t, t', hdone, hstep, hlater⟩ := hrun.step_at
  obtain ⟨outcome, rfl | ⟨hello, hseat, rfl⟩⟩ := Point.step_read_error hstep
  · exact .inl (Point.of_ended hlater)
  · refine (Point.of_remove hlater).imp_right ?_
    rintro ⟨removed, rfl⟩
    refine ⟨Point.entry ctx addr hello, removed, ?_, rfl⟩
    rw [Point.seated_of_run hdone, hseat]
    rfl

theorem work_bounded_notch :
    (notchCalls ++ [Call.tryInsert notch 20 (.ok ())]).length ≤ 5 * 3 ∧
      [Clientbound.setCompression ⟨256⟩,
        .loginFinished ⟨notch.uuid, "Notch", [], some false⟩].length ≤ 2 * 3 := by
  obtain ⟨hcalls, hsent, -⟩ := work_bounded notch_run
  exact ⟨hcalls, hsent⟩

/-! ## Peers that hang up -/

/-- The call fails if it needs the peer. -/
def Call.HungUp : Call → Prop
  | .read result => ∃ e, result = .error e
  | .send _ result => ∃ e, result = .error e
  | _ => True

/-- Whatever call it is, the registry answers it. -/
theorem Action.exists_step {action : Action} (h : action ≠ .none) (r : PlayerRegistry) :
    ∃ call next r', call.HungUp ∧ action.Step call next ∧ call.Acts r r' := by
  cases action with
  | read next => exact ⟨.read (.error .closed), _, r, ⟨_, rfl⟩, .read _, rfl⟩
  | send packet next => exact ⟨.send packet (.error .closed), _, r, ⟨_, rfl⟩, .send _, rfl⟩
  | enableCompression threshold next =>
      exact ⟨.enableCompression threshold, _, r, trivial, .enableCompression, rfl⟩
  | count next => exact ⟨.count r.count, _, r, trivial, .count _, rfl, rfl⟩
  | sampleNames limit next =>
      exact ⟨.sampleNames limit _, _, r, trivial, .sampleNames _, ⟨_, List.Perm.refl _, rfl⟩, rfl⟩
  | json online sample next => exact ⟨.json online sample "", _, r, trivial, .json _, rfl⟩
  | tryInsert info maxPlayers next =>
      exact ⟨.tryInsert info maxPlayers _, _, _, trivial, .tryInsert _, rfl⟩
  | remove uuid next => exact ⟨.remove uuid _, _, _, trivial, .remove _, rfl⟩
  | none => exact absurd rfl h

namespace Point

variable {ctx : Context} {addr : SocketAddr} {point next : Point} {call : Call}

/-- The calls a task has left once its peer has hung up. -/
def hangUpLeft : Point → Nat
  | ended _ => 0
  | run | refuseVersion _ | status | statusRespond _ | statusPong _ | login | refuseOnline
  | setCompression _ _ | loginFinished _ | loginAcknowledged _ | refuseLogin _ | remove _ _ => 1
  | statusJson _ _ | enableCompression _ _ | brand _ | selectKnownPacks _ | configuration _
  | refuseRegistry _ => 2
  | statusSample _ | tryInsert _ => 3
  | statusCount => 4

theorem hangUpLeft_le (point : Point) : point.hangUpLeft ≤ 4 := by
  cases point <;> simp [hangUpLeft]

theorem hangUpLeft_step (h : Step ctx addr point call next) (hcall : call.HungUp) :
    next.hangUpLeft < point.hangUpLeft := by
  cases point with
  | run | login | loginAcknowledged | configuration =>
      cases h with
      | read result =>
          obtain ⟨e, rfl⟩ := hcall
          exact Nat.le_of_ble_eq_true rfl
  | status =>
      cases h with
      | read result =>
          obtain ⟨e, rfl⟩ := hcall
          cases e <;> exact Nat.le_of_ble_eq_true rfl
  | statusCount | statusSample | statusJson | enableCompression | remove =>
      cases h
      exact Nat.le_of_ble_eq_true rfl
  | tryInsert hello =>
      cases h with
      | tryInsert result => cases result <;> exact Nat.le_of_ble_eq_true rfl
  | refuseVersion | statusPong | setCompression | statusRespond | loginFinished | refuseOnline
  | refuseLogin | brand | selectKnownPacks | refuseRegistry =>
      cases h with
      | send result =>
          obtain ⟨e, rfl⟩ := hcall
          exact Nat.le_of_ble_eq_true rfl
  | ended outcome => cases h

theorem action_eq_none (h : point.action ctx addr = .none) : ∃ outcome, point = ended outcome := by
  cases point with
  | ended outcome => exact ⟨outcome, rfl⟩
  | _ => cases h

end Point

namespace System

variable {ctx : Context} {events tail : List Event} {s t u : System} {event : Event}

/-- A task takes a step, its peer having hung up. -/
def HangUpStep (ctx : Context) (s : System) (event : Event) (t : System) : Prop :=
  Step ctx s event t ∧ ∃ c call, event = .act c call ∧ call.HungUp

theorem HangUpStep.run (hdrain : Run (HangUpStep ctx) s tail t) : Run (Step ctx) s tail t := by
  induction hdrain with
  | nil => exact Run.nil
  | snoc _ hlast ih => exact ih.snoc hlast.1

theorem HangUpStep.of_run (hrun : Run (Step ctx) s tail t)
    (htail : ∀ event ∈ tail, ∃ c call, event = .act c call ∧ call.HungUp) :
    Run (HangUpStep ctx) s tail t := by
  induction hrun with
  | nil => exact Run.nil
  | snoc _ hlast ih =>
      exact (ih fun event hmem => htail event (List.mem_append_left _ hmem)).snoc
        ⟨hlast, htail _ (List.mem_append_right _ List.mem_cons_self)⟩

/-- Every entry is the seat of a connection, whether or not identifiers are distinct. -/
def Held (events : List Event) (r : PlayerRegistry) : Prop :=
  ∀ uuid info, r.get uuid = some info → uuid = info.uuid ∧ ∃ c, seat events c = some info

theorem Held.step (h : Held events s.shared) (hrun : Run (Step ctx) new events s)
    (hstep : Step ctx s event t) : Held (events ++ [event]) t.shared := by
  intro uuid info hget
  cases hstep with
  | start hfree =>
      obtain ⟨huuid, c, hseat⟩ := h uuid info hget
      exact ⟨huuid, c, seat_start.trans hseat⟩
  | @act c addr point next call r' htask hpoint hacts =>
      have hown := seat_of_task hrun htask
      have hother : ∀ {c' : Nat}, c' ≠ c → seat events c' = some info →
          ∃ c', seat (events ++ [.act c call]) c' = some info :=
        fun hc hseat => ⟨_, (seat_act_ne hc).trans hseat⟩
      rcases call.trichotomy with
        ⟨inserted, maxPlayers, rfl⟩ | ⟨removed, player, rfl⟩ | ⟨hsame, hquiet⟩
      · obtain ⟨hello, rfl, -⟩ := Point.step_tryInsert hpoint
        obtain ⟨-, hself, hothers⟩ := PlayerRegistry.tryInsert_ok hacts
        by_cases huuid : uuid = inserted.uuid
        · rw [huuid, hself] at hget
          obtain rfl := Option.some.inj hget
          exact ⟨huuid, c, seat_act_self⟩
        · rw [hothers uuid huuid] at hget
          obtain ⟨hkey, c', hseat⟩ := h uuid info hget
          refine ⟨hkey, hother ?_ hseat⟩
          rintro rfl
          rw [hown] at hseat
          cases hseat
      · obtain ⟨hello, outcome, rfl, rfl, -⟩ := Point.step_remove hpoint
        obtain ⟨-, hgone, hothers⟩ := PlayerRegistry.remove_get hacts
        by_cases huuid : uuid = offlineUuid ctx.md5 hello.name
        · rw [huuid, hgone] at hget
          cases hget
        · rw [hothers uuid huuid] at hget
          obtain ⟨hkey, c', hseat⟩ := h uuid info hget
          refine ⟨hkey, hother ?_ hseat⟩
          rintro rfl
          rw [hown] at hseat
          obtain rfl := Option.some.inj hseat
          exact huuid hkey
      · obtain rfl := hsame _ _ hacts
        obtain ⟨hkey, c', hseat⟩ := h uuid info hget
        refine ⟨hkey, c', ?_⟩
        by_cases hc : c' = c
        · rw [hc, seat_act_self, hquiet, ← hc]
          exact hseat
        · exact (seat_act_ne hc).trans hseat

theorem held_of_run (hrun : Run (Step ctx) new events s) : Held events s.shared := by
  induction hrun with
  | nil =>
      intro uuid info hget
      cases hget
  | snoc hbefore hlast ih => exact ih.step hbefore hlast

/-- A connection that has not ended can take a step. -/
theorem exists_hangUpStep {c : Nat} {addr : SocketAddr} {point : Point}
    (htask : s.task c = some (addr, point)) (hpoint : ∀ outcome, point ≠ .ended outcome) :
    ∃ event t, HangUpStep ctx s event t := by
  have haction : point.action ctx addr ≠ .none := fun hnone =>
    (Point.action_eq_none hnone).elim hpoint
  obtain ⟨call, next, r', hcall, hstep, hacts⟩ := Action.exists_step haction s.shared
  exact ⟨_, _, Tasks.Step.act htask hstep hacts, c, call, rfl, hcall⟩

theorem not_hangUpStep_of_ended
    (hended : ∀ c addr point, s.task c = some (addr, point) → ∃ outcome, point = .ended outcome) :
    ¬ ∃ event t, HangUpStep ctx s event t := by
  rintro ⟨event, t, hstep, c, call, rfl, -⟩
  cases hstep with
  | @act _ addr point next _ r htask hpoint hacts =>
      obtain ⟨outcome, rfl⟩ := hended c addr point htask
      cases hpoint

theorem HangUpStep.task_mem {ids : Finset Nat} (hids : ∀ c task, s.task c = some task → c ∈ ids)
    (hstep : HangUpStep ctx s event t) : ∀ c task, t.task c = some task → c ∈ ids := by
  obtain ⟨hstep, c, call, rfl, -⟩ := hstep
  cases hstep with
  | @act _ addr point next _ r htask hpoint hacts =>
      intro c' task htask'
      by_cases hc : c' = c
      · exact hc ▸ hids c _ htask
      · exact hids c' task ((Function.update_of_ne hc _ _).symm.trans htask')

theorem HangUpStep.total_lt {ids : Finset Nat} (hids : ∀ c task, s.task c = some task → c ∈ ids)
    (hstep : HangUpStep ctx s event t) :
    Tasks.total Point.hangUpLeft ids t < Tasks.total Point.hangUpLeft ids s := by
  obtain ⟨hstep, c, call, rfl, hcall⟩ := hstep
  cases hstep with
  | @act _ addr point next _ r htask hpoint hacts =>
      have hlt := Point.hangUpLeft_step hpoint hcall
      have htotal := Tasks.total_update Point.hangUpLeft r next (hids c _ htask) htask
      omega

/-- Once every peer has hung up, no schedule of the connections accepted so far takes more
than four steps for each, and when no step is left all have ended and the registry is empty,
whether or not their identifiers are distinct. -/
theorem drains (hrun : Run (Step ctx) new events s) (hdrain : Run (HangUpStep ctx) s tail t) :
    tail.length ≤ 4 * (Tasks.started events).length ∧
      ((∃ event u, HangUpStep ctx t event u) ∨
        (∀ c addr point, t.task c = some (addr, point) → ∃ outcome, point = .ended outcome) ∧
          t.shared = .new) := by
  constructor
  · have hids : ∀ c task, s.task c = some task → c ∈ (Tasks.started events).toFinset :=
      fun c task htask => List.mem_toFinset.mpr (Tasks.mem_started hrun htask)
    calc tail.length ≤ Tasks.total Point.hangUpLeft (Tasks.started events).toFinset s :=
          hdrain.length_le (fun _ _ _ h hstep => hstep.task_mem h)
            (fun _ _ _ h hstep => hstep.total_lt h) hids
      _ ≤ 4 * (Tasks.started events).toFinset.card := Tasks.total_le Point.hangUpLeft_le
      _ ≤ 4 * (Tasks.started events).length := Nat.mul_le_mul_left 4 (List.toFinset_card_le _)
  · by_cases hended : ∀ c addr point, t.task c = some (addr, point) →
        ∃ outcome, point = .ended outcome
    · have hall := hrun.trans (HangUpStep.run hdrain)
      refine .inr ⟨hended, empty_of_ended hall (fun uuid info hget => ?_) hended⟩
      exact (held_of_run hall uuid info hget).2
    · simp only [not_forall, not_exists] at hended
      obtain ⟨c, addr, point, htask, hpoint⟩ := hended
      exact .inl (exists_hangUpStep htask hpoint)

/-- Both players are gone once their connections have broken. -/
theorem drains_pair : ∃ tail t, Run (HangUpStep notchContext) pairJoined tail t ∧
    tail.length ≤ 4 * 2 ∧ pairJoined.shared.count = 2 ∧ t.shared = .new := by
  have hnotch : Run (Step notchContext) notchStayed _ _ :=
    run_breaks (rfl : notchStayed.task 0 = some (notchAddr, .brand ⟨"Notch", 0⟩))
  have hdrain := HangUpStep.of_run (alice_leaves.trans hnotch) (by
    intro event hevent
    simp only [aliceLeaves, List.cons_append, List.nil_append, List.mem_cons, List.not_mem_nil,
      or_false] at hevent
    rcases hevent with rfl | rfl | rfl | rfl
    · exact ⟨1, _, rfl, _, rfl⟩
    · exact ⟨1, _, rfl, trivial⟩
    · exact ⟨0, _, rfl, _, rfl⟩
    · exact ⟨0, _, rfl, trivial⟩)
  obtain ⟨hlength, hend⟩ := drains pair_joined hdrain
  refine ⟨_, _, hdrain, hlength, rfl, (hend.resolve_left (not_hangUpStep_of_ended ?_)).2⟩
  intro c addr point htask
  by_cases hzero : c = 0
  · subst hzero
    cases htask
    exact ⟨_, rfl⟩
  · by_cases hone : c = 1
    · subst hone
      cases htask
      exact ⟨_, rfl⟩
    · simp [hzero, hone, Tasks.initial] at htask

end System

end Rukkit.Server
