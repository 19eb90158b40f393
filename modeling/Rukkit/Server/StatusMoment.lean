import Rukkit.Server.Registry
import Rukkit.Server.Slots

/-!
# The moments of a status request

The count and the sample of a status response are read by two calls.  Which states of
the registry they show.
-/

namespace Rukkit.Server

open Rukkit.Lib Rukkit.Protocol

namespace Point

variable {ctx : Context} {addr : SocketAddr} {point next : Point} {call : Call}
  {calls : List Call}

/-- How a task gets to the points of a status request after the count. -/
def EnteredBy (point : Point) (call : Call) : Point → Prop
  | statusSample online => call = .count online
  | statusJson online sample => point = statusSample online ∧ call = .sampleNames 12 sample
  | statusRespond text =>
      ∃ online sample, point = statusJson online sample ∧ call = .json (asI32 online) sample text
  | _ => True

theorem EnteredBy.orEnd {α : Type} {result : Except ConnError α} {f : α → Point}
    (h : ∀ a, EnteredBy point call (f a)) : EnteredBy point call (orEnd result f) :=
  orEnd_rule (fun a _ => h a) fun _ => trivial

theorem EnteredBy.orRemove {α : Type} {hello : Hello} {result : Except ConnError α}
    {f : α → Point} (h : ∀ a, EnteredBy point call (f a)) :
    EnteredBy point call (orRemove hello result f) :=
  orRemove_rule (fun a _ => h a) fun _ => trivial

theorem enteredBy_afterIntention (intention : Intention) :
    EnteredBy point call (afterIntention intention) := by
  unfold afterIntention
  split
  · trivial
  · split <;> trivial
  · split <;> trivial

theorem enteredBy_afterHello (config : ServerConfig) (hello : Hello) :
    EnteredBy point call (afterHello config hello) := by
  unfold afterHello
  split
  · trivial
  · split <;> trivial

theorem enteredBy_of_step (h : Step ctx addr point call next) : EnteredBy point call next := by
  cases point with
  | statusCount =>
      cases h
      rfl
  | statusSample online =>
      cases h
      exact ⟨rfl, rfl⟩
  | statusJson online sample =>
      cases h
      exact ⟨online, sample, rfl, rfl⟩
  | run =>
      cases h
      exact EnteredBy.orEnd enteredBy_afterIntention
  | login =>
      cases h
      exact EnteredBy.orEnd (enteredBy_afterHello ctx.config)
  | status =>
      cases h with
      | read result =>
          dsimp only
          split
          · trivial
          · exact EnteredBy.orEnd (by rintro (_ | payload) <;> trivial)
  | tryInsert hello =>
      cases h with
      | tryInsert result => cases result <;> trivial
  | loginAcknowledged hello | statusRespond json | refuseOnline | setCompression hello threshold
  | loginFinished hello | refuseLogin why =>
      cases h
      exact EnteredBy.orEnd fun _ => trivial
  | configuration hello =>
      cases h
      exact EnteredBy.orRemove (by rintro (_ | _ | _) <;> trivial)
  | brand hello | selectKnownPacks hello | refuseRegistry hello =>
      cases h
      exact EnteredBy.orRemove fun _ => trivial
  | refuseVersion | statusPong | enableCompression | remove =>
      cases h
      trivial
  | ended outcome => cases h

/-- The calls a task has just made to answer a status request. -/
def Asked (calls : List Call) : Point → Prop
  | statusSample online => ∃ done, calls = done ++ [.count online]
  | statusJson online sample =>
      ∃ done, calls = done ++ [.count online] ++ [.sampleNames 12 sample]
  | _ => True

theorem Asked.step (h : point.Asked calls) (hstep : Step ctx addr point call next) :
    next.Asked (calls ++ [call]) := by
  have hentered := enteredBy_of_step hstep
  cases next with
  | statusSample online =>
      obtain rfl := hentered
      exact ⟨calls, rfl⟩
  | statusJson online sample =>
      obtain ⟨rfl, rfl⟩ := hentered
      obtain ⟨done, rfl⟩ := h
      exact ⟨done, rfl⟩
  | _ => trivial

theorem asked_of_run (hrun : Run (Step ctx addr) run calls point) : point.Asked calls :=
  hrun.invariant_labels (I := fun calls point => point.Asked calls) trivial
    fun _ _ _ _ h hstep => h.step hstep

theorem step_json {online : Int32} {sample : List String} {text : String}
    (h : Step ctx addr point (.json online sample text) next) :
    ∃ count, online = asI32 count ∧ point = statusJson count sample := by
  cases point with
  | statusJson count sample =>
      cases h
      exact ⟨count, rfl, rfl⟩
  | _ => cases h

end Point

namespace System

variable {ctx : Context} {events : List Event} {s t : System} {c : Nat} {online : Int32}
  {sample : List String}

/-- The calls go through the registry with the configured capacity. -/
theorem registryInv_of_run (hrun : Run (Step ctx) new events s) :
    s.shared.Inv (max ctx.config.maxPlayers 0).toNatClampNeg := by
  apply hrun.invariant (I := fun s : System =>
    s.shared.Inv (max ctx.config.maxPlayers 0).toNatClampNeg) PlayerRegistry.Inv.new
  intro a event b h hstep
  cases hstep with
  | start hfree => exact h
  | @act id addr point next call r htask hstep hacts =>
      rcases call.trichotomy with ⟨info, maxPlayers, rfl⟩ | ⟨uuid, removed, rfl⟩ | ⟨hsame, -⟩
      · obtain ⟨hello, rfl, -⟩ := Point.step_tryInsert hstep
        cases hstep
        have hcall : PlayerRegistry.Step _ a.shared (id, .tryInsert _ (.ok ())) r :=
          .tryInsert hacts
        exact h.step hcall
      · exact h.step (.remove hacts : PlayerRegistry.Step _ a.shared (id, .remove uuid removed) r)
      · exact (hsame _ _ hacts).symm ▸ h

/-- While nobody joins or leaves the registry stays the same. -/
theorem shared_of_quiet (hrun : Run (Step ctx) s events t)
    (hjoins : ∀ id info maxPlayers,
      Tasks.Event.act id (.tryInsert info maxPlayers (.ok ())) ∉ events)
    (hleaves : ∀ id uuid removed, Tasks.Event.act id (.remove uuid removed) ∉ events) :
    t.shared = s.shared := by
  induction hrun with
  | nil => rfl
  | @snoc done mid t event hbefore hlast ih =>
      have hmid : mid.shared = s.shared := ih
        (fun id info maxPlayers h => hjoins id info maxPlayers (List.mem_append_left _ h))
        (fun id uuid removed h => hleaves id uuid removed (List.mem_append_left _ h))
      have hevent : event ∈ done ++ [event] := List.mem_append_right _ List.mem_cons_self
      cases hlast with
      | start hfree => exact hmid
      | @act id addr point next call r htask hstep hacts =>
          rcases call.trichotomy with ⟨info, maxPlayers, rfl⟩ | ⟨uuid, removed, rfl⟩ | ⟨hsame, -⟩
          · exact absurd hevent (hjoins id info maxPlayers)
          · exact absurd hevent (hleaves id uuid removed)
          · exact (hsame _ _ hacts).trans hmid

/-- One state of the registry has the size and supplies the sample. -/
def DescribesOneMoment (ctx : Context) (events : List Event) (online : Int32)
    (sample : List String) : Prop :=
  ∃ before after t, events = before ++ after ∧ Run (Step ctx) new before t ∧
    online = asI32 t.shared.count ∧ t.shared.SampleNames 12 sample

end System

theorem PlayerRegistry.SampleNames.length {r : PlayerRegistry} {limit : Nat}
    {names : List String} (h : r.SampleNames limit names) : names.length = min limit r.count := by
  obtain ⟨order, hperm, rfl⟩ := h
  rw [List.length_map, List.length_take, hperm.length_eq, values, List.length_map]
  rfl

namespace System

variable {ctx : Context} {events : List Event} {s t : System} {c : Nat} {online : Int32}
  {sample : List String} {text : String} {done later : List Event}

/-- The number and the sample a status request passes on are those of two moments of the
request, the second after the first, and the registry is the same at both unless somebody
joins or leaves between them. -/
theorem status_two_moments (hrun : Run (Step ctx) new events s)
    (hevents : events = done ++ Tasks.Event.act c (.json online sample text) :: later) :
    ∃ before between after count t u, done = before ++ Tasks.Event.act c (.count count) ::
        between ++ Tasks.Event.act c (.sampleNames 12 sample) :: after ∧
      Tasks.labels c between = [] ∧ Tasks.labels c after = [] ∧
      Run (Step ctx) new before t ∧
      Run (Step ctx) new (before ++ Tasks.Event.act c (.count count) :: between) u ∧
      count = t.shared.count ∧ online = asI32 count ∧ u.shared.SampleNames 12 sample ∧
      sample.length = min 12 u.shared.count ∧
      ((∀ id info maxPlayers,
          Tasks.Event.act id (.tryInsert info maxPlayers (.ok ())) ∉ between) →
        (∀ id uuid removed, Tasks.Event.act id (.remove uuid removed) ∉ between) →
        u.shared = t.shared ∧ sample.length = min 12 count) := by
  subst hevents
  obtain ⟨a, a', hdone, hjson, -⟩ := hrun.step_at
  cases hjson with
  | @act _ addr point next _ r htask hstep hacts =>
      obtain ⟨count, rfl, rfl⟩ := Point.step_json hstep
      obtain ⟨calls, hcalls⟩ := Point.asked_of_run (Tasks.project hdone htask).2
      obtain ⟨first, after, rfl, hfirst, hafter⟩ := Tasks.exists_last_act hcalls
      obtain ⟨before, between, rfl, -, hbetween⟩ := Tasks.exists_last_act hfirst
      obtain ⟨u, u', hsampled, hsample, -⟩ := hdone.step_at
      have hsampled' := hsampled
      obtain ⟨t, t', hcounted, hcount, hrest⟩ := hsampled'.step_at
      cases hsample with
      | @act _ addr' point' next' _ r' htask' hstep' hacts' =>
          cases hcount with
          | @act _ addr'' point'' next'' _ r'' htask'' hstep'' hacts'' =>
              obtain ⟨hsize, rfl⟩ := hacts''
              refine ⟨before, between, after, count, t, u, rfl, hbetween, hafter, hcounted,
                hsampled, hsize, rfl, hacts'.1, hacts'.1.length, ?_⟩
              intro hjoins hleaves
              have hsame := shared_of_quiet hrest hjoins hleaves
              change u.shared = t.shared at hsame
              refine ⟨hsame, ?_⟩
              rw [hacts'.1.length, hsame, hsize]

/-- The calls of a status request up to the count. -/
abbrev pingCalls (online : Nat) : List Call :=
  [.read (.ok [0, 136, 6, 9, 108, 111, 99, 97, 108, 104, 111, 115, 116, 99, 221, 1]),
    .read (.ok [0]), .count online]

abbrev pingAddr : SocketAddr := ⟨.v4 0x7F000001, 50001⟩

theorem ping_run (online : Nat) : Run (Point.Step notchContext pingAddr) .run (pingCalls online)
    (.statusSample online) := by
  have h₁ : Point.Step notchContext pingAddr .run (.read (.ok [0, 136, 6, 9, 108, 111, 99, 97,
      108, 104, 111, 115, 116, 99, 221, 1])) .status := Action.Step.read _
  have h₂ : Point.Step notchContext pingAddr .status (.read (.ok [0])) .statusCount :=
    Action.Step.read _
  have h₃ : Point.Step notchContext pingAddr .statusCount (.count online)
      (.statusSample online) := Action.Step.count _
  exact (((Run.nil.snoc h₁).snoc h₂).snoc h₃)

/-- A status request between whose two calls `Notch` joins an empty server. -/
abbrev tornEvents : List Event :=
  [.start 1 pingAddr] ++ (pingCalls 0).map (.act 1) ++ notchEvents ++
    [.act 1 (.sampleNames 12 ["Notch"])]

theorem torn_run : ∃ s : System, Run (Step notchContext) new
    (tornEvents ++ [.act 1 (.json 0 ["Notch"] "{}")]) s := by
  let idle : Nat → Option (SocketAddr × Point) := new.task
  let pinged := Function.update idle 1 (some (pingAddr, Point.statusSample 0))
  let joined := Function.update pinged 0 (some (notchAddr, Point.brand ⟨"Notch", 0⟩))
  let sampled := Function.update joined 1 (some (pingAddr, Point.statusJson 0 ["Notch"]))
  let r := (PlayerRegistry.new.tryInsert notch 20).1
  have hstart : Step notchContext new (.start 1 pingAddr)
      ⟨.new, Function.update idle 1 (some (pingAddr, .run))⟩ := Tasks.Step.start rfl
  have hping : Run (Step notchContext) _ _ _ :=
    Tasks.run_alone (ping_run 0) (s := ⟨.new, Function.update idle 1 (some (pingAddr, .run))⟩)
      (Function.update_self ..) (by simp [Call.Acts]; rfl)
  rw [Function.update_idem] at hping
  have hjoin : Run (Step notchContext) ⟨.new, pinged⟩ notchEvents ⟨r, joined⟩ :=
    Tasks.run_started rfl notch_run (by simp [Call.Acts]) rfl
  have hsample : Step notchContext ⟨r, joined⟩ (.act 1 (.sampleNames 12 ["Notch"]))
      ⟨r, sampled⟩ :=
    Tasks.Step.act rfl (Action.Step.sampleNames _) ⟨⟨[notch], List.Perm.refl _, rfl⟩, rfl⟩
  have hjson : Step notchContext ⟨r, sampled⟩ (.act 1 (.json 0 ["Notch"] "{}")) ⟨r, _⟩ :=
    Tasks.Step.act rfl (Action.Step.json _) rfl
  exact ⟨_, ((((Run.single hstart).trans hping).trans hjoin).snoc hsample).snoc hjson⟩

theorem status_two_moments_torn : ∃ (count : Nat) (u : System), 0 = asI32 count ∧
    u.shared.SampleNames 12 ["Notch"] ∧ ["Notch"].length = min 12 u.shared.count := by
  obtain ⟨s, hrun⟩ := torn_run
  obtain ⟨_, _, _, count, _, u, -, -, -, -, -, -, honline, hsample, hlength, -⟩ :=
    status_two_moments hrun rfl
  exact ⟨count, u, honline, hsample, hlength⟩

/-- The request is told of zero players, one of whom is `Notch`. -/
theorem status_torn : ¬ ∀ (ctx : Context) (events : List Event) (s : System) (c : Nat)
    (online : Int32) (sample : List String) (text : String) (done later : List Event),
    Run (Step ctx) new events s →
    events = done ++ Tasks.Event.act c (.json online sample text) :: later →
    DescribesOneMoment ctx done online sample := by
  intro h
  obtain ⟨s, hrun⟩ := torn_run
  obtain ⟨before, after, t, -, hbefore, hcount, hsample⟩ :=
    h notchContext _ s 1 0 ["Notch"] "{}" tornEvents [] hrun rfl
  have hle : t.shared.count ≤ 20 := (registryInv_of_run hbefore).count_le
  have hlength : 1 = min 12 t.shared.count := hsample.length
  have hzero : (asI32 t.shared.count).toInt = t.shared.count := toInt_asI32 (by omega)
  rw [← hcount, Int32.toInt_zero] at hzero
  omega

end System

end Rukkit.Server
