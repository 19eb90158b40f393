import Rukkit.Server.Serving
import Rukkit.Server.TickMetrics

/-!
# The life of a server

The model of `Server::run` in `rukkit-server/src/server.rs`: the accept loop, the tick loop
and how an interrupt stops both, over the connections they leave running.
-/

namespace Rukkit.Server

open Rukkit.Lib Rukkit.Protocol

/-! ## The tick loop -/

/-- How many tick samples to keep: one minute at 20 Hz. -/
def tickWindow : Nat := 1200

/-- How often to log tick health. -/
def tickReportInterval : UInt64 := 20 * 30

/-- The task of `tick_loop`, with the metrics whose summaries it has logged. -/
structure TickLoop where
  metrics : TickMetrics
  reports : List TickMetrics
  stopped : Bool
deriving DecidableEq, Repr

namespace TickLoop

/-- Up to the loop; `none` is a panic, as an interval of no length makes. -/
def start (target : Duration) : Option TickLoop :=
  if target = 0 then none
  else (TickMetrics.new target tickWindow).map fun metrics =>
    { metrics, reports := [], stopped := false }

/-- The branch of the timer; the tick itself has no game logic. -/
def tick (loop : TickLoop) (elapsed : Duration) : TickLoop :=
  let metrics := loop.metrics.record elapsed
  { loop with
    metrics
    reports := loop.reports ++
      if metrics.totalTicks % tickReportInterval = 0 then [metrics] else [] }

/-- The branch of the shutdown message. -/
def stop (loop : TickLoop) : TickLoop :=
  { loop with reports := loop.reports ++ [loop.metrics], stopped := true }

/-- The loop after a history of ticks. -/
def after (target : Duration) (ticks : List Duration) (stopped : Bool) : TickLoop where
  metrics := TickMetrics.after target tickWindow ticks
  reports := (checkpoints 600 ticks).map (TickMetrics.after target tickWindow) ++
    if stopped then [TickMetrics.after target tickWindow ticks] else []
  stopped := stopped

variable {target : Duration} {ticks : List Duration} {loop : TickLoop}

theorem start_eq_some (h : start target = some loop) : loop = after target [] false := by
  unfold start at h
  split at h
  · cases h
  · obtain ⟨metrics, hmetrics, rfl⟩ := Option.map_eq_some_iff.mp h
    rw [(TickMetrics.new_eq_some hmetrics).2]
    rfl

theorem total_mod {n : Nat} (hn : n < 2 ^ 64) :
    UInt64.ofNat n % tickReportInterval = 0 ↔ n % 600 = 0 := by
  rw [← UInt64.toNat_inj, UInt64.toNat_mod, UInt64.toNat_ofNat_of_lt' hn]
  rfl

/-- One more tick, the counter not having wrapped. -/
theorem tick_after (hlt : ticks.length + 1 < 2 ^ 64) (elapsed : Duration) :
    (after target ticks false).tick elapsed = after target (ticks ++ [elapsed]) false := by
  have hrecord : (TickMetrics.after target tickWindow ticks).record elapsed =
      TickMetrics.after target tickWindow (ticks ++ [elapsed]) :=
    TickMetrics.record_after (by decide) elapsed
  have htotal : (TickMetrics.after target tickWindow (ticks ++ [elapsed])).totalTicks =
      UInt64.ofNat (ticks.length + 1) := by
    rw [TickMetrics.after, List.length_append, List.length_singleton]
  unfold tick after
  dsimp only
  rw [hrecord, htotal, checkpoints_snoc (by decide)]
  simp only [total_mod hlt]
  by_cases hreport : (ticks.length + 1) % 600 = 0 <;> simp [hreport]

theorem stop_after : (after target ticks false).stop = after target ticks true := by
  simp [stop, after]

end TickLoop

/-! ## The server -/

/-- Where the task of `Server::run` stands. -/
inductive MainPoint where
  | accepting
  | awaiting
  | returned
deriving DecidableEq, Repr

structure ServerRun where
  services : Services
  main : MainPoint
  /-- `none` once it has panicked. -/
  ticker : Option TickLoop
  /-- Whether the shutdown message has been sent. -/
  shutdown : Bool

inductive ServerEvent where
  /-- A connection is accepted, or its task takes a step. -/
  | service (event : Tasks.Event SocketAddr Service.Label)
  | acceptFailed
  | ctrlC
  /-- The accept loop hears the shutdown message. -/
  | acceptShutdown
  | tick (elapsed : Duration)
  | tickerStopped
  /-- `ticker.await` returns, and with it `Server::run`. -/
  | joined

namespace ServerRun

/-- What `ticker.await` waits for: the task has returned or panicked. -/
def TickerDone (s : ServerRun) : Prop := ∀ loop, s.ticker = some loop → loop.stopped = true

inductive Step (ctx : Context) (toJson : ServerStatus → String) :
    ServerRun → ServerEvent → ServerRun → Prop
  | accepted {s : ServerRun} {id : Nat} {addr : SocketAddr} {services : Services} :
      s.main = .accepting → Services.Step ctx toJson s.services (.start id addr) services →
      Step ctx toJson s (.service (.start id addr)) { s with services }
  | acceptFailed {s : ServerRun} : s.main = .accepting → Step ctx toJson s .acceptFailed s
  | task {s : ServerRun} {id : Nat} {label : Service.Label} {services : Services} :
      Services.Step ctx toJson s.services (.act id label) services →
      Step ctx toJson s (.service (.act id label)) { s with services }
  | ctrlC {s : ServerRun} : s.main = .accepting →
      Step ctx toJson s .ctrlC { s with main := .awaiting, shutdown := true }
  | acceptShutdown {s : ServerRun} : s.main = .accepting → s.shutdown = true →
      Step ctx toJson s .acceptShutdown { s with main := .awaiting }
  | tick {s : ServerRun} {loop : TickLoop} {elapsed : Duration} :
      s.ticker = some loop → loop.stopped = false →
      Step ctx toJson s (.tick elapsed) { s with ticker := some (loop.tick elapsed) }
  | tickerStopped {s : ServerRun} {loop : TickLoop} :
      s.ticker = some loop → loop.stopped = false → s.shutdown = true →
      Step ctx toJson s .tickerStopped { s with ticker := some loop.stop }
  | joined {s : ServerRun} : s.main = .awaiting → s.TickerDone →
      Step ctx toJson s .joined { s with main := .returned }

def new (ctx : Context) (target : Duration) : ServerRun where
  services := Services.new ctx
  main := .accepting
  ticker := TickLoop.start target
  shutdown := false

/-- The durations of the ticks of a run. -/
def ticks (events : List ServerEvent) : List Duration :=
  events.filterMap fun
    | .tick elapsed => some elapsed
    | _ => none

variable {ctx : Context} {toJson : ServerStatus → String} {target : Duration}
  {s s' : ServerRun} {events : List ServerEvent} {event : ServerEvent}

theorem ticks_snoc (h : ∀ elapsed, event ≠ .tick elapsed) :
    ticks (events ++ [event]) = ticks events := by
  rw [ticks, List.filterMap_append]
  cases event with
  | tick elapsed => exact absurd rfl (h elapsed)
  | _ => exact List.append_nil _

theorem ticks_tick (elapsed : Duration) :
    ticks (events ++ [.tick elapsed]) = ticks events ++ [elapsed] := by
  rw [ticks, List.filterMap_append]
  rfl

/-- What the connections do while the server accepts is a run of the server. -/
theorem run_services {done : List (Tasks.Event SocketAddr Service.Label)} {services : Services}
    (hmain : s.main = .accepting)
    (hrun : Run (Services.Step ctx toJson) s.services done services) :
    Run (Step ctx toJson) s (done.map .service) { s with services } := by
  induction hrun with
  | nil => exact Run.nil
  | @snoc done mid services event _ hlast ih =>
      rw [List.map_append]
      refine ih.snoc ?_
      cases event with
      | start id addr => exact Step.accepted hmain hlast
      | act id label => exact Step.task hlast

/-- A server that ticks twice, lets `Notch` in, and is interrupted. -/
abbrev briefEvents : List ServerEvent :=
  [.tick 5, .tick 70] ++ Services.notchEvents.map .service ++ [.ctrlC]

abbrev interrupted : ServerRun where
  services := Services.notchJoined
  main := .awaiting
  ticker := some (TickLoop.after 50 [5, 70] false)
  shutdown := true

variable (toJson) in
theorem brief_run :
    Run (Step notchContext toJson) (new notchContext 50) briefEvents interrupted := by
  let ticked (ticks : List Duration) : ServerRun :=
    { new notchContext 50 with ticker := some (TickLoop.after 50 ticks false) }
  have htick₁ : Step notchContext toJson (new notchContext 50) (.tick 5) (ticked [5]) :=
    @Step.tick _ _ _ (TickLoop.after 50 [] false) 5 rfl rfl
  have htick₂ : Step notchContext toJson (ticked [5]) (.tick 70) (ticked [5, 70]) :=
    @Step.tick _ _ _ (TickLoop.after 50 [5] false) 70 rfl rfl
  have hjoins : Run (Step notchContext toJson) (ticked [5, 70])
      (Services.notchEvents.map .service)
      { ticked [5, 70] with services := Services.notchJoined } :=
    run_services rfl (Services.notch_joins toJson)
  exact (((Run.single htick₁).snoc htick₂).trans hjoins).snoc (Step.ctrlC rfl)

/-! ## What the tick loop has logged -/

/-- The loop is as its ticks left it, the counter not having wrapped. -/
def Ticked (target : Duration) (events : List ServerEvent) (s : ServerRun) : Prop :=
  ∀ loop, s.ticker = some loop → (ticks events).length < 2 ^ 64 →
    loop = TickLoop.after target (ticks events) loop.stopped

theorem Ticked.step (h : Ticked target events s) (hstep : Step ctx toJson s event s') :
    Ticked target (events ++ [event]) s' := by
  intro loop hloop hlt
  cases hstep with
  | @tick loop' elapsed hticker hrunning =>
      obtain rfl := Option.some.inj hloop
      rw [ticks_tick] at hlt ⊢
      rw [List.length_append, List.length_singleton] at hlt
      have hloop' := h loop' hticker (Nat.lt_of_succ_lt hlt)
      rw [hrunning] at hloop'
      change _ = TickLoop.after target _ loop'.stopped
      rw [hrunning, hloop', TickLoop.tick_after hlt]
  | @tickerStopped loop' hticker hrunning hshutdown =>
      obtain rfl := Option.some.inj hloop
      rw [ticks_snoc (by rintro _ ⟨⟩)] at hlt ⊢
      have hloop' := h loop' hticker hlt
      rw [hrunning] at hloop'
      rw [hloop', TickLoop.stop_after]
      rfl
  | accepted | acceptFailed | task | ctrlC | acceptShutdown | joined =>
      rw [ticks_snoc (by rintro _ ⟨⟩)] at hlt ⊢
      exact h loop hloop hlt

/-- The tick loop's metrics are those of its ticks, and it has logged them after every 600th
tick and once more when it stopped, unless there were 2 ^ 64 ticks. -/
theorem reports_logged (hrun : Run (Step ctx toJson) (new ctx target) events s)
    (hlt : (ticks events).length < 2 ^ 64) {loop : TickLoop} (hloop : s.ticker = some loop) :
    loop.metrics = TickMetrics.after target tickWindow (ticks events) ∧
      loop.reports = (checkpoints 600 (ticks events)).map (TickMetrics.after target tickWindow) ++
        if loop.stopped then [loop.metrics] else [] := by
  have hticked : Ticked target events s := by
    refine hrun.invariant_labels (I := Ticked target) ?_ fun _ _ _ _ h hstep => h.step hstep
    intro loop hloop _
    rw [TickLoop.start_eq_some hloop]
    rfl
  obtain ⟨stopped, rfl⟩ : ∃ stopped, loop = TickLoop.after target (ticks events) stopped :=
    ⟨_, hticked loop hloop hlt⟩
  exact ⟨rfl, rfl⟩

theorem reports_logged_brief : ∃ loop : TickLoop, loop.stopped = true ∧
    loop.reports = [TickMetrics.after 50 tickWindow [5, 70]] := by
  have hstop : Step notchContext StatusCache.plainDocuments.toJson interrupted .tickerStopped
      { interrupted with ticker := some (TickLoop.after 50 [5, 70] true) } :=
    @Step.tickerStopped _ _ interrupted (TickLoop.after 50 [5, 70] false) rfl rfl rfl
  have hrun := (brief_run StatusCache.plainDocuments.toJson).snoc hstop
  exact ⟨_, rfl, (reports_logged hrun (by decide) rfl).2⟩

/-! ## Shutting down -/

/-- What the events so far say about where the tasks stand. -/
structure Inv (target : Duration) (events : List ServerEvent) (s : ServerRun) : Prop where
  accepting_iff : s.main = .accepting ↔ ServerEvent.ctrlC ∉ events
  shutdown_iff : s.shutdown = true ↔ ServerEvent.ctrlC ∈ events
  ticker_eq_none : s.ticker = none → target = 0
  stopped_iff : (∃ loop, s.ticker = some loop ∧ loop.stopped = true) ↔
    ServerEvent.tickerStopped ∈ events
  returned_done : s.main = .returned → s.TickerDone

theorem mem_snoc_of_ne {e : ServerEvent} (h : e ≠ event) : e ∈ events ++ [event] ↔ e ∈ events := by
  rw [List.mem_append, List.mem_singleton]
  exact or_iff_left h

/-- A step that is neither message nor return keeps what it leaves alone. -/
theorem Inv.keep (h : Inv target events s) (hctrlC : ServerEvent.ctrlC ≠ event)
    (hstopped : ServerEvent.tickerStopped ≠ event) (hmain : s'.main = s.main)
    (hshutdown : s'.shutdown = s.shutdown) (hnone : s'.ticker = none → s.ticker = none)
    (hticker : (∃ loop, s'.ticker = some loop ∧ loop.stopped = true) ↔
      ∃ loop, s.ticker = some loop ∧ loop.stopped = true)
    (hdone : s.TickerDone → s'.TickerDone) : Inv target (events ++ [event]) s' where
  accepting_iff := by rw [hmain, h.accepting_iff, mem_snoc_of_ne hctrlC]
  shutdown_iff := by rw [hshutdown, h.shutdown_iff, mem_snoc_of_ne hctrlC]
  ticker_eq_none hticker' := h.ticker_eq_none (hnone hticker')
  stopped_iff := by rw [hticker, h.stopped_iff, mem_snoc_of_ne hstopped]
  returned_done hreturned := hdone (h.returned_done (hmain ▸ hreturned))

theorem Inv.step (h : Inv target events s) (hstep : Step ctx toJson s event s') :
    Inv target (events ++ [event]) s' := by
  cases hstep with
  | accepted | acceptFailed | task =>
      exact h.keep nofun nofun rfl rfl id Iff.rfl id
  | ctrlC hmain =>
      refine ⟨?_, ?_, h.ticker_eq_none, ?_, ?_⟩
      · simp
      · simp
      · exact h.stopped_iff.trans (mem_snoc_of_ne (by rintro ⟨⟩)).symm
      · rintro ⟨⟩
  | acceptShutdown hmain hshutdown =>
      exact absurd (h.shutdown_iff.mp hshutdown) (h.accepting_iff.mp hmain)
  | @tick loop elapsed hticker hrunning =>
      refine h.keep nofun nofun rfl rfl nofun ?_ ?_
      · rw [hticker]
        constructor
        · rintro ⟨_, ⟨⟩, hstopped⟩
          exact ⟨loop, rfl, hstopped⟩
        · rintro ⟨_, ⟨⟩, hstopped⟩
          exact ⟨_, rfl, hstopped⟩
      · intro hdone
        rw [hdone loop hticker] at hrunning
        cases hrunning
  | @tickerStopped loop hticker hrunning hshutdown =>
      refine ⟨?_, ?_, nofun, ?_, ?_⟩
      · exact h.accepting_iff.trans (not_congr (mem_snoc_of_ne (by rintro ⟨⟩)).symm)
      · exact h.shutdown_iff.trans (mem_snoc_of_ne (by rintro ⟨⟩)).symm
      · simp [TickLoop.stop]
      · rintro - _ ⟨⟩
        rfl
  | joined hmain hdone =>
      have hctrlC : ServerEvent.ctrlC ∈ events := by
        by_contra hnone
        rw [h.accepting_iff.mpr hnone] at hmain
        cases hmain
      refine ⟨?_, ?_, h.ticker_eq_none, ?_, fun _ => hdone⟩
      · simp [hctrlC]
      · exact h.shutdown_iff.trans (mem_snoc_of_ne (by rintro ⟨⟩)).symm
      · exact h.stopped_iff.trans (mem_snoc_of_ne (by rintro ⟨⟩)).symm

theorem inv_of_run (hrun : Run (Step ctx toJson) (new ctx target) events s) :
    Inv target events s := by
  refine hrun.invariant_labels (I := Inv target) ?_ fun _ _ _ _ h hstep => h.step hstep
  refine ⟨by simp [new], by simp [new], ?_, ?_, by rintro ⟨⟩⟩
  · intro hnone
    by_contra htarget
    simp [new, TickLoop.start, htarget, TickMetrics.new, tickWindow] at hnone
  · constructor
    · rintro ⟨loop, hloop, hstopped⟩
      rw [TickLoop.start_eq_some hloop] at hstopped
      cases hstopped
    · intro hmem
      cases hmem

/-- The branches of the accept loop. -/
def OfAcceptLoop : ServerEvent → Prop
  | .service (.start _ _) | .acceptFailed | .ctrlC | .acceptShutdown => True
  | .service (.act _ _) | .tick _ | .tickerStopped | .joined => False

theorem accepting_of_step (hstep : Step ctx toJson s event s') (h : OfAcceptLoop event) :
    s.main = .accepting := by
  cases hstep with
  | accepted hmain => exact hmain
  | acceptFailed hmain => exact hmain
  | ctrlC hmain => exact hmain
  | acceptShutdown hmain => exact hmain
  | _ => cases h

section Positions

variable {before after : List ServerEvent}

/-- The accept loop takes no branch once it has been interrupted. -/
theorem not_ofAcceptLoop_of_mem
    (hrun : Run (Step ctx toJson) (new ctx target) (before ++ .ctrlC :: after) s) :
    ∀ event ∈ after, ¬ OfAcceptLoop event := by
  intro event hmem hbranch
  obtain ⟨since, later, rfl⟩ := List.append_of_mem hmem
  rw [← List.cons_append, ← List.append_assoc] at hrun
  obtain ⟨t, t', hbefore, hstep, -⟩ := hrun.step_at
  have hnone := (inv_of_run hbefore).accepting_iff.mp (accepting_of_step hstep hbranch)
  exact hnone (List.mem_append_right _ List.mem_cons_self)

theorem ctrlC_mem_of_tickerStopped
    (hrun : Run (Step ctx toJson) (new ctx target) (before ++ .tickerStopped :: after) s) :
    ServerEvent.ctrlC ∈ before := by
  obtain ⟨t, t', hbefore, hstep, -⟩ := hrun.step_at
  cases hstep with
  | tickerStopped _ _ hshutdown => exact (inv_of_run hbefore).shutdown_iff.mp hshutdown

theorem tick_not_mem_of_tickerStopped
    (hrun : Run (Step ctx toJson) (new ctx target) (before ++ .tickerStopped :: after) s)
    (elapsed : Duration) : ServerEvent.tick elapsed ∉ after := by
  intro hmem
  obtain ⟨since, later, rfl⟩ := List.append_of_mem hmem
  rw [← List.cons_append, ← List.append_assoc] at hrun
  obtain ⟨t, t', hbefore, hstep, -⟩ := hrun.step_at
  cases hstep with
  | tick hticker hrunning =>
      obtain ⟨loop, hloop, hstopped⟩ := (inv_of_run hbefore).stopped_iff.mpr
        (List.mem_append_right _ List.mem_cons_self)
      rw [hloop] at hticker
      obtain rfl := Option.some.inj hticker
      rw [hstopped] at hrunning
      cases hrunning

theorem stopped_of_joined
    (hrun : Run (Step ctx toJson) (new ctx target) (before ++ .joined :: after) s) :
    ServerEvent.ctrlC ∈ before ∧ (target ≠ 0 → ServerEvent.tickerStopped ∈ before) := by
  obtain ⟨t, t', hbefore, hstep, -⟩ := hrun.step_at
  have hinv := inv_of_run hbefore
  cases hstep with
  | joined hmain hdone =>
      constructor
      · by_contra hnone
        rw [hinv.accepting_iff.mpr hnone] at hmain
        cases hmain
      · intro htarget
        obtain ⟨loop, hloop⟩ := Option.ne_none_iff_exists'.mp (mt hinv.ticker_eq_none htarget)
        exact hinv.stopped_iff.mp ⟨loop, hloop, hdone loop hloop⟩

end Positions

/-- Once interrupted the server can return, whatever its connections are doing. -/
theorem exists_return (h : Inv target events s) (hctrlC : ServerEvent.ctrlC ∈ events) :
    ∃ tail t, tail.length ≤ 2 ∧ Run (Step ctx toJson) s tail t ∧ t.main = .returned ∧
      t.services = s.services := by
  have hjoin : ∀ t : ServerRun, t.main = .awaiting → t.TickerDone →
      Step ctx toJson t .joined { t with main := .returned } := fun t => Step.joined
  cases hmain : s.main with
  | accepting => exact absurd hctrlC (h.accepting_iff.mp hmain)
  | returned => exact ⟨[], s, by simp, Run.nil, hmain, rfl⟩
  | awaiting =>
      by_cases hdone : s.TickerDone
      · exact ⟨[.joined], _, by simp, Run.single (hjoin s hmain hdone), rfl, rfl⟩
      · simp only [TickerDone, not_forall, Bool.not_eq_true] at hdone
        obtain ⟨loop, hloop, hrunning⟩ := hdone
        have hstop : Step ctx toJson s .tickerStopped { s with ticker := some loop.stop } :=
          Step.tickerStopped hloop hrunning (h.shutdown_iff.mpr hctrlC)
        have hdone' : TickerDone { s with ticker := some loop.stop } := by
          rintro _ ⟨⟩
          rfl
        exact ⟨_, _, by simp, (Run.single hstop).snoc (hjoin _ hmain hdone'), rfl, rfl⟩

/-- The event of the connections that an event of the server is. -/
def toServicesEvent : ServerEvent → Option (Tasks.Event SocketAddr Service.Label)
  | .service event => some event
  | _ => none

theorem simulates : Simulates (Step ctx toJson) (Services.Step ctx toJson) services
    toServicesEvent where
  acts := by
    intro a event b hstep event' hlabel
    cases hstep with
    | accepted _ hservices | task hservices =>
        obtain rfl := Option.some.inj hlabel
        exact hservices
    | _ => cases hlabel
  stutters := by
    intro a event b hstep hlabel
    cases hstep with
    | accepted | task => cases hlabel
    | _ => rfl

/-- The calls on the registry among the events of a server. -/
def systemEvents (events : List ServerEvent) : List System.Event :=
  events.filterMap fun event =>
    (toServicesEvent event).bind (Tasks.viewEvent Service.Label.toCall)

theorem start_mem_systemEvents {id : Nat} {addr : SocketAddr} :
    Tasks.Event.start id addr ∈ systemEvents events ↔
      ServerEvent.service (.start id addr) ∈ events := by
  rw [systemEvents, List.mem_filterMap]
  constructor
  · rintro ⟨event, hmem, hevent⟩
    cases event with
    | service event =>
        cases event with
        | start id' addr' =>
            cases hevent
            exact hmem
        | act id' label =>
            obtain ⟨call, -, hcall⟩ := Option.map_eq_some_iff.mp hevent
            cases hcall
    | _ => cases hevent
  · intro hmem
    exact ⟨_, hmem, rfl⟩

/-- Whatever ticks, failed accepts, interrupts and rebuilds of the status document come
between, a run of the server is a run of the connections over the registry: those of its
connections that were accepted, with the calls each of them made. -/
theorem refines_system (hrun : Run (Step ctx toJson) (new ctx target) events s) :
    Run (System.Step ctx) System.new (systemEvents events) s.services.toSystem ∧
      (∀ id addr, Tasks.Event.start id addr ∈ systemEvents events ↔
        ServerEvent.service (.start id addr) ∈ events) ∧
      (∀ id, Tasks.labels id (systemEvents events) =
        (Tasks.labels id (events.filterMap toServicesEvent)).filterMap Service.Label.toCall) ∧
      s.services.shared.players.Inv (max ctx.config.maxPlayers 0).toNatClampNeg := by
  have hsystem := (simulates.comp Services.simulates).run hrun
  refine ⟨hsystem, fun _ _ => start_mem_systemEvents, ?_, System.registryInv_of_run hsystem⟩
  intro id
  rw [← Tasks.labels_viewEvent, List.filterMap_filterMap]
  rfl

theorem refines_system_brief : ∃ s : System,
    Run (System.Step notchContext) System.new System.notchEvents s ∧
      s.shared.get notch.uuid = some notch ∧ s.shared.Inv 20 := by
  obtain ⟨hsystem, -, -, hinv⟩ :=
    refines_system (brief_run StatusCache.plainDocuments.toJson)
  exact ⟨_, hsystem, rfl, hinv⟩

end ServerRun

end Rukkit.Server
