import Rukkit.Lib.Simulations
import Rukkit.Server.Status
import Rukkit.Server.StatusMoment

/-!
# Serving clients

The connections over all that they share: the registry and the status cache.  A task that
asks the cache for a document makes the read-locked check and, if that misses, the
write-locked section, and other tasks can come between the two.
-/

namespace Rukkit.Server

open Rukkit.Lib Rukkit.Protocol

/-- The part of `ServerContext` that changes. -/
structure SharedState where
  players : PlayerRegistry
  status : StatusCache

/-- What `Server::new` shares. -/
def SharedState.new (config : ServerConfig) : SharedState where
  players := .new
  status := StatusCache.new (Component.literal config.motd) config.maxPlayers

/-- A connection's task, which may be waiting for the write lock of the cache. -/
structure Service where
  point : Point
  missed : Bool

namespace Service

def new : Service where
  point := .run
  missed := false

/-- The calls of a task.  The call to `json` is the `call` of a check that hits, or a check
that misses and the section that rebuilds the document. -/
inductive Label where
  | call (call : Call)
  | missed (online : Int32) (sample : List String)
  | rebuilt (online : Int32) (sample : List String) (text : String)

/-- The call of the task that a label stands for. -/
def Label.toCall : Label → Option Call
  | call c => some c
  | missed _ _ => none
  | rebuilt online sample text => some (.json online sample text)

inductive Step (ctx : Context) (addr : SocketAddr) : Service → Label → Service → Prop
  | call {point next : Point} {call : Call} : point.Step ctx addr call next →
      Step ctx addr ⟨point, false⟩ (.call call) ⟨next, false⟩
  | missed {point next : Point} {online : Int32} {sample : List String} {text : String} :
      point.Step ctx addr (.json online sample text) next →
      Step ctx addr ⟨point, false⟩ (.missed online sample) ⟨point, true⟩
  | rebuilt {point next : Point} {online : Int32} {sample : List String} {text : String} :
      point.Step ctx addr (.json online sample text) next →
      Step ctx addr ⟨point, true⟩ (.rebuilt online sample text) ⟨next, false⟩

/-- What a label does to the shared state. -/
def Label.Acts (docs : Documents) (label : Label) (r r' : SharedState) : Prop :=
  match label with
  | call (.json online sample text) => r.status.hit online sample = some text ∧ r' = r
  | call c => c.Acts r.players r'.players ∧ r'.status = r.status
  | missed online sample => r.status.hit online sample = none ∧ r' = r
  | rebuilt online sample text =>
      r.status.rebuild docs online sample = (r'.status, text) ∧ r'.players = r.players

end Service

/-- The connections accepted so far and what they share. -/
abbrev Services := Tasks SocketAddr Service SharedState

namespace Services

/-- The documents are made with the digest the connections use. -/
def docs (ctx : Context) (toJson : ServerStatus → String) : Documents where
  md5 := ctx.md5
  toJson := toJson

abbrev Step (ctx : Context) (toJson : ServerStatus → String) :
    Services → Tasks.Event SocketAddr Service.Label → Services → Prop :=
  Tasks.Step Service.new (Service.Step ctx) (Service.Label.Acts (docs ctx toJson))

abbrev new (ctx : Context) : Services := Tasks.initial (SharedState.new ctx.config)

/-- The connections over the registry alone. -/
abbrev toSystem (s : Services) : System := s.view Service.point SharedState.players

abbrev systemEvents (events : List (Tasks.Event SocketAddr Service.Label)) : List System.Event :=
  events.filterMap (Tasks.viewEvent Service.Label.toCall)

variable {ctx : Context} {toJson : ServerStatus → String} {s : Services}
  {events : List (Tasks.Event SocketAddr Service.Label)}

/-! ## The registry -/

/-- Serving clients is a run of the connections over the registry. -/
theorem simulates : Simulates (Step ctx toJson) (System.Step ctx) toSystem
    (Tasks.viewEvent Service.Label.toCall) := by
  apply Tasks.simulates (f := Service.point) (rfl : Service.new.point = .run)
  · intro addr t label t' r r' hstep hacts call hcall
    cases hstep with
    | @call point next c hpoint =>
        obtain rfl := Option.some.inj hcall
        refine ⟨hpoint, ?_⟩
        cases c with
        | json online sample text =>
            obtain ⟨-, rfl⟩ := hacts
            rfl
        | _ => exact hacts.1
    | missed _ => cases hcall
    | rebuilt hpoint =>
        obtain rfl := Option.some.inj hcall
        exact ⟨hpoint, hacts.2⟩
  · intro addr t label t' r r' hstep hacts hcall
    cases hstep with
    | call _ => cases hcall
    | missed _ => exact ⟨rfl, congrArg SharedState.players hacts.2⟩
    | rebuilt _ => cases hcall

theorem toSystem_run (hrun : Run (Step ctx toJson) (new ctx) events s) :
    Run (System.Step ctx) System.new (systemEvents events) s.toSystem :=
  simulates.run hrun

end Services

/-! ## Answering a status request -/

namespace Point

variable {ctx : Context} {addr : SocketAddr} {point next : Point} {call : Call}

theorem step_statusResponse {packet : StatusResponse} {result : Outcome}
    (h : Step ctx addr point (.send (.statusResponse packet) result) next) :
    point = statusRespond packet.json := by
  cases point with
  | statusRespond json =>
      cases h
      rfl
  | _ => cases h

end Point

namespace Service

variable {ctx : Context} {addr : SocketAddr} {service next : Service} {label : Label}
  {labels : List Label}

/-- The calls that ask the registry for the number and the names. -/
def asked (online : Nat) (sample : List String) : List Label :=
  [.call (.count online), .call (.sampleNames 12 sample)]

theorem asked_append (online : Nat) (sample : List String) (rest : List Label) :
    asked online sample ++ rest =
      .call (.count online) :: .call (.sampleNames 12 sample) :: rest := rfl

/-- What a task has just done to answer a status request. -/
def Answers (labels : List Label) (service : Service) : Prop :=
  match service.point with
  | .statusSample online => service.missed = false ∧
      ∃ done, labels = done ++ [.call (.count online)]
  | .statusJson online sample => ∃ done, labels = done ++ asked online sample ++
      if service.missed then [.missed (asI32 online) sample] else []
  | .statusRespond text => ∃ done online sample rest, labels = done ++ asked online sample ++ rest ∧
      (rest = [.call (.json (asI32 online) sample text)] ∨
        rest = [.missed (asI32 online) sample, .rebuilt (asI32 online) sample text])
  | _ => True

theorem Answers.call {point target : Point} {call : Call} (h : Answers labels ⟨point, false⟩)
    (hstep : point.Step ctx addr call target) :
    Answers (labels ++ [.call call]) ⟨target, false⟩ := by
  have hentered := Point.enteredBy_of_step hstep
  cases target with
  | statusSample online =>
      obtain rfl := hentered
      exact ⟨rfl, labels, rfl⟩
  | statusJson online sample =>
      obtain ⟨rfl, rfl⟩ := hentered
      obtain ⟨-, done, rfl⟩ := h
      refine ⟨done, ?_⟩
      simp [asked]
  | statusRespond text =>
      obtain ⟨online, sample, rfl, rfl⟩ := hentered
      obtain ⟨done, rfl⟩ := h
      refine ⟨done, online, sample, _, ?_, .inl rfl⟩
      simp
  | _ => trivial

theorem Answers.step (h : Answers labels service) (hstep : Step ctx addr service label next) :
    Answers (labels ++ [label]) next := by
  cases hstep with
  | call hpoint => exact h.call hpoint
  | missed hpoint =>
      obtain ⟨online, rfl, rfl⟩ := Point.step_json hpoint
      obtain ⟨done, rfl⟩ := h
      refine ⟨done, ?_⟩
      simp
  | @rebuilt point target _ sample text hpoint =>
      obtain ⟨online, rfl, rfl⟩ := Point.step_json hpoint
      cases hpoint
      obtain ⟨done, rfl⟩ := h
      refine ⟨done, online, sample, _, ?_, .inr rfl⟩
      simp

theorem answers_of_run (hrun : Run (Step ctx addr) new labels service) : Answers labels service :=
  hrun.invariant_labels (I := Answers) trivial fun _ _ _ _ h hstep => h.step hstep

end Service

namespace Services

variable {ctx : Context} {toJson : ServerStatus → String} {s : Services}
  {events : List (Tasks.Event SocketAddr Service.Label)}

/-- The document for a number and a sample, made with nothing cached. -/
def document (ctx : Context) (toJson : ServerStatus → String) (online : Int32)
    (sample : List String) : String :=
  toJson ((SharedState.new ctx.config).status.build (docs ctx toJson) online sample)

/-- The cache holds documents of its own fields, and those are what the tasks were given. -/
structure Truthful (ctx : Context) (toJson : ServerStatus → String)
    (events : List (Tasks.Event SocketAddr Service.Label)) (s : Services) : Prop where
  consistent : StatusCache.Consistent (docs ctx toJson) (SharedState.new ctx.config).status
    s.shared.status
  text_eq : ∀ id label online sample text, Tasks.Event.act id label ∈ events →
    label.toCall = some (.json online sample text) → text = document ctx toJson online sample

theorem Truthful.step {s' : Services} {event : Tasks.Event SocketAddr Service.Label}
    (h : Truthful ctx toJson events s) (hstep : Step ctx toJson s event s') :
    Truthful ctx toJson (events ++ [event]) s' := by
  cases hstep with
  | start hfree =>
      refine ⟨h.consistent, ?_⟩
      intro id label online sample text hmem htext
      rcases List.mem_append.mp hmem with hold | hnew
      · exact h.text_eq id label online sample text hold htext
      · rw [List.mem_singleton] at hnew
        cases hnew
  | @act id addr service next label r htask hstep hacts =>
      have hextend : (∀ online sample text, label.toCall = some (.json online sample text) →
            text = document ctx toJson online sample) →
          ∀ id' label' online sample text,
            Tasks.Event.act id' label' ∈ events ++ [.act id label] →
            label'.toCall = some (.json online sample text) →
            text = document ctx toJson online sample := by
        intro hlast id' label' online sample text hmem htext
        rcases List.mem_append.mp hmem with hold | hnew
        · exact h.text_eq id' label' online sample text hold htext
        · rw [List.mem_singleton] at hnew
          cases hnew
          exact hlast online sample text htext
      cases label with
      | call c =>
          cases c with
          | json online sample text =>
              obtain ⟨hhit, rfl⟩ := hacts
              refine ⟨h.consistent, hextend ?_⟩
              rintro _ _ _ ⟨⟩
              exact h.consistent.hit hhit
          | _ =>
              refine ⟨?_, hextend (by rintro _ _ _ ⟨⟩)⟩
              dsimp only
              rw [hacts.2]
              exact h.consistent
      | missed online sample =>
          obtain ⟨-, rfl⟩ := hacts
          exact ⟨h.consistent, hextend (by rintro _ _ _ ⟨⟩)⟩
      | rebuilt online sample text =>
          obtain ⟨hconsistent, htext, -⟩ := h.consistent.rebuild hacts.1
          refine ⟨hconsistent, hextend ?_⟩
          rintro _ _ _ ⟨⟩
          exact htext

theorem truthful_of_run (hrun : Run (Step ctx toJson) (new ctx) events s) :
    Truthful ctx toJson events s :=
  hrun.invariant_labels (I := Truthful ctx toJson)
    ⟨StatusCache.Consistent.start rfl, by intro _ _ _ _ _ h; cases h⟩
    fun _ _ _ _ h hstep => h.step hstep

theorem count_le_of_run (hrun : Run (Step ctx toJson) (new ctx) events s) :
    s.shared.players.count ≤ (max ctx.config.maxPlayers 0).toNatClampNeg :=
  (System.registryInv_of_run (toSystem_run hrun)).count_le

/-- The registry at the moment it is counted. -/
theorem exists_counted {c online : Nat} {before later : List (Tasks.Event SocketAddr Service.Label)}
    (hrun : Run (Step ctx toJson) (new ctx)
      (before ++ Tasks.Event.act c (.call (.count online)) :: later) s) :
    ∃ t, Run (Step ctx toJson) (new ctx) before t ∧ online = t.shared.players.count := by
  obtain ⟨t, t', hbefore, hstep, -⟩ := hrun.step_at
  cases hstep with
  | act htask hstep hacts => exact ⟨t, hbefore, hacts.1.1⟩

/-- The registry at the moment it is sampled. -/
theorem exists_sampled {c : Nat} {sample : List String}
    {before later : List (Tasks.Event SocketAddr Service.Label)}
    (hrun : Run (Step ctx toJson) (new ctx)
      (before ++ Tasks.Event.act c (.call (.sampleNames 12 sample)) :: later) s) :
    ∃ t, Run (Step ctx toJson) (new ctx) before t ∧
      t.shared.players.SampleNames 12 sample := by
  obtain ⟨t, t', hbefore, hstep, -⟩ := hrun.step_at
  cases hstep with
  | act htask hstep hacts => exact ⟨t, hbefore, hacts.1.1⟩

theorem toInt_count {online : Nat} {capacity : Int32}
    (h : online ≤ (max capacity 0).toNatClampNeg) :
    (asI32 online).toInt = online :=
  toInt_asI32 (h.trans_lt (Int32.toNatClampNeg_lt _))

/-- Every status response that is sent is the document of the configured message and
capacity, of the number of players the registry held at one moment of its request and of the
names of up to twelve players it held at a later one. -/
theorem status_response_truthful (hrun : Run (Step ctx toJson) (new ctx) events s) {c : Nat}
    {packet : StatusResponse} {result : Outcome}
    {done later : List (Tasks.Event SocketAddr Service.Label)}
    (hevents : events =
      done ++ Tasks.Event.act c (.call (.send (.statusResponse packet) result)) :: later) :
    ∃ before between after online sample t u,
      done = before ++ Tasks.Event.act c (.call (.count online)) ::
        between ++ Tasks.Event.act c (.call (.sampleNames 12 sample)) :: after ∧
      Tasks.labels c between = [] ∧
      (Tasks.labels c after = [.call (.json (asI32 online) sample packet.json)] ∨
        Tasks.labels c after = [.missed (asI32 online) sample,
          .rebuilt (asI32 online) sample packet.json]) ∧
      Run (Step ctx toJson) (new ctx) before t ∧
      Run (Step ctx toJson) (new ctx)
        (before ++ Tasks.Event.act c (.call (.count online)) :: between) u ∧
      online = t.shared.players.count ∧
      online ≤ (max ctx.config.maxPlayers 0).toNatClampNeg ∧ (asI32 online).toInt = online ∧
      u.shared.players.SampleNames 12 sample ∧
      packet.json = document ctx toJson (asI32 online) sample := by
  subst hevents
  obtain ⟨a, a', hdone, hsend, -⟩ := hrun.step_at
  cases hsend with
  | @act _ addr service next _ r htask hstep hacts =>
      cases hstep with
      | @call point next _ hpoint =>
          obtain rfl := Point.step_statusResponse hpoint
          obtain ⟨labels, online, sample, rest, hlabels, hrest⟩ :=
            Service.answers_of_run (Tasks.project hdone htask).2
          have htext : packet.json = document ctx toJson (asI32 online) sample := by
            have htruth := (truthful_of_run hdone).text_eq c
            rcases hrest with rfl | rfl
            · exact htruth (.call (.json (asI32 online) sample packet.json)) _ _ _
                (Tasks.mem_labels.mp (hlabels ▸ by simp)) rfl
            · exact htruth (.rebuilt (asI32 online) sample packet.json) _ _ _
                (Tasks.mem_labels.mp (hlabels ▸ by simp)) rfl
          rw [List.append_assoc, Service.asked_append] at hlabels
          obtain ⟨before, since, rfl, -, hsince⟩ := Tasks.exists_act hlabels
          rw [← List.nil_append (_ :: rest)] at hsince
          obtain ⟨between, after, rfl, hbetween, hafter⟩ := Tasks.exists_act hsince
          obtain ⟨t, hbefore, hcount⟩ := exists_counted hdone
          rw [← List.cons_append, ← List.append_assoc] at hdone
          obtain ⟨u, hbetween', hsample⟩ := exists_sampled hdone
          have hle := count_le_of_run hbefore
          rw [← hcount] at hle
          refine ⟨before, between, after, online, sample, t, u, ?_, hbetween, hafter ▸ hrest,
            hbefore, hbetween', hcount, hle, toInt_count hle, hsample, htext⟩
          rw [List.append_assoc, List.cons_append]

/-- A task whose checks all hit takes the steps of its connection. -/
theorem ofPoint {addr : SocketAddr} : Simulates (Point.Step ctx addr) (Service.Step ctx addr)
    (fun point => ⟨point, false⟩) (some ∘ Service.Label.call) where
  acts := by
    rintro a call b hstep _ ⟨⟩
    exact .call hstep
  stutters := by
    intro a call b _ h
    cases h

/-- `Notch` logs in. -/
abbrev notchEvents : List (Tasks.Event SocketAddr Service.Label) :=
  [.start 0 notchAddr] ++ (notchCalls.map Service.Label.call).map (.act 0) ++
    [.act 0 (.call (.tryInsert notch 20 (.ok ())))]

/-- A server on which `Notch` plays. -/
abbrev notchJoined : Services where
  shared := { SharedState.new notchContext.config with
    players := (PlayerRegistry.new.tryInsert notch 20).1 }
  task := Function.update (new notchContext).task 0 (some (notchAddr, ⟨.brand ⟨"Notch", 0⟩, false⟩))

variable (toJson) in
theorem notch_joins :
    Run (Step notchContext toJson) (new notchContext) notchEvents notchJoined := by
  have hlogin : Run (Service.Step notchContext notchAddr) Service.new _
      ⟨.brand ⟨"Notch", 0⟩, false⟩ := ofPoint.run notch_run
  rw [List.filterMap_eq_map, List.map_append] at hlogin
  exact Tasks.run_started rfl hlogin (by simp [Service.Label.Acts, Call.Acts]) ⟨rfl, rfl⟩

/-- The calls of a status request up to a check that misses. -/
abbrev pingLabels : List Service.Label :=
  (System.pingCalls 1).map .call ++ [.call (.sampleNames 12 ["Notch"])]

theorem ping_service : Run (Service.Step notchContext System.pingAddr) Service.new
    (pingLabels ++ [.missed 1 ["Notch"]]) ⟨.statusJson 1 ["Notch"], true⟩ := by
  have hasked : Run (Service.Step notchContext System.pingAddr) Service.new
      ((System.pingCalls 1).map .call) ⟨.statusSample 1, false⟩ := by
    rw [← List.filterMap_eq_map]
    exact ofPoint.run (System.ping_run 1)
  have hsample : Service.Step notchContext System.pingAddr ⟨.statusSample 1, false⟩
      (.call (.sampleNames 12 ["Notch"])) ⟨.statusJson 1 ["Notch"], false⟩ :=
    .call (Action.Step.sampleNames _)
  have hmissed : Service.Step notchContext System.pingAddr ⟨.statusJson 1 ["Notch"], false⟩
      (.missed 1 ["Notch"]) ⟨.statusJson 1 ["Notch"], true⟩ := .missed (Action.Step.json "")
  exact (hasked.snoc hsample).snoc hmissed

/-- They leave what is shared as it is. -/
theorem ping_quiet {docs : Documents} {label : Service.Label} (h : label ∈ pingLabels) :
    label.Acts docs notchJoined.shared notchJoined.shared := by
  simp only [pingLabels, List.map_cons, List.map_nil, List.cons_append, List.nil_append,
    List.mem_cons, List.not_mem_nil, or_false] at h
  rcases h with rfl | rfl | rfl | rfl
  · exact ⟨rfl, rfl⟩
  · exact ⟨rfl, rfl⟩
  · exact ⟨⟨rfl, rfl⟩, rfl⟩
  · exact ⟨⟨⟨[notch], List.Perm.refl _, rfl⟩, rfl⟩, rfl⟩

/-- A server with one player is asked for its status and builds the document for it. -/
theorem status_response_truthful_notch : ∃ (t u : Services) (sample : List String),
    (asI32 t.shared.players.count).toInt = t.shared.players.count ∧
      u.shared.players.SampleNames 12 sample ∧
      document notchContext StatusCache.plainDocuments.toJson 1 ["Notch"] =
        document notchContext StatusCache.plainDocuments.toJson (asI32 t.shared.players.count)
          sample := by
  let toJson := StatusCache.plainDocuments.toJson
  let shared := notchJoined.shared
  let text := document notchContext toJson 1 ["Notch"]
  let asked := Function.update notchJoined.task 1
    (some (System.pingAddr, ⟨.statusJson 1 ["Notch"], true⟩))
  let built := Function.update asked 1 (some (System.pingAddr, ⟨.statusRespond text, false⟩))
  let cached : SharedState :=
    ⟨shared.players, (shared.status.rebuild (docs notchContext toJson) 1 ["Notch"]).1⟩
  have hasked : Run (Step notchContext toJson) notchJoined _ ⟨shared, asked⟩ :=
    Tasks.run_started rfl ping_service (fun _ => ping_quiet) ⟨rfl, rfl⟩
  have hrebuilt : Step notchContext toJson ⟨shared, asked⟩
      (.act 1 (.rebuilt 1 ["Notch"] text)) ⟨cached, built⟩ :=
    Tasks.Step.act rfl (.rebuilt (Action.Step.json text)) ⟨rfl, rfl⟩
  have hsent : Step notchContext toJson ⟨cached, built⟩
      (.act 1 (.call (.send (.statusResponse ⟨text⟩) (.ok ())))) ⟨cached, _⟩ :=
    Tasks.Step.act rfl (.call (Action.Step.send (.ok ()))) ⟨rfl, rfl⟩
  have hrun := (((notch_joins toJson).trans hasked).snoc hrebuilt).snoc hsent
  obtain ⟨_, _, _, _, sample, t, u, -, -, -, -, -, rfl, -, hexact, hsample, htext⟩ :=
    status_response_truthful hrun rfl
  exact ⟨t, u, sample, hexact, hsample, htext⟩

end Services

end Rukkit.Server
