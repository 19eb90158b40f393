import Rukkit.Server.Admission

/-!
# Claimed identities

Two runs of a task whose clients differ in the address they dialled and in the profile
they claim.  Renaming the profile in one run gives the other.
-/

namespace Rukkit.Server

open Rukkit.Lib Rukkit.Protocol

/-! ## What a task takes from its packets -/

/-- A packet without the fields a client merely claims. -/
inductive View where
  | intention (protocolVersion : Int32) (nextState : NextState)
  | hello (name : String)
  | acknowledged
  | status (packet : StatusPacket)
  | configuration (packet : ConfigurationPacket)
deriving DecidableEq

/-- The first packet asks for the status. -/
def asksStatus (reads : Nat → Except ConnError Bytes) : Bool :=
  match (reads 0).bind (expectPacket Intention .handshaking) with
  | .ok intention => intention.nextState = .status
  | .error _ => false

/-- The view of the packet that is read after `i` others. -/
def viewPacket (status : Bool) (i : Nat) (packet : Bytes) : Except ConnError View :=
  match i, status with
  | 0, _ => (expectPacket Intention .handshaking packet).map fun p =>
      .intention p.protocolVersion p.nextState
  | _ + 1, true => (statusPacket packet).map .status
  | 1, false => (expectPacket Hello .login packet).map fun p => .hello p.name
  | 2, false => (expectPacket LoginAcknowledged .login packet).map fun _ => .acknowledged
  | _ + 3, false => (configurationPacket packet).map .configuration

def view (reads : Nat → Except ConnError Bytes) (i : Nat) :
    Except ConnError (Except ConnError View) :=
  (reads i).map (viewPacket (asksStatus reads) i)

/-! ## Environments -/

/-- What the client and the rest of the server answer to the calls of one task. -/
structure Environment where
  /-- The results of the reads, in order. -/
  reads : Nat → Except ConnError Bytes
  /-- What becomes of a packet sent by the n-th call. -/
  sends : Nat → Outcome
  /-- The registry when the n-th call is made. -/
  registry : Nat → PlayerRegistry
  /-- The names the registry then lists under a limit. -/
  names : Nat → Nat → List String
  json : Int32 → List String → String

def Call.isRead : Call → Bool
  | .read _ => true
  | _ => false

/-- The call made after the calls `done` has the result the environment gives. -/
def Call.AnsweredBy (env : Environment) (done : List Call) : Call → Prop
  | .read result => result = env.reads (done.countP Call.isRead)
  | .send _ result => result = env.sends done.length
  | .enableCompression _ => True
  | .count online => online = (env.registry done.length).count
  | .sampleNames limit names => names = env.names done.length limit
  | .json online sample text => text = env.json online sample
  | .tryInsert info maxPlayers result =>
      result = ((env.registry done.length).tryInsert info maxPlayers).2
  | .remove uuid removed => removed = ((env.registry done.length).remove uuid).2

/-- All the calls are answered by the environment. -/
def Faces (env : Environment) (calls : List Call) : Prop :=
  ∀ done call later, calls = done ++ call :: later → call.AnsweredBy env done

theorem Faces.init {env : Environment} {calls : List Call} {call : Call}
    (h : Faces env (calls ++ [call])) : Faces env calls ∧ call.AnsweredBy env calls := by
  refine ⟨?_, h calls call [] rfl⟩
  intro done call' later hcalls
  exact h done call' (later ++ [call]) (by rw [hcalls]; simp)

theorem Faces.snoc {env : Environment} {calls : List Call} {call : Call} (h : Faces env calls)
    (hanswer : call.AnsweredBy env calls) : Faces env (calls ++ [call]) := by
  intro done call' later hcalls
  induction later using List.reverseRecOn with
  | nil =>
      obtain ⟨rfl, hsame⟩ := List.append_inj' hcalls rfl
      rwa [← List.singleton_inj.mp hsame]
  | append_singleton later last _ =>
      rw [← List.cons_append, ← List.append_assoc] at hcalls
      exact h done call' later (List.append_inj' hcalls rfl).1

theorem Faces.take {env : Environment} {calls : List Call} (h : Faces env calls) (k : Nat) :
    Faces env (calls.take k) := by
  intro done call later hcalls
  apply h done call (later ++ calls.drop k)
  rw [← List.cons_append, ← List.append_assoc, ← hcalls, List.take_append_drop]

/-- The same call, up to the bytes of a packet that is read. -/
def Call.Same (call call' : Call) : Prop :=
  call' = call ∨ ∃ result result', call = .read result ∧ call' = .read result'

theorem Call.Same.isRead_eq {call call' : Call} (h : call.Same call') :
    call'.isRead = call.isRead := by
  rcases h with rfl | ⟨result, result', rfl, rfl⟩ <;> rfl

namespace Point

variable {ctx : Context} {addr : SocketAddr} {point next point' next' : Point} {call call' : Call}
  {calls calls' : List Call} {env : Environment}

/-! ## How far a task has read -/

/-- The number of packets read at each point, and what the first asked for. -/
def Phase (reads : Nat → Except ConnError Bytes) (n : Nat) : Point → Prop
  | run => n = 0
  | status | statusCount | statusSample _ | statusJson _ _ | statusRespond _ | statusPong _ =>
      0 < n ∧ asksStatus reads = true
  | login => n = 1 ∧ asksStatus reads = false
  | setCompression _ _ | enableCompression _ _ | loginFinished _ | loginAcknowledged _ =>
      n = 2 ∧ asksStatus reads = false
  | tryInsert _ | brand _ | selectKnownPacks _ | configuration _ | refuseRegistry _ =>
      3 ≤ n ∧ asksStatus reads = false
  | refuseVersion _ | refuseOnline | refuseLogin _ | remove _ _ | ended _ => True

variable {reads : Nat → Except ConnError Bytes} {n : Nat}

theorem Phase.orEnd {α : Type} {result : Except ConnError α} {f : α → Point}
    (h : ∀ a, result = .ok a → (f a).Phase reads n) : (orEnd result f).Phase reads n :=
  orEnd_rule h fun _ => trivial

theorem Phase.orRemove {α : Type} {hello : Hello} {result : Except ConnError α} {f : α → Point}
    (h : ∀ a, (f a).Phase reads n) : (orRemove hello result f).Phase reads n :=
  orRemove_rule (fun a _ => h a) fun _ => trivial

theorem phase_afterIntention {intention : Intention}
    (h : (reads 0).bind (expectPacket Intention .handshaking) = .ok intention) :
    (afterIntention intention).Phase reads 1 := by
  have hasks : asksStatus reads = decide (intention.nextState = .status) := by
    rw [asksStatus, h]
  unfold afterIntention
  split
  · rename_i hstatus
    exact ⟨Nat.one_pos, by rw [hasks, hstatus]; rfl⟩
  · rename_i hlogin
    split
    · exact ⟨rfl, by rw [hasks, hlogin]; rfl⟩
    · trivial
  · rename_i htransfer
    split
    · exact ⟨rfl, by rw [hasks, htransfer]; rfl⟩
    · trivial

theorem phase_afterHello {config : ServerConfig} {hello : Hello}
    (h : asksStatus reads = false) : (afterHello config hello).Phase reads 2 := by
  unfold afterHello
  split
  · trivial
  · split <;> exact ⟨rfl, h⟩

theorem Phase.step (h : point.Phase env.reads (calls.countP Call.isRead))
    (hstep : Step ctx addr point call next) (hanswer : call.AnsweredBy env calls) :
    next.Phase env.reads ((calls ++ [call]).countP Call.isRead) := by
  rw [List.countP_append, List.countP_singleton]
  cases point with
  | run =>
      rw [show calls.countP Call.isRead = 0 from h]
      cases hstep with
      | read result =>
          have hresult : result = env.reads (calls.countP Call.isRead) := hanswer
          rw [show calls.countP Call.isRead = 0 from h] at hresult
          subst hresult
          exact Phase.orEnd fun intention hintention => phase_afterIntention hintention
  | login =>
      obtain ⟨hn, hasks⟩ := h
      rw [hn]
      cases hstep
      exact Phase.orEnd fun hello _ => phase_afterHello hasks
  | loginAcknowledged hello =>
      obtain ⟨hn, hasks⟩ := h
      rw [hn]
      cases hstep
      exact Phase.orEnd fun _ _ => ⟨Nat.le_refl _, hasks⟩
  | status =>
      cases hstep with
      | read result =>
          rw [if_pos (show (Call.read result).isRead = true from rfl)]
          dsimp only
          split
          · trivial
          · apply Phase.orEnd
            rintro (_ | payload) - <;> exact ⟨Nat.succ_pos _, h.2⟩
  | configuration hello =>
      cases hstep
      apply Phase.orRemove
      rintro (_ | _ | _)
      · exact ⟨Nat.le_add_right_of_le h.1, h.2⟩
      · trivial
      · exact ⟨Nat.le_add_right_of_le h.1, h.2⟩
  | tryInsert hello =>
      cases hstep with
      | tryInsert result =>
          cases result with
          | ok _ => exact h
          | error why => trivial
  | statusRespond json | setCompression hello threshold | loginFinished hello =>
      cases hstep
      exact Phase.orEnd fun _ _ => h
  | refuseOnline | refuseLogin why =>
      cases hstep
      exact Phase.orEnd fun _ _ => trivial
  | brand hello | selectKnownPacks hello =>
      cases hstep
      exact Phase.orRemove fun _ => h
  | refuseRegistry hello =>
      cases hstep
      exact Phase.orRemove fun _ => trivial
  | statusCount | statusSample | statusJson | enableCompression =>
      cases hstep
      exact h
  | refuseVersion | remove =>
      cases hstep
      trivial
  | statusPong payload =>
      cases hstep
      trivial
  | ended outcome => cases hstep

theorem phase_of_run (hrun : Run (Step ctx addr) run calls point) (hfaces : Faces env calls) :
    point.Phase env.reads (calls.countP Call.isRead) := by
  refine hrun.invariant_labels (I := fun calls point => Faces env calls →
    point.Phase env.reads (calls.countP Call.isRead)) (fun _ => rfl) ?_ hfaces
  intro done a call b ih hstep hfaces
  obtain ⟨hinit, hanswer⟩ := hfaces.init
  exact (ih hinit).step hstep hanswer

/-! ## Renaming the profile -/

/-- The point with another profile in place of the one claimed. -/
def withProfile (id : Uuid) : Point → Point
  | setCompression hello threshold => setCompression { hello with profileId := id } threshold
  | enableCompression hello threshold =>
      enableCompression { hello with profileId := id } threshold
  | loginFinished hello => loginFinished { hello with profileId := id }
  | loginAcknowledged hello => loginAcknowledged { hello with profileId := id }
  | tryInsert hello => tryInsert { hello with profileId := id }
  | brand hello => brand { hello with profileId := id }
  | selectKnownPacks hello => selectKnownPacks { hello with profileId := id }
  | configuration hello => configuration { hello with profileId := id }
  | refuseRegistry hello => refuseRegistry { hello with profileId := id }
  | remove hello outcome => remove { hello with profileId := id } outcome
  | point => point

/-- The points where a task waits for a packet. -/
def Reads (point : Point) : Prop :=
  match point with
  | run | status | login | loginAcknowledged _ | configuration _ => True
  | _ => False

/-- Outside the reads, a step of the renamed point is the step renamed. -/
theorem step_withProfile (h : Step ctx addr point call next) (hquiet : ¬ point.Reads)
    (id : Uuid) : Step ctx addr (point.withProfile id) call (next.withProfile id) := by
  cases point with
  | run | status | login | loginAcknowledged | configuration => exact absurd trivial hquiet
  | refuseVersion got | statusRespond json | statusPong payload | refuseOnline
  | setCompression hello threshold | loginFinished hello | refuseLogin why | brand hello
  | selectKnownPacks hello | refuseRegistry hello =>
      cases h with
      | send result => cases result <;> exact Action.Step.send _
  | statusCount =>
      cases h
      exact Action.Step.count _
  | statusSample online =>
      cases h
      exact Action.Step.sampleNames _
  | statusJson online sample =>
      cases h
      exact Action.Step.json _
  | enableCompression hello threshold =>
      cases h
      exact Action.Step.enableCompression
  | tryInsert hello =>
      cases h with
      | tryInsert result => cases result <;> exact Action.Step.tryInsert _
  | remove hello outcome =>
      cases h
      exact Action.Step.remove _
  | ended outcome => cases h

/-- Outside the reads, the same point and the same environment give the same step. -/
theorem step_unique (h : Step ctx addr point call next) (h' : Step ctx addr point call' next')
    (hquiet : ¬ point.Reads) {done done' : List Call} (hlength : done'.length = done.length)
    (hanswer : call.AnsweredBy env done)
    (hanswer' : call'.AnsweredBy { env with reads } done') : call' = call ∧ next' = next := by
  have hread : ∀ f, point.action ctx addr ≠ .read f := by
    intro f hf
    cases point <;> first | exact hquiet trivial | cases hf
  unfold Step at h h'
  generalize point.action ctx addr = action at h h' hread
  cases h with
  | read result => exact absurd rfl (hread _)
  | enableCompression =>
      cases h'
      exact ⟨rfl, rfl⟩
  | send result | count online | sampleNames names | json text | tryInsert result
  | remove removed =>
      cases h'
      simp only [Call.AnsweredBy, hlength] at hanswer hanswer'
      subst hanswer hanswer'
      exact ⟨rfl, rfl⟩

end Point

/-- Results with the same image fail alike or succeed with values that have one image. -/
theorem map_eq_map_cases {α β γ ε : Type} {f : α → γ} {g : β → γ} {x : Except ε α}
    {y : Except ε β} (h : x.map f = y.map g) :
    (∃ e, x = .error e ∧ y = .error e) ∨ ∃ a b, x = .ok a ∧ y = .ok b ∧ f a = g b := by
  cases x with
  | error e =>
      cases y with
      | error e' =>
          cases h
          exact .inl ⟨e, rfl, rfl⟩
      | ok b => cases h
  | ok a =>
      cases y with
      | error e' => cases h
      | ok b => exact .inr ⟨a, b, rfl, rfl, Except.ok.inj h⟩

/-- What is decoded from two reads with one view. -/
theorem bind_view {α : Type} {decode : Bytes → Except ConnError α} {g : α → View}
    {result result' : Except ConnError Bytes}
    (h : result.map (fun packet => (decode packet).map g) =
      result'.map fun packet => (decode packet).map g) :
    (result.bind decode).map g = (result'.bind decode).map g := by
  rcases map_eq_map_cases h with ⟨e, rfl, rfl⟩ | ⟨packet, packet', rfl, rfl, hsame⟩
  · rfl
  · exact hsame

namespace Point

variable {ctx : Context} {addr : SocketAddr} {point next point' next' : Point} {call call' : Call}
  {calls calls' : List Call} {env : Environment} {reads : Nat → Except ConnError Bytes} {n : Nat}

theorem withProfile_afterIntention (intention : Intention) (id : Uuid) :
    (afterIntention intention).withProfile id = afterIntention intention := by
  unfold afterIntention
  split
  · rfl
  · split <;> rfl
  · split <;> rfl

theorem afterIntention_congr {a a' : Intention} (hversion : a.protocolVersion = a'.protocolVersion)
    (hnext : a.nextState = a'.nextState) : afterIntention a' = afterIntention a := by
  rw [afterIntention, afterIntention, hversion, hnext]

theorem afterHello_withProfile (config : ServerConfig) {a a' : Hello} (h : a.name = a'.name) :
    afterHello config a' = (afterHello config a).withProfile a'.profileId := by
  obtain ⟨name, profileId⟩ := a
  obtain ⟨name', profileId'⟩ := a'
  obtain rfl : name = name' := h
  unfold afterHello
  split
  · rfl
  · split <;> rfl

theorem asksStatus_eq (hview : ∀ i, view env.reads i = view reads i) :
    asksStatus reads = asksStatus env.reads := by
  have hzero : (env.reads 0).map (fun packet =>
      (expectPacket Intention .handshaking packet).map fun p =>
        View.intention p.protocolVersion p.nextState) = (reads 0).map fun packet =>
      (expectPacket Intention .handshaking packet).map fun p =>
        View.intention p.protocolVersion p.nextState := hview 0
  unfold asksStatus
  rcases map_eq_map_cases (bind_view hzero) with ⟨e, he, he'⟩ | ⟨a, a', ha, ha', hvalues⟩
  · rw [he, he']
  · rw [ha, ha']
    injection hvalues with hversion hnext
    dsimp only
    rw [hnext]

/-- The view of a read is a function of the packet once the phase is known. -/
theorem view_eq (hview : ∀ i, view env.reads i = view reads i) {status : Bool}
    (hasks : asksStatus env.reads = status) (i : Nat) :
    (env.reads i).map (viewPacket status i) = (reads i).map (viewPacket status i) := by
  have h := hview i
  rwa [view, view, asksStatus_eq hview, hasks] at h

/-- Two reads at a point and its renaming. -/
theorem step_reads (hview : ∀ i, view env.reads i = view reads i)
    (hphase : point.Phase env.reads n) {result result' : Except ConnError Bytes} {id : Uuid}
    (h : Step ctx addr point (.read result) next)
    (h' : Step ctx addr (point.withProfile id) (.read result') next')
    (hresult : result = env.reads n) (hresult' : result' = reads n) :
    ∃ id', next' = next.withProfile id' := by
  subst hresult hresult'
  cases point with
  | run =>
      obtain rfl : n = 0 := hphase
      cases h
      cases h'
      have hread : (env.reads 0).map (fun packet =>
          (expectPacket Intention .handshaking packet).map fun p =>
            View.intention p.protocolVersion p.nextState) = (reads 0).map fun packet =>
          (expectPacket Intention .handshaking packet).map fun p =>
            View.intention p.protocolVersion p.nextState := view_eq hview rfl 0
      refine ⟨id, ?_⟩
      dsimp only
      rcases map_eq_map_cases (bind_view hread) with ⟨e, he, he'⟩ | ⟨a, a', ha, ha', hvalues⟩
      · rw [he, he']
        rfl
      · injection hvalues with hversion hnext
        rw [ha, ha', orEnd, orEnd, afterIntention_congr hversion hnext,
          withProfile_afterIntention]
  | status =>
      obtain ⟨hpos, hasks⟩ := hphase
      obtain ⟨n, rfl⟩ := Nat.exists_eq_succ_of_ne_zero (Nat.ne_of_gt hpos)
      cases h
      cases h'
      have hread : (env.reads (n + 1)).map (fun packet =>
          (statusPacket packet).map View.status) =
          (reads (n + 1)).map fun packet => (statusPacket packet).map View.status :=
        view_eq hview hasks (n + 1)
      refine ⟨id, ?_⟩
      -- a closed socket is told apart before the packet is decoded
      rcases map_eq_map_cases hread with ⟨e, he, he'⟩ | ⟨packet, packet', hp, hp', hsame⟩
      · rw [he, he']
        cases e <;> rfl
      · rw [hp, hp']
        dsimp only [Except.bind]
        rcases map_eq_map_cases hsame with ⟨e, he, he'⟩ | ⟨a, a', ha, ha', hvalues⟩
        · rw [he, he']
          rfl
        · obtain rfl := View.status.inj hvalues
          rw [ha, ha']
          cases a <;> rfl
  | login =>
      obtain ⟨rfl, hasks⟩ := hphase
      cases h
      cases h'
      have hread : (env.reads 1).map (fun packet =>
          (expectPacket Hello .login packet).map fun p => View.hello p.name) =
          (reads 1).map fun packet =>
          (expectPacket Hello .login packet).map fun p => View.hello p.name :=
        view_eq hview hasks 1
      dsimp only
      rcases map_eq_map_cases (bind_view hread) with ⟨e, he, he'⟩ | ⟨a, a', ha, ha', hvalues⟩
      · rw [he, he']
        exact ⟨id, rfl⟩
      · rw [ha, ha']
        exact ⟨a'.profileId, afterHello_withProfile ctx.config (View.hello.inj hvalues)⟩
  | loginAcknowledged hello =>
      obtain ⟨rfl, hasks⟩ := hphase
      cases h
      cases h'
      have hread : (env.reads 2).map (fun packet =>
          (expectPacket LoginAcknowledged .login packet).map fun _ => View.acknowledged) =
          (reads 2).map fun packet =>
          (expectPacket LoginAcknowledged .login packet).map fun _ => View.acknowledged :=
        view_eq hview hasks 2
      refine ⟨id, ?_⟩
      dsimp only
      rcases map_eq_map_cases (bind_view hread) with ⟨e, he, he'⟩ | ⟨a, a', ha, ha', -⟩
      · rw [he, he']
        rfl
      · rw [ha, ha']
        rfl
  | configuration hello =>
      obtain ⟨hn, hasks⟩ := hphase
      obtain ⟨n, rfl⟩ := Nat.exists_eq_add_of_le' hn
      cases h
      cases h'
      have hread : (env.reads (n + 3)).map (fun packet =>
          (configurationPacket packet).map View.configuration) =
          (reads (n + 3)).map fun packet =>
          (configurationPacket packet).map View.configuration := view_eq hview hasks (n + 3)
      refine ⟨id, ?_⟩
      dsimp only
      rcases map_eq_map_cases (bind_view hread) with ⟨e, he, he'⟩ | ⟨a, a', ha, ha', hvalues⟩
      · rw [he, he']
        rfl
      · obtain rfl := View.configuration.inj hvalues
        rw [ha, ha']
        cases a <;> rfl
  | _ => cases h

theorem reads_withProfile {id : Uuid} : (point.withProfile id).Reads ↔ point.Reads := by
  cases point <;> exact Iff.rfl

theorem exists_read (hreads : point.Reads) (h : Step ctx addr point call next) :
    ∃ result, call = .read result := by
  cases point with
  | run | status | login | loginAcknowledged | configuration =>
      cases h
      exact ⟨_, rfl⟩
  | _ => exact absurd hreads not_false

/-- A step and the step of a renamed point in an environment with the same views. -/
theorem step_alike (hview : ∀ i, view env.reads i = view reads i)
    (hphase : point.Phase env.reads (calls.countP Call.isRead)) {id : Uuid}
    (h : Step ctx addr point call next) (h' : Step ctx addr (point.withProfile id) call' next')
    (hanswer : call.AnsweredBy env calls)
    (hanswer' : call'.AnsweredBy { env with reads } calls')
    (hlength : calls'.length = calls.length)
    (hcount : calls'.countP Call.isRead = calls.countP Call.isRead) :
    (∃ id', next' = next.withProfile id') ∧ call.Same call' := by
  by_cases hreads : point.Reads
  · obtain ⟨result, rfl⟩ := exists_read hreads h
    obtain ⟨result', rfl⟩ := exists_read (reads_withProfile.mpr hreads) h'
    have hresult' : result' = reads (calls'.countP Call.isRead) := hanswer'
    rw [hcount] at hresult'
    exact ⟨step_reads hview hphase h h' hanswer hresult', .inr ⟨result, result', rfl, rfl⟩⟩
  · have hrenamed := step_withProfile h hreads id
    obtain ⟨hcall, hnext⟩ := step_unique hrenamed h' (fun h => hreads (reads_withProfile.mp h))
      hlength hanswer hanswer'
    exact ⟨⟨id, hnext⟩, .inl hcall⟩

theorem countP_eq_of_same (h : List.Forall₂ Call.Same calls calls') :
    calls'.countP Call.isRead = calls.countP Call.isRead := by
  induction h with
  | nil => rfl
  | cons hsame _ ih => rw [List.countP_cons, List.countP_cons, ih, hsame.isRead_eq]

/-- Two runs of one length: the second is the first with the profile renamed. -/
theorem run_alike (hview : ∀ i, view env.reads i = view reads i)
    (hrun : Run (Step ctx addr) run calls point) (hfaces : Faces env calls)
    (hrun' : Run (Step ctx addr) run calls' point') (hfaces' : Faces { env with reads } calls')
    (hlength : calls'.length = calls.length) :
    (∃ id, point' = point.withProfile id) ∧ List.Forall₂ Call.Same calls calls' := by
  induction hrun generalizing calls' point' with
  | nil =>
      obtain rfl := List.length_eq_zero_iff.mp hlength
      rw [← hrun'.of_nil]
      exact ⟨⟨0, rfl⟩, List.Forall₂.nil⟩
  | @snoc done mid next call hbefore hlast ih =>
      induction calls' using List.reverseRecOn with
      | nil => simp at hlength
      | append_singleton done' call' _ =>
          obtain ⟨hinit, hanswer⟩ := hfaces.init
          obtain ⟨hinit', hanswer'⟩ := hfaces'.init
          obtain ⟨mid', hbefore', hlast'⟩ := hrun'.last
          have hlength' : done'.length = done.length := by simpa using hlength
          obtain ⟨⟨id, rfl⟩, hsame⟩ := ih hinit hbefore' hinit' hlength'
          obtain ⟨hnext, hcall⟩ := step_alike hview (phase_of_run hbefore hinit) hlast hlast'
            hanswer hanswer' hlength' (countP_eq_of_same hsame)
          exact ⟨hnext, List.rel_append hsame (List.Forall₂.cons hcall .nil)⟩

theorem run_take {k : Nat} (hrun : Run (Step ctx addr) run calls point) :
    ∃ mid, Run (Step ctx addr) run (calls.take k) mid ∧
      Run (Step ctx addr) mid (calls.drop k) point := by
  rw [← List.take_append_drop k calls] at hrun
  exact hrun.split

/-- Nothing follows the end of a task. -/
theorem of_ended {outcome : Outcome} (hrun : Run (Step ctx addr) (ended outcome) calls point) :
    calls = [] := by
  cases hcalls : calls with
  | nil => rfl
  | cons call later =>
      rw [hcalls, ← List.nil_append (call :: later)] at hrun
      obtain ⟨mid, _, hstart, hstep, -⟩ := hrun.step_at
      rw [← hstart.of_nil] at hstep
      cases hstep

end Point

/-- Two runs against the same environment whose packets have the same views make the same
calls and end alike.  The identifier sent and the player inserted depend on the name in the
second packet only. -/
theorem identity_no_influence {ctx : Context} {addr : SocketAddr} {env : Environment}
    {reads : Nat → Except ConnError Bytes} {calls calls' : List Call} {point point' : Point}
    (hview : ∀ i, view env.reads i = view reads i)
    (hrun : Run (Point.Step ctx addr) .run calls point) (hfaces : Faces env calls)
    (hrun' : Run (Point.Step ctx addr) .run calls' point')
    (hfaces' : Faces { env with reads } calls') :
    (∀ i, (h : i < calls.length) → (h' : i < calls'.length) → calls[i].Same calls'[i]) ∧
      (∀ outcome outcome', point = .ended outcome → point' = .ended outcome' →
        calls'.length = calls.length ∧ outcome' = outcome) ∧
      (∀ done packet result later,
        calls = done ++ .send (.loginFinished packet) result :: later →
        ∃ first second, ∃ hello : Hello, packetsRead done = [first, second] ∧
          DecodesAs .login second hello ∧
          packet.profileId = offlineUuid ctx.md5 hello.name) ∧
      ∀ done info maxPlayers result later,
        calls = done ++ .tryInsert info maxPlayers result :: later →
        ∃ first second third, ∃ hello : Hello, packetsRead done = [first, second, third] ∧
          DecodesAs .login second hello ∧
          info = { uuid := offlineUuid ctx.md5 hello.name, name := hello.name, addr } := by
  -- the shorter of the two runs against as much of the other
  have hprefix : ∀ k, k ≤ calls.length → k ≤ calls'.length →
      ∃ mid mid', Run (Point.Step ctx addr) mid (calls.drop k) point ∧
        Run (Point.Step ctx addr) mid' (calls'.drop k) point' ∧
        (∃ id, mid' = mid.withProfile id) ∧
        List.Forall₂ Call.Same (calls.take k) (calls'.take k) := by
    intro k hk hk'
    obtain ⟨mid, hinit, hrest⟩ := Point.run_take (k := k) hrun
    obtain ⟨mid', hinit', hrest'⟩ := Point.run_take (k := k) hrun'
    obtain ⟨hmid, hsame⟩ := Point.run_alike hview hinit (hfaces.take k) hinit' (hfaces'.take k)
      (by rw [List.length_take, List.length_take, Nat.min_eq_left hk, Nat.min_eq_left hk'])
    exact ⟨mid, mid', hrest, hrest', hmid, hsame⟩
  refine ⟨?_, ?_, ?_, ?_⟩
  · intro i h h'
    obtain ⟨-, -, -, -, -, hsame⟩ := hprefix (i + 1) h h'
    have hi := hsame.get (i := i) (by rw [List.length_take]; omega)
      (by rw [List.length_take]; omega)
    simpa using hi
  · rintro outcome outcome' rfl rfl
    rcases Nat.le_total calls.length calls'.length with hle | hle
    · obtain ⟨mid, mid', hrest, hrest', ⟨id, rfl⟩, -⟩ := hprefix calls.length le_rfl hle
      rw [List.drop_length] at hrest
      obtain rfl := hrest.of_nil
      have hnil := Point.of_ended hrest'
      rw [hnil] at hrest'
      refine ⟨Nat.le_antisymm (List.drop_eq_nil_iff.mp hnil) hle, ?_⟩
      exact (Point.ended.inj hrest'.of_nil).symm
    · obtain ⟨mid, mid', hrest, hrest', ⟨id, hid⟩, -⟩ := hprefix calls'.length hle le_rfl
      rw [List.drop_length] at hrest'
      obtain rfl := hrest'.of_nil
      obtain ⟨outcome'', rfl⟩ : ∃ outcome'', mid = .ended outcome'' := by
        cases mid with
        | ended outcome'' => exact ⟨outcome'', rfl⟩
        | _ => cases hid
      have hnil := Point.of_ended hrest
      rw [hnil] at hrest
      refine ⟨Nat.le_antisymm hle (List.drop_eq_nil_iff.mp hnil), ?_⟩
      rw [← Point.ended.inj hrest.of_nil]
      exact Point.ended.inj hid
  · intro done packet result later hcalls
    rw [hcalls] at hrun
    obtain ⟨before, after, hbefore, hstep, -⟩ := hrun.step_at
    obtain ⟨hello, rfl⟩ := Point.step_loginFinished hstep
    obtain ⟨first, second, hpackets, hintroduced⟩ := Point.heard_of_run hbefore
    cases hstep
    exact ⟨first, second, hello, hpackets, hintroduced.2.1, rfl⟩
  · intro done info maxPlayers result later hcalls
    rw [hcalls] at hrun
    obtain ⟨before, after, hbefore, hstep, -⟩ := hrun.step_at
    obtain ⟨hello, rfl, hinfo, -⟩ := Point.step_tryInsert hstep
    obtain ⟨first, second, third, hpackets, hintroduced, -⟩ := Point.heard_of_run hbefore
    exact ⟨first, second, third, hello, hpackets, hintroduced.2.1, hinfo⟩

/-- `Notch` dials one address and claims no profile. -/
abbrev notchReads : Nat → Except ConnError Bytes
  | 0 => .ok [0, 136, 6, 9, 108, 111, 99, 97, 108, 104, 111, 115, 116, 99, 221, 2]
  | 1 => .ok [0, 5, 78, 111, 116, 99, 104, 0, 0, 0, 0, 0, 0, 0, 0, 0, 0, 0, 0, 0, 0, 0, 0]
  | _ => .error .closed

/-- `Notch` dials another and claims another. -/
abbrev claimedReads : Nat → Except ConnError Bytes
  | 0 => .ok [0, 136, 6, 7, 101, 120, 97, 109, 112, 108, 101, 0, 80, 2]
  | 1 => .ok [0, 5, 78, 111, 116, 99, 104, 1, 2, 3, 4, 5, 6, 7, 8, 9, 10, 11, 12, 13, 14, 15, 16]
  | _ => .error .closed

abbrev notchEnvironment : Environment where
  reads := notchReads
  sends _ := .ok ()
  registry _ := .new
  names _ _ := []
  json _ _ := ""

theorem identity_no_influence_notch :
    ∃ calls calls' : List Call, calls.length = 3 ∧ calls'.length = 3 ∧
      ∀ i, (h : i < calls.length) → (h' : i < calls'.length) → calls[i].Same calls'[i] := by
  have h₁ : Point.Step notchContext notchAddr .run (.read (notchReads 0)) .login :=
    Action.Step.read _
  have h₂ : Point.Step notchContext notchAddr .login (.read (notchReads 1))
      (.setCompression ⟨"Notch", 0⟩ 256) := Action.Step.read _
  have h₃ : Point.Step notchContext notchAddr (.setCompression ⟨"Notch", 0⟩ 256)
      (.send (.setCompression ⟨256⟩) (.ok ())) (.enableCompression ⟨"Notch", 0⟩ 256) :=
    Action.Step.send _
  have h₁' : Point.Step notchContext notchAddr .run (.read (claimedReads 0)) .login :=
    Action.Step.read _
  have h₂' : Point.Step notchContext notchAddr .login (.read (claimedReads 1))
      (.setCompression ⟨"Notch", 0x0102030405060708090a0b0c0d0e0f10⟩ 256) := Action.Step.read _
  have h₃' : Point.Step notchContext notchAddr
      (.setCompression ⟨"Notch", 0x0102030405060708090a0b0c0d0e0f10⟩ 256)
      (.send (.setCompression ⟨256⟩) (.ok ()))
      (.enableCompression ⟨"Notch", 0x0102030405060708090a0b0c0d0e0f10⟩ 256) :=
    Action.Step.send _
  have hnone : ∀ env, Faces env [] := by
    intro env done call later hcalls
    simp at hcalls
  have hview : ∀ i, view notchEnvironment.reads i = view claimedReads i := by
    rintro (_ | _ | i) <;> rfl
  have hfaces : Faces notchEnvironment ([] ++ [.read (notchReads 0)] ++ [.read (notchReads 1)] ++
      [.send (.setCompression ⟨256⟩) (.ok ())]) :=
    by refine (((hnone _).snoc ?_).snoc ?_).snoc ?_ <;> rfl
  have hfaces' : Faces { notchEnvironment with reads := claimedReads }
      ([] ++ [.read (claimedReads 0)] ++ [.read (claimedReads 1)] ++
        [.send (.setCompression ⟨256⟩) (.ok ())]) :=
    by refine (((hnone _).snoc ?_).snoc ?_).snoc ?_ <;> rfl
  obtain ⟨hsame, -⟩ := identity_no_influence hview (((Run.nil.snoc h₁).snoc h₂).snoc h₃) hfaces
    (((Run.nil.snoc h₁').snoc h₂').snoc h₃') hfaces'
  exact ⟨_, _, rfl, rfl, hsame⟩

end Rukkit.Server
