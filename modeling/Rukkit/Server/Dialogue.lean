import Rukkit.Server.ReferenceClient

/-!
# The dialogue

Where the server takes the client to stand at each of its points, and what each of its
calls does to that: a read moves the client on as sending the packet did, a send as reading
the packet will.
-/

namespace Rukkit.Server

open Rukkit.Lib Rukkit.Protocol

namespace Point

/-- The client once it has read all that is on its way, short of what it has sent since;
`none` where the server neither reads nor sends any more. -/
def view (ctx : Context) : Point → Option Reference
  | run => some .new
  | status | statusCount | statusSample _ | statusJson _ _ | statusRespond _ | statusPong _ =>
      some ⟨.status, false, false, none⟩
  | refuseVersion _ | login => some ⟨.login, false, false, none⟩
  | refuseOnline | setCompression _ _ => some ⟨.login, true, false, none⟩
  | enableCompression _ threshold => some ⟨.login, true, false, some threshold⟩
  | loginFinished _ => some ⟨.login, true, false, ctx.config.compression⟩
  | loginAcknowledged _ => some ⟨.login, true, true, ctx.config.compression⟩
  | tryInsert _ | refuseLogin _ | brand _ | selectKnownPacks _ | configuration _
  | refuseRegistry _ => some ⟨.configuration, true, true, ctx.config.compression⟩
  | remove _ _ | ended _ => none

/-- The setting of the server's codec. -/
def setting (ctx : Context) : Point → Option Nat
  | enableCompression _ _ => none
  | point => (point.view ctx).bind Reference.compression

/-- What a point's own data has been checked against. -/
def Grounded (ctx : Context) : Point → Prop
  | setCompression hello threshold | enableCompression hello threshold =>
      hello.name.length ≤ maxUsernameLen ∧ ctx.config.compression = some threshold
  | loginFinished hello => hello.name.length ≤ maxUsernameLen
  | _ => True

/-- The server takes the client for `v` and has its codec at `setting`, or is past both. -/
structure Expects (ctx : Context) (v : Reference) (setting : Option Nat) (point : Point) :
    Prop where
  view_eq : ∀ v', point.view ctx = some v' → v' = v ∧ point.setting ctx = setting
  grounded : point.Grounded ctx

variable {ctx : Context} {addr : SocketAddr} {point next : Point} {v : Reference}
  {setting : Option Nat} {packet : Bytes}

theorem expects_self (hview : point.view ctx = some v) (hsetting : point.setting ctx = setting)
    (hgrounded : point.Grounded ctx) : point.Expects ctx v setting where
  view_eq := by
    intro v' hv'
    rw [hview] at hv'
    exact ⟨(Option.some.inj hv').symm, hsetting⟩
  grounded := hgrounded

theorem expects_ended (outcome : Outcome) : (ended outcome).Expects ctx v setting where
  view_eq := by
    intro v' hv'
    cases hv'
  grounded := trivial

theorem expects_remove (hello : Hello) (outcome : Outcome) :
    (remove hello outcome).Expects ctx v setting where
  view_eq := by
    intro v' hv'
    cases hv'
  grounded := trivial

theorem Expects.orEnd {α : Type} {result : Except ConnError α} {f : α → Point}
    (h : ∀ a, result = .ok a → (f a).Expects ctx v setting) :
    (orEnd result f).Expects ctx v setting :=
  orEnd_rule h fun _ => expects_ended _

theorem Expects.orRemove {α : Type} {hello : Hello} {result : Except ConnError α} {f : α → Point}
    (h : ∀ a, result = .ok a → (f a).Expects ctx v setting) :
    (orRemove hello result f).Expects ctx v setting :=
  orRemove_rule h fun _ => expects_remove hello _

/-! ## Reading -/

theorem sends_intention {intention : Intention}
    (h : expectPacket Intention .handshaking packet = .ok intention) :
    Reference.new.sends packet = ⟨intention.nextState.entered, false, false, none⟩ := by
  simp only [Reference.sends, Reference.new, Reference.entered, Reference.sendsHello, h]
  rfl

/-- A packet is a hello or an acknowledgement by its id. -/
theorem entered_of_hello {hello : Hello} (h : expectPacket Hello .login packet = .ok hello) :
    Reference.entered .login packet = .login := by
  obtain ⟨body, hsplit, -⟩ := expectPacket_eq_ok h
  rw [Reference.entered]
  split
  · rename_i hack
    cases hexpect : expectPacket LoginAcknowledged .login packet with
    | error e =>
        rw [hexpect] at hack
        cases hack
    | ok acknowledged =>
        obtain ⟨body', hsplit', -⟩ := expectPacket_eq_ok hexpect
        rw [hsplit] at hsplit'
        have hid := (Prod.mk.inj (Except.ok.inj hsplit')).1
        exact absurd hid (by decide)
  · rfl

theorem sends_hello {hello : Hello} (h : expectPacket Hello .login packet = .ok hello) :
    (⟨.login, false, false, none⟩ : Reference).sends packet = ⟨.login, true, false, none⟩ := by
  simp only [Reference.sends, entered_of_hello h, Reference.sendsHello, h]
  rfl

theorem sends_acknowledged {setting : Option Nat} {acknowledged : LoginAcknowledged}
    (h : expectPacket LoginAcknowledged .login packet = .ok acknowledged) :
    (⟨.login, true, true, setting⟩ : Reference).sends packet =
      ⟨.configuration, true, true, setting⟩ := by
  simp only [Reference.sends, Reference.entered, h]
  rfl

theorem expects_afterIntention {intention : Intention}
    (h : expectPacket Intention .handshaking packet = .ok intention) :
    (afterIntention intention).Expects ctx (Reference.new.sends packet) none := by
  rw [sends_intention h, afterIntention]
  cases intention.nextState with
  | status => exact expects_self rfl rfl trivial
  | login | transfer =>
      dsimp only
      split <;> exact expects_self rfl rfl trivial

theorem expects_afterHello {hello : Hello} (h : expectPacket Hello .login packet = .ok hello) :
    (afterHello ctx.config hello).Expects ctx
      ((⟨.login, false, false, none⟩ : Reference).sends packet) none := by
  have hname := (expectPacket_eq_ok h).name_length
  rw [sends_hello h, afterHello]
  split
  · exact expects_self rfl rfl trivial
  · split
    · rename_i threshold hthreshold
      exact expects_self rfl rfl ⟨hname, hthreshold⟩
    · rename_i hnone
      refine expects_self ?_ hnone hname
      rw [view, hnone]

/-- A packet that is read moves the client on as sending it did. -/
theorem expects_read (hstep : Step ctx addr point (.read (.ok packet)) next)
    (hview : point.view ctx = some v) : next.Expects ctx (v.sends packet) (point.setting ctx) := by
  cases point with
  | run =>
      cases hview
      cases hstep
      exact Expects.orEnd fun intention h => expects_afterIntention h
  | status =>
      cases hview
      cases hstep
      apply Expects.orEnd
      rintro (_ | payload) - <;> exact expects_self rfl rfl trivial
  | login =>
      cases hview
      cases hstep
      exact Expects.orEnd fun hello h => expects_afterHello h
  | loginAcknowledged hello =>
      cases hview
      cases hstep
      apply Expects.orEnd
      intro acknowledged h
      have hsends : (⟨.login, true, true, ctx.config.compression⟩ : Reference).sends packet =
          ⟨.configuration, true, true, ctx.config.compression⟩ := sends_acknowledged h
      rw [hsends]
      exact expects_self rfl rfl trivial
  | configuration hello =>
      cases hview
      cases hstep
      apply Expects.orRemove
      rintro (_ | _ | _) -
      · exact expects_self rfl rfl trivial
      · exact expects_remove hello _
      · exact expects_self rfl rfl trivial
  | _ => cases hstep

/-- A read that fails is the last one. -/
theorem view_read_error {e : ConnError} (hstep : Step ctx addr point (.read (.error e)) next) :
    next.view ctx = none := by
  cases point with
  | run | login | loginAcknowledged hello | configuration hello =>
      cases hstep
      rfl
  | status =>
      cases hstep
      dsimp only
      split <;> rfl
  | _ => cases hstep

/-! ## Sending -/

theorem utf8ByteSize_le (s : String) : s.utf8ByteSize ≤ 4 * s.length := by
  rw [← String.utf8Len_toList, ← String.length_toList]
  induction s.toList with
  | nil => exact Nat.le_refl 0
  | cons c chars ih =>
      have hsize := Char.utf8Size_le_four c
      rw [String.utf8Len_cons, List.length_cons]
      omega

theorem loginFinished_small {uuid : Uuid} {name : String} {flag : Option Bool}
    (h : name.length ≤ maxUsernameLen) :
    1 + (Clientbound.encode (.loginFinished (LoginFinished.new uuid name flag))).length ≤
      maxFrameLen := by
  have hid := length_writeVarint_le (ClientboundPacket.id LoginFinished)
  have hcount := length_writeVarint_le (asI32 0)
  have hstring := length_writeString name
  have hsize := utf8ByteSize_le name
  unfold maxUsernameLen at h
  unfold maxVarintBytes at hid hcount hstring
  unfold maxFrameLen
  rw [Clientbound.encode, encodePacket]
  cases flag <;>
    simp only [ClientboundPacket.encodeBody, LoginFinished.new, writeUuid, writeArray, writeBool,
      List.length_append, BigEndian.length_toBytes, List.length_nil, List.length_singleton,
      List.flatMap_nil] <;>
    omega

/-- What the server sends, to the client it takes for `v`. -/
structure Sendable (v : Reference) (packet : Clientbound) : Prop where
  state_eq : packet.state = v.state
  not_finished : packet.state = .login → v.finishedRead = false
  limits : WithinLimits v.compression packet.encode
  /-- It changes a client only while that client waits. -/
  waits_or_inert : (v.helloSent = true ∧ v.finishedRead = false) ∨
    ∀ c : Reference, c.state = v.state → c.reads packet.encode = c

theorem withinLimits_none (bytes : Bytes) : WithinLimits none bytes := by
  intro threshold h
  cases h

theorem Sendable.status {packet : Clientbound} (h : packet.state = .status) :
    Sendable ⟨.status, false, false, none⟩ packet where
  state_eq := h
  not_finished := fun _ => rfl
  limits := withinLimits_none _
  waits_or_inert := by
    refine .inr fun c hc => Reference.reads_of_ne_login ?_ _
    rw [hc]
    exact State.noConfusion

theorem Sendable.configuration {packet : Clientbound} (h : packet.state = .configuration)
    (hlength : 1 + packet.encode.length ≤ maxFrameLen) (compression : Option Nat) :
    Sendable ⟨.configuration, true, true, compression⟩ packet where
  state_eq := h
  not_finished := by
    intro hlogin
    rw [h] at hlogin
    cases hlogin
  limits := withinLimits_of_le hlength
  waits_or_inert := by
    refine .inr fun c hc => Reference.reads_of_ne_login ?_ _
    rw [hc]
    exact State.noConfusion

theorem Sendable.loginDisconnect (packet : LoginDisconnect) (helloSent : Bool) :
    Sendable ⟨.login, helloSent, false, none⟩ (.loginDisconnect packet) where
  state_eq := rfl
  not_finished := fun _ => rfl
  limits := withinLimits_none _
  waits_or_inert := .inr fun _ hc => Reference.reads_loginDisconnect hc packet

theorem reads_configuration (helloSent finishedRead : Bool) (compression : Option Nat)
    (q : Bytes) :
    (⟨.configuration, helloSent, finishedRead, compression⟩ : Reference).reads q =
      ⟨.configuration, helloSent, finishedRead, compression⟩ :=
  Reference.reads_of_ne_login State.noConfusion q

theorem refusal_small (why : JoinError) :
    1 + (Clientbound.encode (.disconnect { reason := refusalMessage why })).length ≤
      maxFrameLen := by
  cases why <;> decide +kernel

theorem registry_small :
    1 + (Clientbound.encode (.disconnect { reason := registryMessage })).length ≤
      maxFrameLen := by
  decide +kernel

theorem brand_small :
    1 + (Clientbound.encode (.pluginMessage (PluginMessage.brand serverBrand))).length ≤
      maxFrameLen := by
  decide +kernel

theorem knownPacks_small :
    1 + (Clientbound.encode (.selectKnownPacks SelectKnownPacks.vanilla)).length ≤
      maxFrameLen := by
  decide +kernel

theorem view_orEnd {result : Outcome} (h : result ≠ .ok ()) (f : Unit → Point) :
    (orEnd result f).view ctx = none :=
  orEnd_rule (P := fun point => point.view ctx = none) (fun _ hok => absurd hok h) fun _ => rfl

theorem view_orRemove {hello : Hello} {result : Outcome} (h : result ≠ .ok ())
    (f : Unit → Point) : (orRemove hello result f).view ctx = none :=
  orRemove_rule (P := fun point => point.view ctx = none) (fun _ hok => absurd hok h) fun _ => rfl

/-- A send, from a client taken for `v` with the codec at `setting`. -/
structure Sent (ctx : Context) (v : Reference) (setting : Option Nat) (packet : Clientbound)
    (result : Outcome) (next : Point) : Prop where
  sendable : Sendable v packet
  setting_eq : setting = v.compression
  /-- A packet that is sent moves the client on as reading it will. -/
  expects : next.Expects ctx (v.reads packet.encode) setting
  /-- A send that fails is the last one. -/
  failed : result ≠ .ok () → next.view ctx = none

theorem send_spec {packet : Clientbound} {result : Outcome}
    (hstep : Step ctx addr point (.send packet result) next) (hview : point.view ctx = some v)
    (hgrounded : point.Grounded ctx) : Sent ctx v (point.setting ctx) packet result next := by
  cases point with
  | refuseVersion got =>
      cases hview
      cases hstep
      exact ⟨Sendable.loginDisconnect _ _, rfl, expects_ended _, fun _ => rfl⟩
  | refuseOnline =>
      cases hview
      cases hstep
      refine ⟨Sendable.loginDisconnect _ _, rfl, ?_, fun h => view_orEnd h _⟩
      exact Expects.orEnd fun _ _ => expects_ended _
  | statusRespond json =>
      cases hview
      cases hstep
      refine ⟨Sendable.status rfl, rfl, ?_, fun h => view_orEnd h _⟩
      rw [Reference.reads_of_ne_login State.noConfusion]
      exact Expects.orEnd fun _ _ => expects_self rfl rfl trivial
  | statusPong payload =>
      cases hview
      cases hstep
      exact ⟨Sendable.status rfl, rfl, expects_ended _, fun _ => rfl⟩
  | setCompression hello threshold =>
      cases hview
      cases hstep
      obtain ⟨hname, hthreshold⟩ := hgrounded
      have hreads := Reference.reads_setCompression (c := ⟨.login, true, false, none⟩) rfl
        (ServerConfig.compression_lt hthreshold)
      refine ⟨⟨rfl, fun _ => rfl, withinLimits_none _, .inl ⟨rfl, rfl⟩⟩, rfl, ?_,
        fun h => view_orEnd h _⟩
      rw [hreads]
      exact Expects.orEnd fun _ _ => expects_self rfl rfl ⟨hname, hthreshold⟩
  | loginFinished hello =>
      cases hview
      cases hstep
      have hreads := Reference.reads_loginFinished
        (c := ⟨.login, true, false, ctx.config.compression⟩) rfl
      refine ⟨⟨rfl, fun _ => rfl, ?_, .inl ⟨rfl, rfl⟩⟩, rfl, ?_, fun h => view_orEnd h _⟩
      · exact withinLimits_of_le (loginFinished_small hgrounded)
      · rw [hreads]
        exact Expects.orEnd fun _ _ => expects_self rfl rfl trivial
  | refuseLogin why =>
      cases hview
      cases hstep
      refine ⟨Sendable.configuration rfl (refusal_small why) _, rfl, ?_, fun h => view_orEnd h _⟩
      exact Expects.orEnd fun _ _ => expects_ended _
  | brand hello =>
      cases hview
      cases hstep
      refine ⟨Sendable.configuration rfl brand_small _, rfl, ?_, fun h => view_orRemove h _⟩
      rw [reads_configuration]
      exact Expects.orRemove fun _ _ => expects_self rfl rfl trivial
  | selectKnownPacks hello =>
      cases hview
      cases hstep
      refine ⟨Sendable.configuration rfl knownPacks_small _, rfl, ?_, fun h => view_orRemove h _⟩
      rw [reads_configuration]
      exact Expects.orRemove fun _ _ => expects_self rfl rfl trivial
  | refuseRegistry hello =>
      cases hview
      cases hstep
      refine ⟨Sendable.configuration rfl registry_small _, rfl, ?_, fun h => view_orRemove h _⟩
      exact Expects.orRemove fun _ _ => expects_remove hello _
  | _ => cases hstep

/-! ## The other calls -/

/-- Where the setting of the codec catches up with the client's. -/
theorem expects_enableCompression {threshold : Nat}
    (hstep : Step ctx addr point (.enableCompression threshold) next)
    (hview : point.view ctx = some v) (hgrounded : point.Grounded ctx) :
    v.compression = some threshold ∧ next.Expects ctx v (some threshold) := by
  cases point with
  | enableCompression hello threshold =>
      cases hview
      cases hstep
      obtain ⟨hname, hthreshold⟩ := hgrounded
      refine ⟨rfl, expects_self ?_ hthreshold hname⟩
      rw [view, hthreshold]
  | _ => cases hstep

theorem view_compression (hview : point.view ctx = some v) (hhello : v.helloSent = false) :
    v.compression = none := by
  cases point <;> cases hview
  case run | status | statusCount | statusSample | statusJson | statusRespond | statusPong
    | refuseVersion | login => rfl
  all_goals cases hhello

theorem setting_read {result : Except ConnError Bytes}
    (hstep : Step ctx addr point (.read result) next) (hview : point.view ctx = some v) :
    point.setting ctx = v.compression := by
  cases point with
  | run | status | login | loginAcknowledged hello | configuration hello =>
      cases hview
      rfl
  | _ => cases hstep

end Point

/-- The calls that touch neither codec nor socket. -/
def Call.Quiet : Call → Prop
  | read _ | send _ _ | enableCompression _ => False
  | count _ | sampleNames _ _ | json _ _ _ | tryInsert _ _ _ | remove _ _ => True

namespace Point

variable {ctx : Context} {addr : SocketAddr} {point next : Point} {v : Reference}

theorem expects_quiet {call : Call} (hstep : Step ctx addr point call next) (hquiet : call.Quiet)
    (hview : point.view ctx = some v) : next.Expects ctx v (point.setting ctx) := by
  cases point with
  | statusCount | statusSample online | statusJson online sample =>
      cases hview
      cases hstep
      exact expects_self rfl rfl trivial
  | tryInsert hello =>
      cases hview
      cases hstep with
      | tryInsert result =>
          cases result with
          | ok u => exact expects_self rfl rfl trivial
          | error why => exact expects_self rfl rfl trivial
  | remove hello outcome | ended outcome => cases hview
  | _ =>
      cases hstep
      exact hquiet.elim

/-- A task that is past its client only removes its player. -/
theorem step_of_view_none {call : Call} (hstep : Step ctx addr point call next)
    (hview : point.view ctx = none) :
    call.Quiet ∧ ∃ outcome, next = ended outcome := by
  cases point with
  | remove hello outcome =>
      cases hstep
      exact ⟨trivial, outcome, rfl⟩
  | ended outcome => cases hstep
  | _ => cases hview

theorem view_of_step {call : Call} (hstep : Step ctx addr point call next) (h : ¬ call.Quiet) :
    ∃ v, point.view ctx = some v := by
  cases hview : point.view ctx with
  | none => exact absurd (step_of_view_none hstep hview).1 h
  | some v => exact ⟨v, rfl⟩

theorem grounded_of_view_none (hview : point.view ctx = none) : point.Grounded ctx := by
  cases point with
  | remove hello outcome | ended outcome => exact trivial
  | _ => cases hview

end Point

/-! ## What is on its way -/

/-- The client, the packets on their way to the server and those on their way to the client
fit together. -/
structure Talk (ctx : Context) (point : Point) (c : Reference) (up : List Framed)
    (down : List Meant) : Prop where
  receives : c.Receives down
  /-- Reading what comes to it, the client gets to where it gets by what it sent. -/
  agrees : ∀ v, point.view ctx = some v → c.readAll down = v.sendAll up
  polite : ∀ v, point.view ctx = some v → v.Polite up
  settings : ∀ v, point.view ctx = some v → ∀ x ∈ up, x.compression = v.compression

namespace Talk

variable {ctx : Context} {point next : Point} {c v : Reference} {up : List Framed}
  {down : List Meant} {packet : Bytes}

theorem new : Talk ctx .run .new [] [] where
  receives := trivial
  agrees := by
    rintro v ⟨⟩
    rfl
  polite := fun _ _ => trivial
  settings := by
    intro v _ x hx
    cases hx

/-- A client that may send uses the setting the server expects. -/
theorem compression_eq (h : Talk ctx point c up down) (hview : point.view ctx = some v)
    (hwaits : c.Waits packet) : c.compression = v.compression := by
  have hagrees := h.agrees v hview
  cases hhello : c.helloSent with
  | true =>
      rw [h.receives.readAll_of_finished down (hwaits hhello)] at hagrees
      rw [hagrees, Reference.sendAll_compression]
  | false =>
      have hsent : (v.sendAll up).helloSent = false := by
        rw [← hagrees, Reference.readAll_helloSent, hhello]
      have hnone := Point.view_compression hview (Reference.sendAll_helloSent up hsent)
      have hread : (c.readAll down).compression = none := by
        rw [hagrees, Reference.sendAll_compression, hnone]
      rw [Reference.readAll_compression_none down hread, hnone]

theorem client_sends (h : Talk ctx point c up down) (hack : c.Acknowledges packet) :
    Talk ctx point (c.sends packet) (up ++ [⟨c.compression, packet⟩]) down := by
  obtain ⟨hreceives, hall⟩ := h.receives.sends down hack
  refine ⟨hreceives, ?_, ?_, ?_⟩
  · intro v hview
    rw [hall, h.agrees v hview, Reference.sendAll, Reference.sendAll, List.foldl_append]
    rfl
  · intro v hview
    rw [Reference.polite_append, ← h.agrees v hview]
    exact ⟨h.polite v hview, hack.readAll down⟩
  · intro v hview x hx
    rcases List.mem_append.mp hx with hx | hx
    · exact h.settings v hview x hx
    · rw [List.mem_singleton.mp hx]
      exact h.compression_eq hview hack.waits

theorem client_reads {x : Meant} (h : Talk ctx point c up (x :: down)) :
    Talk ctx point (c.reads x.packet.encode) up down :=
  ⟨h.receives.2.2.2, h.agrees, h.polite, h.settings⟩

theorem server_reads {x : Framed} {setting : Option Nat} (h : Talk ctx point c (x :: up) down)
    (hview : point.view ctx = some v) (hnext : next.Expects ctx (v.sends x.packet) setting) :
    Talk ctx next c up down := by
  refine ⟨h.receives, ?_, ?_, ?_⟩
  · intro v' hv'
    rw [(hnext.view_eq v' hv').1]
    exact h.agrees v hview
  · intro v' hv'
    rw [(hnext.view_eq v' hv').1]
    exact (h.polite v hview).2
  · intro v' hv' y hy
    rw [(hnext.view_eq v' hv').1]
    exact h.settings v hview y (List.mem_cons_of_mem x hy)

/-- What the client has sent in the meantime does not change its state. -/
theorem state_sendAll {q : Clientbound} (h : Talk ctx point c up down)
    (hview : point.view ctx = some v) (hsend : Point.Sendable v q) :
    (v.sendAll up).state = v.state := by
  apply Reference.sendAll_state up
  · exact hsend.state_eq ▸ Reference.state_ne_handshaking q
  · exact hsend.state_eq ▸ hsend.not_finished
  · exact h.polite v hview

/-- A packet that is sent leaves what the client has sent in the meantime as it is. -/
theorem reads_sendAll {q : Clientbound} (h : Talk ctx point c up down)
    (hview : point.view ctx = some v) (hsend : Point.Sendable v q) :
    (v.sendAll up).reads q.encode = (v.reads q.encode).sendAll up ∧
    (v.reads q.encode).Polite up ∧
    ∀ x ∈ up, x.compression = (v.reads q.encode).compression := by
  rcases hsend.waits_or_inert with ⟨hhello, hfinished⟩ | hinert
  · rw [Reference.polite_nil_of_waiting hhello hfinished (h.polite v hview)]
    refine ⟨rfl, trivial, ?_⟩
    intro x hx
    cases hx
  · rw [hinert _ (h.state_sendAll hview hsend), hinert v rfl]
    exact ⟨rfl, h.polite v hview, h.settings v hview⟩

theorem server_sends {q : Clientbound} {setting : Option Nat} (h : Talk ctx point c up down)
    (hview : point.view ctx = some v) (hsend : Point.Sendable v q)
    (hnext : next.Expects ctx (v.reads q.encode) setting) :
    Talk ctx next c up (down ++ [⟨v.compression, q⟩]) := by
  have hagrees := h.agrees v hview
  obtain ⟨hreads, hpolite, hsettings⟩ := h.reads_sendAll hview hsend
  have hstate := h.state_sendAll hview hsend
  refine ⟨?_, ?_, ?_, ?_⟩
  · rw [Reference.receives_append, hagrees]
    refine ⟨h.receives, ?_, ?_, ?_, trivial⟩
    · exact (Reference.sendAll_compression up v).symm
    · exact hsend.state_eq.trans hstate.symm
    · intro hlogin
      rw [Reference.sendAll_finishedRead]
      exact hsend.not_finished hlogin
  · intro v' hv'
    rw [(hnext.view_eq v' hv').1, ← hreads, ← hagrees, Reference.readAll, List.foldl_append]
    rfl
  · intro v' hv'
    rw [(hnext.view_eq v' hv').1]
    exact hpolite
  · intro v' hv'
    rw [(hnext.view_eq v' hv').1]
    exact hsettings

theorem server_moves {setting : Option Nat} (h : Talk ctx point c up down)
    (hview : point.view ctx = some v) (hnext : next.Expects ctx v setting) :
    Talk ctx next c up down := by
  refine ⟨h.receives, ?_, ?_, ?_⟩
  all_goals
    intro v' hv'
    rw [(hnext.view_eq v' hv').1]
  · exact h.agrees v hview
  · exact h.polite v hview
  · exact h.settings v hview

theorem server_ends (h : Talk ctx point c up down) (hview : next.view ctx = none) :
    Talk ctx next c up down := by
  refine ⟨h.receives, ?_, ?_, ?_⟩
  all_goals
    intro v hv
    rw [hview] at hv
    cases hv

end Talk

end Rukkit.Server
