import Rukkit.Server.Transcript

/-!
# Clients that keep to the protocol

How a connection whose client says what the protocol lets it say comes to its end: only in
the ways the server means it to, and never while the client has nothing left to say.
-/

namespace Rukkit.Server

open Rukkit.Lib Rukkit.Protocol

/-! ## What a client may say -/

/-- A packet of the configuration state that calls for no answer. -/
inductive Chats (packet : Bytes) : Prop
  | information {info : ClientInformation} : DecodesAs .configuration packet info → Chats packet
  | pluginMessage {message : PluginMessage} : DecodesAs .configuration packet message →
      Chats packet
  | keepAlive {alive : KeepAlive} : DecodesAs .configuration packet alive → Chats packet

/-- The packets a client sends from a state on, a session ending with a ping, with the known
packs or with the end of configuration. -/
inductive Says : State → List Bytes → Prop
  | toStatus {first : Bytes} {rest : List Bytes} : AsksStatus first → Says .status rest →
      Says .handshaking (first :: rest)
  | toLogin {first : Bytes} {rest : List Bytes} : AsksLogin first → Says .login rest →
      Says .handshaking (first :: rest)
  | request {request : Bytes} {rest : List Bytes} :
      DecodesAs .status request StatusRequest.mk → Says .status rest →
      Says .status (request :: rest)
  | ping {last : Bytes} {payload : Int64} : DecodesAs .status last (PingRequest.mk payload) →
      Says .status [last]
  | hello {second third : Bytes} {rest : List Bytes} {hello : Hello} :
      DecodesAs .login second hello → DecodesAs .login third LoginAcknowledged.mk →
      Says .configuration rest → Says .login (second :: third :: rest)
  | chat {packet : Bytes} {rest : List Bytes} : Chats packet → Says .configuration rest →
      Says .configuration (packet :: rest)
  | knownPacks {last : Bytes} {packs : SelectKnownPacks} : DecodesAs .configuration last packs →
      Says .configuration [last]
  | finish {last : Bytes} : DecodesAs .configuration last FinishConfigurationAck.mk →
      Says .configuration [last]

/-- A call whose packet gets through. -/
def Call.Delivered : Call → Prop
  | .read result => ∃ packet, result = .ok packet
  | .send _ result => result = .ok ()
  | _ => True

/-- The ends the server means a session to have. -/
inductive Served (ctx : Context) (calls : List Call) (script : List Bytes) : Outcome → Prop
  | ponged {before : List Bytes} {last : Bytes} {payload : Int64} : script = before ++ [last] →
      DecodesAs .status last (PingRequest.mk payload) → Served ctx calls script (.ok ())
  | finished {before : List Bytes} {last : Bytes} : script = before ++ [last] →
      DecodesAs .configuration last FinishConfigurationAck.mk → Served ctx calls script (.ok ())
  | onlineMode : ctx.config.onlineMode = true →
      Served ctx calls script (.error (.rejected "online mode is not implemented"))
  | refused {info : PlayerInfo} {maxPlayers : Nat} {why : JoinError} :
      .tryInsert info maxPlayers (.error why) ∈ calls →
      Served ctx calls script (.error (.rejected why.toString))
  | unready {before : List Bytes} {last : Bytes} {packs : SelectKnownPacks} :
      script = before ++ [last] → DecodesAs .configuration last packs →
      Served ctx calls script (.error (.rejected "registry data not loaded"))

/-! ## The packets it sends are taken -/

section Taken

variable {packet : Bytes}

theorem statusPacket_request (h : DecodesAs .status packet StatusRequest.mk) :
    statusPacket packet = .ok .request := by
  obtain ⟨body, hsplit, hdecode⟩ := h
  unfold statusPacket
  rw [hsplit]
  simp only [liftProtocol, bind, Except.bind, hdecode]
  rfl

theorem statusPacket_ping {payload : Int64}
    (h : DecodesAs .status packet (PingRequest.mk payload)) :
    statusPacket packet = .ok (.ping payload) := by
  obtain ⟨body, hsplit, hdecode⟩ := h
  unfold statusPacket
  rw [hsplit]
  simp only [liftProtocol, bind, Except.bind, hdecode]
  rfl

theorem Chats.configurationPacket (h : Chats packet) :
    configurationPacket packet = .ok .other := by
  unfold Server.configurationPacket
  cases h with
  | information h | pluginMessage h | keepAlive h =>
      obtain ⟨body, hsplit, hdecode⟩ := h
      rw [hsplit]
      simp only [liftProtocol, bind, Except.bind, hdecode]
      rfl

theorem configurationPacket_packs {packs : SelectKnownPacks}
    (h : DecodesAs .configuration packet packs) :
    configurationPacket packet = .ok .knownPacks := by
  obtain ⟨body, hsplit, hdecode⟩ := h
  unfold configurationPacket
  rw [hsplit]
  simp only [liftProtocol, bind, Except.bind, hdecode]
  rfl

theorem afterIntention_status (h : AsksStatus packet) :
    ∃ intention, expectPacket Intention .handshaking packet = .ok intention ∧
      Point.afterIntention intention = .status := by
  obtain ⟨intention, hdecode, hnext⟩ := h
  exact ⟨intention, hdecode.expectPacket, by simp [Point.afterIntention, hnext]⟩

end Taken

/-! ## The task beside the script -/

namespace Point

variable {ctx : Context} {addr : SocketAddr} {point next : Point} {calls : List Call}
  {call : Call} {script left : List Bytes} {hello : Hello}

/-- What the client still has to say at a point, and how the task is going to end. -/
def Attends (ctx : Context) (calls : List Call) (script left : List Bytes) : Point → Prop
  | run => Says .handshaking left
  | status | statusCount | statusSample _ | statusJson _ _ | statusRespond _ => Says .status left
  | statusPong _ => Served ctx calls script (.ok ())
  | login => Says .login left
  | setCompression _ _ | enableCompression _ _ | loginFinished _ | loginAcknowledged _ =>
      ∃ third rest, left = third :: rest ∧ DecodesAs .login third LoginAcknowledged.mk ∧
        Says .configuration rest
  | tryInsert _ | brand _ | selectKnownPacks _ | configuration _ => Says .configuration left
  | refuseOnline => ctx.config.onlineMode = true
  | refuseLogin why => ∃ info maxPlayers, .tryInsert info maxPlayers (.error why) ∈ calls
  | refuseRegistry _ =>
      Served ctx calls script (.error (.rejected "registry data not loaded"))
  | remove _ outcome | ended outcome => Served ctx calls script outcome
  | refuseVersion _ => False

theorem Served.mono {outcome : Outcome} (h : Served ctx calls script outcome) (call : Call) :
    Served ctx (calls ++ [call]) script outcome := by
  cases h with
  | ponged hlast hdecode => exact .ponged hlast hdecode
  | finished hlast hdecode => exact .finished hlast hdecode
  | onlineMode honline => exact .onlineMode honline
  | refused hmem => exact .refused (List.mem_append_left _ hmem)
  | unready hlast hdecode => exact .unready hlast hdecode

/-- More calls change nothing about it. -/
theorem Attends.mono (h : point.Attends ctx calls script left) (call : Call) :
    point.Attends ctx (calls ++ [call]) script left := by
  cases point with
  | statusPong payload => exact Served.mono h call
  | refuseRegistry hello => exact Served.mono h call
  | remove hello outcome | ended outcome => exact Served.mono h call
  | refuseLogin why =>
      obtain ⟨info, maxPlayers, hmem⟩ := h
      exact ⟨info, maxPlayers, List.mem_append_left _ hmem⟩
  | _ => exact h

theorem attends_afterHello {third : Bytes} {rest : List Bytes}
    (hthird : DecodesAs .login third LoginAcknowledged.mk) (hrest : Says .configuration rest) :
    (afterHello ctx.config hello).Attends ctx calls script (third :: rest) := by
  unfold afterHello
  split
  · rename_i honline
    exact honline
  · split <;> exact ⟨third, rest, rfl, hthird, hrest⟩

/-- The next packet of the script is one the task takes. -/
theorem Attends.read {packet : Bytes} {before : List Bytes}
    (h : point.Attends ctx calls script (packet :: left))
    (hscript : script = before ++ packet :: left)
    (hstep : Step ctx addr point (.read (.ok packet)) next) :
    next.Attends ctx calls script left := by
  cases point with
  | run =>
      cases hstep
      cases h with
      | toStatus hfirst hrest =>
          obtain ⟨intention, hexpect, hnext⟩ := afterIntention_status hfirst
          change (orEnd (expectPacket Intention .handshaking packet) afterIntention).Attends _ _ _ _
          rw [hexpect, orEnd, hnext]
          exact hrest
      | toLogin hfirst hrest =>
          obtain ⟨intention, hexpect, hnext⟩ := afterIntention_login hfirst
          change (orEnd (expectPacket Intention .handshaking packet) afterIntention).Attends _ _ _ _
          rw [hexpect, orEnd, hnext]
          exact hrest
  | status =>
      cases hstep
      cases h with
      | request hrequest hrest =>
          simp only [Except.bind, statusPacket_request hrequest, orEnd]
          exact hrest
      | ping hping =>
          simp only [Except.bind, statusPacket_ping hping, orEnd]
          exact .ponged hscript hping
  | login =>
      cases hstep
      cases h with
      | hello hhello hthird hrest =>
          change (orEnd (expectPacket Hello .login packet) (afterHello ctx.config)).Attends _ _ _ _
          rw [hhello.expectPacket, orEnd]
          exact attends_afterHello hthird hrest
  | loginAcknowledged hello =>
      cases hstep
      obtain ⟨third, rest, hleft, hthird, hrest⟩ := h
      obtain ⟨rfl, rfl⟩ := List.cons.inj hleft
      simp only [Except.bind, hthird.expectPacket, orEnd]
      exact hrest
  | configuration hello =>
      cases hstep
      cases h with
      | chat hchat hrest =>
          simp only [Except.bind, hchat.configurationPacket, orRemove]
          exact hrest
      | knownPacks hpacks =>
          simp only [Except.bind, configurationPacket_packs hpacks, orRemove]
          exact .unready hscript hpacks
      | finish hfinish =>
          simp only [Except.bind, configurationPacket_finish_iff.mpr hfinish, orRemove]
          exact .finished hscript hfinish
  | _ => cases hstep

/-- A call that reads nothing leaves the script where it is. -/
theorem Attends.quiet (h : point.Attends ctx calls script left)
    (hquiet : ∀ result, call ≠ .read result) (hdelivered : call.Delivered)
    (hstep : Step ctx addr point call next) :
    next.Attends ctx (calls ++ [call]) script left := by
  have hmore := h.mono call
  cases point with
  | run | status | login | loginAcknowledged | configuration =>
      cases hstep
      exact absurd rfl (hquiet _)
  | statusCount | statusSample | statusJson | enableCompression | remove =>
      cases hstep
      exact hmore
  | statusRespond json =>
      cases hstep
      obtain rfl : _ = Except.ok () := hdelivered
      exact hmore
  | statusPong payload =>
      cases hstep
      obtain rfl : _ = Except.ok () := hdelivered
      exact hmore
  | setCompression | loginFinished | brand | selectKnownPacks | refuseRegistry =>
      cases hstep
      obtain rfl : _ = Except.ok () := hdelivered
      exact hmore
  | refuseOnline =>
      cases hstep
      obtain rfl : _ = Except.ok () := hdelivered
      exact .onlineMode h
  | refuseLogin why =>
      cases hstep
      obtain rfl : _ = Except.ok () := hdelivered
      obtain ⟨info, maxPlayers, hmem⟩ := hmore
      exact .refused hmem
  | tryInsert hello =>
      cases hstep with
      | tryInsert result =>
          cases result with
          | ok _ => exact h
          | error why => exact ⟨_, _, List.mem_append_right _ List.mem_cons_self⟩
  | refuseVersion got => exact h.elim
  | ended outcome => cases hstep

/-- Beside a script whose packets get through, a task attends to what is left of it. -/
theorem attends_of_run (hscript : Says .handshaking script)
    (hrun : Run (Step ctx addr) run calls point) :
    (∀ call ∈ calls, call.Delivered) →
      ∀ left, packetsRead calls ++ left = script → point.Attends ctx calls script left := by
  refine hrun.invariant_labels (I := fun calls point => (∀ call ∈ calls, call.Delivered) →
    ∀ left, packetsRead calls ++ left = script → point.Attends ctx calls script left) ?_ ?_
  · rintro - left rfl
    exact hscript
  · intro done point call next ih hstep hall left hleft
    have hbefore : ∀ call ∈ done, call.Delivered :=
      fun earlier hmem => hall earlier (List.mem_append_left _ hmem)
    have hcall : call.Delivered := hall call (List.mem_append_right _ List.mem_cons_self)
    by_cases hread : ∃ result, call = .read result
    · obtain ⟨result, rfl⟩ := hread
      obtain ⟨packet, rfl⟩ := hcall
      rw [packetsRead_read, List.append_assoc] at hleft
      exact ((ih hbefore (packet :: left) hleft).read hleft.symm hstep).mono _
    · have hquiet : ∀ result, call ≠ .read result := fun result heq => hread ⟨result, heq⟩
      rw [packetsRead_quiet fun packet => hquiet _] at hleft
      exact (ih hbefore left hleft).quiet hquiet hcall hstep

/-- A task that reads has not heard the whole script. -/
theorem Attends.ne_nil (h : point.Attends ctx calls script left)
    {f : Except ConnError Bytes → Point} (hread : point.action ctx addr = .read f) :
    left ≠ [] := by
  rintro rfl
  cases point with
  | run | status | login | configuration => cases h
  | loginAcknowledged hello =>
      obtain ⟨third, rest, hleft, -⟩ := h
      cases hleft
  | _ => cases hread

end Point

end Rukkit.Server
