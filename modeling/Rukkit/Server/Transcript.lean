import Rukkit.Server.Finish

/-!
# What a connection says

The packets a task reads and those it sends, as the two sides of one conversation: which
packets it sends, in which order, and after having heard what.
-/

namespace Rukkit.Server

open Rukkit.Lib Rukkit.Protocol

/-- The packets a task has tried to send. -/
def packetsSent (calls : List Call) : List Clientbound :=
  calls.filterMap fun
    | .send packet _ => some packet
    | _ => none

theorem packetsSent_append (calls calls' : List Call) :
    packetsSent (calls ++ calls') = packetsSent calls ++ packetsSent calls' :=
  List.filterMap_append

theorem packetsSent_send (calls : List Call) (packet : Clientbound) (result : Outcome) :
    packetsSent (calls ++ [.send packet result]) = packetsSent calls ++ [packet] :=
  packetsSent_append _ _

theorem packetsSent_quiet {calls : List Call} {call : Call}
    (h : ∀ packet result, call ≠ .send packet result) :
    packetsSent (calls ++ [call]) = packetsSent calls := by
  rw [packetsSent_append, packetsSent, packetsSent, List.filterMap_cons_none, List.filterMap_nil,
    List.append_nil]
  split
  · exact absurd rfl (h _ _)
  · rfl

/-! ## The conversations -/

/-- A status request is answered with a document, a ping with its payload. -/
inductive Answers : Bytes → Clientbound → Prop
  | response {request : Bytes} (response : StatusResponse) :
      DecodesAs .status request StatusRequest.mk → Answers request (.statusResponse response)
  | pong {request : Bytes} {payload : Int64} :
      DecodesAs .status request (PingRequest.mk payload) →
      Answers request (.pongResponse { payload })

def compressionScript (ctx : Context) : List Clientbound :=
  match ctx.config.compression with
  | some threshold => [.setCompression { threshold := asI32 threshold }]
  | none => []

/-- Up to the client's acknowledgement. -/
def loginScript (ctx : Context) (hello : Hello) : List Clientbound :=
  compressionScript ctx ++ [.loginFinished (LoginFinished.new (offlineUuid ctx.md5 hello.name)
    hello.name ctx.config.loginFinishedFlag.value)]

/-- From there to the client's known packs. -/
def configurationScript : List Clientbound :=
  [.pluginMessage (PluginMessage.brand serverBrand), .selectKnownPacks SelectKnownPacks.vanilla]

/-- The packets heard and those sent, of a task that has got anywhere. -/
inductive Transcript (ctx : Context) : List Bytes → List Clientbound → Prop
  | silent {heard : List Bytes} : heard.length ≤ 2 → Transcript ctx heard []
  /-- Every request is answered before the next is read, and a pong is the last word. -/
  | status {first : Bytes} {requests unanswered : List Bytes} {sent : List Clientbound} :
      AsksStatus first → List.Forall₂ Answers requests sent → unanswered.length ≤ 1 →
      (∀ pong, .pongResponse pong ∉ sent.dropLast) →
      Transcript ctx (first :: (requests ++ unanswered)) sent
  | otherVersion {first : Bytes} {intention : Intention} :
      DecodesAs .handshaking first intention → intention.nextState ≠ .status →
      intention.protocolVersion ≠ protocolVersion →
      Transcript ctx [first] [.loginDisconnect
        { reasonJson := ctx.componentJson (versionMessage intention.protocolVersion) }]
  | onlineMode {first second : Bytes} {hello : Hello} :
      AsksLogin first → DecodesAs .login second hello → ctx.config.onlineMode = true →
      Transcript ctx [first, second]
        [.loginDisconnect { reasonJson := ctx.componentJson onlineModeMessage }]
  | login {first second : Bytes} {rest : List Bytes} {hello : Hello} {sent : List Clientbound} :
      Introduced ctx first second hello → rest.length ≤ 1 → sent <+: loginScript ctx hello →
      (rest ≠ [] → sent = loginScript ctx hello) →
      Transcript ctx (first :: second :: rest) sent
  | refused {first second third : Bytes} {hello : Hello} (why : JoinError) :
      Introduced ctx first second hello → DecodesAs .login third LoginAcknowledged.mk →
      Transcript ctx [first, second, third]
        (loginScript ctx hello ++ [.disconnect { reason := refusalMessage why }])
  | configuring {first second third : Bytes} {rest : List Bytes} {hello : Hello}
      {sent : List Clientbound} :
      Introduced ctx first second hello → DecodesAs .login third LoginAcknowledged.mk →
      sent <+: configurationScript → (rest ≠ [] → sent = configurationScript) →
      Transcript ctx (first :: second :: third :: rest) (loginScript ctx hello ++ sent)
  | unready {first second third last : Bytes} {rest : List Bytes} {hello : Hello}
      {packs : SelectKnownPacks} :
      Introduced ctx first second hello → DecodesAs .login third LoginAcknowledged.mk →
      DecodesAs .configuration last packs →
      Transcript ctx (first :: second :: third :: (rest ++ [last]))
        (loginScript ctx hello ++ configurationScript ++
          [.disconnect { reason := registryMessage }])

/-! ## The packets that are answered -/

theorem statusPacket_eq_ok {packet : Bytes} {taken : StatusPacket}
    (h : statusPacket packet = .ok taken) :
    match taken with
    | .request => DecodesAs .status packet StatusRequest.mk
    | .ping payload => DecodesAs .status packet (PingRequest.mk payload) := by
  unfold statusPacket at h
  cases hsplit : splitId packet with
  | error e =>
      rw [hsplit] at h
      cases h
  | ok split =>
      obtain ⟨id, body⟩ := split
      rw [hsplit] at h
      simp only [liftProtocol, bind, Except.bind] at h
      by_cases hrequest : id = ServerboundPacket.id StatusRequest
      · rw [if_pos hrequest] at h
        obtain ⟨rfl, request, hdecode⟩ := decoded_eq_ok h
        exact ⟨body, hrequest ▸ hsplit, hdecode⟩
      · rw [if_neg hrequest] at h
        by_cases hping : id = ServerboundPacket.id PingRequest
        · rw [if_pos hping] at h
          cases hdecode : decodeExact PingRequest body State.status.name with
          | error e =>
              rw [hdecode] at h
              cases h
          | ok ping =>
              rw [hdecode] at h
              obtain rfl := Except.ok.inj h
              exact ⟨body, hping ▸ hsplit, hdecode⟩
        · rw [if_neg hping] at h
          cases h

theorem configurationPacket_knownPacks {packet : Bytes}
    (h : configurationPacket packet = .ok .knownPacks) :
    ∃ packs : SelectKnownPacks, DecodesAs .configuration packet packs := by
  unfold configurationPacket at h
  cases hsplit : splitId packet with
  | error e =>
      rw [hsplit] at h
      cases h
  | ok split =>
      obtain ⟨id, body⟩ := split
      rw [hsplit] at h
      simp only [liftProtocol, bind, Except.bind] at h
      have hother : ∀ {α : Type} {result : Except ProtocolError α} {taken},
          (liftProtocol result >>= fun _ => pure taken) = Except.ok ConfigurationPacket.knownPacks →
          taken = .knownPacks := fun h => (decoded_eq_ok h).1
      split at h
      · cases hother h
      · by_cases hpacks : id = ServerboundPacket.id SelectKnownPacks
        · rw [if_pos hpacks] at h
          obtain ⟨-, packs, hdecode⟩ := decoded_eq_ok h
          exact ⟨packs, body, hpacks ▸ hsplit, hdecode⟩
        · rw [if_neg hpacks] at h
          split at h
          · cases hother h
          · split at h
            · cases hother h
            · split at h
              · cases hother h
              · cases h

namespace Point

variable {ctx : Context} {addr : SocketAddr} {point next : Point} {heard : List Bytes}
  {sent : List Clientbound} {hello : Hello}

/-- The status requests so far have been answered, but for the last if one is pending. -/
def Talks (heard pending : List Bytes) (sent : List Clientbound) : Prop :=
  ∃ first requests, heard = first :: (requests ++ pending) ∧ AsksStatus first ∧
    List.Forall₂ Answers requests sent ∧ ∀ pong, Clientbound.pongResponse pong ∉ sent

def Introduces (ctx : Context) (hello : Hello) (heard : List Bytes) : Prop :=
  ∃ first second, heard = [first, second] ∧ Introduced ctx first second hello

def Acknowledges (ctx : Context) (hello : Hello) (heard rest : List Bytes) : Prop :=
  ∃ first second third, heard = first :: second :: third :: rest ∧
    Introduced ctx first second hello ∧ DecodesAs .login third LoginAcknowledged.mk

/-- The conversation up to a point. -/
def Told (ctx : Context) (heard : List Bytes) (sent : List Clientbound) : Point → Prop
  | run => heard = [] ∧ sent = []
  | refuseVersion got => sent = [] ∧ ∃ (first : Bytes) (intention : Intention), heard = [first] ∧
      DecodesAs .handshaking first intention ∧ intention.nextState ≠ .status ∧
      intention.protocolVersion ≠ protocolVersion ∧ intention.protocolVersion = got
  | status => Talks heard [] sent
  | statusCount | statusSample _ | statusJson _ _ | statusRespond _ =>
      ∃ request, Talks heard [request] sent ∧ DecodesAs .status request StatusRequest.mk
  | statusPong payload =>
      ∃ request, Talks heard [request] sent ∧ DecodesAs .status request (PingRequest.mk payload)
  | login => sent = [] ∧ ∃ first, heard = [first] ∧ AsksLogin first
  | refuseOnline => sent = [] ∧ ∃ (first second : Bytes) (hello : Hello),
      heard = [first, second] ∧ AsksLogin first ∧ DecodesAs .login second hello ∧
        ctx.config.onlineMode = true
  | setCompression hello threshold => ctx.config.compression = some threshold ∧ sent = [] ∧
      Introduces ctx hello heard
  | enableCompression hello _ | loginFinished hello =>
      sent = compressionScript ctx ∧ Introduces ctx hello heard
  | loginAcknowledged hello => sent = loginScript ctx hello ∧ Introduces ctx hello heard
  | refuseLogin _ => ∃ hello, sent = loginScript ctx hello ∧ Acknowledges ctx hello heard []
  | tryInsert hello | brand hello => sent = loginScript ctx hello ∧ Acknowledges ctx hello heard []
  | selectKnownPacks hello => sent = loginScript ctx hello ++ configurationScript.take 1 ∧
      Acknowledges ctx hello heard []
  | configuration hello => sent = loginScript ctx hello ++ configurationScript ∧
      ∃ rest, Acknowledges ctx hello heard rest
  | refuseRegistry hello => sent = loginScript ctx hello ++ configurationScript ∧
      ∃ rest last, Acknowledges ctx hello heard (rest ++ [last]) ∧
        ∃ packs : SelectKnownPacks, DecodesAs .configuration last packs
  | remove _ _ | ended _ => Transcript ctx heard sent

theorem Talks.transcript {pending : List Bytes} (h : Talks heard pending sent)
    (hpending : pending.length ≤ 1) : Transcript ctx heard sent := by
  obtain ⟨first, requests, rfl, hfirst, hanswers, hpong⟩ := h
  exact .status hfirst hanswers hpending fun pong hmem => hpong pong (List.mem_of_mem_dropLast hmem)

theorem Acknowledges.transcript {rest : List Bytes} (h : Acknowledges ctx hello heard rest)
    (hsent : sent <+: configurationScript) (hrest : rest ≠ [] → sent = configurationScript) :
    Transcript ctx heard (loginScript ctx hello ++ sent) := by
  obtain ⟨first, second, third, rfl, hintroduced, hthird⟩ := h
  exact .configuring hintroduced hthird hsent hrest

/-- Wherever a task stands, its conversation is one of those. -/
theorem Told.transcript (h : point.Told ctx heard sent) : Transcript ctx heard sent := by
  cases point with
  | run =>
      obtain ⟨rfl, rfl⟩ := h
      exact .silent (by simp)
  | refuseVersion got =>
      obtain ⟨rfl, first, intention, rfl, -⟩ := h
      exact .silent (by simp)
  | login =>
      obtain ⟨rfl, first, rfl, -⟩ := h
      exact .silent (by simp)
  | refuseOnline =>
      obtain ⟨rfl, first, second, hello, rfl, -⟩ := h
      exact .silent (by simp)
  | status => exact Talks.transcript h (by simp)
  | statusCount | statusSample | statusJson | statusRespond | statusPong =>
      obtain ⟨request, htalks, -⟩ := h
      exact htalks.transcript (by simp)
  | setCompression hello threshold =>
      obtain ⟨-, rfl, first, second, rfl, -⟩ := h
      exact .silent (by simp)
  | enableCompression hello threshold | loginFinished hello =>
      obtain ⟨rfl, first, second, rfl, hintroduced⟩ := h
      exact .login hintroduced (by simp) (List.prefix_append _ _) (by simp)
  | loginAcknowledged hello =>
      obtain ⟨rfl, first, second, rfl, hintroduced⟩ := h
      exact .login hintroduced (by simp) List.prefix_rfl (by simp)
  | refuseLogin why =>
      obtain ⟨hello, rfl, hacknowledges⟩ := h
      have hnone := hacknowledges.transcript List.nil_prefix (by simp)
      rwa [List.append_nil] at hnone
  | tryInsert hello | brand hello =>
      obtain ⟨rfl, hacknowledges⟩ := h
      have hnone := hacknowledges.transcript List.nil_prefix (by simp)
      rwa [List.append_nil] at hnone
  | selectKnownPacks hello =>
      obtain ⟨rfl, hacknowledges⟩ := h
      exact hacknowledges.transcript (List.take_prefix _ _) (by simp)
  | configuration hello =>
      obtain ⟨rfl, rest, hacknowledges⟩ := h
      exact hacknowledges.transcript List.prefix_rfl fun _ => rfl
  | refuseRegistry hello =>
      obtain ⟨rfl, rest, last, hacknowledges, -⟩ := h
      exact hacknowledges.transcript List.prefix_rfl fun _ => rfl
  | remove | ended => exact h

/-- After a send: the point it leads to, or an error that ends the task there. -/
theorem Told.orEnd {result : Outcome} {f : Unit → Point} (h : (f ()).Told ctx heard sent) :
    (orEnd result f).Told ctx heard sent :=
  orEnd_rule (P := Told ctx heard sent) (fun _ _ => h) fun _ => h.transcript

theorem Told.orRemove {result : Outcome} {f : Unit → Point} (h : (f ()).Told ctx heard sent) :
    (orRemove hello result f).Told ctx heard sent :=
  orRemove_rule (P := Told ctx heard sent) (fun _ _ => h) fun _ => h.transcript

section Reads

variable {α : Type} {decode : Bytes → Except ConnError α} {f : α → Point} {calls : List Call}

/-- After a read: a packet that decodes leads on, another is the last that is heard. -/
theorem Told.orEnd_read {result : Except ConnError Bytes}
    (hnow : Transcript ctx (packetsRead calls) (packetsSent calls))
    (hlast : ∀ packet, Transcript ctx (packetsRead calls ++ [packet]) (packetsSent calls))
    (hnext : ∀ packet a, decode packet = .ok a →
      (f a).Told ctx (packetsRead calls ++ [packet]) (packetsSent calls)) :
    (Point.orEnd (result.bind decode) f).Told ctx (packetsRead (calls ++ [.read result]))
      (packetsSent (calls ++ [.read result])) := by
  rw [packetsSent_quiet (by rintro _ _ ⟨⟩)]
  cases result with
  | ok packet =>
      rw [packetsRead_read]
      exact orEnd_rule (P := Told ctx _ _) (hnext packet) fun _ => hlast packet
  | error e =>
      rw [packetsRead_quiet (by rintro _ ⟨⟩)]
      exact hnow

theorem Told.orRemove_read {result : Except ConnError Bytes}
    (hnow : Transcript ctx (packetsRead calls) (packetsSent calls))
    (hlast : ∀ packet, Transcript ctx (packetsRead calls ++ [packet]) (packetsSent calls))
    (hnext : ∀ packet a, decode packet = .ok a →
      (f a).Told ctx (packetsRead calls ++ [packet]) (packetsSent calls)) :
    (Point.orRemove hello (result.bind decode) f).Told ctx (packetsRead (calls ++ [.read result]))
      (packetsSent (calls ++ [.read result])) := by
  rw [packetsSent_quiet (by rintro _ _ ⟨⟩)]
  cases result with
  | ok packet =>
      rw [packetsRead_read]
      exact orRemove_rule (P := Told ctx _ _) (hnext packet) fun _ => hlast packet
  | error e =>
      rw [packetsRead_quiet (by rintro _ ⟨⟩)]
      exact hnow

end Reads

theorem told_afterIntention {packet : Bytes} {intention : Intention}
    (h : DecodesAs .handshaking packet intention) :
    (afterIntention intention).Told ctx [packet] [] := by
  have hlogin : intention.nextState = .login ∨ intention.nextState = .transfer →
      (if isSupported intention.protocolVersion then login
        else refuseVersion intention.protocolVersion).Told ctx [packet] [] := by
    intro hnext
    split
    · rename_i hversion
      exact ⟨rfl, packet, rfl, intention, h, hnext, beq_iff_eq.mp hversion⟩
    · rename_i hversion
      refine ⟨rfl, packet, intention, rfl, h, ?_, fun heq => hversion (beq_iff_eq.mpr heq), rfl⟩
      rcases hnext with hnext | hnext <;> simp [hnext]
  unfold afterIntention
  split
  · rename_i hstatus
    exact ⟨packet, [], rfl, ⟨intention, h, hstatus⟩, .nil, by simp⟩
  · rename_i hnext
    exact hlogin (.inl hnext)
  · rename_i hnext
    exact hlogin (.inr hnext)

theorem told_afterHello {first second : Bytes} (hfirst : AsksLogin first)
    (h : DecodesAs .login second hello) :
    (afterHello ctx.config hello).Told ctx [first, second] [] := by
  unfold afterHello
  split
  · rename_i honline
    exact ⟨rfl, first, second, hello, rfl, hfirst, h, honline⟩
  · rename_i honline
    have hintroduces : Introduces ctx hello [first, second] :=
      ⟨first, second, rfl, hfirst, h, Bool.eq_false_iff.mpr honline⟩
    split
    · rename_i threshold hthreshold
      exact ⟨hthreshold, rfl, hintroduces⟩
    · rename_i hnone
      exact ⟨by rw [compressionScript, hnone], hintroduces⟩

/-- A response is one more answer. -/
theorem Talks.answer {request : Bytes} (h : Talks heard [request] sent)
    (hrequest : DecodesAs .status request StatusRequest.mk) (response : StatusResponse) :
    Talks heard [] (sent ++ [.statusResponse response]) := by
  obtain ⟨first, requests, rfl, hfirst, hanswers, hpong⟩ := h
  refine ⟨first, requests ++ [request], by simp, hfirst, ?_, ?_⟩
  · exact List.rel_append hanswers (.cons (.response response hrequest) .nil)
  · simpa using hpong

/-- A pong is the last answer. -/
theorem Talks.pong {request : Bytes} {payload : Int64} (h : Talks heard [request] sent)
    (hrequest : DecodesAs .status request (PingRequest.mk payload)) :
    Transcript ctx heard (sent ++ [.pongResponse { payload }]) := by
  obtain ⟨first, requests, rfl, hfirst, hanswers, hpong⟩ := h
  have htalk : Transcript ctx (first :: (requests ++ [request] ++ []))
      (sent ++ [.pongResponse { payload }]) := by
    refine .status hfirst (List.rel_append hanswers (.cons (.pong hrequest) .nil)) (by simp) ?_
    rwa [List.dropLast_concat]
  rwa [List.append_nil] at htalk

variable {calls : List Call} {call : Call}

theorem Told.step (h : point.Told ctx (packetsRead calls) (packetsSent calls))
    (hstep : Step ctx addr point call next) :
    next.Told ctx (packetsRead (calls ++ [call])) (packetsSent (calls ++ [call])) := by
  have hnow := h.transcript
  cases point with
  | run =>
      obtain ⟨hheard, hsent⟩ := h
      cases hstep with
      | read result =>
          refine Told.orEnd_read hnow ?_ ?_
          · intro packet
            rw [hheard, hsent]
            exact .silent (by simp)
          · intro packet intention hpacket
            rw [hheard, hsent]
            exact told_afterIntention (expectPacket_eq_ok hpacket)
  | login =>
      obtain ⟨hsent, first, hheard, hfirst⟩ := h
      cases hstep with
      | read result =>
          refine Told.orEnd_read hnow ?_ ?_
          · intro packet
            rw [hheard, hsent]
            exact .silent (by simp)
          · intro packet hello hpacket
            rw [hheard, hsent]
            exact told_afterHello hfirst (expectPacket_eq_ok hpacket)
  | loginAcknowledged hello =>
      obtain ⟨hsent, first, second, hheard, hintroduced⟩ := h
      cases hstep with
      | read result =>
          refine Told.orEnd_read hnow ?_ ?_
          · intro packet
            rw [hheard, hsent]
            exact .login hintroduced (by simp) List.prefix_rfl fun _ => rfl
          · intro packet acknowledged hpacket
            rw [hheard, hsent]
            exact ⟨rfl, first, second, packet, rfl, hintroduced, expectPacket_eq_ok hpacket⟩
  | status =>
      obtain ⟨first, requests, hheard, hfirst, hanswers, hpong⟩ := h
      rw [List.append_nil] at hheard
      cases hstep with
      | read result =>
          dsimp only
          split
          · rw [packetsRead_quiet (by rintro _ ⟨⟩), packetsSent_quiet (by rintro _ _ ⟨⟩)]
            exact hnow
          · have htalks : ∀ packet,
                Talks (packetsRead calls ++ [packet]) [packet] (packetsSent calls) :=
              fun packet => ⟨first, requests, by rw [hheard, List.cons_append], hfirst, hanswers,
                hpong⟩
            refine Told.orEnd_read hnow (fun packet => (htalks packet).transcript (by simp)) ?_
            rintro packet (_ | payload) hpacket
            · exact ⟨packet, htalks packet, statusPacket_eq_ok hpacket⟩
            · exact ⟨packet, htalks packet, statusPacket_eq_ok hpacket⟩
  | configuration hello =>
      obtain ⟨hsent, rest, first, second, third, hheard, hintroduced, hthird⟩ := h
      cases hstep with
      | read result =>
          have hacknowledges : ∀ packet,
              Acknowledges ctx hello (packetsRead calls ++ [packet]) (rest ++ [packet]) :=
            fun packet => ⟨first, second, third, by rw [hheard]; rfl, hintroduced, hthird⟩
          have hlast : ∀ packet,
              Transcript ctx (packetsRead calls ++ [packet]) (packetsSent calls) := by
            intro packet
            rw [hsent]
            exact (hacknowledges packet).transcript List.prefix_rfl fun _ => rfl
          refine Told.orRemove_read hnow hlast ?_
          rintro packet (_ | _ | _) hpacket
          · exact ⟨hsent, rest, packet, hacknowledges packet,
              configurationPacket_knownPacks hpacket⟩
          · exact hlast packet
          · exact ⟨hsent, _, hacknowledges packet⟩
  | tryInsert hello =>
      cases hstep with
      | tryInsert result =>
          rw [packetsRead_quiet (by rintro _ ⟨⟩), packetsSent_quiet (by rintro _ _ ⟨⟩)]
          cases result with
          | ok _ => exact h
          | error why => exact ⟨hello, h⟩
  | statusCount | statusSample | statusJson | enableCompression | remove =>
      cases hstep
      rw [packetsRead_quiet (by rintro _ ⟨⟩), packetsSent_quiet (by rintro _ _ ⟨⟩)]
      exact h
  | statusRespond json =>
      obtain ⟨request, htalks, hrequest⟩ := h
      cases hstep with
      | send result =>
          rw [packetsRead_quiet (by rintro _ ⟨⟩), packetsSent_send]
          exact Told.orEnd (f := fun _ => status) (htalks.answer hrequest _)
  | statusPong payload =>
      obtain ⟨request, htalks, hrequest⟩ := h
      cases hstep with
      | send result =>
          rw [packetsRead_quiet (by rintro _ ⟨⟩), packetsSent_send]
          exact htalks.pong hrequest
  | refuseVersion got =>
      obtain ⟨hsent, first, intention, hheard, hfirst, hnext, hversion, rfl⟩ := h
      cases hstep with
      | send result =>
          rw [packetsRead_quiet (by rintro _ ⟨⟩), packetsSent_send, hheard, hsent]
          exact .otherVersion hfirst hnext hversion
  | refuseOnline =>
      obtain ⟨hsent, first, second, hello, hheard, hfirst, hsecond, honline⟩ := h
      cases hstep with
      | send result =>
          rw [packetsRead_quiet (by rintro _ ⟨⟩), packetsSent_send, hheard, hsent]
          exact Told.orEnd (f := fun _ => ended _) (.onlineMode hfirst hsecond honline)
  | setCompression hello threshold =>
      obtain ⟨hthreshold, hsent, hintroduces⟩ := h
      cases hstep with
      | send result =>
          rw [packetsRead_quiet (by rintro _ ⟨⟩), packetsSent_send, hsent]
          exact Told.orEnd (f := fun _ => enableCompression hello threshold)
            ⟨by rw [compressionScript, hthreshold]; rfl, hintroduces⟩
  | loginFinished hello =>
      obtain ⟨hsent, hintroduces⟩ := h
      cases hstep with
      | send result =>
          rw [packetsRead_quiet (by rintro _ ⟨⟩), packetsSent_send, hsent]
          exact Told.orEnd (f := fun _ => loginAcknowledged hello) ⟨rfl, hintroduces⟩
  | refuseLogin why =>
      obtain ⟨hello, hsent, first, second, third, hheard, hintroduced, hthird⟩ := h
      cases hstep with
      | send result =>
          rw [packetsRead_quiet (by rintro _ ⟨⟩), packetsSent_send, hheard, hsent]
          exact Told.orEnd (f := fun _ => ended _) (.refused why hintroduced hthird)
  | brand hello =>
      obtain ⟨hsent, hacknowledges⟩ := h
      cases hstep with
      | send result =>
          rw [packetsRead_quiet (by rintro _ ⟨⟩), packetsSent_send, hsent]
          exact Told.orRemove (f := fun _ => selectKnownPacks hello) ⟨rfl, hacknowledges⟩
  | selectKnownPacks hello =>
      obtain ⟨hsent, hacknowledges⟩ := h
      cases hstep with
      | send result =>
          rw [packetsRead_quiet (by rintro _ ⟨⟩), packetsSent_send, hsent, List.append_assoc]
          exact Told.orRemove (f := fun _ => configuration hello) ⟨rfl, [], hacknowledges⟩
  | refuseRegistry hello =>
      obtain ⟨hsent, rest, last, ⟨first, second, third, hheard, hintroduced, hthird⟩, packs,
        hpacks⟩ := h
      cases hstep with
      | send result =>
          rw [packetsRead_quiet (by rintro _ ⟨⟩), packetsSent_send, hheard, hsent]
          exact Told.orRemove (f := fun _ => remove hello _) (.unready hintroduced hthird hpacks)
  | ended outcome => cases hstep

theorem told_of_run (hrun : Run (Step ctx addr) run calls point) :
    point.Told ctx (packetsRead calls) (packetsSent calls) :=
  hrun.invariant_labels
    (I := fun calls point => point.Told ctx (packetsRead calls) (packetsSent calls)) ⟨rfl, rfl⟩
    fun _ _ _ _ h hstep => h.step hstep

end Point

/-- At every moment of every connection, whatever it is sent and however its calls turn out,
what it has read and sent is one of these conversations. -/
theorem transcript_of_run {ctx : Context} {addr : SocketAddr} {calls : List Call} {point : Point}
    (hrun : Run (Point.Step ctx addr) .run calls point) :
    Transcript ctx (packetsRead calls) (packetsSent calls) :=
  (Point.told_of_run hrun).transcript

theorem transcript_of_run_notch : ∃ calls,
    packetsSent calls = loginScript notchContext ⟨"Notch", 0⟩ ∧
      Transcript notchContext (packetsRead calls) (packetsSent calls) :=
  ⟨_, rfl, transcript_of_run notch_run⟩

end Rukkit.Server
