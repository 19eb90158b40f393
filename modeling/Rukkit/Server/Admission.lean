import Rukkit.Server.Connection

/-!
# Admission

What a connection must have heard before it touches the registry.
-/

namespace Rukkit.Server

open Rukkit.Lib Rukkit.Protocol

/-! ## Decoding -/

/-- The packet has the id of `P` and its body decodes exactly. -/
def DecodesAs {P : Type} [ServerboundPacket P] (state : State) (packet : Bytes) (value : P) :
    Prop :=
  ∃ body, splitId packet = .ok (ServerboundPacket.id P, body) ∧
    decodeExact P body state.name = .ok value

theorem liftProtocol_eq_ok {α : Type} {result : Except ProtocolError α} {a : α}
    (h : liftProtocol result = .ok a) : result = .ok a := by
  cases result with
  | ok b => exact congrArg Except.ok (Except.ok.inj h)
  | error e => cases h

theorem expectPacket_eq_ok {P : Type} [ServerboundPacket P] {state : State} {packet : Bytes}
    {value : P} (h : expectPacket P state packet = .ok value) : DecodesAs state packet value := by
  unfold expectPacket at h
  cases hsplit : splitId packet with
  | error e =>
      rw [hsplit] at h
      cases h
  | ok split =>
      obtain ⟨id, body⟩ := split
      rw [hsplit] at h
      by_cases hid : id = ServerboundPacket.id P
      · subst hid
        refine ⟨body, hsplit, ?_⟩
        apply liftProtocol_eq_ok
        simpa [liftProtocol, bind, Except.bind, pure, Except.pure] using h
      · simp [liftProtocol, bind, Except.bind, hid, throw, throwThe, MonadExceptOf.throw] at h

theorem DecodesAs.expectPacket {P : Type} [ServerboundPacket P] {state : State}
    {packet : Bytes} {value : P} (h : DecodesAs state packet value) :
    expectPacket P state packet = .ok value := by
  obtain ⟨body, hsplit, hdecode⟩ := h
  unfold Server.expectPacket
  rw [hsplit]
  simp only [liftProtocol, bind, Except.bind, ne_eq, not_true_eq_false, if_false]
  rw [hdecode]

theorem DecodesAs.unique {P : Type} [ServerboundPacket P] {state : State} {packet : Bytes}
    {a b : P} (ha : DecodesAs state packet a) (hb : DecodesAs state packet b) : a = b := by
  obtain ⟨body, hsplit, hdecode⟩ := ha
  obtain ⟨body', hsplit', hdecode'⟩ := hb
  rw [hsplit] at hsplit'
  obtain ⟨-, rfl⟩ := Prod.mk.inj (Except.ok.inj hsplit')
  rw [hdecode] at hdecode'
  exact Except.ok.inj hdecode'

/-- A string is accepted only if it has no more characters than the reader allows. -/
theorem readString_length {maxChars : Nat} {r t : PacketReader} {s : String}
    (h : readString maxChars r = .ok s t) : s.length ≤ maxChars := by
  unfold readString at h
  obtain ⟨len, mid, -, h⟩ := Reading.bind_eq_ok h
  obtain ⟨bytes, mid', -, h⟩ := Reading.bind_eq_ok h
  cases hdecode : String.fromUTF8? (ByteArray.mk bytes.toArray) with
  | none =>
      rw [hdecode] at h
      cases h
  | some text =>
      rw [hdecode] at h
      dsimp only at h
      by_cases hlong : maxChars < text.length
      · rw [if_pos hlong] at h
        cases h
      · rw [if_neg hlong] at h
        obtain ⟨rfl, -⟩ := Reading.pure_eq_ok h
        omega

theorem decodeExact_eq_ok {P : Type} [ServerboundPacket P] {body : Bytes} {state : String}
    {value : P} (h : decodeExact P body state = .ok value) :
    ∃ t, ServerboundPacket.decodeBody (PacketReader.new body) = .ok value t := by
  unfold decodeExact at h
  dsimp only at h
  split at h
  · rename_i packet t hread
    obtain ⟨value', mid, hbody, hrest⟩ := Reading.bind_eq_ok hread
    obtain ⟨u, mid', -, hpure⟩ := Reading.bind_eq_ok hrest
    obtain ⟨rfl, -⟩ := Reading.pure_eq_ok hpure
    rw [← Except.ok.inj h]
    exact ⟨mid, hbody⟩
  · cases h

/-- A name that is decoded has at most sixteen characters. -/
theorem DecodesAs.name_length {packet : Bytes} {hello : Hello} (h : DecodesAs .login packet hello) :
    hello.name.length ≤ maxUsernameLen := by
  obtain ⟨body, -, hdecode⟩ := h
  obtain ⟨t, hbody⟩ := decodeExact_eq_ok hdecode
  obtain ⟨name, mid, hname, hrest⟩ := Reading.bind_eq_ok hbody
  obtain ⟨profileId, -, rfl⟩ := Reading.bind_pure_eq_ok hrest
  exact readString_length hname

/-! ## What a task has heard -/

/-- The packets a task has read. -/
def packetsRead (calls : List Call) : List Bytes :=
  calls.filterMap fun
    | .read (.ok packet) => some packet
    | _ => none

theorem packetsRead_append (calls calls' : List Call) :
    packetsRead (calls ++ calls') = packetsRead calls ++ packetsRead calls' :=
  List.filterMap_append

theorem packetsRead_read (calls : List Call) (packet : Bytes) :
    packetsRead (calls ++ [.read (.ok packet)]) = packetsRead calls ++ [packet] :=
  packetsRead_append _ _

theorem packetsRead_quiet {calls : List Call} {call : Call}
    (h : ∀ packet, call ≠ .read (.ok packet)) :
    packetsRead (calls ++ [call]) = packetsRead calls := by
  rw [packetsRead_append, packetsRead, packetsRead, List.filterMap_cons_none, List.filterMap_nil,
    List.append_nil]
  split
  · exact absurd rfl (h _)
  · rfl

/-- The first packet asks for a login in this build's protocol version. -/
def AsksLogin (packet : Bytes) : Prop :=
  ∃ intention : Intention, DecodesAs .handshaking packet intention ∧
    (intention.nextState = .login ∨ intention.nextState = .transfer) ∧
    intention.protocolVersion = protocolVersion

def AsksStatus (packet : Bytes) : Prop :=
  ∃ intention : Intention, DecodesAs .handshaking packet intention ∧
    intention.nextState = .status

theorem not_asksStatus_of_asksLogin {packet : Bytes} (hlogin : AsksLogin packet) :
    ¬ AsksStatus packet := by
  rintro ⟨intention, hdecode, hstatus⟩
  obtain ⟨intention', hdecode', hnext, -⟩ := hlogin
  rw [hdecode'.unique hdecode, hstatus] at hnext
  simp at hnext

theorem afterIntention_login {packet : Bytes} (h : AsksLogin packet) :
    ∃ intention, expectPacket Intention .handshaking packet = .ok intention ∧
      Point.afterIntention intention = .login := by
  obtain ⟨intention, hdecode, hnext, hversion⟩ := h
  refine ⟨intention, hdecode.expectPacket, ?_⟩
  have hsupported : isSupported intention.protocolVersion = true := beq_iff_eq.mpr hversion
  rcases hnext with hnext | hnext <;> simp [Point.afterIntention, hnext, hsupported]

/-- The first two packets ask for a login under a name the configuration lets in. -/
def Introduced (ctx : Context) (first second : Bytes) (hello : Hello) : Prop :=
  AsksLogin first ∧ DecodesAs .login second hello ∧ ctx.config.onlineMode = false

/-- What a task must have heard to stand at a point. -/
def Point.Heard (ctx : Context) (packets : List Bytes) : Point → Prop
  | run => packets = []
  | status | statusCount | statusSample _ | statusJson _ _ | statusRespond _ | statusPong _ =>
      ∃ first rest, packets = first :: rest ∧ AsksStatus first
  | login => ∃ first, packets = [first] ∧ AsksLogin first
  | setCompression hello _ | enableCompression hello _ | loginFinished hello
  | loginAcknowledged hello =>
      ∃ first second, packets = [first, second] ∧ Introduced ctx first second hello
  | tryInsert hello => ∃ first second third, packets = [first, second, third] ∧
      Introduced ctx first second hello ∧ DecodesAs .login third LoginAcknowledged.mk
  | brand hello | selectKnownPacks hello | configuration hello | refuseRegistry hello
  | remove hello _ => ∃ first second rest, packets = first :: second :: rest ∧
      Introduced ctx first second hello
  | refuseVersion _ | refuseOnline | refuseLogin _ | ended _ => True

namespace Point

variable {ctx : Context} {addr : SocketAddr} {point next : Point} {packets : List Bytes}

theorem Heard.orEnd {α : Type} {result : Except ConnError α} {f : α → Point}
    (h : ∀ a, result = .ok a → (f a).Heard ctx packets) : (orEnd result f).Heard ctx packets :=
  orEnd_rule h fun _ => trivial

theorem heard_afterIntention {packet : Bytes} {intention : Intention}
    (h : DecodesAs .handshaking packet intention) :
    (afterIntention intention).Heard ctx [packet] := by
  unfold afterIntention
  split
  · rename_i hstatus
    exact ⟨packet, [], rfl, intention, h, hstatus⟩
  · rename_i hlogin
    split
    · rename_i hversion
      exact ⟨packet, rfl, intention, h, .inl hlogin, beq_iff_eq.mp hversion⟩
    · trivial
  · rename_i htransfer
    split
    · rename_i hversion
      exact ⟨packet, rfl, intention, h, .inr htransfer, beq_iff_eq.mp hversion⟩
    · trivial

theorem heard_afterHello {first second : Bytes} {hello : Hello} (hfirst : AsksLogin first)
    (h : DecodesAs .login second hello) :
    (afterHello ctx.config hello).Heard ctx [first, second] := by
  unfold afterHello
  split
  · trivial
  · rename_i honline
    have hintroduced : Introduced ctx first second hello :=
      ⟨hfirst, h, Bool.eq_false_iff.mpr honline⟩
    split <;> exact ⟨first, second, rfl, hintroduced⟩

theorem Heard.orRemove {α : Type} {hello : Hello} {result : Except ConnError α} {f : α → Point}
    (hremove : ∀ outcome, (remove hello outcome).Heard ctx packets)
    (h : ∀ a, result = .ok a → (f a).Heard ctx packets) :
    (orRemove hello result f).Heard ctx packets :=
  orRemove_rule h fun e => hremove (.error e)

variable {calls : List Call} {call : Call}

/-- A read whose packet is right leads on with that packet heard; any other read ends
the task. -/
theorem Heard.read {α : Type} {f : Bytes → Except ConnError α} {g : α → Point}
    {result : Except ConnError Bytes}
    (h : ∀ packet a, f packet = .ok a → (g a).Heard ctx (packetsRead calls ++ [packet])) :
    (Point.orEnd (result.bind f) g).Heard ctx (packetsRead (calls ++ [.read result])) := by
  cases result with
  | ok packet =>
      rw [packetsRead_read]
      exact Heard.orEnd (h packet)
  | error e => trivial

theorem packetsRead_cons_append {first : Bytes} {rest : List Bytes}
    (h : packetsRead calls = first :: rest) (call : Call) :
    ∃ rest', packetsRead (calls ++ [call]) = first :: (rest ++ rest') :=
  ⟨packetsRead [call], by rw [packetsRead_append, h, List.cons_append]⟩

/-- One step keeps the account of what has been heard. -/
theorem Heard.step (h : point.Heard ctx (packetsRead calls))
    (hstep : Step ctx addr point call next) :
    next.Heard ctx (packetsRead (calls ++ [call])) := by
  cases point with
  | run =>
      cases hstep with
      | read result =>
          apply Heard.read
          intro packet intention hpacket
          rw [show packetsRead calls = [] from h]
          exact heard_afterIntention (expectPacket_eq_ok hpacket)
  | login =>
      obtain ⟨first, hpackets, hfirst⟩ := h
      cases hstep with
      | read result =>
          apply Heard.read
          intro packet hello hpacket
          rw [hpackets]
          exact heard_afterHello hfirst (expectPacket_eq_ok hpacket)
  | loginAcknowledged hello =>
      obtain ⟨first, second, hpackets, hintroduced⟩ := h
      cases hstep with
      | read result =>
          apply Heard.read
          intro packet acknowledged hpacket
          rw [hpackets]
          exact ⟨first, second, packet, rfl, hintroduced, expectPacket_eq_ok hpacket⟩
  | status =>
      obtain ⟨first, rest, hpackets, hfirst⟩ := h
      cases hstep with
      | read result =>
          obtain ⟨rest', hpackets'⟩ := packetsRead_cons_append hpackets (.read result)
          rw [hpackets']
          dsimp only
          split
          · trivial
          · apply Heard.orEnd
            rintro (_ | payload) - <;> exact ⟨first, _, rfl, hfirst⟩
  | configuration hello =>
      obtain ⟨first, second, rest, hpackets, hintroduced⟩ := h
      cases hstep with
      | read result =>
          obtain ⟨rest', hpackets'⟩ := packetsRead_cons_append hpackets (.read result)
          rw [hpackets']
          apply Heard.orRemove (fun _ => ⟨first, second, _, rfl, hintroduced⟩)
          rintro (_ | _ | _) - <;> exact ⟨first, second, _, rfl, hintroduced⟩
  | tryInsert hello =>
      obtain ⟨first, second, third, hpackets, hintroduced, -⟩ := h
      cases hstep with
      | tryInsert result =>
          rw [packetsRead_quiet (by rintro _ ⟨⟩)]
          cases result with
          | ok _ => exact ⟨first, second, [third], hpackets, hintroduced⟩
          | error why => trivial
  | statusRespond json =>
      cases hstep with
      | send result =>
          rw [packetsRead_quiet (by rintro _ ⟨⟩)]
          exact Heard.orEnd fun _ _ => h
  | setCompression hello threshold | loginFinished hello =>
      cases hstep with
      | send result =>
          rw [packetsRead_quiet (by rintro _ ⟨⟩)]
          exact Heard.orEnd fun _ _ => h
  | brand hello | selectKnownPacks hello | refuseRegistry hello =>
      cases hstep with
      | send result =>
          rw [packetsRead_quiet (by rintro _ ⟨⟩)]
          exact Heard.orRemove (fun _ => h) fun _ _ => h
  | statusCount | statusSample | statusJson | enableCompression =>
      cases hstep
      rw [packetsRead_quiet (by rintro _ ⟨⟩)]
      exact h
  | refuseVersion | statusPong | refuseOnline | refuseLogin => 
      cases hstep with
      | send result => cases result <;> trivial
  | remove hello outcome =>
      cases hstep
      trivial
  | ended outcome => cases hstep

theorem heard_of_run (hrun : Run (Step ctx addr) run calls point) :
    point.Heard ctx (packetsRead calls) :=
  hrun.invariant_labels (I := fun calls point => point.Heard ctx (packetsRead calls)) rfl
    fun _ _ _ _ h hstep => h.step hstep

/-! ## Where the calls are made -/

theorem step_tryInsert {info : PlayerInfo} {maxPlayers : Nat} {result : Except JoinError Unit}
    (h : Step ctx addr point (.tryInsert info maxPlayers result) next) :
    ∃ hello, point = tryInsert hello ∧
      info = { uuid := offlineUuid ctx.md5 hello.name, name := hello.name, addr } ∧
      (result = .ok () → next = brand hello) ∧
      ∀ why, result = .error why → next = refuseLogin why := by
  cases point with
  | tryInsert hello =>
      cases h
      exact ⟨hello, rfl, rfl, by rintro rfl; rfl, by rintro why rfl; rfl⟩
  | _ => cases h

theorem step_remove {uuid : Uuid} {removed : Option PlayerInfo}
    (h : Step ctx addr point (.remove uuid removed) next) :
    ∃ hello outcome, point = remove hello outcome ∧ uuid = offlineUuid ctx.md5 hello.name ∧
      next = ended outcome := by
  cases point with
  | remove hello outcome =>
      cases h
      exact ⟨hello, outcome, rfl, rfl, rfl⟩
  | _ => cases h

theorem step_loginFinished {packet : LoginFinished} {result : Outcome}
    (h : Step ctx addr point (.send (.loginFinished packet) result) next) :
    ∃ hello, point = loginFinished hello := by
  cases point with
  | loginFinished hello => exact ⟨hello, rfl⟩
  | _ => cases h

end Point

/-- Only two calls change the registry. -/
theorem Call.Acts.changes {call : Call} {r r' : PlayerRegistry} (h : call.Acts r r')
    (hchanged : r' ≠ r) :
    (∃ info maxPlayers, call = .tryInsert info maxPlayers (.ok ())) ∨
      ∃ uuid removed, call = .remove uuid removed := by
  cases call with
  | tryInsert info maxPlayers result =>
      cases result with
      | ok _ => exact .inl ⟨info, maxPlayers, rfl⟩
      | error why => exact absurd (PlayerRegistry.tryInsert_error h) hchanged
  | remove uuid removed => exact .inr ⟨uuid, removed, rfl⟩
  | count _ => exact absurd h.2 hchanged
  | sampleNames _ _ => exact absurd h.2 hchanged
  | _ => exact absurd h hchanged

/-- A new entry is the work of `tryInsert`. -/
theorem Call.Acts.inserts {call : Call} {r r' : PlayerRegistry} (h : call.Acts r r') {uuid : Uuid}
    {info : PlayerInfo} (hnew : r'.get uuid = some info) (hold : r.get uuid ≠ some info) :
    uuid = info.uuid ∧ ∃ maxPlayers, call = .tryInsert info maxPlayers (.ok ()) := by
  rcases h.changes (by rintro rfl; exact hold hnew) with
    ⟨inserted, maxPlayers, rfl⟩ | ⟨removed, player, rfl⟩
  · obtain ⟨-, hself, hothers⟩ := PlayerRegistry.tryInsert_ok h
    by_cases huuid : uuid = inserted.uuid
    · rw [huuid, hself] at hnew
      obtain rfl := Option.some.inj hnew
      exact ⟨huuid, maxPlayers, rfl⟩
    · exact absurd (hothers uuid huuid ▸ hnew) hold
  · obtain ⟨-, hgone, hothers⟩ := PlayerRegistry.remove_get h
    by_cases huuid : uuid = removed
    · rw [huuid, hgone] at hnew
      cases hnew
    · exact absurd (hothers uuid huuid ▸ hnew) hold

/-- In every run of a task a player is inserted only after an `Intention` to log in with
this build's version, a `Hello` and a `LoginAcknowledged`, under the name of that `Hello`;
`LoginFinished` is sent only after the first two; and a task asked for its status never
changes the registry. -/
theorem admission_gated {ctx : Context} {addr : SocketAddr} {calls : List Call} {point : Point}
    (hrun : Run (Point.Step ctx addr) .run calls point) :
    (∀ done call later r r' uuid info, calls = done ++ call :: later → call.Acts r r' →
      r'.get uuid = some info → r.get uuid ≠ some info →
      ∃ first second third hello, packetsRead done = [first, second, third] ∧
        Introduced ctx first second hello ∧ DecodesAs .login third LoginAcknowledged.mk ∧
        hello.name.length ≤ maxUsernameLen ∧ uuid = offlineUuid ctx.md5 hello.name ∧
        info = { uuid, name := hello.name, addr }) ∧
    (∀ done packet result later, calls = done ++ .send (.loginFinished packet) result :: later →
      ∃ first second hello, packetsRead done = [first, second] ∧
        Introduced ctx first second hello) ∧
    ∀ first rest, packetsRead calls = first :: rest → AsksStatus first →
      ∀ call ∈ calls, ∀ r r', call.Acts r r' → r' = r := by
  refine ⟨?_, ?_, ?_⟩
  · intro done call later r r' uuid info hcalls hacts hnew hold
    obtain ⟨huuid, maxPlayers, rfl⟩ := hacts.inserts hnew hold
    rw [hcalls] at hrun
    obtain ⟨before, after, hbefore, hstep, -⟩ := hrun.step_at
    obtain ⟨hello, rfl, hinfo, -, -⟩ := Point.step_tryInsert hstep
    obtain ⟨first, second, third, hpackets, hintroduced, hthird⟩ := Point.heard_of_run hbefore
    have hid : uuid = offlineUuid ctx.md5 hello.name := by rw [huuid, hinfo]
    exact ⟨first, second, third, hello, hpackets, hintroduced, hthird,
      hintroduced.2.1.name_length, hid, by rw [hinfo, hid]⟩
  · intro done packet result later hcalls
    rw [hcalls] at hrun
    obtain ⟨before, after, hbefore, hstep, -⟩ := hrun.step_at
    obtain ⟨hello, rfl⟩ := Point.step_loginFinished hstep
    obtain ⟨first, second, hpackets, hintroduced⟩ := Point.heard_of_run hbefore
    exact ⟨first, second, hello, hpackets, hintroduced⟩
  · intro first rest hpackets hstatus call hcall r r' hacts
    by_contra hchanged
    obtain ⟨done, later, rfl⟩ := List.append_of_mem hcall
    obtain ⟨before, after, hbefore, hstep, -⟩ := hrun.step_at
    have hlogin : ∃ first' rest', packetsRead done = first' :: rest' ∧ AsksLogin first' := by
      have hheard := Point.heard_of_run hbefore
      rcases hacts.changes hchanged with ⟨info, maxPlayers, rfl⟩ | ⟨uuid, removed, rfl⟩
      · obtain ⟨hello, rfl, -⟩ := Point.step_tryInsert hstep
        obtain ⟨first', second, third, hdone, hintroduced, -⟩ := hheard
        exact ⟨first', _, hdone, hintroduced.1⟩
      · obtain ⟨hello, outcome, rfl, -⟩ := Point.step_remove hstep
        obtain ⟨first', second, rest', hdone, hintroduced⟩ := hheard
        exact ⟨first', _, hdone, hintroduced.1⟩
    obtain ⟨first', rest', hdone, hasks⟩ := hlogin
    rw [packetsRead_append, hdone, List.cons_append] at hpackets
    obtain ⟨rfl, -⟩ := List.cons.inj hpackets
    exact not_asksStatus_of_asksLogin hasks hstatus

/-- The calls of a login that gets through, up to the insertion. -/
def loginCalls (ctx : Context) (first second third : Bytes) (hello : Hello) (threshold : Nat) :
    List Call :=
  [.read (.ok first), .read (.ok second), .send (.setCompression ⟨asI32 threshold⟩) (.ok ()),
    .enableCompression threshold,
    .send (.loginFinished (LoginFinished.new (offlineUuid ctx.md5 hello.name) hello.name
      ctx.config.loginFinishedFlag.value)) (.ok ()),
    .read (.ok third)]

/-- A client so introduced gets as far as the registry. -/
theorem login_run {ctx : Context} {addr : SocketAddr} {first second third : Bytes} {hello : Hello}
    {threshold : Nat} (hintroduced : Introduced ctx first second hello)
    (hthird : DecodesAs .login third LoginAcknowledged.mk)
    (hcompression : ctx.config.compression = some threshold) :
    Run (Point.Step ctx addr) .run (loginCalls ctx first second third hello threshold)
      (.tryInsert hello) := by
  obtain ⟨hfirst, hsecond, honline⟩ := hintroduced
  obtain ⟨intention, hintention, hlogin⟩ := afterIntention_login hfirst
  have h₁ : Point.Step ctx addr .run (.read (.ok first)) .login := by
    have hstep : Point.Step ctx addr .run (.read (.ok first)) _ := Action.Step.read (.ok first)
    simp only [Except.bind, hintention, Point.orEnd, hlogin] at hstep
    exact hstep
  have h₂ : Point.Step ctx addr .login (.read (.ok second)) (.setCompression hello threshold) := by
    have hstep : Point.Step ctx addr .login (.read (.ok second)) _ :=
      Action.Step.read (.ok second)
    simp only [Except.bind, hsecond.expectPacket, Point.orEnd, Point.afterHello, honline,
      hcompression] at hstep
    exact hstep
  have h₃ : Point.Step ctx addr (.setCompression hello threshold)
      (.send (.setCompression ⟨asI32 threshold⟩) (.ok ())) (.enableCompression hello threshold) :=
    Action.Step.send _
  have h₄ : Point.Step ctx addr (.enableCompression hello threshold)
      (.enableCompression threshold) (.loginFinished hello) := Action.Step.enableCompression
  have h₅ : Point.Step ctx addr (.loginFinished hello)
      (.send (.loginFinished (LoginFinished.new (offlineUuid ctx.md5 hello.name) hello.name
        ctx.config.loginFinishedFlag.value)) (.ok ())) (.loginAcknowledged hello) :=
    Action.Step.send _
  have h₆ : Point.Step ctx addr (.loginAcknowledged hello) (.read (.ok third))
      (.tryInsert hello) := by
    have hstep : Point.Step ctx addr (.loginAcknowledged hello) (.read (.ok third)) _ :=
      Action.Step.read (.ok third)
    simp only [Except.bind, hthird.expectPacket, Point.orEnd] at hstep
    exact hstep
  exact (((((Run.nil.snoc h₁).snoc h₂).snoc h₃).snoc h₄).snoc h₅).snoc h₆

/-- A client let in is configured up to the server's question. -/
theorem configuration_run {ctx : Context} {addr : SocketAddr} {hello : Hello} :
    Run (Point.Step ctx addr) (.brand hello)
      [.send (.pluginMessage (PluginMessage.brand serverBrand)) (.ok ()),
        .send (.selectKnownPacks SelectKnownPacks.vanilla) (.ok ())] (.configuration hello) := by
  have hbrand : Point.Step ctx addr (.brand hello)
      (.send (.pluginMessage (PluginMessage.brand serverBrand)) (.ok ()))
      (.selectKnownPacks hello) := Action.Step.send _
  have hpacks : Point.Step ctx addr (.selectKnownPacks hello)
      (.send (.selectKnownPacks SelectKnownPacks.vanilla) (.ok ())) (.configuration hello) :=
    Action.Step.send _
  exact (Run.single hbrand).snoc hpacks

/-- The default settings, with the digests of `OfflinePlayer:Notch` and
`OfflinePlayer:alice`. -/
abbrev notchContext : Context where
  config := .default
  md5 data :=
    if data = utf8 "OfflinePlayer:alice" then
      ⟨#[64, 245, 219, 83, 164, 122, 99, 238, 49, 246, 219, 14, 32, 222, 222, 212], rfl⟩
    else ⟨#[181, 10, 211, 133, 130, 157, 161, 65, 162, 22, 126, 125, 117, 57, 186, 127], rfl⟩
  componentJson _ := "{}"

abbrev notchAddr : SocketAddr := ⟨.v4 0x7F000001, 50000⟩

abbrev notch : PlayerInfo where
  uuid := 0xb50ad385829d3141a2167e7d7539ba7f
  name := "Notch"
  addr := notchAddr

/-- The calls of a login under the name `Notch` up to the insertion. -/
abbrev notchCalls : List Call :=
  [.read (.ok [0, 136, 6, 9, 108, 111, 99, 97, 108, 104, 111, 115, 116, 99, 221, 2]),
    .read (.ok [0, 5, 78, 111, 116, 99, 104, 0, 0, 0, 0, 0, 0, 0, 0, 0, 0, 0, 0, 0, 0, 0, 0]),
    .send (.setCompression ⟨256⟩) (.ok ()), .enableCompression 256,
    .send (.loginFinished ⟨notch.uuid, "Notch", [], some false⟩) (.ok ()), .read (.ok [3])]

theorem notch_run : Run (Point.Step notchContext notchAddr) .run
    (notchCalls ++ [.tryInsert notch 20 (.ok ())]) (.brand ⟨"Notch", 0⟩) := by
  have hintroduced : Introduced notchContext
      [0, 136, 6, 9, 108, 111, 99, 97, 108, 104, 111, 115, 116, 99, 221, 2]
      [0, 5, 78, 111, 116, 99, 104, 0, 0, 0, 0, 0, 0, 0, 0, 0, 0, 0, 0, 0, 0, 0, 0]
      ⟨"Notch", 0⟩ :=
    ⟨⟨⟨776, "localhost", 25565, .login⟩, ⟨_, rfl, rfl⟩, .inl rfl, rfl⟩, ⟨_, rfl, rfl⟩, rfl⟩
  have hinsert : Point.Step notchContext notchAddr (.tryInsert ⟨"Notch", 0⟩)
      (.tryInsert notch 20 (.ok ())) (.brand ⟨"Notch", 0⟩) := Action.Step.tryInsert _
  exact (login_run hintroduced ⟨_, rfl, rfl⟩ rfl : Run _ _ notchCalls _).snoc hinsert

/-- `Notch` logs in to an empty server. -/
theorem admission_gated_notch :
    ∃ first second third hello, packetsRead notchCalls = [first, second, third] ∧
      Introduced notchContext first second hello ∧
      DecodesAs .login third LoginAcknowledged.mk ∧ hello.name.length ≤ maxUsernameLen ∧
      notch =
        { uuid := offlineUuid notchContext.md5 hello.name,
          name := hello.name,
          addr := notchAddr } := by
  obtain ⟨hinserts, -, -⟩ := admission_gated notch_run
  obtain ⟨first, second, third, hello, hpackets, hintroduced, hthird, hlength, huuid, hinfo⟩ :=
    hinserts notchCalls (.tryInsert notch 20 (.ok ())) [] .new
      (PlayerRegistry.new.tryInsert notch 20).1 notch.uuid notch rfl rfl rfl
      (by simp [PlayerRegistry.get_new])
  exact ⟨first, second, third, hello, hpackets, hintroduced, hthird, hlength, huuid ▸ hinfo⟩

end Rukkit.Server
