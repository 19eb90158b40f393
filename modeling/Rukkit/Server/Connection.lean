import Rukkit.Lib.Runs
import Rukkit.Protocol.Packets
import Rukkit.Server.Config
import Rukkit.Server.Player

/-!
# One connection

The model of `rukkit-server/src/connection.rs` above the codec.  The sequential task
is cut at every call that waits or touches shared state: a `Point` says where the
task stands, `Point.action` which call it makes there and where each result leads.
-/

namespace Rukkit.Server

open Rukkit.Lib Rukkit.Protocol

inductive ConnError where
  | io (message : String)
  | protocol (e : ProtocolError)
  | closed
  | timedOut
  | unsupportedVersion (got expected : Int32)
  | unexpectedPacket (state : String) (id : Int32)
  | rejected (reason : String)
deriving DecidableEq, Repr

abbrev Outcome := Except ConnError Unit

/-- What a task reads of the shared context, with the digest and the JSON form of a
component, which are made outside the repository. -/
structure Context where
  config : ServerConfig
  md5 : Bytes → Digest
  componentJson : Component → String

/-! ## Reading a packet -/

/-- Splits a packet body into its id and the rest. -/
def splitId (packet : Bytes) : Except ProtocolError (Int32 × Bytes) :=
  (readVarint packet).map fun (id, used) => (id, packet.drop used)

def liftProtocol {α : Type} : Except ProtocolError α → Except ConnError α
  | .ok a => .ok a
  | .error e => .error (.protocol e)

/-- A packet with the given id that decodes exactly. -/
def expectPacket (P : Type) [ServerboundPacket P] (state : State) (packet : Bytes) :
    Except ConnError P := do
  let (id, body) ← liftProtocol (splitId packet)
  if id ≠ ServerboundPacket.id P then throw (.unexpectedPacket state.name id)
  liftProtocol (decodeExact P body state.name)

inductive StatusPacket where
  | request
  | ping (payload : Int64)
deriving DecidableEq, Repr

/-- The `match` of the loop in `status_phase`. -/
def statusPacket (packet : Bytes) : Except ConnError StatusPacket := do
  let (id, body) ← liftProtocol (splitId packet)
  if id = ServerboundPacket.id StatusRequest then
    let _ ← liftProtocol (decodeExact StatusRequest body State.status.name)
    return .request
  else if id = ServerboundPacket.id PingRequest then
    let ping ← liftProtocol (decodeExact PingRequest body State.status.name)
    return .ping ping.payload
  else throw (.unexpectedPacket State.status.name id)

inductive ConfigurationPacket where
  | knownPacks
  | finish
  | other
deriving DecidableEq, Repr

/-- The `match` of the loop in `configuration_phase`; the packets it only logs or
ignores are `other`. -/
def configurationPacket (packet : Bytes) : Except ConnError ConfigurationPacket := do
  let (id, body) ← liftProtocol (splitId packet)
  let state := State.configuration.name
  if id = ServerboundPacket.id ClientInformation then
    let _ ← liftProtocol (decodeExact ClientInformation body state)
    return .other
  else if id = ServerboundPacket.id SelectKnownPacks then
    let _ ← liftProtocol (decodeExact SelectKnownPacks body state)
    return .knownPacks
  else if id = ServerboundPacket.id PluginMessage then
    let _ ← liftProtocol (decodeExact PluginMessage body state)
    return .other
  else if id = ServerboundPacket.id KeepAlive then
    let _ ← liftProtocol (decodeExact KeepAlive body state)
    return .other
  else if id = ServerboundPacket.id FinishConfigurationAck then
    let _ ← liftProtocol (decodeExact FinishConfigurationAck body state)
    return .finish
  else return .other

/-! ## Messages -/

def versionMessage (got : Int32) : Component :=
  (Component.literal
    ("This server is running Minecraft " ++ minecraftVersion ++ " (protocol " ++
      toString protocolVersion.toInt ++ "). Your client speaks protocol " ++
      toString got.toInt ++ ".")).withColor .red

def onlineModeMessage : Component :=
  (Component.literal
    "This server has online-mode enabled, which this build does not yet support.").withColor .red

def refusalMessage : JoinError → Component
  | .full => (Component.literal "The server is full").withColor .red
  | .nameTaken =>
      (Component.literal "Someone is already playing under that name").withColor .red

def registryMessage : Component :=
  (Component.literal
    ("Rukkit can accept your login, but cannot yet enter the world: the 26.2 registry data " ++
      "is not loaded. Server-list ping and login work; see the README roadmap.")).withColor .gold

/-! ## The task -/

/-- Where a task stands. -/
inductive Point where
  /-- `run`: the first read, and the refusal of another version. -/
  | run
  | refuseVersion (got : Int32)
  /-- `status_phase`: the read of the loop and the steps of the two answers. -/
  | status
  | statusCount
  | statusSample (online : Nat)
  | statusJson (online : Nat) (sample : List String)
  | statusRespond (json : String)
  | statusPong (payload : Int64)
  /-- `login_phase` up to the registry. -/
  | login
  | refuseOnline
  | setCompression (hello : Hello) (threshold : Nat)
  | enableCompression (hello : Hello) (threshold : Nat)
  | loginFinished (hello : Hello)
  | loginAcknowledged (hello : Hello)
  | tryInsert (hello : Hello)
  | refuseLogin (why : JoinError)
  /-- `configuration_phase`, and the removal it ends in. -/
  | brand (hello : Hello)
  | selectKnownPacks (hello : Hello)
  | configuration (hello : Hello)
  | refuseRegistry (hello : Hello)
  | remove (hello : Hello) (outcome : Outcome)
  | ended (outcome : Outcome)
deriving DecidableEq

/-- The call a task makes, and where its result leads. -/
inductive Action where
  | read (next : Except ConnError Bytes → Point)
  | send (packet : Clientbound) (next : Outcome → Point)
  | enableCompression (threshold : Nat) (next : Point)
  | count (next : Nat → Point)
  | sampleNames (limit : Nat) (next : List String → Point)
  | json (online : Int32) (sample : List String) (next : String → Point)
  | tryInsert (info : PlayerInfo) (maxPlayers : Nat) (next : Except JoinError Unit → Point)
  | remove (uuid : Uuid) (next : Point)
  | none

namespace Point

/-- The `?` operator outside `configuration_phase`: an error ends the task. -/
def orEnd {α : Type} (result : Except ConnError α) (next : α → Point) : Point :=
  match result with
  | .ok a => next a
  | .error e => .ended (.error e)

/-- The `?` operator inside `configuration_phase`: an error leads to the removal. -/
def orRemove {α : Type} (hello : Hello) (result : Except ConnError α) (next : α → Point) : Point :=
  match result with
  | .ok a => next a
  | .error e => .remove hello (.error e)

section Question

variable {α : Type} {hello : Hello} {result : Except ConnError α} {f : α → Point}
  {P : Point → Prop}

/-- What holds after a success, and of a task ended by an error, holds after `?`. -/
theorem orEnd_rule (hok : ∀ a, result = .ok a → P (f a))
    (hended : ∀ e, P (.ended (.error e))) : P (orEnd result f) := by
  cases result with
  | ok a => exact hok a rfl
  | error e => exact hended e

theorem orRemove_rule (hok : ∀ a, result = .ok a → P (f a))
    (hremove : ∀ e, P (.remove hello (.error e))) : P (orRemove hello result f) := by
  cases result with
  | ok a => exact hok a rfl
  | error e => exact hremove e

end Question

/-- After the first packet. -/
def afterIntention (intention : Intention) : Point :=
  match intention.nextState with
  | .status => .status
  | .login | .transfer =>
      if isSupported intention.protocolVersion then .login
      else .refuseVersion intention.protocolVersion

/-- After the client's name is known. -/
def afterHello (config : ServerConfig) (hello : Hello) : Point :=
  if config.onlineMode then .refuseOnline
  else
    match config.compression with
    | some threshold => .setCompression hello threshold
    | none => .loginFinished hello

def action (ctx : Context) (addr : SocketAddr) : Point → Action
  | run => .read fun packet => orEnd (packet.bind (expectPacket Intention .handshaking))
      afterIntention
  | refuseVersion got =>
      .send (.loginDisconnect { reasonJson := ctx.componentJson (versionMessage got) }) fun _ =>
        .ended (.error (.unsupportedVersion got protocolVersion))
  | status => .read fun packet =>
      match packet with
      -- a client that hangs up without asking for a pong is normal
      | .error .closed => .ended (.ok ())
      | packet => orEnd (packet.bind statusPacket) fun
        | .request => .statusCount
        | .ping payload => .statusPong payload
  | statusCount => .count .statusSample
  | statusSample online => .sampleNames 12 (.statusJson online)
  | statusJson online sample => .json (asI32 online) sample .statusRespond
  | statusRespond json => .send (.statusResponse { json }) fun sent => orEnd sent fun _ => .status
  | statusPong payload => .send (.pongResponse { payload }) .ended
  | login => .read fun packet => orEnd (packet.bind (expectPacket Hello .login))
      (afterHello ctx.config)
  | refuseOnline =>
      .send (.loginDisconnect { reasonJson := ctx.componentJson onlineModeMessage }) fun sent =>
        orEnd sent fun _ => .ended (.error (.rejected "online mode is not implemented"))
  | setCompression hello threshold =>
      .send (.setCompression { threshold := asI32 threshold }) fun sent =>
        orEnd sent fun _ => .enableCompression hello threshold
  | enableCompression hello threshold => .enableCompression threshold (.loginFinished hello)
  | loginFinished hello =>
      .send (.loginFinished (LoginFinished.new (offlineUuid ctx.md5 hello.name) hello.name
        ctx.config.loginFinishedFlag.value)) fun sent =>
        orEnd sent fun _ => .loginAcknowledged hello
  | loginAcknowledged hello => .read fun packet =>
      orEnd (packet.bind (expectPacket LoginAcknowledged .login)) fun _ => .tryInsert hello
  | tryInsert hello =>
      .tryInsert { uuid := offlineUuid ctx.md5 hello.name, name := hello.name, addr }
        (max ctx.config.maxPlayers 0).toNatClampNeg fun
        | .ok () => .brand hello
        | .error why => .refuseLogin why
  | refuseLogin why => .send (.disconnect { reason := refusalMessage why }) fun sent =>
      orEnd sent fun _ => .ended (.error (.rejected why.toString))
  | brand hello => .send (.pluginMessage (PluginMessage.brand serverBrand)) fun sent =>
      orRemove hello sent fun _ => .selectKnownPacks hello
  | selectKnownPacks hello => .send (.selectKnownPacks SelectKnownPacks.vanilla) fun sent =>
      orRemove hello sent fun _ => .configuration hello
  | configuration hello => .read fun packet =>
      orRemove hello (packet.bind configurationPacket) fun
        | .other => .configuration hello
        | .knownPacks => .refuseRegistry hello
        | .finish => .remove hello (.ok ())
  | refuseRegistry hello => .send (.disconnect { reason := registryMessage }) fun sent =>
      orRemove hello sent fun _ => .remove hello (.error (.rejected "registry data not loaded"))
  | remove hello outcome => .remove (offlineUuid ctx.md5 hello.name) (.ended outcome)
  | ended _ => .none

end Point

/-! ## Steps -/

/-- A call with its result. -/
inductive Call where
  | read (result : Except ConnError Bytes)
  | send (packet : Clientbound) (result : Outcome)
  | enableCompression (threshold : Nat)
  | count (online : Nat)
  | sampleNames (limit : Nat) (names : List String)
  | json (online : Int32) (sample : List String) (text : String)
  | tryInsert (info : PlayerInfo) (maxPlayers : Nat) (result : Except JoinError Unit)
  | remove (uuid : Uuid) (removed : Option PlayerInfo)

/-- The call an action makes, and the point its result leads to. -/
inductive Action.Step : Action → Call → Point → Prop
  | read {next : Except ConnError Bytes → Point} (result : Except ConnError Bytes) :
      Step (.read next) (.read result) (next result)
  | send {packet : Clientbound} {next : Outcome → Point} (result : Outcome) :
      Step (.send packet next) (.send packet result) (next result)
  | enableCompression {threshold : Nat} {next : Point} :
      Step (.enableCompression threshold next) (.enableCompression threshold) next
  | count {next : Nat → Point} (online : Nat) : Step (.count next) (.count online) (next online)
  | sampleNames {limit : Nat} {next : List String → Point} (names : List String) :
      Step (.sampleNames limit next) (.sampleNames limit names) (next names)
  | json {online : Int32} {sample : List String} {next : String → Point} (text : String) :
      Step (.json online sample next) (.json online sample text) (next text)
  | tryInsert {info : PlayerInfo} {maxPlayers : Nat} {next : Except JoinError Unit → Point}
      (result : Except JoinError Unit) :
      Step (.tryInsert info maxPlayers next) (.tryInsert info maxPlayers result) (next result)
  | remove {uuid : Uuid} {next : Point} (removed : Option PlayerInfo) :
      Step (.remove uuid next) (.remove uuid removed) next

/-- What a call does to the shared registry. -/
def Call.Acts (call : Call) (r r' : PlayerRegistry) : Prop :=
  match call with
  | tryInsert info maxPlayers result => r.tryInsert info maxPlayers = (r', result)
  | remove uuid removed => r.remove uuid = (r', removed)
  | count online => online = r.count ∧ r' = r
  | sampleNames limit names => r.SampleNames limit names ∧ r' = r
  | read _ | send _ _ | enableCompression _ | json _ _ _ => r' = r

/-- One step of a task, whatever its environment answers. -/
def Point.Step (ctx : Context) (addr : SocketAddr) (point : Point) (call : Call) (next : Point) :
    Prop :=
  (point.action ctx addr).Step call next

end Rukkit.Server
