import Rukkit.Protocol.Text

/-!
# Packets

The model of `rukkit-protocol/src/packets`: the packets of the handshaking, status,
login and configuration states that a connection reads or sends, and the two
functions that frame a packet body with its id.
-/

namespace Rukkit.Protocol

open Rukkit.Lib

/-- The protocol version this build speaks. -/
def protocolVersion : Int32 := 776

def minecraftVersion : String := "26.2"

def serverBrand : String := "Rukkit"

/-- No other version is compatible. -/
def isSupported (protocol : Int32) : Bool := protocol == protocolVersion

/-- Connection state, which determines how a packet id is interpreted. -/
inductive State where
  | handshaking
  | status
  | login
  | configuration
  | play
deriving DecidableEq, Repr

def State.name : State → String
  | .handshaking => "handshaking"
  | .status => "status"
  | .login => "login"
  | .configuration => "configuration"
  | .play => "play"

/-- A packet this server sends, in the state its id belongs to. -/
class ClientboundPacket (P : Type) where
  id : Int32
  encodeBody : P → Bytes

/-- A packet this server receives. -/
class ServerboundPacket (P : Type) where
  id : Int32
  decodeBody : Reader P

/-- `packets::encode`: the id followed by the body. -/
def encodePacket {P : Type} [ClientboundPacket P] (packet : P) : Bytes :=
  writeVarint (ClientboundPacket.id P) ++ ClientboundPacket.encodeBody packet

/-- Decodes a packet body and requires it to be consumed exactly. -/
def decodeExact (P : Type) [ServerboundPacket P] (body : Bytes) (state : String) :
    Except ProtocolError P :=
  let read : Reader P := do
    let packet ← ServerboundPacket.decodeBody
    expectFinished state (ServerboundPacket.id P)
    return packet
  match read (PacketReader.new body) with
  | .ok packet _ => .ok packet
  | .error e _ => .error e

/-! ## Handshaking -/

/-- Maximum length of the address field. -/
def maxAddressLen : Nat := 255

inductive NextState where
  | status
  | login
  | transfer
deriving DecidableEq, Repr

def NextState.fromId (id : Int32) : Except ProtocolError NextState :=
  if id = 1 then .ok .status
  else if id = 2 then .ok .login
  else if id = 3 then .ok .transfer
  else .error (.invalidEnum "NextState" id.toInt64)

def NextState.id : NextState → Int32
  | .status => 1
  | .login => 2
  | .transfer => 3

/-- The opening packet of every connection. -/
structure Intention where
  protocolVersion : Int32
  serverAddress : String
  serverPort : UInt16
  nextState : NextState
deriving DecidableEq, Repr

namespace Intention

def encodeBody (p : Intention) : Bytes :=
  writeVarint p.protocolVersion ++ writeString p.serverAddress ++ writeU16 p.serverPort ++
    writeVarint p.nextState.id

instance : ServerboundPacket Intention where
  id := 0x00
  decodeBody := do
    let protocolVersion ← readVarintValue
    let serverAddress ← readString maxAddressLen
    let serverPort ← readU16
    let id ← readVarintValue
    match NextState.fromId id with
    | .ok nextState => return { protocolVersion, serverAddress, serverPort, nextState }
    | .error e => throw e

end Intention

/-! ## Status -/

structure StatusRequest where
deriving DecidableEq, Repr

instance : ServerboundPacket StatusRequest where
  id := 0x00
  decodeBody := return {}

/-- Latency probe, echoed verbatim. -/
structure PingRequest where
  payload : Int64
deriving DecidableEq, Repr

instance : ServerboundPacket PingRequest where
  id := 0x01
  decodeBody := return { payload := ← readI64 }

structure StatusResponse where
  json : String
deriving DecidableEq, Repr

instance : ClientboundPacket StatusResponse where
  id := 0x00
  encodeBody p := writeString p.json

structure PongResponse where
  payload : Int64
deriving DecidableEq, Repr

instance : ClientboundPacket PongResponse where
  id := 0x01
  encodeBody p := writeI64 p.payload

/-! ## Login -/

def maxUsernameLen : Nat := 16

/-- First packet of the login flow. -/
structure Hello where
  name : String
  /-- The client's own idea of its identifier, never trusted. -/
  profileId : Uuid
deriving DecidableEq, Repr

def Hello.encodeBody (p : Hello) : Bytes := writeString p.name ++ writeUuid p.profileId

instance : ServerboundPacket Hello where
  id := 0x00
  decodeBody := return { name := ← readString maxUsernameLen, profileId := ← readUuid }

/-- Cap for keys and verify tokens. -/
def maxKeyLen : Nat := 1024

/-- The client's half of the key exchange. -/
structure EncryptionResponse where
  sharedSecret : Bytes
  verifyToken : Bytes
deriving DecidableEq, Repr

instance : ServerboundPacket EncryptionResponse where
  id := 0x01
  decodeBody := return {
    sharedSecret := ← readByteArray maxKeyLen
    verifyToken := ← readByteArray maxKeyLen }

structure LoginAcknowledged where
deriving DecidableEq, Repr

instance : ServerboundPacket LoginAcknowledged where
  id := 0x03
  decodeBody := return {}

/-- Kick during login, which carries JSON. -/
structure LoginDisconnect where
  reasonJson : String
deriving DecidableEq, Repr

instance : ClientboundPacket LoginDisconnect where
  id := 0x00
  encodeBody p := writeString p.reasonJson

structure ProfileProperty where
  name : String
  value : String
  signature : Option String
deriving DecidableEq, Repr

structure LoginFinished where
  profileId : Uuid
  username : String
  properties : List ProfileProperty
  strictErrorHandling : Option Bool
deriving DecidableEq, Repr

/-- A profile with no skin properties. -/
def LoginFinished.new (profileId : Uuid) (username : String) (strictErrorHandling : Option Bool) :
    LoginFinished where
  profileId := profileId
  username := username
  properties := []
  strictErrorHandling := strictErrorHandling

instance : ClientboundPacket LoginFinished where
  id := 0x02
  encodeBody p :=
    writeUuid p.profileId ++ writeString p.username ++
      writeArray p.properties (fun property =>
        writeString property.name ++ writeString property.value ++
          writeOption property.signature writeString) ++
      match p.strictErrorHandling with
      | some strict => writeBool strict
      | none => []

/-- Enables compression for every subsequent packet. -/
structure SetCompression where
  threshold : Int32
deriving DecidableEq, Repr

instance : ClientboundPacket SetCompression where
  id := 0x03
  encodeBody p := writeVarint p.threshold

/-! ## Configuration -/

def maxLocaleLen : Nat := 16

def maxKnownPacks : Nat := 1024

inductive ChatMode where
  | enabled
  | commandsOnly
  | hidden
deriving DecidableEq, Repr

def ChatMode.fromId (id : Int32) : Except ProtocolError ChatMode :=
  if id = 0 then .ok .enabled
  else if id = 1 then .ok .commandsOnly
  else if id = 2 then .ok .hidden
  else .error (.invalidEnum "ChatMode" id.toInt64)

def ChatMode.id : ChatMode → Int32
  | .enabled => 0
  | .commandsOnly => 1
  | .hidden => 2

/-- The client's display and privacy settings. -/
structure ClientInformation where
  locale : String
  viewDistance : Int8
  chatMode : ChatMode
  chatColors : Bool
  displayedSkinParts : UInt8
  mainHand : Int32
  textFilteringEnabled : Bool
  allowsListing : Bool
  particleStatus : Int32
deriving DecidableEq, Repr

def ClientInformation.encodeBody (p : ClientInformation) : Bytes :=
  writeString p.locale ++ writeI8 p.viewDistance ++ writeVarint p.chatMode.id ++
    writeBool p.chatColors ++ writeU8 p.displayedSkinParts ++ writeVarint p.mainHand ++
    writeBool p.textFilteringEnabled ++ writeBool p.allowsListing ++ writeVarint p.particleStatus

instance : ServerboundPacket ClientInformation where
  id := 0x00
  decodeBody := do
    let locale ← readString maxLocaleLen
    let viewDistance ← readI8
    let id ← readVarintValue
    match ChatMode.fromId id with
    | .error e => throw e
    | .ok chatMode =>
        return {
          locale
          viewDistance
          chatMode
          chatColors := ← readBool
          displayedSkinParts := ← readU8
          mainHand := ← readVarintValue
          textFilteringEnabled := ← readBool
          allowsListing := ← readBool
          particleStatus := ← readVarintValue }

structure FinishConfigurationAck where
deriving DecidableEq, Repr

instance : ServerboundPacket FinishConfigurationAck where
  id := 0x03
  decodeBody := return {}

/-- The server's word that configuration is done. -/
structure FinishConfiguration where
deriving DecidableEq, Repr

instance : ClientboundPacket FinishConfiguration where
  id := 0x03
  encodeBody _ := []

/-- Liveness probe, echoed by the client. -/
structure KeepAlive where
  id : Int64
deriving DecidableEq, Repr

instance : ClientboundPacket KeepAlive where
  id := 0x04
  encodeBody p := writeI64 p.id

instance : ServerboundPacket KeepAlive where
  id := 0x04
  decodeBody := return { id := ← readI64 }

/-- Kick during configuration, which carries NBT. -/
structure Disconnect where
  reason : Component

instance : ClientboundPacket Disconnect where
  id := 0x02
  encodeBody p := writeNetwork p.reason.toNbt

def maxRegistryEntries : Nat := 2 ^ 16

/-- One registry entry: an id and, optionally, its definition. -/
structure RegistryEntry where
  entryId : String
  data : Option NbtTag

/-- A whole registry. -/
structure RegistryData where
  registryId : String
  entries : List RegistryEntry

namespace RegistryEntry

/-- The body of the loop of `RegistryData::encode_body`. -/
def encode (entry : RegistryEntry) : Bytes :=
  writeIdentifier entry.entryId ++
    match entry.data with
    | some tag => writeBool true ++ writeNetwork tag
    | none => writeBool false

def decode : Reader RegistryEntry := do
  let entryId ← readIdentifier
  if ← readBool then return { entryId, data := some (← readNetwork) }
  else return { entryId, data := none }

end RegistryEntry

instance : ClientboundPacket RegistryData where
  id := 0x07
  encodeBody p :=
    writeIdentifier p.registryId ++ writeVarint (asI32 p.entries.length) ++
      p.entries.flatMap RegistryEntry.encode

def RegistryData.decodeBody : Reader RegistryData := do
  let registryId ← readIdentifier
  let entries ← readArray maxRegistryEntries RegistryEntry.decode
  return { registryId, entries }

/-- A data pack both sides claim to know. -/
structure KnownPack where
  «namespace» : String
  id : String
  version : String
deriving DecidableEq, Repr

structure SelectKnownPacks where
  packs : List KnownPack
deriving DecidableEq, Repr

/-- The vanilla core pack for the targeted version. -/
def SelectKnownPacks.vanilla : SelectKnownPacks where
  packs := [{ «namespace» := "minecraft", id := "core", version := minecraftVersion }]

instance : ClientboundPacket SelectKnownPacks where
  id := 0x0E
  encodeBody p := writeArray p.packs fun pack =>
    writeString pack.namespace ++ writeString pack.id ++ writeString pack.version

instance : ServerboundPacket SelectKnownPacks where
  id := 0x07
  decodeBody := do
    let packs ← readArray maxKnownPacks do
      return {
        «namespace» := ← readString defaultMaxStringLen
        id := ← readString defaultMaxStringLen
        version := ← readString defaultMaxStringLen }
    return { packs }

/-- Vendor extension channel. -/
structure PluginMessage where
  channel : String
  data : Bytes
deriving DecidableEq, Repr

/-- The message announcing this server's implementation. -/
def PluginMessage.brand (brand : String) : PluginMessage where
  channel := "minecraft:brand"
  data := writeString brand

instance : ClientboundPacket PluginMessage where
  id := 0x01
  encodeBody p := writeIdentifier p.channel ++ writeBytes p.data

instance : ServerboundPacket PluginMessage where
  id := 0x02
  decodeBody := return { channel := ← readIdentifier, data := ← readRemaining }

/-! ## Sent packets -/

/-- The packets a connection sends. -/
inductive Clientbound where
  | statusResponse (packet : StatusResponse)
  | pongResponse (packet : PongResponse)
  | loginDisconnect (packet : LoginDisconnect)
  | loginFinished (packet : LoginFinished)
  | setCompression (packet : SetCompression)
  | disconnect (packet : Disconnect)
  | pluginMessage (packet : PluginMessage)
  | selectKnownPacks (packet : SelectKnownPacks)

namespace Clientbound

/-- The state whose clientbound table has the packet's id. -/
def state : Clientbound → State
  | statusResponse _ | pongResponse _ => .status
  | loginDisconnect _ | loginFinished _ | setCompression _ => .login
  | disconnect _ | pluginMessage _ | selectKnownPacks _ => .configuration

def encode : Clientbound → Bytes
  | statusResponse packet => encodePacket packet
  | pongResponse packet => encodePacket packet
  | loginDisconnect packet => encodePacket packet
  | loginFinished packet => encodePacket packet
  | setCompression packet => encodePacket packet
  | disconnect packet => encodePacket packet
  | pluginMessage packet => encodePacket packet
  | selectKnownPacks packet => encodePacket packet

end Clientbound

theorem encodePacket_ne_nil {P : Type} [ClientboundPacket P] (packet : P) :
    encodePacket packet ≠ [] := by
  have := length_writeVarint_pos (ClientboundPacket.id P)
  apply List.ne_nil_of_length_pos
  rw [encodePacket, List.length_append]
  omega

theorem Clientbound.encode_ne_nil (packet : Clientbound) : packet.encode ≠ [] := by
  cases packet <;> exact encodePacket_ne_nil _

end Rukkit.Protocol
