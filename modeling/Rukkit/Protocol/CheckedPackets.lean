import Rukkit.Protocol.CheckedNbt
import Rukkit.Protocol.PlayPackets

/-!
# Packet decoders with their panics

Every `decode_body` of `rukkit-protocol/src/packets` over the checked reader, with the
proof that it follows the one of the model.
-/

namespace Rukkit.Protocol

open Rukkit.Lib Rukkit.Lib.Checked

/-- A packet whose decoder is also given over the checked reader. -/
class CheckedPacket (P : Type) [ServerboundPacket P] where
  decodeBody : CheckedReader P
  follows : Follows decodeBody ServerboundPacket.decodeBody

/-- The packet types that a server receives. -/
inductive Serverbound where
  | intention
  | statusRequest
  | pingRequest
  | hello
  | encryptionResponse
  | loginAcknowledged
  | clientInformation
  | finishConfigurationAck
  | keepAlive
  | selectKnownPacks
  | pluginMessage
  | playKeepAlive
  | acceptTeleportation
  | movePlayerPos
  | movePlayerPosRot
  | movePlayerRot
  | movePlayerStatusOnly
  | chatCommand
  | clientTickEnd

namespace Serverbound

abbrev Packet : Serverbound → Type
  | intention => Intention
  | statusRequest => StatusRequest
  | pingRequest => PingRequest
  | hello => Hello
  | encryptionResponse => EncryptionResponse
  | loginAcknowledged => LoginAcknowledged
  | clientInformation => ClientInformation
  | finishConfigurationAck => FinishConfigurationAck
  | keepAlive => KeepAlive
  | selectKnownPacks => SelectKnownPacks
  | pluginMessage => PluginMessage
  | playKeepAlive => Play.KeepAlive
  | acceptTeleportation => Play.AcceptTeleportation
  | movePlayerPos => Play.MovePlayerPos
  | movePlayerPosRot => Play.MovePlayerPosRot
  | movePlayerRot => Play.MovePlayerRot
  | movePlayerStatusOnly => Play.MovePlayerStatusOnly
  | chatCommand => Play.ChatCommand
  | clientTickEnd => Play.ClientTickEnd

instance packet : (kind : Serverbound) → ServerboundPacket kind.Packet
  | intention => inferInstanceAs (ServerboundPacket Intention)
  | statusRequest => inferInstanceAs (ServerboundPacket StatusRequest)
  | pingRequest => inferInstanceAs (ServerboundPacket PingRequest)
  | hello => inferInstanceAs (ServerboundPacket Hello)
  | encryptionResponse => inferInstanceAs (ServerboundPacket EncryptionResponse)
  | loginAcknowledged => inferInstanceAs (ServerboundPacket LoginAcknowledged)
  | clientInformation => inferInstanceAs (ServerboundPacket ClientInformation)
  | finishConfigurationAck => inferInstanceAs (ServerboundPacket FinishConfigurationAck)
  | keepAlive => inferInstanceAs (ServerboundPacket KeepAlive)
  | selectKnownPacks => inferInstanceAs (ServerboundPacket SelectKnownPacks)
  | pluginMessage => inferInstanceAs (ServerboundPacket PluginMessage)
  | playKeepAlive => inferInstanceAs (ServerboundPacket Play.KeepAlive)
  | acceptTeleportation => inferInstanceAs (ServerboundPacket Play.AcceptTeleportation)
  | movePlayerPos => inferInstanceAs (ServerboundPacket Play.MovePlayerPos)
  | movePlayerPosRot => inferInstanceAs (ServerboundPacket Play.MovePlayerPosRot)
  | movePlayerRot => inferInstanceAs (ServerboundPacket Play.MovePlayerRot)
  | movePlayerStatusOnly => inferInstanceAs (ServerboundPacket Play.MovePlayerStatusOnly)
  | chatCommand => inferInstanceAs (ServerboundPacket Play.ChatCommand)
  | clientTickEnd => inferInstanceAs (ServerboundPacket Play.ClientTickEnd)

end Serverbound

namespace Checked

/-! ## Handshaking, status and login -/

instance : CheckedPacket Intention where
  decodeBody := do
    let protocolVersion ← readVarintValue
    let serverAddress ← readString maxAddressLen
    let serverPort ← readU16
    let id ← readVarintValue
    match NextState.fromId id with
    | .ok nextState => return { protocolVersion, serverAddress, serverPort, nextState }
    | .error e => throw e
  follows := by
    refine readVarintValue_follows.bind fun protocolVersion => ?_
    refine (readString_follows _).bind fun serverAddress => ?_
    refine readU16_follows.bind fun serverPort => ?_
    refine readVarintValue_follows.bind fun id => ?_
    cases NextState.fromId id with
    | ok nextState => exact Tracks.pure _
    | error e => exact Tracks.throw e

instance : CheckedPacket StatusRequest where
  decodeBody := return {}
  follows := Tracks.pure _

instance : CheckedPacket PingRequest where
  decodeBody := return { payload := ← readI64 }
  follows := readI64_follows.bind_pure _

instance : CheckedPacket Hello where
  decodeBody := return { name := ← readString maxUsernameLen, profileId := ← readUuid }
  follows := (readString_follows _).bind fun _ => readUuid_follows.bind_pure _

instance : CheckedPacket EncryptionResponse where
  decodeBody := return {
    sharedSecret := ← readByteArray maxKeyLen
    verifyToken := ← readByteArray maxKeyLen }
  follows := (readByteArray_follows _).bind fun _ => (readByteArray_follows _).bind_pure _

instance : CheckedPacket LoginAcknowledged where
  decodeBody := return {}
  follows := Tracks.pure _

/-! ## Configuration -/

instance : CheckedPacket ClientInformation where
  decodeBody := do
    let locale ← readString maxLocaleLen
    let viewDistance ← readI8
    let id ← readVarintValue
    match ChatMode.fromId id with
    | .error e => throw e
    | .ok chatMode =>
        return {
          locale
          viewDistance
          chatMode
          chatColors := ← readBool
          displayedSkinParts := ← readU8
          mainHand := ← readVarintValue
          textFilteringEnabled := ← readBool
          allowsListing := ← readBool
          particleStatus := ← readVarintValue }
  follows := by
    refine (readString_follows _).bind fun locale => ?_
    refine readI8_follows.bind fun viewDistance => ?_
    refine readVarintValue_follows.bind fun id => ?_
    cases ChatMode.fromId id with
    | error e => exact Tracks.throw e
    | ok chatMode =>
        refine readBool_follows.bind fun chatColors => ?_
        refine readU8_follows.bind fun displayedSkinParts => ?_
        refine readVarintValue_follows.bind fun mainHand => ?_
        refine readBool_follows.bind fun textFilteringEnabled => ?_
        refine readBool_follows.bind fun allowsListing => ?_
        exact readVarintValue_follows.bind_pure _

instance : CheckedPacket FinishConfigurationAck where
  decodeBody := return {}
  follows := Tracks.pure _

instance : CheckedPacket KeepAlive where
  decodeBody := return { id := ← readI64 }
  follows := readI64_follows.bind_pure _

instance : CheckedPacket SelectKnownPacks where
  decodeBody := do
    let packs ← readArray maxKnownPacks do
      return {
        «namespace» := ← readString defaultMaxStringLen
        id := ← readString defaultMaxStringLen
        version := ← readString defaultMaxStringLen }
    return { packs }
  follows := by
    have hpack := (readString_follows defaultMaxStringLen).bind fun space =>
      (readString_follows defaultMaxStringLen).bind fun id =>
        (readString_follows defaultMaxStringLen).bind_pure fun version =>
          ({ «namespace» := space, id, version } : KnownPack)
    exact (readArray_follows hpack _).bind_pure _

instance : CheckedPacket PluginMessage where
  decodeBody := return { channel := ← readIdentifier, data := ← readRemaining }
  follows := readIdentifier_follows.bind fun _ => readRemaining_follows.bind_pure _

/-! ## Play -/

instance : CheckedPacket Play.KeepAlive where
  decodeBody := return { id := ← readI64 }
  follows := readI64_follows.bind_pure _

instance : CheckedPacket Play.AcceptTeleportation where
  decodeBody := return { teleportId := ← readVarintValue }
  follows := readVarintValue_follows.bind_pure _

instance : CheckedPacket Play.MovePlayerPos where
  decodeBody := return {
    x := ← readF64
    y := ← readF64
    z := ← readF64
    flags := ⟨← readU8⟩ }
  follows := by
    refine readF64_follows.bind fun x => ?_
    refine readF64_follows.bind fun y => ?_
    refine readF64_follows.bind fun z => ?_
    exact readU8_follows.bind_pure _

instance : CheckedPacket Play.MovePlayerPosRot where
  decodeBody := return {
    x := ← readF64
    y := ← readF64
    z := ← readF64
    yaw := ← readF32
    pitch := ← readF32
    flags := ⟨← readU8⟩ }
  follows := by
    refine readF64_follows.bind fun x => ?_
    refine readF64_follows.bind fun y => ?_
    refine readF64_follows.bind fun z => ?_
    refine readF32_follows.bind fun yaw => ?_
    refine readF32_follows.bind fun pitch => ?_
    exact readU8_follows.bind_pure _

instance : CheckedPacket Play.MovePlayerRot where
  decodeBody := return {
    yaw := ← readF32
    pitch := ← readF32
    flags := ⟨← readU8⟩ }
  follows := by
    refine readF32_follows.bind fun yaw => ?_
    refine readF32_follows.bind fun pitch => ?_
    exact readU8_follows.bind_pure _

instance : CheckedPacket Play.MovePlayerStatusOnly where
  decodeBody := return { flags := ⟨← readU8⟩ }
  follows := readU8_follows.bind_pure _

instance : CheckedPacket Play.ChatCommand where
  decodeBody := return { command := ← readString Play.maxCommandLen }
  follows := (readString_follows _).bind_pure _

instance : CheckedPacket Play.ClientTickEnd where
  decodeBody := return {}
  follows := Tracks.pure _

/-! ## Exact decoding -/

instance : (kind : Serverbound) → CheckedPacket kind.Packet
  | .intention => inferInstanceAs (CheckedPacket Intention)
  | .statusRequest => inferInstanceAs (CheckedPacket StatusRequest)
  | .pingRequest => inferInstanceAs (CheckedPacket PingRequest)
  | .hello => inferInstanceAs (CheckedPacket Hello)
  | .encryptionResponse => inferInstanceAs (CheckedPacket EncryptionResponse)
  | .loginAcknowledged => inferInstanceAs (CheckedPacket LoginAcknowledged)
  | .clientInformation => inferInstanceAs (CheckedPacket ClientInformation)
  | .finishConfigurationAck => inferInstanceAs (CheckedPacket FinishConfigurationAck)
  | .keepAlive => inferInstanceAs (CheckedPacket KeepAlive)
  | .selectKnownPacks => inferInstanceAs (CheckedPacket SelectKnownPacks)
  | .pluginMessage => inferInstanceAs (CheckedPacket PluginMessage)
  | .playKeepAlive => inferInstanceAs (CheckedPacket Play.KeepAlive)
  | .acceptTeleportation => inferInstanceAs (CheckedPacket Play.AcceptTeleportation)
  | .movePlayerPos => inferInstanceAs (CheckedPacket Play.MovePlayerPos)
  | .movePlayerPosRot => inferInstanceAs (CheckedPacket Play.MovePlayerPosRot)
  | .movePlayerRot => inferInstanceAs (CheckedPacket Play.MovePlayerRot)
  | .movePlayerStatusOnly => inferInstanceAs (CheckedPacket Play.MovePlayerStatusOnly)
  | .chatCommand => inferInstanceAs (CheckedPacket Play.ChatCommand)
  | .clientTickEnd => inferInstanceAs (CheckedPacket Play.ClientTickEnd)

def decodeExact (P : Type) [ServerboundPacket P] [CheckedPacket P] (body : Bytes)
    (state : String) : Outcome ProtocolError P :=
  let read : CheckedReader P := do
    let packet ← CheckedPacket.decodeBody
    expectFinished state (ServerboundPacket.id P)
    return packet
  (read.exec { buf := body, pos := 0 }).map Prod.fst

theorem decodeExact_eq (P : Type) [ServerboundPacket P] [CheckedPacket P] (body : Bytes)
    (state : String) : decodeExact P body state = some (Protocol.decodeExact P body state) := by
  have hread := CheckedPacket.follows (P := P) |>.bind fun packet =>
    (expectFinished_follows state (ServerboundPacket.id P)).bind_pure fun _ => packet
  have hexec := (hread (PacketReader.new body)).exec_eq
  unfold decodeExact Protocol.decodeExact
  change (exec _ (PacketReader.new body).cursor).map Prod.fst = _
  rw [hexec]
  dsimp only
  split
  · rename_i packet r hresult
    rw [hresult]
    rfl
  · rename_i e r hresult
    rw [hresult]
    rfl

/-! ## Decoders of clientbound packets -/

def RegistryEntry.decode : CheckedReader RegistryEntry := do
  let entryId ← readIdentifier
  if ← readBool then return { entryId, data := some (← readNetwork) }
  else return { entryId, data := none }

def RegistryData.decodeBody : CheckedReader RegistryData := do
  let registryId ← readIdentifier
  let entries ← readArray maxRegistryEntries RegistryEntry.decode
  return { registryId, entries }

theorem RegistryEntry.decode_follows :
    Follows RegistryEntry.decode Protocol.RegistryEntry.decode := by
  refine readIdentifier_follows.bind fun entryId => ?_
  refine readBool_follows.bind fun present => ?_
  split
  · exact readNetwork_follows.bind_pure _
  · exact Tracks.pure _

theorem RegistryData.decodeBody_follows :
    Follows RegistryData.decodeBody Protocol.RegistryData.decodeBody :=
  readIdentifier_follows.bind fun _ =>
    (readArray_follows RegistryEntry.decode_follows _).bind_pure _

def Login.decodeDeathLocation : CheckedReader (Option (String × BlockPos)) :=
  readOption do
    let dimension ← readIdentifier
    let pos ← readPosition
    return (dimension, pos)

def Login.decodeBody : CheckedReader Play.Login := do
  let entityId ← readI32
  let hardcore ← readBool
  let dimensionNames ← readArray Play.maxDimensions readIdentifier
  let maxPlayers ← readVarintValue
  let viewDistance ← readVarintValue
  let simulationDistance ← readVarintValue
  let reducedDebugInfo ← readBool
  let enableRespawnScreen ← readBool
  let doLimitedCrafting ← readBool
  let dimensionType ← readVarintValue
  let dimensionName ← readIdentifier
  let hashedSeed ← readI64
  let mode ← readU8
  match GameMode.fromId mode.toUInt32.toInt32 with
  | .error e => throw e
  | .ok gameMode =>
      let previousGameMode ← readI8
      let isDebug ← readBool
      let isFlat ← readBool
      let deathLocation ← Login.decodeDeathLocation
      let portalCooldown ← readVarintValue
      let seaLevel ← readVarintValue
      let enforcesSecureChat ← readBool
      return {
        entityId, hardcore, dimensionNames, maxPlayers, viewDistance, simulationDistance
        reducedDebugInfo, enableRespawnScreen, doLimitedCrafting, dimensionType, dimensionName
        hashedSeed, gameMode, previousGameMode, isDebug, isFlat, deathLocation, portalCooldown
        seaLevel, enforcesSecureChat }

theorem Login.decodeDeathLocation_follows :
    Follows Login.decodeDeathLocation Play.Login.decodeDeathLocation :=
  readOption_follows (readIdentifier_follows.bind fun _ => readPosition_follows.bind_pure _)

theorem Login.decodeBody_follows : Follows Login.decodeBody Play.Login.decodeBody := by
  refine readI32_follows.bind fun entityId => ?_
  refine readBool_follows.bind fun hardcore => ?_
  refine (readArray_follows readIdentifier_follows _).bind fun dimensionNames => ?_
  refine readVarintValue_follows.bind fun maxPlayers => ?_
  refine readVarintValue_follows.bind fun viewDistance => ?_
  refine readVarintValue_follows.bind fun simulationDistance => ?_
  refine readBool_follows.bind fun reducedDebugInfo => ?_
  refine readBool_follows.bind fun enableRespawnScreen => ?_
  refine readBool_follows.bind fun doLimitedCrafting => ?_
  refine readVarintValue_follows.bind fun dimensionType => ?_
  refine readIdentifier_follows.bind fun dimensionName => ?_
  refine readI64_follows.bind fun hashedSeed => ?_
  refine readU8_follows.bind fun mode => ?_
  cases GameMode.fromId mode.toUInt32.toInt32 with
  | error e => exact Tracks.throw e
  | ok gameMode =>
      refine readI8_follows.bind fun previousGameMode => ?_
      refine readBool_follows.bind fun isDebug => ?_
      refine readBool_follows.bind fun isFlat => ?_
      refine Login.decodeDeathLocation_follows.bind fun deathLocation => ?_
      refine readVarintValue_follows.bind fun portalCooldown => ?_
      refine readVarintValue_follows.bind fun seaLevel => ?_
      exact readBool_follows.bind_pure _

end Checked

end Rukkit.Protocol
