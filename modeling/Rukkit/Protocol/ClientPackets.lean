import Rukkit.Protocol.PlayPackets

/-!
# Clientbound packets

The model of the packets of `rukkit-protocol/src/packets` that no connection sends yet, and
all the clientbound packets together, in the states whose tables hold their ids.  Floats are
their bit patterns.
-/

namespace Rukkit.Protocol

/-- The server's half of the key exchange. -/
structure EncryptionRequest where
  /-- Always empty since 1.7. -/
  serverId : String
  publicKey : Bytes
  verifyToken : Bytes
  /-- Whether the client should contact the session server. -/
  shouldAuthenticate : Bool
deriving DecidableEq, Repr

instance : ClientboundPacket EncryptionRequest where
  id := 0x01
  encodeBody p :=
    writeString p.serverId ++ writeByteArray p.publicKey ++ writeByteArray p.verifyToken ++
      writeBool p.shouldAuthenticate

namespace Play

/-- Kick with a reason. -/
structure Disconnect where
  reason : Component

instance : ClientboundPacket Disconnect where
  id := 0x1D
  encodeBody p := writeNetwork p.reason.toNbt

/-- A server message, shown in chat or as an action-bar overlay. -/
structure SystemChat where
  content : Component
  overlay : Bool

instance : ClientboundPacket SystemChat where
  id := 0x73
  encodeBody p := writeNetwork p.content.toNbt ++ writeBool p.overlay

/-- Moves the centre of the client's chunk cache. -/
structure SetChunkCacheCenter where
  chunkX : Int32
  chunkZ : Int32
deriving DecidableEq, Repr

instance : ClientboundPacket SetChunkCacheCenter where
  id := 0x58
  encodeBody p := writeVarint p.chunkX ++ writeVarint p.chunkZ

/-- Compass target. -/
structure SetDefaultSpawnPosition where
  position : BlockPos
  angle : UInt32
deriving DecidableEq, Repr

instance : ClientboundPacket SetDefaultSpawnPosition where
  id := 0x5A
  encodeBody p := writePosition p.position ++ writeF32 p.angle

/-- State changes such as "start waiting for chunks". -/
structure GameEvent where
  event : UInt8
  value : UInt32
deriving DecidableEq, Repr

/-- Tells the client to show the terrain-loading screen until chunks arrive. -/
def GameEvent.startWaitingForChunks : GameEvent where
  event := 13
  value := 0

instance : ClientboundPacket GameEvent where
  id := 0x22
  encodeBody p := writeU8 p.event ++ writeF32 p.value

/-- Teleports the player. -/
structure PlayerPosition where
  teleportId : Int32
  x : UInt64
  y : UInt64
  z : UInt64
  velocityX : UInt64
  velocityY : UInt64
  velocityZ : UInt64
  yaw : UInt32
  pitch : UInt32
  /-- Which fields are relative. -/
  flags : Int32
deriving DecidableEq, Repr

instance : ClientboundPacket PlayerPosition where
  id := 0x42
  encodeBody p :=
    writeVarint p.teleportId ++ writeF64 p.x ++ writeF64 p.y ++ writeF64 p.z ++
      writeF64 p.velocityX ++ writeF64 p.velocityY ++ writeF64 p.velocityZ ++ writeF32 p.yaw ++
      writeF32 p.pitch ++ writeI32 p.flags

/-- A chunk column and its lighting, which the world layer has serialized. -/
structure ChunkData where
  chunkX : Int32
  chunkZ : Int32
  payload : Bytes
deriving DecidableEq, Repr

instance : ClientboundPacket ChunkData where
  id := 0x27
  encodeBody p := writeI32 p.chunkX ++ writeI32 p.chunkZ ++ writeBytes p.payload

end Play

/-- What `packets::encode` puts together. -/
def packetParts {P : Type} [ClientboundPacket P] (packet : P) : Int32 × Bytes :=
  (ClientboundPacket.id P, ClientboundPacket.encodeBody packet)

/-- All the packets there are for a client. -/
inductive ClientPacket where
  | statusResponse (packet : StatusResponse)
  | pongResponse (packet : PongResponse)
  | loginDisconnect (packet : LoginDisconnect)
  | encryptionRequest (packet : EncryptionRequest)
  | loginFinished (packet : LoginFinished)
  | setCompression (packet : SetCompression)
  | pluginMessage (packet : PluginMessage)
  | disconnect (packet : Disconnect)
  | finishConfiguration (packet : FinishConfiguration)
  | keepAlive (packet : KeepAlive)
  | registryData (packet : RegistryData)
  | selectKnownPacks (packet : SelectKnownPacks)
  | playDisconnect (packet : Play.Disconnect)
  | gameEvent (packet : Play.GameEvent)
  | playKeepAlive (packet : Play.KeepAlive)
  | chunkData (packet : Play.ChunkData)
  | playLogin (packet : Play.Login)
  | playerPosition (packet : Play.PlayerPosition)
  | setChunkCacheCenter (packet : Play.SetChunkCacheCenter)
  | setDefaultSpawnPosition (packet : Play.SetDefaultSpawnPosition)
  | systemChat (packet : Play.SystemChat)

namespace ClientPacket

/-- The state whose clientbound table has the packet's id. -/
def state : ClientPacket → State
  | statusResponse _ | pongResponse _ => .status
  | loginDisconnect _ | encryptionRequest _ | loginFinished _ | setCompression _ => .login
  | pluginMessage _ | disconnect _ | finishConfiguration _ | keepAlive _ | registryData _
  | selectKnownPacks _ => .configuration
  | playDisconnect _ | gameEvent _ | playKeepAlive _ | chunkData _ | playLogin _
  | playerPosition _ | setChunkCacheCenter _ | setDefaultSpawnPosition _ | systemChat _ => .play

/-- The id and the body. -/
def parts : ClientPacket → Int32 × Bytes
  | statusResponse packet => packetParts packet
  | pongResponse packet => packetParts packet
  | loginDisconnect packet => packetParts packet
  | encryptionRequest packet => packetParts packet
  | loginFinished packet => packetParts packet
  | setCompression packet => packetParts packet
  | pluginMessage packet => packetParts packet
  | disconnect packet => packetParts packet
  | finishConfiguration packet => packetParts packet
  | keepAlive packet => packetParts packet
  | registryData packet => packetParts packet
  | selectKnownPacks packet => packetParts packet
  | playDisconnect packet => packetParts packet
  | gameEvent packet => packetParts packet
  | playKeepAlive packet => packetParts packet
  | chunkData packet => packetParts packet
  | playLogin packet => packetParts packet
  | playerPosition packet => packetParts packet
  | setChunkCacheCenter packet => packetParts packet
  | setDefaultSpawnPosition packet => packetParts packet
  | systemChat packet => packetParts packet

/-- `packets::encode`. -/
def encode (packet : ClientPacket) : Bytes := writeVarint packet.parts.1 ++ packet.parts.2

end ClientPacket

end Rukkit.Protocol
