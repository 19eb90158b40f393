import Rukkit.Protocol.Packets

/-!
# Play packets

The model of `rukkit-protocol/src/packets/play.rs`: the packets that are read, and the
login packet, which has both a writer and a reader.
-/

namespace Rukkit.Protocol.Play

open Rukkit.Lib

def maxCommandLen : Nat := 256

def maxDimensions : Nat := 1024

/-! ## Clientbound -/

/-- Join game: everything the client needs to start rendering. -/
structure Login where
  entityId : Int32
  hardcore : Bool
  dimensionNames : List String
  maxPlayers : Int32
  viewDistance : Int32
  simulationDistance : Int32
  reducedDebugInfo : Bool
  enableRespawnScreen : Bool
  doLimitedCrafting : Bool
  /-- Index into the `minecraft:dimension_type` registry. -/
  dimensionType : Int32
  dimensionName : String
  hashedSeed : Int64
  gameMode : GameMode
  /-- `-1` when there is no previous mode. -/
  previousGameMode : Int8
  isDebug : Bool
  isFlat : Bool
  deathLocation : Option (String × BlockPos)
  portalCooldown : Int32
  seaLevel : Int32
  enforcesSecureChat : Bool
deriving DecidableEq, Repr

namespace Login

def encodeDeathLocation : Option (String × BlockPos) → Bytes
  | some (dimension, pos) => writeBool true ++ writeIdentifier dimension ++ writePosition pos
  | none => writeBool false

def decodeDeathLocation : Reader (Option (String × BlockPos)) :=
  readOption do
    let dimension ← readIdentifier
    let pos ← readPosition
    return (dimension, pos)

end Login

instance : ClientboundPacket Login where
  id := 0x2C
  encodeBody p :=
    writeI32 p.entityId ++ writeBool p.hardcore ++
      writeVarint (asI32 p.dimensionNames.length) ++ p.dimensionNames.flatMap writeIdentifier ++
      writeVarint p.maxPlayers ++ writeVarint p.viewDistance ++
      writeVarint p.simulationDistance ++ writeBool p.reducedDebugInfo ++
      writeBool p.enableRespawnScreen ++ writeBool p.doLimitedCrafting ++
      writeVarint p.dimensionType ++ writeIdentifier p.dimensionName ++ writeI64 p.hashedSeed ++
      writeU8 p.gameMode.id ++ writeI8 p.previousGameMode ++ writeBool p.isDebug ++
      writeBool p.isFlat ++
      Login.encodeDeathLocation p.deathLocation ++
      writeVarint p.portalCooldown ++ writeVarint p.seaLevel ++ writeBool p.enforcesSecureChat

def Login.decodeBody : Reader Login := do
  let entityId ← readI32
  let hardcore ← readBool
  let dimensionNames ← readArray maxDimensions readIdentifier
  let maxPlayers ← readVarintValue
  let viewDistance ← readVarintValue
  let simulationDistance ← readVarintValue
  let reducedDebugInfo ← readBool
  let enableRespawnScreen ← readBool
  let doLimitedCrafting ← readBool
  let dimensionType ← readVarintValue
  let dimensionName ← readIdentifier
  let hashedSeed ← readI64
  let mode ← readU8
  match GameMode.fromId mode.toUInt32.toInt32 with
  | .error e => throw e
  | .ok gameMode =>
      let previousGameMode ← readI8
      let isDebug ← readBool
      let isFlat ← readBool
      let deathLocation ← decodeDeathLocation
      let portalCooldown ← readVarintValue
      let seaLevel ← readVarintValue
      let enforcesSecureChat ← readBool
      return {
        entityId, hardcore, dimensionNames, maxPlayers, viewDistance, simulationDistance
        reducedDebugInfo, enableRespawnScreen, doLimitedCrafting, dimensionType, dimensionName
        hashedSeed, gameMode, previousGameMode, isDebug, isFlat, deathLocation, portalCooldown
        seaLevel, enforcesSecureChat }

/-- Liveness probe. -/
structure KeepAlive where
  id : Int64
deriving DecidableEq, Repr

instance : ClientboundPacket KeepAlive where
  id := 0x26
  encodeBody p := writeI64 p.id

instance : ServerboundPacket KeepAlive where
  id := 0x1A
  decodeBody := return { id := ← readI64 }

/-! ## Serverbound -/

/-- Confirms a teleport, quoting the id the server sent. -/
structure AcceptTeleportation where
  teleportId : Int32
deriving DecidableEq, Repr

instance : ServerboundPacket AcceptTeleportation where
  id := 0x00
  decodeBody := return { teleportId := ← readVarintValue }

/-- Bit 0 is "on ground", bit 1 is "pushing against a wall". -/
structure MoveFlags where
  bits : UInt8
deriving DecidableEq, Repr

/-- Position-only movement; floats are their bit patterns. -/
structure MovePlayerPos where
  x : UInt64
  y : UInt64
  z : UInt64
  flags : MoveFlags
deriving DecidableEq, Repr

instance : ServerboundPacket MovePlayerPos where
  id := 0x1C
  decodeBody := return {
    x := ← readF64
    y := ← readF64
    z := ← readF64
    flags := ⟨← readU8⟩ }

/-- Position and rotation. -/
structure MovePlayerPosRot where
  x : UInt64
  y : UInt64
  z : UInt64
  yaw : UInt32
  pitch : UInt32
  flags : MoveFlags
deriving DecidableEq, Repr

instance : ServerboundPacket MovePlayerPosRot where
  id := 0x1D
  decodeBody := return {
    x := ← readF64
    y := ← readF64
    z := ← readF64
    yaw := ← readF32
    pitch := ← readF32
    flags := ⟨← readU8⟩ }

/-- Rotation only. -/
structure MovePlayerRot where
  yaw : UInt32
  pitch : UInt32
  flags : MoveFlags
deriving DecidableEq, Repr

instance : ServerboundPacket MovePlayerRot where
  id := 0x1E
  decodeBody := return {
    yaw := ← readF32
    pitch := ← readF32
    flags := ⟨← readU8⟩ }

/-- Only the ground flags. -/
structure MovePlayerStatusOnly where
  flags : MoveFlags
deriving DecidableEq, Repr

instance : ServerboundPacket MovePlayerStatusOnly where
  id := 0x1F
  decodeBody := return { flags := ⟨← readU8⟩ }

/-- A slash command, without the leading slash. -/
structure ChatCommand where
  command : String
deriving DecidableEq, Repr

instance : ServerboundPacket ChatCommand where
  id := 0x05
  decodeBody := return { command := ← readString maxCommandLen }

/-- Marks the end of a client tick. -/
structure ClientTickEnd where
deriving DecidableEq, Repr

instance : ServerboundPacket ClientTickEnd where
  id := 0x0B
  decodeBody := return {}

end Rukkit.Protocol.Play
