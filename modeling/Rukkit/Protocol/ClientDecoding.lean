import Rukkit.Protocol.ClientPackets
import Rukkit.Protocol.ComponentNbt
import Rukkit.Protocol.PacketRoundTrip

/-!
# Packets at the client

A client that reads every clientbound packet: it knows the state it is in, finds the layout
by the id, and reads to the end of the packet.
-/

namespace Rukkit.Protocol

open Rukkit.Lib Rukkit.Lib.Reading

/-! ## Reading to the end -/

/-- The reader turns what is left, if it is `w`, into `a` and leaves nothing. -/
def ReadsToEnd {α : Type} (m : Reader α) (w : Bytes) (a : α) : Prop :=
  ∀ r : PacketReader, r.peekRest = w → ∃ r', m r = .ok a r' ∧ r'.remaining = 0

section ToEnd

variable {α β : Type} {m : Reader α} {f : α → Reader β} {w w' : Bytes} {a : α} {b : β}

theorem ReadsToEnd.of_reads (h : ReadsAs m w a) : ReadsToEnd m w a := by
  intro r hr
  obtain ⟨r', hread, hrest⟩ := h r [] (by rw [hr, List.append_nil])
  refine ⟨r', hread, ?_⟩
  rw [← r'.length_peekRest, hrest]
  rfl

/-- Only the last reader needs the end. -/
theorem ReadsToEnd.bind (hm : ReadsAs m w a) (hf : ReadsToEnd (f a) w' b) :
    ReadsToEnd (m >>= f) (w ++ w') b := by
  intro r hr
  obtain ⟨mid, hmid, hrest⟩ := hm r w' hr
  obtain ⟨r', hread, hend⟩ := hf mid hrest
  refine ⟨r', ?_, hend⟩
  change EStateM.bind m f r = _
  rw [EStateM.bind, hmid]
  exact hread

theorem ReadsToEnd.map {g : α → β} (hm : ReadsToEnd m w a) : ReadsToEnd (g <$> m) w (g a) := by
  intro r hr
  obtain ⟨r', hread, hend⟩ := hm r hr
  refine ⟨r', ?_, hend⟩
  change EStateM.map g m r = _
  rw [EStateM.map, hread]

theorem ReadsToEnd.bind_pure {g : α → β} (hm : ReadsToEnd m w a) :
    ReadsToEnd (m >>= fun x => pure (g x)) w (g a) := by
  intro r hr
  obtain ⟨r', hread, hend⟩ := hm r hr
  refine ⟨r', ?_, hend⟩
  change EStateM.bind m _ r = _
  rw [EStateM.bind, hread]
  rfl

theorem readRemaining_toEnd (bytes : Bytes) : ReadsToEnd readRemaining bytes bytes := by
  rintro r rfl
  exact ⟨_, rfl, Nat.sub_self _⟩

theorem readByteArray_reads {bytes : Bytes} {max : Nat} (hlength : bytes.length ≤ max)
    (hmax : max < 2 ^ 31) : ReadsAs (readByteArray max) (writeByteArray bytes) bytes :=
  (readLength_reads hlength (hlength.trans_lt hmax)).bind (take_reads bytes)

end ToEnd

/-! ## The layouts -/

/-- A component in its binary form. -/
def readComponent : Reader Component := do
  match Component.ofNbt (← readNetwork) with
  | some c => return c
  | none => throw (.nbt "not a text component")

/-- A flag that older versions leave off, at the end of the packet. -/
def readLastFlag : Reader (Option Bool) := do
  return (← readRemaining).head?.map (· != 0)

/-- Cap on the properties of a profile. -/
def maxProperties : Nat := 1024

def StatusResponse.read : Reader StatusResponse := do
  return { json := ← readString defaultMaxStringLen }

def PongResponse.read : Reader PongResponse := do
  return { payload := ← readI64 }

def LoginDisconnect.read : Reader LoginDisconnect := do
  return { reasonJson := ← readString defaultMaxStringLen }

def EncryptionRequest.read : Reader EncryptionRequest := do
  return {
    serverId := ← readString defaultMaxStringLen
    publicKey := ← readByteArray maxKeyLen
    verifyToken := ← readByteArray maxKeyLen
    shouldAuthenticate := ← readBool }

def ProfileProperty.read : Reader ProfileProperty := do
  return {
    name := ← readString defaultMaxStringLen
    value := ← readString defaultMaxStringLen
    signature := ← readOption (readString defaultMaxStringLen) }

def LoginFinished.read : Reader LoginFinished := do
  return {
    profileId := ← readUuid
    username := ← readString maxUsernameLen
    properties := ← readArray maxProperties ProfileProperty.read
    strictErrorHandling := ← readLastFlag }

def SetCompression.read : Reader SetCompression := do
  return { threshold := ← readVarintValue }

def Disconnect.read : Reader Disconnect := do
  return { reason := ← readComponent }

namespace Play

def Disconnect.read : Reader Disconnect := do
  return { reason := ← readComponent }

def SystemChat.read : Reader SystemChat := do
  return { content := ← readComponent, overlay := ← readBool }

def SetChunkCacheCenter.read : Reader SetChunkCacheCenter := do
  return { chunkX := ← readVarintValue, chunkZ := ← readVarintValue }

def SetDefaultSpawnPosition.read : Reader SetDefaultSpawnPosition := do
  return { position := ← readPosition, angle := ← readF32 }

def GameEvent.read : Reader GameEvent := do
  return { event := ← readU8, value := ← readF32 }

def PlayerPosition.read : Reader PlayerPosition := do
  return {
    teleportId := ← readVarintValue
    x := ← readF64
    y := ← readF64
    z := ← readF64
    velocityX := ← readF64
    velocityY := ← readF64
    velocityZ := ← readF64
    yaw := ← readF32
    pitch := ← readF32
    flags := ← readI32 }

def ChunkData.read : Reader ChunkData := do
  return { chunkX := ← readI32, chunkZ := ← readI32, payload := ← readRemaining }

end Play

namespace ClientPacket

/-- The packets of a state, by their ids. -/
def layouts : State → List (Int32 × Reader ClientPacket)
  | .handshaking => []
  | .status => [
      (ClientboundPacket.id StatusResponse, statusResponse <$> StatusResponse.read),
      (ClientboundPacket.id PongResponse, pongResponse <$> PongResponse.read)]
  | .login => [
      (ClientboundPacket.id LoginDisconnect, loginDisconnect <$> LoginDisconnect.read),
      (ClientboundPacket.id EncryptionRequest, encryptionRequest <$> EncryptionRequest.read),
      (ClientboundPacket.id LoginFinished, loginFinished <$> LoginFinished.read),
      (ClientboundPacket.id SetCompression, setCompression <$> SetCompression.read)]
  | .configuration => [
      (ClientboundPacket.id PluginMessage, pluginMessage <$> ServerboundPacket.decodeBody),
      (ClientboundPacket.id Disconnect, disconnect <$> Disconnect.read),
      (ClientboundPacket.id FinishConfiguration, return finishConfiguration {}),
      (ClientboundPacket.id KeepAlive, keepAlive <$> ServerboundPacket.decodeBody),
      (ClientboundPacket.id RegistryData, registryData <$> RegistryData.decodeBody),
      (ClientboundPacket.id SelectKnownPacks, selectKnownPacks <$> ServerboundPacket.decodeBody)]
  | .play => [
      (ClientboundPacket.id Play.Disconnect, playDisconnect <$> Play.Disconnect.read),
      (ClientboundPacket.id Play.GameEvent, gameEvent <$> Play.GameEvent.read),
      (ClientboundPacket.id Play.KeepAlive, playKeepAlive <$> ServerboundPacket.decodeBody),
      (ClientboundPacket.id Play.ChunkData, chunkData <$> Play.ChunkData.read),
      (ClientboundPacket.id Play.Login, playLogin <$> Play.Login.decodeBody),
      (ClientboundPacket.id Play.PlayerPosition, playerPosition <$> Play.PlayerPosition.read),
      (ClientboundPacket.id Play.SetChunkCacheCenter,
        setChunkCacheCenter <$> Play.SetChunkCacheCenter.read),
      (ClientboundPacket.id Play.SetDefaultSpawnPosition,
        setDefaultSpawnPosition <$> Play.SetDefaultSpawnPosition.read),
      (ClientboundPacket.id Play.SystemChat, systemChat <$> Play.SystemChat.read)]

/-- What a client in a state makes of a packet. -/
def read (state : State) : Reader ClientPacket := do
  let id ← readVarintValue
  match (layouts state).lookup id with
  | some layout => layout
  | none => throw (.unknownPacket state.name id)

end ClientPacket

/-! ## The limits -/

structure EncryptionRequest.Fits (p : EncryptionRequest) : Prop where
  serverId : FitsString defaultMaxStringLen p.serverId
  publicKey : p.publicKey.length ≤ maxKeyLen
  verifyToken : p.verifyToken.length ≤ maxKeyLen

structure ProfileProperty.Fits (p : ProfileProperty) : Prop where
  name : FitsString defaultMaxStringLen p.name
  value : FitsString defaultMaxStringLen p.value
  signature : ∀ s, p.signature = some s → FitsString defaultMaxStringLen s

structure LoginFinished.Fits (p : LoginFinished) : Prop where
  username : FitsString maxUsernameLen p.username
  length_properties : p.properties.length ≤ maxProperties
  properties : ∀ property ∈ p.properties, property.Fits

structure RegistryData.Fits (p : RegistryData) : Prop where
  registryId : FitsString defaultMaxStringLen p.registryId
  length_entries : p.entries.length ≤ maxRegistryEntries
  entries : ∀ entry ∈ p.entries, entry.Fits

structure SelectKnownPacks.Fits (p : SelectKnownPacks) : Prop where
  length_packs : p.packs.length ≤ maxKnownPacks
  packs : ∀ pack ∈ p.packs, pack.Fits

/-- The packet is within the limits of the client. -/
def ClientPacket.Fits : ClientPacket → Prop
  | statusResponse p => FitsString defaultMaxStringLen p.json
  | loginDisconnect p => FitsString defaultMaxStringLen p.reasonJson
  | encryptionRequest p => p.Fits
  | loginFinished p => p.Fits
  | pluginMessage p => FitsString defaultMaxStringLen p.channel
  | disconnect p => p.reason.Sendable
  | registryData p => p.Fits
  | selectKnownPacks p => p.Fits
  | playDisconnect p => p.reason.Sendable
  | systemChat p => p.content.Sendable
  | playLogin p => p.Fits
  | setDefaultSpawnPosition p => p.position.InRange
  | _ => True

/-! ## Each packet -/

theorem readComponent_reads {c : Component} (h : c.Sendable) :
    ReadsAs readComponent (writeNetwork c.toNbt) c := by
  rw [← List.append_nil (writeNetwork c.toNbt)]
  apply h.reads.bind
  rw [Component.ofNbt_toNbt]
  exact Reads.pure c

theorem EncryptionRequest.reads {p : EncryptionRequest} (h : p.Fits) :
    ReadsAs read (ClientboundPacket.encodeBody p) p := by
  simp only [ClientboundPacket.encodeBody, List.append_assoc]
  apply (h.serverId.reads (Nat.le_refl _)).bind
  apply (readByteArray_reads h.publicKey (by decide)).bind
  apply (readByteArray_reads h.verifyToken (by decide)).bind
  exact (readBool_reads _).bind_pure

theorem ProfileProperty.reads {p : ProfileProperty} (h : p.Fits) :
    ReadsAs read (writeString p.name ++ (writeString p.value ++
      writeOption p.signature writeString)) p := by
  obtain ⟨hname, hvalue, hsignature⟩ := h
  obtain ⟨name, value, signature⟩ := p
  apply (hname.reads (Nat.le_refl _)).bind
  apply (hvalue.reads (Nat.le_refl _)).bind
  cases signature with
  | none => exact (readOption_none _).bind_pure
  | some s => exact (readOption_some ((hsignature s rfl).reads (Nat.le_refl _))).bind_pure

theorem readLastFlag_toEnd (flag : Option Bool) :
    ReadsToEnd readLastFlag (match flag with
      | some strict => writeBool strict
      | none => []) flag := by
  cases flag with
  | none => exact (readRemaining_toEnd []).bind_pure
  | some strict =>
      have hread := (readRemaining_toEnd (writeBool strict)).bind_pure
        (g := fun bytes => bytes.head?.map (· != 0))
      cases strict <;> exact hread

theorem LoginFinished.toEnd {p : LoginFinished} (h : p.Fits) :
    ReadsToEnd read (ClientboundPacket.encodeBody p) p := by
  simp only [ClientboundPacket.encodeBody, List.append_assoc]
  apply ReadsToEnd.bind (readUuid_reads _)
  apply ReadsToEnd.bind (h.username.reads (by decide))
  apply ReadsToEnd.bind (readArray_reads h.length_properties
    (h.length_properties.trans_lt (by decide)) fun property hproperty =>
      ProfileProperty.reads (h.properties property hproperty))
  exact (readLastFlag_toEnd p.strictErrorHandling).bind_pure

theorem PluginMessage.toEnd {p : PluginMessage} (h : FitsString defaultMaxStringLen p.channel) :
    ReadsToEnd (ServerboundPacket.decodeBody : Reader PluginMessage)
      (ClientboundPacket.encodeBody p) p := by
  apply ReadsToEnd.bind (readIdentifier_reads h)
  exact (readRemaining_toEnd p.data).bind_pure

namespace Play

theorem SystemChat.reads {p : SystemChat} (h : p.content.Sendable) :
    ReadsAs read (ClientboundPacket.encodeBody p) p := by
  apply (readComponent_reads h).bind
  exact (readBool_reads _).bind_pure

theorem SetChunkCacheCenter.reads (p : SetChunkCacheCenter) :
    ReadsAs read (ClientboundPacket.encodeBody p) p := by
  apply (readVarint_reads _).bind
  exact (readVarint_reads _).bind_pure

theorem SetDefaultSpawnPosition.reads {p : SetDefaultSpawnPosition} (h : p.position.InRange) :
    ReadsAs read (ClientboundPacket.encodeBody p) p := by
  apply (readPosition_reads h).bind
  exact (readF32_reads _).bind_pure

theorem GameEvent.reads (p : GameEvent) : ReadsAs read (ClientboundPacket.encodeBody p) p := by
  apply (readU8_reads _).bind
  exact (readF32_reads _).bind_pure

theorem PlayerPosition.reads (p : PlayerPosition) :
    ReadsAs read (ClientboundPacket.encodeBody p) p := by
  simp only [ClientboundPacket.encodeBody, List.append_assoc]
  apply (readVarint_reads _).bind
  apply (readF64_reads _).bind
  apply (readF64_reads _).bind
  apply (readF64_reads _).bind
  apply (readF64_reads _).bind
  apply (readF64_reads _).bind
  apply (readF64_reads _).bind
  apply (readF32_reads _).bind
  apply (readF32_reads _).bind
  exact (readI32_reads _).bind_pure

theorem ChunkData.toEnd (p : ChunkData) :
    ReadsToEnd read (ClientboundPacket.encodeBody p) p := by
  simp only [ClientboundPacket.encodeBody, List.append_assoc]
  apply ReadsToEnd.bind (readI32_reads _)
  apply ReadsToEnd.bind (readI32_reads _)
  exact (readRemaining_toEnd p.payload).bind_pure

end Play

/-! ## All of them -/

namespace ClientPacket

/-- The layout a client finds under the packet's id reads its body. -/
theorem layout_reads {p : ClientPacket} (h : p.Fits) :
    ∃ layout, (layouts p.state).lookup p.parts.1 = some layout ∧
      ReadsToEnd layout p.parts.2 p := by
  cases p with
  | statusResponse p => exact ⟨_, rfl, .map (.of_reads (h.reads (Nat.le_refl _)).bind_pure)⟩
  | pongResponse p => exact ⟨_, rfl, .map (.of_reads (readI64_reads _).bind_pure)⟩
  | loginDisconnect p => exact ⟨_, rfl, .map (.of_reads (h.reads (Nat.le_refl _)).bind_pure)⟩
  | encryptionRequest p => exact ⟨_, rfl, .map (.of_reads (EncryptionRequest.reads h))⟩
  | loginFinished p => exact ⟨_, rfl, .map (LoginFinished.toEnd h)⟩
  | setCompression p => exact ⟨_, rfl, .map (.of_reads (readVarint_reads _).bind_pure)⟩
  | pluginMessage p => exact ⟨_, rfl, .map (PluginMessage.toEnd h)⟩
  | disconnect p => exact ⟨_, rfl, .map (.of_reads (readComponent_reads h).bind_pure)⟩
  | finishConfiguration p => exact ⟨_, rfl, .of_reads (Reads.pure _)⟩
  | keepAlive p => exact ⟨_, rfl, .map (.of_reads p.reads)⟩
  | registryData p =>
      exact ⟨_, rfl, .map (.of_reads (RegistryData.reads h.registryId h.length_entries h.entries))⟩
  | selectKnownPacks p =>
      exact ⟨_, rfl, .map (.of_reads (SelectKnownPacks.reads h.length_packs h.packs))⟩
  | playDisconnect p => exact ⟨_, rfl, .map (.of_reads (readComponent_reads h).bind_pure)⟩
  | gameEvent p => exact ⟨_, rfl, .map (.of_reads p.reads)⟩
  | playKeepAlive p => exact ⟨_, rfl, .map (.of_reads p.reads)⟩
  | chunkData p => exact ⟨_, rfl, .map p.toEnd⟩
  | playLogin p => exact ⟨_, rfl, .map (.of_reads (Play.Login.reads h))⟩
  | playerPosition p => exact ⟨_, rfl, .map (.of_reads p.reads)⟩
  | setChunkCacheCenter p => exact ⟨_, rfl, .map (.of_reads p.reads)⟩
  | setDefaultSpawnPosition p =>
      exact ⟨_, rfl, .map (.of_reads (Play.SetDefaultSpawnPosition.reads h))⟩
  | systemChat p => exact ⟨_, rfl, .map (.of_reads (Play.SystemChat.reads h))⟩

theorem read_toEnd {p : ClientPacket} (h : p.Fits) : ReadsToEnd (read p.state) p.encode p := by
  obtain ⟨layout, hlayout, hreads⟩ := layout_reads h
  apply ReadsToEnd.bind (readVarint_reads _)
  rw [hlayout]
  exact hreads

end ClientPacket

end Rukkit.Protocol
