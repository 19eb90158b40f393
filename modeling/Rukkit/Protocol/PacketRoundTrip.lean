import Rukkit.Protocol.NbtTags
import Rukkit.Protocol.PlayPackets

/-!
# Packets that are both written and read

Each of them is read back from its own bytes, to the last byte, if what it holds is within
the limits of its reader.
-/

namespace Rukkit.Protocol

open Rukkit.Lib Rukkit.Lib.Reading

/-- The body is read as the packet and nothing is left. -/
def RoundTrips {P : Type} (decodeBody : Reader P) (body : Bytes) (packet : P) : Prop :=
  ∃ r, decodeBody (PacketReader.new body) = .ok packet r ∧ r.remaining = 0

theorem RoundTrips.of_readsAs {P : Type} {decodeBody : Reader P} {body : Bytes} {packet : P}
    (h : ReadsAs decodeBody body packet) : RoundTrips decodeBody body packet := by
  obtain ⟨r, hread, hrest⟩ := h (PacketReader.new body) [] (List.append_nil body).symm
  refine ⟨r, hread, ?_⟩
  rw [← r.length_peekRest, hrest]
  rfl

/-- A tag within the limits of the NBT reader. -/
structure NbtWithin (tag : NbtTag) : Prop where
  built : Built tag
  depth_le : tag.depth ≤ maxDepth
  sized : tag.All NbtTag.LocallySized
  fits : tag.All NbtTag.LocallyFits

theorem NbtWithin.reads {tag : NbtTag} (h : NbtWithin tag) :
    ReadsAs readNetwork (writeNetwork tag) tag := by
  have hread := readNetwork_reads h.depth_le h.built.typed h.sized
  rwa [NbtTag.clip_of_fits h.built.typed h.fits] at hread

/-! ## Handshaking and login -/

theorem NextState.fromId_id (state : NextState) : fromId state.id = .ok state := by
  cases state <;> rfl

theorem Intention.reads {p : Intention} (h : FitsString maxAddressLen p.serverAddress) :
    ReadsAs ServerboundPacket.decodeBody p.encodeBody p := by
  unfold encodeBody
  simp only [List.append_assoc]
  apply (readVarint_reads _).bind
  apply (h.reads (by decide)).bind
  apply (readU16_reads _).bind
  rw [← List.append_nil (writeVarint _)]
  apply (readVarint_reads _).bind
  rw [NextState.fromId_id]
  exact Reads.pure p

theorem Hello.reads {p : Hello} (h : FitsString maxUsernameLen p.name) :
    ReadsAs ServerboundPacket.decodeBody p.encodeBody p := by
  apply (h.reads (by decide)).bind
  exact (readUuid_reads _).bind_pure

/-! ## Configuration -/

theorem ChatMode.fromId_id (mode : ChatMode) : fromId mode.id = .ok mode := by
  cases mode <;> rfl

theorem ClientInformation.reads {p : ClientInformation} (h : FitsString maxLocaleLen p.locale) :
    ReadsAs ServerboundPacket.decodeBody p.encodeBody p := by
  unfold encodeBody
  simp only [List.append_assoc]
  apply (h.reads (by decide)).bind
  apply (readI8_reads _).bind
  apply (readVarint_reads _).bind
  rw [ChatMode.fromId_id]
  apply (readBool_reads _).bind
  apply (readU8_reads _).bind
  apply (readVarint_reads _).bind
  apply (readBool_reads _).bind
  apply (readBool_reads _).bind
  exact (readVarint_reads _).bind_pure

theorem KeepAlive.reads (p : KeepAlive) :
    ReadsAs (ServerboundPacket.decodeBody : Reader KeepAlive)
      (ClientboundPacket.encodeBody p) p :=
  (readI64_reads p.id).bind_pure

/-- Every string of the pack is within the default limit. -/
structure KnownPack.Fits (pack : KnownPack) : Prop where
  «namespace» : FitsString defaultMaxStringLen pack.namespace
  id : FitsString defaultMaxStringLen pack.id
  version : FitsString defaultMaxStringLen pack.version

theorem SelectKnownPacks.reads {p : SelectKnownPacks} (hlength : p.packs.length ≤ maxKnownPacks)
    (hpacks : ∀ pack ∈ p.packs, pack.Fits) :
    ReadsAs (ServerboundPacket.decodeBody : Reader SelectKnownPacks)
      (ClientboundPacket.encodeBody p) p := by
  have hmax : p.packs.length < 2 ^ 31 := hlength.trans_lt (by decide)
  apply Reads.bind_pure (f := SelectKnownPacks.mk)
  apply readArray_reads hlength hmax
  intro pack hpack
  have hfits := hpacks pack hpack
  rw [List.append_assoc]
  apply (hfits.namespace.reads (Nat.le_refl _)).bind
  apply (hfits.id.reads (Nat.le_refl _)).bind
  exact (hfits.version.reads (Nat.le_refl _)).bind_pure

/-- The payload runs to the end of the packet, so nothing may follow it. -/
theorem PluginMessage.roundTrips {p : PluginMessage}
    (h : FitsString defaultMaxStringLen p.channel) :
    RoundTrips (ServerboundPacket.decodeBody : Reader PluginMessage)
      (ClientboundPacket.encodeBody p) p := by
  obtain ⟨r, hchannel, hrest⟩ :=
    readIdentifier_reads h (PacketReader.new (ClientboundPacket.encodeBody p)) p.data rfl
  refine ⟨{ r with pos := r.buf.length, pos_le := Nat.le_refl _ }, ?_, Nat.sub_self _⟩
  change EStateM.bind readIdentifier _ _ = _
  rw [EStateM.bind, hchannel]
  change EStateM.Result.ok (PluginMessage.mk p.channel r.peekRest) _ = _
  rw [hrest]

/-- The id of the entry is within the default limit, its data within those of NBT. -/
structure RegistryEntry.Fits (entry : RegistryEntry) : Prop where
  entryId : FitsString defaultMaxStringLen entry.entryId
  data : ∀ tag, entry.data = some tag → NbtWithin tag

theorem RegistryEntry.reads {entry : RegistryEntry} (h : entry.Fits) :
    ReadsAs decode entry.encode entry := by
  obtain ⟨hentryId, hdata⟩ := h
  obtain ⟨entryId, data⟩ := entry
  apply (readIdentifier_reads hentryId).bind
  cases data with
  | none =>
      change Reads _ _ (writeBool false) _
      rw [← List.append_nil (writeBool false)]
      apply (readBool_reads false).bind
      exact Reads.pure _
  | some tag =>
      apply (readBool_reads true).bind
      exact (hdata tag rfl).reads.bind_pure

theorem RegistryData.reads {p : RegistryData} (hid : FitsString defaultMaxStringLen p.registryId)
    (hlength : p.entries.length ≤ maxRegistryEntries) (hentries : ∀ entry ∈ p.entries, entry.Fits) :
    ReadsAs decodeBody (ClientboundPacket.encodeBody p) p := by
  have hmax : p.entries.length < 2 ^ 31 := hlength.trans_lt (by decide)
  simp only [ClientboundPacket.encodeBody]
  rw [List.append_assoc]
  apply (readIdentifier_reads hid).bind
  apply Reads.bind_pure (f := RegistryData.mk p.registryId)
  exact readArray_reads hlength hmax fun entry hentry =>
    RegistryEntry.reads (hentries entry hentry)

/-! ## Play -/

namespace Play

theorem KeepAlive.reads (p : KeepAlive) :
    ReadsAs (ServerboundPacket.decodeBody : Reader KeepAlive)
      (ClientboundPacket.encodeBody p) p :=
  (readI64_reads p.id).bind_pure

/-- Every identifier is within the default limit and a death location has a position that
can be packed. -/
structure Login.Fits (p : Login) : Prop where
  length_dimensionNames : p.dimensionNames.length ≤ maxDimensions
  dimensionNames : ∀ name ∈ p.dimensionNames, FitsString defaultMaxStringLen name
  dimensionName : FitsString defaultMaxStringLen p.dimensionName
  deathLocation : ∀ dimension pos, p.deathLocation = some (dimension, pos) →
    FitsString defaultMaxStringLen dimension ∧ pos.InRange

theorem Login.decodeDeathLocation_reads {location : Option (String × BlockPos)}
    (h : ∀ dimension pos, location = some (dimension, pos) →
      FitsString defaultMaxStringLen dimension ∧ pos.InRange) :
    ReadsAs decodeDeathLocation (encodeDeathLocation location) location := by
  cases location with
  | none => exact readOption_none _
  | some location =>
      obtain ⟨dimension, pos⟩ := location
      obtain ⟨hdimension, hpos⟩ := h dimension pos rfl
      rw [encodeDeathLocation, List.append_assoc]
      apply readOption_some
      apply (readIdentifier_reads hdimension).bind
      exact (readPosition_reads hpos).bind_pure

theorem Login.reads {p : Login} (h : p.Fits) :
    ReadsAs decodeBody (ClientboundPacket.encodeBody p) p := by
  have hmax : p.dimensionNames.length < 2 ^ 31 := h.length_dimensionNames.trans_lt (by decide)
  simp only [ClientboundPacket.encodeBody]
  simp only [List.append_assoc]
  apply (readI32_reads _).bind
  apply (readBool_reads _).bind
  rw [← List.append_assoc (writeVarint (asI32 p.dimensionNames.length))]
  apply (readArray_reads h.length_dimensionNames hmax
    fun name hname => readIdentifier_reads (h.dimensionNames name hname)).bind
  apply (readVarint_reads _).bind
  apply (readVarint_reads _).bind
  apply (readVarint_reads _).bind
  apply (readBool_reads _).bind
  apply (readBool_reads _).bind
  apply (readBool_reads _).bind
  apply (readVarint_reads _).bind
  apply (readIdentifier_reads h.dimensionName).bind
  apply (readI64_reads _).bind
  apply (readU8_reads _).bind
  rw [GameMode.fromId_id]
  apply (readI8_reads _).bind
  apply (readBool_reads _).bind
  apply (readBool_reads _).bind
  apply (decodeDeathLocation_reads h.deathLocation).bind
  apply (readVarint_reads _).bind
  apply (readVarint_reads _).bind
  exact (readBool_reads _).bind_pure

end Play

/-! ## All of them -/

/-- Every packet that has a writer and a reader is read back from its own bytes, with none
left over, when it is within the limits of its reader. -/
theorem packets_round_trip :
    (∀ p : Intention, FitsString maxAddressLen p.serverAddress →
      RoundTrips ServerboundPacket.decodeBody p.encodeBody p) ∧
    (∀ p : Hello, FitsString maxUsernameLen p.name →
      RoundTrips ServerboundPacket.decodeBody p.encodeBody p) ∧
    (∀ p : ClientInformation, FitsString maxLocaleLen p.locale →
      RoundTrips ServerboundPacket.decodeBody p.encodeBody p) ∧
    (∀ p : KeepAlive, RoundTrips (ServerboundPacket.decodeBody : Reader KeepAlive)
      (ClientboundPacket.encodeBody p) p) ∧
    (∀ p : Play.KeepAlive, RoundTrips (ServerboundPacket.decodeBody : Reader Play.KeepAlive)
      (ClientboundPacket.encodeBody p) p) ∧
    (∀ p : SelectKnownPacks, p.packs.length ≤ maxKnownPacks → (∀ pack ∈ p.packs, pack.Fits) →
      RoundTrips (ServerboundPacket.decodeBody : Reader SelectKnownPacks)
        (ClientboundPacket.encodeBody p) p) ∧
    (∀ p : PluginMessage, FitsString defaultMaxStringLen p.channel →
      RoundTrips (ServerboundPacket.decodeBody : Reader PluginMessage)
        (ClientboundPacket.encodeBody p) p) ∧
    (∀ p : RegistryData, FitsString defaultMaxStringLen p.registryId →
      p.entries.length ≤ maxRegistryEntries → (∀ entry ∈ p.entries, entry.Fits) →
      RoundTrips RegistryData.decodeBody (ClientboundPacket.encodeBody p) p) ∧
    (∀ p : Play.Login, p.Fits →
      RoundTrips Play.Login.decodeBody (ClientboundPacket.encodeBody p) p) :=
  ⟨fun _ h => .of_readsAs (Intention.reads h), fun _ h => .of_readsAs (Hello.reads h),
    fun _ h => .of_readsAs (ClientInformation.reads h), fun p => .of_readsAs p.reads,
    fun p => .of_readsAs p.reads, fun _ hlength h => .of_readsAs (SelectKnownPacks.reads hlength h),
    fun _ h => PluginMessage.roundTrips h,
    fun _ hid hlength h => .of_readsAs (RegistryData.reads hid hlength h),
    fun _ h => .of_readsAs (Play.Login.reads h)⟩

/-- A login after a death in the nether. -/
def diedInNether : Play.Login where
  entityId := 1
  hardcore := false
  dimensionNames := ["minecraft:overworld", "minecraft:the_nether"]
  maxPlayers := 20
  viewDistance := 10
  simulationDistance := 10
  reducedDebugInfo := false
  enableRespawnScreen := true
  doLimitedCrafting := false
  dimensionType := 0
  dimensionName := "minecraft:overworld"
  hashedSeed := 0
  gameMode := .creative
  previousGameMode := -1
  isDebug := false
  isFlat := true
  deathLocation := some ("minecraft:the_nether", ⟨-10, 64, 30⟩)
  portalCooldown := 0
  seaLevel := 63
  enforcesSecureChat := false

theorem packets_round_trip_login :
    RoundTrips Play.Login.decodeBody (ClientboundPacket.encodeBody diedInNether) diedInNether := by
  obtain ⟨-, -, -, -, -, -, -, -, hlogin⟩ := packets_round_trip
  apply hlogin
  constructor
  · decide
  · intro name hname
    simp only [diedInNether, List.mem_cons, List.not_mem_nil, or_false] at hname
    rcases hname with rfl | rfl <;> exact ⟨by decide, by decide⟩
  · exact ⟨by decide, by decide⟩
  · intro dimension pos hlocation
    cases hlocation
    exact ⟨⟨by decide, by decide⟩, ⟨by decide, by decide, by decide⟩⟩

end Rukkit.Protocol
