import Rukkit.Protocol.ClientDecoding
import Rukkit.Server.Transcript

/-!
# What a client reads

The packets of a conversation at the client: each is one that a client in the state of the
conversation can read.
-/

namespace Rukkit.Protocol

open Rukkit.Lib Rukkit.Lib.Reading

/-- The packet among all those there are. -/
def Clientbound.toClient : Clientbound → ClientPacket
  | statusResponse packet => .statusResponse packet
  | pongResponse packet => .pongResponse packet
  | loginDisconnect packet => .loginDisconnect packet
  | loginFinished packet => .loginFinished packet
  | setCompression packet => .setCompression packet
  | disconnect packet => .disconnect packet
  | pluginMessage packet => .pluginMessage packet
  | selectKnownPacks packet => .selectKnownPacks packet

theorem Clientbound.state_toClient (packet : Clientbound) :
    packet.toClient.state = packet.state := by
  cases packet <;> rfl

theorem Clientbound.encode_toClient (packet : Clientbound) :
    packet.toClient.encode = packet.encode := by
  cases packet <;> rfl

/-- A string that has been read is within the limit it was read with. -/
theorem fitsString_of_readString {maxChars : Nat} {r t : PacketReader} {s : String}
    (h : readString maxChars r = .ok s t) : FitsString maxChars s := by
  obtain ⟨len, bytes, mid, hlen, htake, hdecode, hchars⟩ := readString_eq_ok h
  obtain ⟨raw, -, -, -, hmax⟩ := readLength_eq_ok hlen
  refine ⟨hchars, ?_⟩
  unfold String.fromUTF8? at hdecode
  split at hdecode
  · obtain rfl := Option.some.inj hdecode
    have hlength : bytes.length = len := take_eq_ok htake
    change bytes.toArray.size ≤ _
    rw [List.size_toArray]
    omega
  · cases hdecode

theorem Component.sendable_literal {text : String} (h : FitsPrefix text) (color : NamedColor) :
    ((literal text).withColor color).Sendable where
  levels_le := Nat.zero_le 255
  fits := by
    refine .intro ?_ fun child hchild => absurd hchild List.not_mem_nil
    intro field hfield s hs
    simp only [literal, withColor, List.mem_cons, List.not_mem_nil, or_false] at hfield
    rcases hfield with rfl | rfl | rfl
    · exact Option.some.inj hs ▸ h
    · cases hs
    · rw [← Option.some.inj hs]
      cases color <;> decide
  extra_le := .intro (Nat.zero_le (2 ^ 24)) fun child hchild => absurd hchild List.not_mem_nil

end Rukkit.Protocol

namespace Rukkit.Server

open Rukkit.Lib Rukkit.Protocol

theorem fits_refusal (why : JoinError) :
    (Clientbound.disconnect { reason := refusalMessage why }).toClient.Fits := by
  cases why with
  | full => exact Component.sendable_literal (by decide) _
  | nameTaken => exact Component.sendable_literal (by decide) _

theorem fits_registry : (Clientbound.disconnect { reason := registryMessage }).toClient.Fits :=
  Component.sendable_literal (by decide +kernel) _

theorem fits_loginFinished {packet : Bytes} {hello : Hello} (h : DecodesAs .login packet hello)
    (uuid : Uuid) (flag : Option Bool) :
    (Clientbound.loginFinished (LoginFinished.new uuid hello.name flag)).toClient.Fits := by
  obtain ⟨body, -, hdecode⟩ := h
  obtain ⟨t, hbody⟩ := decodeExact_eq_ok hdecode
  obtain ⟨name, mid, hname, hrest⟩ := Reading.bind_eq_ok hbody
  obtain ⟨profileId, -, rfl⟩ := Reading.bind_pure_eq_ok hrest
  exact ⟨fitsString_of_readString hname, Nat.zero_le _, fun property hproperty => nomatch hproperty⟩

theorem fits_configuration {packet : Clientbound} (h : packet ∈ configurationScript) :
    packet.toClient.Fits := by
  rcases List.mem_cons.mp h with rfl | h
  · exact ⟨by decide, by decide⟩
  · obtain rfl := List.mem_singleton.mp h
    refine ⟨by decide, fun pack hpack => ?_⟩
    obtain rfl := List.mem_singleton.mp hpack
    exact ⟨⟨by decide, by decide⟩, ⟨by decide, by decide⟩, ⟨by decide, by decide⟩⟩

theorem fits_loginScript {ctx : Context} {first second : Bytes} {hello : Hello}
    (h : Introduced ctx first second hello) {packet : Clientbound}
    (hpacket : packet ∈ loginScript ctx hello) : packet.toClient.Fits := by
  rcases List.mem_append.mp hpacket with hpacket | hpacket
  · unfold compressionScript at hpacket
    split at hpacket
    · obtain rfl := List.mem_singleton.mp hpacket
      trivial
    · cases hpacket
  · obtain rfl := List.mem_singleton.mp hpacket
    exact fits_loginFinished h.2.1 _ _

/-- The texts that are made outside the repository are within the client's limit. -/
structure TextsFit (sent : List Clientbound) : Prop where
  response : ∀ p, .statusResponse p ∈ sent → FitsString defaultMaxStringLen p.json
  refusal : ∀ p, .loginDisconnect p ∈ sent → FitsString defaultMaxStringLen p.reasonJson

theorem exists_request {requests : List Bytes} {sent : List Clientbound}
    (h : List.Forall₂ Answers requests sent) {packet : Clientbound} (hpacket : packet ∈ sent) :
    ∃ request, Answers request packet := by
  induction h with
  | nil => cases hpacket
  | cons hanswer _ ih =>
      rcases List.mem_cons.mp hpacket with rfl | hpacket
      · exact ⟨_, hanswer⟩
      · exact ih hpacket

theorem Transcript.fits {ctx : Context} {heard : List Bytes} {sent : List Clientbound}
    (h : Transcript ctx heard sent) (htexts : TextsFit sent) {packet : Clientbound}
    (hpacket : packet ∈ sent) : packet.toClient.Fits := by
  cases h with
  | silent _ => cases hpacket
  | status _ hanswers _ _ =>
      obtain ⟨request, hanswer⟩ := exists_request hanswers hpacket
      cases hanswer with
      | response response _ => exact htexts.response response hpacket
      | pong _ => trivial
  | otherVersion _ _ _ | onlineMode _ _ _ =>
      obtain rfl := List.mem_singleton.mp hpacket
      exact htexts.refusal _ hpacket
  | login hintroduced _ hsent _ =>
      exact fits_loginScript hintroduced (hsent.subset hpacket)
  | refused why hintroduced _ =>
      rcases List.mem_append.mp hpacket with hpacket | hpacket
      · exact fits_loginScript hintroduced hpacket
      · obtain rfl := List.mem_singleton.mp hpacket
        exact fits_refusal why
  | configuring hintroduced _ hsent _ =>
      rcases List.mem_append.mp hpacket with hpacket | hpacket
      · exact fits_loginScript hintroduced hpacket
      · exact fits_configuration (hsent.subset hpacket)
  | unready hintroduced _ _ =>
      rcases List.mem_append.mp hpacket with hpacket | hpacket
      · rcases List.mem_append.mp hpacket with hpacket | hpacket
        · exact fits_loginScript hintroduced hpacket
        · exact fits_configuration hpacket
      · obtain rfl := List.mem_singleton.mp hpacket
        exact fits_registry

end Rukkit.Server
