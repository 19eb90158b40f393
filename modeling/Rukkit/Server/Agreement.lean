import Mathlib.Logic.Relation
import Rukkit.Server.Admission
import Rukkit.Server.Dialogue
import Rukkit.Server.ReadPacket

/-!
# Agreement on state and framing

A connection and a reference client with a byte stream each way.  Either side moves at any
moment, the bytes arrive in chunks cut anywhere, and a write may stop half-way.
-/

namespace Rukkit.Server.Agreement

open Rukkit.Lib Rukkit.Protocol

variable {F : Flate2} {K : Cfb8}

/-- Both ends and what lies between them. -/
structure System (F : Flate2) (K : Cfb8) where
  point : Point
  encoder : Encoder F K
  decoder : Decoder F K
  client : Reference
  clientEncoder : Encoder F K
  clientDecoder : Decoder F K
  /-- The bytes on the wire to the server and to the client. -/
  up : Bytes
  down : Bytes
  /-- What a failed write has cut off. -/
  lost : Bytes
  /-- The packets the server has sent, and those the client has decoded in which state. -/
  sent : List Clientbound
  got : List (State × Bytes)
  /-- The packets the client has sent and those the server has decoded. -/
  asked : List Bytes
  heard : List Bytes
  serverFailure : Option ProtocolError
  clientFailure : Option ProtocolError

namespace System

def new : System F K where
  point := .run
  encoder := Encoder.new
  decoder := Decoder.new
  client := .new
  clientEncoder := Encoder.new
  clientDecoder := Decoder.new
  up := []
  down := []
  lost := []
  sent := []
  got := []
  asked := []
  heard := []
  serverFailure := none
  clientFailure := none

/-- The client's end once it has decoded a packet: a new threshold switches both of its
directions at once. -/
def clientTakes (s : System F K) (decoder : Decoder F K) (packet : Bytes) : System F K :=
  let threshold := Reference.newThreshold s.client.state packet
  { s with
    client := s.client.reads packet
    clientEncoder := threshold.elim s.clientEncoder s.clientEncoder.enableCompression
    clientDecoder := threshold.elim decoder decoder.enableCompression
    got := s.got ++ [(s.client.state, packet)] }

end System

/-! ## Steps -/

/-- A step of the connection. -/
inductive ServerStep (ctx : Context) (addr : SocketAddr) : System F K → System F K → Prop
  /-- `read_packet` asks the socket. -/
  | feed {s : System F K} {d : Decoder F K} {chunk rest : Bytes}
      {next : Except ConnError Bytes → Point} (haction : s.point.action ctx addr = .read next)
      (hdecode : s.decoder.decode = (d, .ok none)) (hup : s.up = chunk ++ rest)
      (hpos : 0 < chunk.length) (hle : chunk.length ≤ readBuffer) :
      ServerStep ctx addr s { s with decoder := d.feed chunk, up := rest }
  /-- It returns a packet. -/
  | take {s : System F K} {d : Decoder F K} {packet : Bytes} {next : Point}
      (hdecode : s.decoder.decode = (d, .ok (some packet)))
      (hstep : s.point.Step ctx addr (.read (.ok packet)) next) :
      ServerStep ctx addr s
        { s with decoder := d, point := next, heard := s.heard ++ [packet] }
  /-- It cannot decode one. -/
  | reject {s : System F K} {d : Decoder F K} {e : ProtocolError} {next : Point}
      (hdecode : s.decoder.decode = (d, .error e))
      (hstep : s.point.Step ctx addr (.read (.error (.protocol e))) next) :
      ServerStep ctx addr s { s with decoder := d, point := next, serverFailure := some e }
  /-- The socket is closed or fails, or the time is up. -/
  | giveUp {s : System F K} {d : Decoder F K} {e : ConnError} {next : Point}
      (hdecode : s.decoder.decode = (d, .ok none))
      (hstep : s.point.Step ctx addr (.read (.error e)) next) :
      ServerStep ctx addr s { s with decoder := d, point := next }
  | send {s : System F K} {encoder : Encoder F K} {packet : Clientbound} {frame : Bytes}
      {next : Point} (hencode : s.encoder.encode packet.encode [] = some (encoder, frame, .ok ()))
      (hstep : s.point.Step ctx addr (.send packet (.ok ())) next) :
      ServerStep ctx addr s
        { s with
          encoder := encoder
          point := next
          down := s.down ++ frame
          sent := s.sent ++ [packet] }
  /-- The encoder refuses the packet. -/
  | refuse {s : System F K} {encoder : Encoder F K} {packet : Clientbound} {out : Bytes}
      {e : ProtocolError} {next : Point}
      (hencode : s.encoder.encode packet.encode [] = some (encoder, out, .error e))
      (hstep : s.point.Step ctx addr (.send packet (.error (.protocol e))) next) :
      ServerStep ctx addr s { s with encoder := encoder, point := next }
  /-- The write fails, with part of the frame written. -/
  | cutOff {s : System F K} {encoder : Encoder F K} {packet : Clientbound} {written lost : Bytes}
      {message : String} {next : Point}
      (hencode : s.encoder.encode packet.encode [] = some (encoder, written ++ lost, .ok ()))
      (hstep : s.point.Step ctx addr (.send packet (.error (.io message))) next) :
      ServerStep ctx addr s
        { s with
          encoder := encoder
          point := next
          down := s.down ++ written
          lost := lost
          sent := s.sent ++ [packet] }
  | enableCompression {s : System F K} {threshold : Nat} {next : Point}
      (hstep : s.point.Step ctx addr (.enableCompression threshold) next) :
      ServerStep ctx addr s
        { s with
          encoder := s.encoder.enableCompression threshold
          decoder := s.decoder.enableCompression threshold
          point := next }
  /-- A call on the registry or the status cache, whatever its answer. -/
  | quiet {s : System F K} {call : Call} {next : Point} (hquiet : call.Quiet)
      (hstep : s.point.Step ctx addr call next) :
      ServerStep ctx addr s { s with point := next }

/-- A step of a client that sends what `May` allows. -/
inductive ClientStep (May : Reference → Bytes → Prop) : System F K → System F K → Prop
  | send {s : System F K} {encoder : Encoder F K} {packet frame : Bytes}
      (hmay : May s.client packet) (hne : packet ≠ [])
      (hlimits : WithinLimits s.client.compression packet)
      (hencode : s.clientEncoder.encode packet [] = some (encoder, frame, .ok ())) :
      ClientStep May s
        { s with
          client := s.client.sends packet
          clientEncoder := encoder
          up := s.up ++ frame
          asked := s.asked ++ [packet] }
  | feed {s : System F K} {chunk rest : Bytes} (hdown : s.down = chunk ++ rest) :
      ClientStep May s { s with clientDecoder := s.clientDecoder.feed chunk, down := rest }
  | take {s : System F K} {d : Decoder F K} {packet : Bytes}
      (hdecode : s.clientDecoder.decode = (d, .ok (some packet))) :
      ClientStep May s (s.clientTakes d packet)
  | reject {s : System F K} {d : Decoder F K} {e : ProtocolError}
      (hdecode : s.clientDecoder.decode = (d, .error e)) :
      ClientStep May s { s with clientDecoder := d, clientFailure := some e }

/-- Either side moves. -/
inductive Step (ctx : Context) (addr : SocketAddr) (May : Reference → Bytes → Prop)
    (s s' : System F K) : Prop
  | server (h : ServerStep ctx addr s s')
  | client (h : ClientStep May s s')

/-- What the server meant: the packet's bytes, in the state it belongs to. -/
def meant (packet : Clientbound) : State × Bytes := (packet.state, packet.encode)

/-! ## The invariant -/

/-- The packets on their way account for the wires, the two positions and the histories. -/
structure Agree (ctx : Context) (s : System F K) (up : List Framed) (down : List Meant) : Prop where
  toServer : Piped s.decoder s.up [] up
  toClient : Piped s.clientDecoder s.down s.lost (down.map Meant.framed)
  talk : Talk ctx s.point s.client up down
  grounded : s.point.Grounded ctx
  server : ∀ v, s.point.view ctx = some v → s.encoder.Plain (s.point.setting ctx) ∧
    s.decoder.compression = s.point.setting ctx ∧ s.lost = []
  clientEncoder : s.clientEncoder.Plain s.client.compression
  clientDecoder : s.clientDecoder.compression = s.client.compression
  sent : s.sent.map meant = s.got ++ down.map fun x => meant x.packet
  asked : s.asked = s.heard ++ up.map Framed.packet
  serverFailure : s.serverFailure = none
  clientFailure : s.clientFailure = none

theorem Agree.new {ctx : Context} : Agree ctx (System.new : System F K) [] [] where
  toServer := Piped.new
  toClient := Piped.new
  talk := Talk.new
  grounded := trivial
  server := by
    rintro v -
    exact ⟨Encoder.Plain.new, rfl, rfl⟩
  clientEncoder := Encoder.Plain.new
  clientDecoder := rfl
  sent := rfl
  asked := rfl
  serverFailure := rfl
  clientFailure := rfl

/-! ## The server's steps -/

section Server

variable {ctx : Context} {addr : SocketAddr} {s : System F K} {up : List Framed}
  {down : List Meant} {next : Point}

/-- A connection past its client has nothing left to agree on. -/
theorem Agree.server_ends (h : Agree ctx s up down) (hview : next.view ctx = none)
    (encoder : Encoder F K) : Agree ctx { s with encoder := encoder, point := next } up down where
  toServer := h.toServer
  toClient := h.toClient
  talk := h.talk.server_ends hview
  grounded := Point.grounded_of_view_none hview
  server := by
    intro v hv
    rw [hview] at hv
    cases hv
  clientEncoder := h.clientEncoder
  clientDecoder := h.clientDecoder
  sent := h.sent
  asked := h.asked
  serverFailure := h.serverFailure
  clientFailure := h.clientFailure

/-- The server's decoder waits for the first packet on its way, or hands it out. -/
theorem Agree.server_decodes {result : Except ConnError Bytes} (h : Agree ctx s up down)
    (hstep : s.point.Step ctx addr (.read result) next) :
    (s.decoder.decode = (s.decoder, .ok none) ∧ (s.up = [] → up = [])) ∨
    ∃ x rest d, up = x :: rest ∧ s.decoder.decode = (d, .ok (some x.packet)) ∧
      d.compression = s.decoder.compression ∧ Piped d s.up [] rest := by
  obtain ⟨v, hview⟩ := Point.view_of_step hstep not_false
  have hhead : ∀ x ∈ up.head?, x.compression = s.decoder.compression := by
    intro x hx
    rw [(h.server v hview).2.1, Point.setting_read hstep hview]
    exact h.talk.settings v hview x (List.mem_of_mem_head? hx)
  rcases h.toServer.decode hhead with ⟨hdecode, hempty⟩ | hpacket
  · exact .inl ⟨hdecode, fun hup => hempty hup rfl⟩
  · exact .inr hpacket

theorem Agree.server_takes {packet : Bytes} {d : Decoder F K} (h : Agree ctx s up down)
    (hdecode : s.decoder.decode = (d, .ok (some packet)))
    (hstep : s.point.Step ctx addr (.read (.ok packet)) next) :
    ∃ rest, Agree ctx { s with decoder := d, point := next, heard := s.heard ++ [packet] }
      rest down := by
  obtain ⟨v, hview⟩ := Point.view_of_step hstep not_false
  obtain ⟨hencoder, hdecoder, hlost⟩ := h.server v hview
  rcases h.server_decodes hstep with ⟨hnone, -⟩ | ⟨x, rest, d', rfl, hsome, hcompression, hpiped⟩
  · rw [hnone] at hdecode
    simp at hdecode
  · rw [hsome] at hdecode
    simp only [Prod.mk.injEq, Except.ok.injEq, Option.some.injEq] at hdecode
    obtain ⟨rfl, rfl⟩ := hdecode
    have hnext := Point.expects_read hstep hview
    refine ⟨rest, hpiped, h.toClient, h.talk.server_reads hview hnext, hnext.grounded, ?_,
      h.clientEncoder, h.clientDecoder, h.sent, ?_, h.serverFailure, h.clientFailure⟩
    · intro v' hv'
      change s.encoder.Plain (next.setting ctx) ∧ d'.compression = next.setting ctx ∧ s.lost = []
      rw [(hnext.view_eq v' hv').2]
      exact ⟨hencoder, hcompression.trans hdecoder, hlost⟩
    · change s.asked = s.heard ++ [x.packet] ++ rest.map Framed.packet
      rw [h.asked, List.map_cons, List.append_assoc]
      rfl

section Encode

variable {deflated : Bytes → Bytes} {Deflating : F.Compress → Bytes → Bytes → Prop}
  (hF : F.Inflates deflated Deflating)

include hF

/-- A packet is written, whole unless the write fails. -/
theorem Agree.server_sends {encoder : Encoder F K} {packet : Clientbound} {written lost : Bytes}
    {result : Outcome} (h : Agree ctx s up down)
    (hencode : s.encoder.encode packet.encode [] = some (encoder, written ++ lost, .ok ()))
    (hstep : s.point.Step ctx addr (.send packet result) next)
    (hwhole : result = .ok () → lost = []) :
    ∃ down', Agree ctx
      { s with
        encoder := encoder
        point := next
        down := s.down ++ written
        lost := lost
        sent := s.sent ++ [packet] } up down' := by
  obtain ⟨v, hview⟩ := Point.view_of_step hstep not_false
  obtain ⟨hencoder, hdecoder, hlost⟩ := h.server v hview
  have hsend := Point.send_spec hstep hview h.grounded
  have hpiped := h.toClient
  rw [hlost] at hpiped
  obtain ⟨hframes, hplain⟩ := hencoder.encode_ok hF packet.encode_ne_nil
    (hsend.setting_eq ▸ hsend.sendable.limits) hencode
  rw [hsend.setting_eq] at hframes
  refine ⟨down ++ [⟨v.compression, packet⟩], h.toServer, ?_,
    h.talk.server_sends hview hsend.sendable hsend.expects, hsend.expects.grounded, ?_,
    h.clientEncoder, h.clientDecoder, ?_, h.asked, h.serverFailure, h.clientFailure⟩
  · rw [List.map_append]
    exact hpiped.write hframes
  · intro v' hv'
    have hok : result = .ok () := by
      by_contra hfailed
      rw [hsend.failed hfailed] at hv'
      cases hv'
    change encoder.Plain (next.setting ctx) ∧ s.decoder.compression = next.setting ctx ∧ lost = []
    rw [(hsend.expects.view_eq v' hv').2]
    exact ⟨hplain, hdecoder, hwhole hok⟩
  · change (s.sent ++ [packet]).map meant = _
    rw [List.map_append, h.sent, List.map_append, List.append_assoc]
    rfl

theorem Agree.server_step {s' : System F K} (h : Agree ctx s up down)
    (hstep : ServerStep ctx addr s s') : ∃ up' down', Agree ctx s' up' down' := by
  cases hstep with
  | @feed d chunk rest next haction hdecode hup _ _ =>
      rw [Decoder.decode_none hdecode]
      have hpiped := h.toServer
      rw [hup] at hpiped
      exact ⟨up, down, hpiped.feed, h.toClient, h.talk, h.grounded, h.server, h.clientEncoder,
        h.clientDecoder, h.sent, h.asked, h.serverFailure, h.clientFailure⟩
  | take hdecode hstep =>
      obtain ⟨rest, hrest⟩ := h.server_takes hdecode hstep
      exact ⟨rest, down, hrest⟩
  | reject hdecode hstep =>
      exfalso
      rcases h.server_decodes hstep with ⟨hnone, -⟩ | ⟨x, rest, d', -, hsome, -⟩
      · rw [hnone] at hdecode
        simp at hdecode
      · rw [hsome] at hdecode
        simp at hdecode
  | giveUp hdecode hstep =>
      rw [Decoder.decode_none hdecode]
      exact ⟨up, down, h.server_ends (Point.view_read_error hstep) s.encoder⟩
  | @send encoder packet frame next hencode hstep =>
      obtain ⟨v, hview⟩ := Point.view_of_step hstep not_false
      have hlost := (h.server v hview).2.2
      rw [← List.append_nil frame] at hencode
      obtain ⟨down', hdown⟩ := h.server_sends hF hencode hstep fun _ => rfl
      rw [← hlost] at hdown
      exact ⟨up, down', hdown⟩
  | refuse hencode hstep =>
      obtain ⟨v, hview⟩ := Point.view_of_step hstep not_false
      have hsend := Point.send_spec hstep hview h.grounded
      exact ⟨up, down, h.server_ends (hsend.failed (by simp)) _⟩
  | cutOff hencode hstep =>
      obtain ⟨down', hdown⟩ := h.server_sends hF hencode hstep (by simp)
      exact ⟨up, down', hdown⟩
  | @enableCompression threshold next hstep =>
      obtain ⟨v, hview⟩ := Point.view_of_step hstep not_false
      obtain ⟨hencoder, hdecoder, hlost⟩ := h.server v hview
      obtain ⟨-, hnext⟩ := Point.expects_enableCompression hstep hview h.grounded
      refine ⟨up, down, h.toServer.enableCompression threshold, h.toClient,
        h.talk.server_moves hview hnext, hnext.grounded, ?_, h.clientEncoder, h.clientDecoder,
        h.sent, h.asked, h.serverFailure, h.clientFailure⟩
      intro v' hv'
      change (s.encoder.enableCompression threshold).Plain (next.setting ctx) ∧
        some threshold = next.setting ctx ∧ s.lost = []
      rw [(hnext.view_eq v' hv').2]
      exact ⟨hencoder.enableCompression threshold, rfl, hlost⟩
  | @quiet call next hquiet hstep =>
      cases hview : s.point.view ctx with
      | none =>
          obtain ⟨-, outcome, rfl⟩ := Point.step_of_view_none hstep hview
          exact ⟨up, down, h.server_ends rfl s.encoder⟩
      | some v =>
          obtain ⟨hencoder, hdecoder, hlost⟩ := h.server v hview
          have hnext := Point.expects_quiet hstep hquiet hview
          refine ⟨up, down, h.toServer, h.toClient, h.talk.server_moves hview hnext,
            hnext.grounded, ?_, h.clientEncoder, h.clientDecoder, h.sent, h.asked,
            h.serverFailure, h.clientFailure⟩
          intro v' hv'
          change s.encoder.Plain (next.setting ctx) ∧
            s.decoder.compression = next.setting ctx ∧ s.lost = []
          rw [(hnext.view_eq v' hv').2]
          exact ⟨hencoder, hdecoder, hlost⟩

end Encode

end Server

/-! ## The client's steps -/

section Client

variable {ctx : Context} {s : System F K} {up : List Framed} {down : List Meant}

/-- The client's decoder waits for the first packet on its way, or hands it out. -/
theorem Agree.client_decodes (h : Agree ctx s up down) :
    (s.clientDecoder.decode = (s.clientDecoder, .ok none) ∧
      (s.down = [] → s.lost = [] → down = [])) ∨
    ∃ x rest d, down = x :: rest ∧ s.clientDecoder.decode = (d, .ok (some x.packet.encode)) ∧
      d.compression = s.clientDecoder.compression ∧
      Piped d s.down s.lost (rest.map Meant.framed) := by
  have hhead : ∀ x ∈ (down.map Meant.framed).head?,
      x.compression = s.clientDecoder.compression := by
    cases down with
    | nil =>
        intro x hx
        cases hx
    | cons x rest =>
        rintro y ⟨⟩
        rw [h.clientDecoder]
        exact h.talk.receives.1
  rcases h.toClient.decode hhead with ⟨hdecode, hempty⟩ | ⟨y, queue, d, hqueue, hdecode, hpiped⟩
  · exact .inl ⟨hdecode, fun hdown hlost => List.map_eq_nil_iff.mp (hempty hdown hlost)⟩
  · right
    cases down with
    | nil => cases hqueue
    | cons x rest =>
        obtain ⟨rfl, rfl⟩ := List.cons.inj hqueue
        exact ⟨x, rest, d, rfl, hdecode, hpiped⟩

theorem Agree.client_takes {packet : Bytes} {d : Decoder F K} (h : Agree ctx s up down)
    (hdecode : s.clientDecoder.decode = (d, .ok (some packet))) :
    ∃ rest, Agree ctx (s.clientTakes d packet) up rest := by
  rcases h.client_decodes with ⟨hnone, -⟩ | ⟨x, rest, d', rfl, hsome, hcompression, hpiped⟩
  · rw [hnone] at hdecode
    simp at hdecode
  · rw [hsome] at hdecode
    simp only [Prod.mk.injEq, Except.ok.injEq, Option.some.injEq] at hdecode
    obtain ⟨rfl, rfl⟩ := hdecode
    have hdecoder : d'.compression = s.client.compression := hcompression.trans h.clientDecoder
    refine ⟨rest, h.toServer, ?_, h.talk.client_reads, h.grounded, h.server, ?_, ?_, ?_, h.asked,
      h.serverFailure, h.clientFailure⟩
    · change Piped ((Reference.newThreshold s.client.state x.packet.encode).elim d'
        d'.enableCompression) s.down s.lost (rest.map Meant.framed)
      cases Reference.newThreshold s.client.state x.packet.encode with
      | none => exact hpiped
      | some threshold => exact hpiped.enableCompression threshold
    · change ((Reference.newThreshold s.client.state x.packet.encode).elim s.clientEncoder
        s.clientEncoder.enableCompression).Plain
        ((Reference.newThreshold s.client.state x.packet.encode).or s.client.compression)
      cases Reference.newThreshold s.client.state x.packet.encode with
      | none => exact h.clientEncoder
      | some threshold => exact h.clientEncoder.enableCompression threshold
    · change ((Reference.newThreshold s.client.state x.packet.encode).elim d'
        d'.enableCompression).compression =
        (Reference.newThreshold s.client.state x.packet.encode).or s.client.compression
      cases Reference.newThreshold s.client.state x.packet.encode with
      | none => exact hdecoder
      | some threshold => rfl
    · change s.sent.map meant = s.got ++ [(s.client.state, x.packet.encode)] ++ _
      rw [h.sent, List.map_cons, List.append_assoc, ← h.talk.receives.2.1]
      rfl

theorem Agree.client_step {deflated : Bytes → Bytes} {Deflating : F.Compress → Bytes → Bytes → Prop}
    (hF : F.Inflates deflated Deflating) {s' : System F K} (h : Agree ctx s up down)
    (hstep : ClientStep Reference.Acknowledges s s') : ∃ up' down', Agree ctx s' up' down' := by
  cases hstep with
  | @send encoder packet frame hmay hne hlimits hencode =>
      obtain ⟨hframes, hplain⟩ := h.clientEncoder.encode_ok hF hne hlimits hencode
      refine ⟨up ++ [⟨s.client.compression, packet⟩], down, h.toServer.write_whole hframes,
        h.toClient, h.talk.client_sends hmay, h.grounded, h.server, hplain, h.clientDecoder,
        h.sent, ?_, h.serverFailure, h.clientFailure⟩
      change s.asked ++ [packet] = _
      rw [h.asked, List.map_append, List.append_assoc]
      rfl
  | @feed chunk rest hdown =>
      have hpiped := h.toClient
      rw [hdown] at hpiped
      exact ⟨up, down, h.toServer, hpiped.feed, h.talk, h.grounded, h.server, h.clientEncoder,
        h.clientDecoder, h.sent, h.asked, h.serverFailure, h.clientFailure⟩
  | take hdecode =>
      obtain ⟨rest, hrest⟩ := h.client_takes hdecode
      exact ⟨up, rest, hrest⟩
  | reject hdecode =>
      exfalso
      rcases h.client_decodes with ⟨hnone, -⟩ | ⟨x, rest, d', -, hsome, -⟩
      · rw [hnone] at hdecode
        simp at hdecode
      · rw [hsome] at hdecode
        simp at hdecode

end Client

/-! ## Runs -/

/-- What the two ends agree on.  The client decodes a prefix of what the server sent, each
packet in the state it belongs to, and the server a prefix of what the client sent; neither
fails to decode, and a decoder that waits with nothing on the wire has decoded it all. -/
structure Agreed (ctx : Context) (addr : SocketAddr) (s : System F K) : Prop where
  got : s.got <+: s.sent.map meant
  clientFailure : s.clientFailure = none
  got_all : s.down = [] → s.lost = [] → (s.clientDecoder.decode).2 = .ok none →
    s.got = s.sent.map meant
  heard : s.heard <+: s.asked
  serverFailure : s.serverFailure = none
  heard_all : ∀ next, s.point.action ctx addr = .read next → s.up = [] →
    (s.decoder.decode).2 = .ok none → s.heard = s.asked

theorem Agree.agreed {ctx : Context} {s : System F K} {up : List Framed} {down : List Meant}
    (h : Agree ctx s up down) (addr : SocketAddr) : Agreed ctx addr s where
  got := h.sent ▸ List.prefix_append _ _
  clientFailure := h.clientFailure
  got_all := by
    intro hdown hlost hwaits
    rcases h.client_decodes with ⟨-, hempty⟩ | ⟨x, rest, d, -, hsome, -⟩
    · rw [h.sent, hempty hdown hlost, List.map_nil, List.append_nil]
    · rw [hsome] at hwaits
      simp at hwaits
  heard := h.asked ▸ List.prefix_append _ _
  serverFailure := h.serverFailure
  heard_all := by
    intro next haction hup hwaits
    have hstep : s.point.Step ctx addr (.read (.error .closed)) (next (.error .closed)) := by
      rw [Point.Step, haction]
      exact .read _
    rcases h.server_decodes hstep with ⟨-, hempty⟩ | ⟨x, rest, d, -, hsome, -⟩
    · rw [h.asked, hempty hup, List.map_nil, List.append_nil]
    · rw [hsome] at hwaits
      simp at hwaits

/-- Whatever the configuration, with a client that acknowledges in order the two ends agree
throughout every run. -/
theorem agreed_of_acknowledges {deflated : Bytes → Bytes}
    {Deflating : F.Compress → Bytes → Bytes → Prop} (hF : F.Inflates deflated Deflating)
    {ctx : Context} {addr : SocketAddr} {s : System F K}
    (hrun : Relation.ReflTransGen (Step ctx addr Reference.Acknowledges) System.new s) :
    Agreed ctx addr s := by
  have hagree : ∃ up down, Agree ctx s up down := by
    induction hrun with
    | refl => exact ⟨[], [], Agree.new⟩
    | tail _ hstep ih =>
        obtain ⟨up, down, h⟩ := ih
        cases hstep with
        | server hstep => exact h.server_step hF hstep
        | client hstep => exact h.client_step hF hstep
  obtain ⟨up, down, h⟩ := hagree
  exact h.agreed addr

/-- A login up to the switch of both ends to compression. -/
theorem agreed_of_acknowledges_login :
    ∃ s : System (Flate2.storing [] []) (keyStream []),
      Relation.ReflTransGen (Step notchContext notchAddr Reference.Acknowledges) System.new s ∧
      s.sent.map meant = [(.login, [3, 128, 2])] ∧ s.client.compression = some 256 ∧
      Agreed notchContext notchAddr s := by
  let s₁ : System (Flate2.storing [] []) (keyStream []) := { System.new with
    client := ⟨.login, false, false, none⟩
    up := [7, 0, 136, 6, 0, 0, 0, 2]
    asked := [[0, 136, 6, 0, 0, 0, 2]] }
  let s₂ := { s₁ with
    client := ⟨.login, true, false, none⟩
    up := [7, 0, 136, 6, 0, 0, 0, 2,
      19, 0, 1, 65, 0, 0, 0, 0, 0, 0, 0, 0, 0, 0, 0, 0, 0, 0, 0, 0]
    asked := [[0, 136, 6, 0, 0, 0, 2], [0, 1, 65, 0, 0, 0, 0, 0, 0, 0, 0, 0, 0, 0, 0, 0, 0, 0, 0]] }
  let s₃ := { s₂ with decoder := Decoder.new.feed s₂.up, up := [] }
  let s₄ := { s₃ with
    point := .login
    decoder := Decoder.new.feed [19, 0, 1, 65, 0, 0, 0, 0, 0, 0, 0, 0, 0, 0, 0, 0, 0, 0, 0, 0]
    heard := [[0, 136, 6, 0, 0, 0, 2]] }
  let s₅ := { s₄ with
    point := .setCompression ⟨"A", 0⟩ 256
    decoder := Decoder.new
    heard := s₂.asked }
  let s₆ := { s₅ with
    point := .enableCompression ⟨"A", 0⟩ 256
    down := [3, 3, 128, 2]
    sent := [.setCompression ⟨256⟩] }
  let s₇ := { s₆ with clientDecoder := Decoder.new.feed s₆.down, down := [] }
  let s₈ := { s₇ with
    client := ⟨.login, true, false, some 256⟩
    clientEncoder := Encoder.new.enableCompression 256
    clientDecoder := Decoder.new.enableCompression 256
    got := [(.login, [3, 128, 2])] }
  have hmay₁ : Reference.Acknowledges .new [0, 136, 6, 0, 0, 0, 2] :=
    ⟨Bool.noConfusion, State.noConfusion⟩
  have hmay₂ : Reference.Acknowledges ⟨.login, false, false, none⟩
      [0, 1, 65, 0, 0, 0, 0, 0, 0, 0, 0, 0, 0, 0, 0, 0, 0, 0, 0] :=
    ⟨Bool.noConfusion, fun _ hack => Bool.noConfusion hack⟩
  have h₁ : ClientStep Reference.Acknowledges System.new s₁ :=
    .send (s := System.new) hmay₁ (List.cons_ne_nil _ _) (Point.withinLimits_none _) rfl
  have h₂ : ClientStep Reference.Acknowledges s₁ s₂ :=
    .send (s := s₁) hmay₂ (List.cons_ne_nil _ _) (Point.withinLimits_none _) rfl
  have h₃ : ServerStep notchContext notchAddr s₂ s₃ :=
    .feed rfl rfl (List.append_nil _).symm (by decide) (by decide)
  have h₄ : ServerStep notchContext notchAddr s₃ s₄ := .take rfl (.read _)
  have h₅ : ServerStep notchContext notchAddr s₄ s₅ := .take rfl (.read _)
  have h₆ : ServerStep notchContext notchAddr s₅ s₆ := .send rfl (.send _)
  have h₇ : ClientStep Reference.Acknowledges s₆ s₇ := .feed (List.append_nil _).symm
  have h₈ : ClientStep Reference.Acknowledges s₇ s₈ := by
    have hdecode : s₇.clientDecoder.decode = (Decoder.new, .ok (some [3, 128, 2])) := rfl
    exact .take hdecode
  have hrun : Relation.ReflTransGen (Step notchContext notchAddr Reference.Acknowledges)
      System.new s₈ :=
    (((((((Relation.ReflTransGen.single (.client h₁)).tail (.client h₂)).tail (.server h₃)).tail
      (.server h₄)).tail (.server h₅)).tail (.server h₆)).tail (.client h₇)).tail (.client h₈)
  exact ⟨s₈, hrun, rfl, rfl, agreed_of_acknowledges (Flate2.storing_inflates [] [] (by simp)) hrun⟩

/-- A client that names another version and acknowledges at once is out of the login state
when the refusal reaches it. -/
theorem disagreed_early_acknowledgement :
    ∃ s : System (Flate2.storing [] []) (keyStream []),
      Relation.ReflTransGen (Step notchContext notchAddr Reference.Waits) System.new s ∧
      ¬ s.got <+: s.sent.map meant := by
  let s₁ : System (Flate2.storing [] []) (keyStream []) := { System.new with
    client := ⟨.login, false, false, none⟩
    up := [6, 0, 0, 0, 0, 0, 2]
    asked := [[0, 0, 0, 0, 0, 2]] }
  let s₂ := { s₁ with
    client := ⟨.configuration, false, false, none⟩
    up := [6, 0, 0, 0, 0, 0, 2, 1, 3]
    asked := [[0, 0, 0, 0, 0, 2], [3]] }
  let s₃ := { s₂ with decoder := Decoder.new.feed s₂.up, up := [] }
  let s₄ := { s₃ with
    point := .refuseVersion 0
    decoder := Decoder.new.feed [1, 3]
    heard := [[0, 0, 0, 0, 0, 2]] }
  let s₅ := { s₄ with
    point := .ended (.error (.unsupportedVersion 0 protocolVersion))
    down := [4, 0, 2, 123, 125]
    sent := [.loginDisconnect ⟨"{}"⟩] }
  let s₆ := { s₅ with clientDecoder := Decoder.new.feed s₅.down, down := [] }
  let s₇ := { s₆ with clientDecoder := Decoder.new, got := [(.configuration, [0, 2, 123, 125])] }
  have hmay₁ : Reference.Waits .new [0, 0, 0, 0, 0, 2] := Bool.noConfusion
  have hmay₂ : Reference.Waits ⟨.login, false, false, none⟩ [3] := Bool.noConfusion
  have h₁ : ClientStep Reference.Waits System.new s₁ :=
    .send (s := System.new) hmay₁ (List.cons_ne_nil _ _) (Point.withinLimits_none _) rfl
  have h₂ : ClientStep Reference.Waits s₁ s₂ :=
    .send (s := s₁) hmay₂ (List.cons_ne_nil _ _) (Point.withinLimits_none _) rfl
  have h₃ : ServerStep notchContext notchAddr s₂ s₃ :=
    .feed rfl rfl (List.append_nil _).symm (by decide) (by decide)
  have h₄ : ServerStep notchContext notchAddr s₃ s₄ := .take rfl (.read _)
  have h₅ : ServerStep notchContext notchAddr s₄ s₅ := .send rfl (.send _)
  have h₆ : ClientStep Reference.Waits s₅ s₆ := .feed (List.append_nil _).symm
  have h₇ : ClientStep Reference.Waits s₆ s₇ := .take rfl
  exact ⟨s₇, ((((((Relation.ReflTransGen.single (.client h₁)).tail (.client h₂)).tail
    (.server h₃)).tail (.server h₄)).tail (.server h₅)).tail (.client h₆)).tail (.client h₇),
    by decide⟩

end Rukkit.Server.Agreement
