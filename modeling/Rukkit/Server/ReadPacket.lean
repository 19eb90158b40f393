import Rukkit.Protocol.Packetisation

/-!
# Reading a packet

The model of `Connection::read_packet` in `rukkit-server/src/connection.rs`, call after
call, against a peer that sends what it likes.
-/

namespace Rukkit.Protocol.Decoder

variable {F : Flate2} {K : Cfb8} {d d' : Decoder F K}

/-- Whatever a decode comes to, it adds nothing to the buffer. -/
theorem length_buffer_decode : d.decode.1.buffer.length ≤ d.buffer.length := by
  unfold decode
  split
  · rfl
  · rfl
  · split
    · rfl
    · dsimp only
      split
      · rfl
      · split
        · rfl
        · rw [unpack_fst]
          dsimp only
          rw [List.length_drop, List.length_drop]
          omega

/-- A decoder asks for more bytes only while a prefix and a frame of the largest size are not
complete. -/
theorem length_buffer_waiting (h : d.decode = (d', .ok none)) :
    d.buffer.length < d.maxFrame + maxVarintBytes := by
  unfold decode at h
  split at h
  · rename_i heof
    have hshort := readVarint_eof heof
    omega
  · simp at h
  · rename_i headerLen hread
    obtain ⟨-, hheader, -⟩ := readVarint_used hread
    split at h
    · simp at h
    · dsimp only at h
      split at h
      · simp at h
      · split at h
        · omega
        · exact absurd (congrArg Prod.snd h) (unpack_ne_none _)

theorem length_decipher (decryptor : Option (Decryptor K)) (data : Bytes) :
    (decipher decryptor data).2.length = data.length := by
  cases decryptor with
  | none => rfl
  | some decryptor => exact decryptor.length_decrypt data

theorem length_buffer_feed (data : Bytes) :
    (d.feed data).buffer.length = d.buffer.length + data.length := by
  rw [feed_eq_extend]
  exact List.length_append.trans (by rw [length_decipher])

theorem maxFrame_decode : d.decode.1.maxFrame = d.maxFrame := by
  rw [decode_fst]

end Rukkit.Protocol.Decoder

namespace Rukkit.Server

open Rukkit.Lib
open Rukkit.Protocol

variable {F : Flate2} {K : Cfb8}

/-- The size of the socket read buffer. -/
def readBuffer : Nat := 16 * 1024

namespace ReadPacket

/-- Where the loop stands: before `decode` or at the socket. -/
inductive Point where
  | decode
  | read
  deriving DecidableEq

/-- A decoder and the loop that it is used by. -/
structure State (F : Flate2) (K : Cfb8) where
  decoder : Decoder F K
  point : Point

/-- `Connection::new`, before the first call. -/
def State.new : State F K := ⟨Decoder.new, .decode⟩

inductive Event where
  /-- `decode` gave a packet, which the call returns. -/
  | packet (packet : Bytes)
  /-- `decode` failed, and with it the call. -/
  | failed (e : ProtocolError)
  /-- `decode` asked for more bytes. -/
  | waiting
  /-- The socket had these bytes. -/
  | read (chunk : Bytes)
  /-- The socket was closed or failed, or the call was dropped on a timeout. -/
  | stopped
  /-- Compression is turned on between two calls. -/
  | enableCompression (threshold : Nat)

/-- One step of the loop; a call that has ended is followed by another one. -/
inductive Step : State F K → Event → State F K → Prop
  | packet {d d' : Decoder F K} {packet : Bytes} (h : d.decode = (d', .ok (some packet))) :
      Step ⟨d, .decode⟩ (.packet packet) ⟨d', .decode⟩
  | failed {d d' : Decoder F K} {e : ProtocolError} (h : d.decode = (d', .error e)) :
      Step ⟨d, .decode⟩ (.failed e) ⟨d', .decode⟩
  | waiting {d d' : Decoder F K} (h : d.decode = (d', .ok none)) :
      Step ⟨d, .decode⟩ .waiting ⟨d', .read⟩
  | read {d : Decoder F K} {chunk : Bytes} (hpos : 0 < chunk.length)
      (hle : chunk.length ≤ readBuffer) :
      Step ⟨d, .read⟩ (.read chunk) ⟨d.feed chunk, .decode⟩
  | stopped {d : Decoder F K} : Step ⟨d, .read⟩ .stopped ⟨d, .decode⟩
  | enableCompression {d : Decoder F K} {threshold : Nat} :
      Step ⟨d, .decode⟩ (.enableCompression threshold) ⟨d.enableCompression threshold, .decode⟩

/-- What may be buffered where. -/
structure Bounded (s : State F K) : Prop where
  maxFrame : s.decoder.maxFrame = maxFrameLen
  length : s.decoder.buffer.length < maxFrameLen + 5 + readBuffer
  length_read : s.point = .read → s.decoder.buffer.length < maxFrameLen + 5

theorem Bounded.new : Bounded (State.new : State F K) where
  maxFrame := rfl
  length := show 0 < maxFrameLen + 5 + readBuffer by decide
  length_read := by intro h; cases h

theorem Bounded.step {s s' : State F K} {event : Event} (hs : Bounded s) (h : Step s event s') :
    Bounded s' := by
  obtain ⟨hmax, hlength, hread⟩ := hs
  have hbytes : maxVarintBytes = 5 := rfl
  cases h with
  | @packet d d' packet h =>
      have hless := d.length_buffer_decode
      have hsame := d.maxFrame_decode
      rw [h] at hless hsame
      exact ⟨hsame.trans hmax, hless.trans_lt hlength, by intro h; cases h⟩
  | @failed d d' e h =>
      have hless := d.length_buffer_decode
      have hsame := d.maxFrame_decode
      rw [h] at hless hsame
      exact ⟨hsame.trans hmax, hless.trans_lt hlength, by intro h; cases h⟩
  | @waiting d d' h =>
      have hshort := Decoder.length_buffer_waiting h
      dsimp only at hmax
      rw [hmax] at hshort
      rw [Decoder.decode_none h]
      exact ⟨hmax, hlength, fun _ => hshort⟩
  | @read d chunk _ hle =>
      have hshort := hread rfl
      refine ⟨hmax, ?_, by intro h; cases h⟩
      dsimp only at hshort ⊢
      rw [Decoder.length_buffer_feed]
      omega
  | stopped => exact ⟨hmax, hlength, by intro h; cases h⟩
  | enableCompression => exact ⟨hmax, hlength, by intro h; cases h⟩

/-- The packets that calls have returned. -/
def returned : List Event → List Bytes :=
  List.filterMap fun event => match event with
    | .packet packet => some packet
    | _ => none

/-- Against any peer the decoder buffers little more than one frame of the largest size, and
no packet is longer than that. -/
theorem buffering_bounded {events : List Event} {s : State F K}
    (hrun : Run Step State.new events s) :
    s.decoder.buffer.length < maxFrameLen + 5 + readBuffer ∧
    (s.point = .read → s.decoder.buffer.length < maxFrameLen + 5) ∧
    ∀ packet ∈ returned events, packet.length ≤ maxFrameLen := by
  obtain ⟨hbounded, hpackets⟩ := hrun.invariant_labels
    (I := fun events s => Bounded s ∧ ∀ packet ∈ returned events, packet.length ≤ maxFrameLen)
    ⟨Bounded.new, by intro packet h; cases h⟩ (by
      rintro done a event b ⟨ha, hdone⟩ hstep
      refine ⟨ha.step hstep, ?_⟩
      intro packet hpacket
      rw [returned, List.filterMap_append, List.mem_append] at hpacket
      rcases hpacket with hpacket | hpacket
      · exact hdone packet hpacket
      · cases hstep with
        | @packet d d' last h =>
            rw [List.mem_singleton.mp hpacket, ← ha.maxFrame]
            exact Decoder.length_decode (by rw [h])
        | failed | waiting | read | stopped | enableCompression => cases hpacket)
  exact ⟨hbounded.length, hbounded.length_read, hpackets⟩

/-- A packet whose length prefix has two redundant continuation bytes. -/
theorem buffering_bounded_redundant :
    ∃ s : State (Flate2.storing [] []) (keyStream []),
      Run Step State.new [.waiting, .read [0x81, 0x80, 0x00, 7], .packet [7], .waiting] s ∧
      s.decoder.buffer.length < maxFrameLen + 5 + readBuffer ∧
      (s.point = .read → s.decoder.buffer.length < maxFrameLen + 5) ∧
      ∀ packet ∈ returned [.waiting, .read [0x81, 0x80, 0x00, 7], .packet [7], .waiting],
        packet.length ≤ maxFrameLen := by
  let d : Decoder (Flate2.storing [] []) (keyStream []) := Decoder.new
  have hasks : Step ⟨d, .decode⟩ .waiting ⟨d, .read⟩ := .waiting rfl
  have hpacket : Step ⟨d.feed [0x81, 0x80, 0x00, 7], .decode⟩ (.packet [7]) ⟨d, .decode⟩ :=
    .packet rfl
  have hrun : Run Step State.new
      [.waiting, .read [0x81, 0x80, 0x00, 7], .packet [7], .waiting] ⟨d, .read⟩ :=
    ((((Run.nil (s := State.new)).snoc hasks).snoc
      (.read (by decide) (by decide))).snoc hpacket).snoc hasks
  exact ⟨_, hrun, buffering_bounded hrun⟩

end ReadPacket

end Rukkit.Server
