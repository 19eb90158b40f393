import Rukkit.Protocol.FrameStream

/-!
# One direction of a connection

Packets between an encoder and a decoder, each with the compression setting it was framed
under.  The decoder may be switched at any moment; it reads the first packet on its way
whenever its setting is then the packet's own.
-/

namespace Rukkit.Protocol

variable {F : Flate2} {K : Cfb8}

/-- A packet on its way. -/
structure Framed where
  compression : Option Nat
  packet : Bytes

/-- What the decoder holds, what is on the wire and what a failed write has cut off the last
frame make up the frames of the packets on their way. -/
structure Piped (d : Decoder F K) (wire lost : Bytes) (queue : List Framed) : Prop where
  maxFrame : d.maxFrame = maxFrameLen
  decryptor : d.decryptor = none
  frames : ∃ frames : List Bytes,
    List.Forall₂ (fun x frame => Frames F K x.compression x.packet frame) queue frames ∧
    d.buffer ++ wire ++ lost = frames.flatten

namespace Piped

variable {d : Decoder F K} {wire lost : Bytes} {queue : List Framed}

theorem new : Piped (Decoder.new : Decoder F K) [] [] [] where
  maxFrame := rfl
  decryptor := rfl
  frames := ⟨[], .nil, rfl⟩

theorem write (h : Piped d wire [] queue) {x : Framed} {written lost : Bytes}
    (hframe : Frames F K x.compression x.packet (written ++ lost)) :
    Piped d (wire ++ written) lost (queue ++ [x]) where
  maxFrame := h.maxFrame
  decryptor := h.decryptor
  frames := by
    obtain ⟨frames, hqueue, hbytes⟩ := h.frames
    refine ⟨frames ++ [written ++ lost], ?_, ?_⟩
    · exact List.rel_append hqueue (.cons hframe .nil)
    · rw [List.append_nil] at hbytes
      rw [List.flatten_append, ← hbytes, List.flatten_singleton]
      simp only [List.append_assoc]

theorem write_whole (h : Piped d wire [] queue) {x : Framed} {frame : Bytes}
    (hframe : Frames F K x.compression x.packet frame) :
    Piped d (wire ++ frame) [] (queue ++ [x]) := by
  apply h.write
  rwa [List.append_nil]

theorem feed {chunk : Bytes} (h : Piped d (chunk ++ wire) lost queue) :
    Piped (d.feed chunk) wire lost queue := by
  have hfeed : d.feed chunk = { d with buffer := d.buffer ++ chunk } := by
    obtain ⟨buffer, compression, decryptor, decompressor, maxFrame⟩ := d
    have hdecryptor : decryptor = none := h.decryptor
    subst hdecryptor
    rfl
  rw [hfeed]
  refine ⟨h.maxFrame, h.decryptor, ?_⟩
  obtain ⟨frames, hqueue, hbytes⟩ := h.frames
  refine ⟨frames, hqueue, ?_⟩
  rw [← hbytes]
  simp only [List.append_assoc]

theorem enableCompression (h : Piped d wire lost queue) (threshold : Nat) :
    Piped (d.enableCompression threshold) wire lost queue :=
  ⟨h.maxFrame, h.decryptor, h.frames⟩

/-- The decoder asks for more, which it does not once everything has arrived, or it hands
out the first packet on its way. -/
theorem decode (h : Piped d wire lost queue)
    (hhead : ∀ x ∈ queue.head?, x.compression = d.compression) :
    (d.decode = (d, .ok none) ∧ (wire = [] → lost = [] → queue = [])) ∨
    ∃ x rest d', queue = x :: rest ∧ d.decode = (d', .ok (some x.packet)) ∧
      d'.compression = d.compression ∧ Piped d' wire lost rest := by
  obtain ⟨frames, hqueue, hbytes⟩ := h.frames
  cases hqueue with
  | nil =>
      left
      rw [List.flatten_nil, List.append_assoc] at hbytes
      have hempty := (List.append_eq_nil_iff.mp hbytes).1
      refine ⟨?_, fun _ _ => rfl⟩
      rw [Decoder.decode, hempty]
      rfl
  | @cons x frame rest frames hframe hrest =>
      rw [List.flatten_cons, List.append_assoc] at hbytes
      rw [hhead x rfl] at hframe
      rcases hframe.decode_stream h.maxFrame hbytes with
        ⟨hshort, hdecode⟩ | ⟨tail, decompressor, htail, hdecode⟩
      · refine .inl ⟨hdecode, ?_⟩
        rintro rfl rfl
        have hlength := congrArg List.length hbytes
        simp only [List.append_nil, List.length_append] at hlength
        omega
      · refine .inr ⟨x, rest, _, rfl, hdecode, rfl, h.maxFrame, h.decryptor, frames, hrest, ?_⟩
        rw [List.append_assoc]
        exact htail

end Piped

/-! ## Its encoder -/

/-- No cipher, and the given compression setting. -/
structure Encoder.Plain (e : Encoder F K) (setting : Option Nat) : Prop where
  maxFrame : e.maxFrame = maxFrameLen
  encryptor : e.encryptor = none
  compression : e.compression = setting

namespace Encoder.Plain

variable {e e' : Encoder F K} {setting : Option Nat} {packet frame out : Bytes}

theorem new : (Encoder.new : Encoder F K).Plain none := ⟨rfl, rfl, rfl⟩

theorem enableCompression (h : e.Plain setting) (threshold : Nat) :
    (e.enableCompression threshold).Plain (some threshold) :=
  ⟨h.maxFrame, h.encryptor, rfl⟩

section Encode

variable {deflated : Bytes → Bytes} {Deflating : F.Compress → Bytes → Bytes → Prop}
  (hF : F.Inflates deflated Deflating)

include hF

/-- An encode that succeeds writes a frame of the packet. -/
theorem encode_ok (h : e.Plain setting) (hne : packet ≠ []) (hlimits : WithinLimits setting packet)
    (hencode : e.encode packet [] = some (e', frame, .ok ())) :
    Frames F K setting packet frame ∧ e'.Plain setting := by
  obtain ⟨hmax, hencryptor, rfl⟩ := h
  cases hframe : frameOf deflated e.compression packet with
  | error err =>
      obtain ⟨compressor, scratch, heq⟩ := e.encode_refused hF hmax hframe []
      rw [hencode] at heq
      simp at heq
  | ok bytes =>
      obtain ⟨compressor, scratch, heq⟩ := e.encode_ok hF hmax hframe []
      rw [hencode, hencryptor] at heq
      obtain ⟨rfl, hout⟩ := Prod.mk.inj (Option.some.inj heq)
      rw [(Prod.mk.inj hout).1]
      exact ⟨frameOf_frames hF hne hlimits hframe, hmax, rfl, rfl⟩

/-- One that fails leaves the encoder as good as before. -/
theorem encode_error {err : ProtocolError} (h : e.Plain setting)
    (hencode : e.encode packet [] = some (e', out, .error err)) : e'.Plain setting := by
  obtain ⟨hmax, hencryptor, rfl⟩ := h
  cases hframe : frameOf deflated e.compression packet with
  | error err' =>
      obtain ⟨compressor, scratch, heq⟩ := e.encode_refused hF hmax hframe []
      rw [hencode] at heq
      obtain ⟨rfl, -⟩ := Prod.mk.inj (Option.some.inj heq)
      exact ⟨hmax, hencryptor, rfl⟩
  | ok bytes =>
      obtain ⟨compressor, scratch, heq⟩ := e.encode_ok hF hmax hframe []
      rw [hencode] at heq
      simp at heq

end Encode

end Encoder.Plain

end Rukkit.Protocol
