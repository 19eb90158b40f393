import Rukkit.Protocol.FrameStream
import Rukkit.Server.Config

/-!
# The size limits of encoder and decoder

For which packets and settings the decoder takes everything the encoder accepts.
-/

namespace Rukkit.Server

open Rukkit.Protocol

variable {F : Flate2} {K : Cfb8} {compression : Option Nat} {packet : Bytes}

/-- A fresh decoder. -/
def freshDecoder (F : Flate2) (K : Cfb8) (compression : Option Nat) : Decoder F K :=
  match compression with
  | none => Decoder.new
  | some threshold => Decoder.new.enableCompression threshold

/-- Whatever an encoder accepts, a fresh decoder with the same setting reads back. -/
def LimitsAgree (F : Flate2) (K : Cfb8) (compression : Option Nat) (packet : Bytes) : Prop :=
  ∀ e e' : Encoder F K, ∀ out wire, e.compression = compression → e.encryptor = none →
    e.maxFrame = maxFrameLen → e.encode packet out = some (e', out ++ wire, .ok ()) →
    ((freshDecoder F K compression).feed wire).decode.2 = .ok (some packet)

theorem freshDecoder_compression : (freshDecoder F K compression).compression = compression := by
  cases compression <;> rfl

theorem freshDecoder_maxFrame : (freshDecoder F K compression).maxFrame = maxFrameLen := by
  cases compression <;> rfl

theorem buffer_feed_freshDecoder (wire : Bytes) :
    ((freshDecoder F K compression).feed wire).buffer = wire := by
  cases compression <;> rfl

theorem maxFrame_feed (d : Decoder F K) (wire : Bytes) : (d.feed wire).maxFrame = d.maxFrame := rfl

theorem compression_feed (d : Decoder F K) (wire : Bytes) :
    (d.feed wire).compression = d.compression := rfl

/-- The decoder refuses a frame that claims more than the cap. -/
theorem decode_too_large {d : Decoder F K} {n : Nat} {rest : Bytes}
    (hmax : d.maxFrame = maxFrameLen) (hlarge : maxFrameLen < n) (hn : n < 2 ^ 31)
    (hbuffer : d.buffer = writeVarint (asI32 n) ++ rest) :
    d.decode = (d, .error (.frameTooLarge n maxFrameLen)) := by
  rw [Decoder.decode, hbuffer, readVarint_writeVarint]
  simp only [if_neg (not_asI32_neg hn), toNatClampNeg_asI32 hn, hmax, if_pos hlarge]

section Agree

variable {deflated : Bytes → Bytes} {Deflating : F.Compress → Bytes → Bytes → Prop}
  (hF : F.Inflates deflated Deflating)

include hF

theorem limitsAgree_of_within (hne : packet ≠ []) (hlimits : WithinLimits compression packet) :
    LimitsAgree F K compression packet := by
  intro e e' out wire hcompression hencryptor hmax hencode
  subst hcompression
  cases hframe : frameOf deflated e.compression packet with
  | error err =>
      obtain ⟨compressor, scratch, heq⟩ := e.encode_refused hF hmax hframe out
      rw [hencode] at heq
      simp at heq
  | ok frame =>
      obtain ⟨compressor, scratch, heq⟩ := e.encode_ok hF hmax hframe out
      rw [hencode, hencryptor] at heq
      simp only [Option.some.injEq, Prod.mk.injEq, and_true, List.append_cancel_left_eq] at heq
      have hwire : wire = frame := heq.2
      have hframes : Frames F K ((freshDecoder F K e.compression).feed wire).compression packet
          frame := by
        rw [compression_feed, freshDecoder_compression]
        exact frameOf_frames hF hne hlimits hframe
      have hbuffer : ((freshDecoder F K e.compression).feed wire).buffer = frame ++ [] := by
        rw [buffer_feed_freshDecoder, List.append_nil, hwire]
      obtain ⟨decompressor, hdecode⟩ :=
        hframes.decode (by rw [maxFrame_feed, freshDecoder_maxFrame]) hbuffer
      rw [hdecode]

/-- Below the threshold the encoder checks nothing, and a packet over the cap makes a
frame the decoder refuses. -/
theorem refused_below_threshold {threshold : Nat} (hshort : packet.length < threshold)
    (hthreshold : threshold < 2 ^ 31) (hlarge : maxFrameLen < 1 + packet.length) :
    ∃ encoder wire,
      ((Encoder.new : Encoder F K).enableCompression threshold).encode packet [] =
        some (encoder, wire, .ok ()) ∧
      ((freshDecoder F K (some threshold)).feed wire).decode.2 =
        .error (.frameTooLarge (1 + packet.length) maxFrameLen) := by
  have hframe : frameOf deflated (some threshold) packet =
      .ok (writeVarint (asI32 (1 + packet.length)) ++ writeVarint 0 ++ packet) := by
    rw [frameOf, if_pos hshort]
  obtain ⟨compressor, scratch, hencode⟩ :=
    ((Encoder.new : Encoder F K).enableCompression threshold).encode_ok hF rfl hframe []
  refine ⟨_, _, hencode, ?_⟩
  rw [decode_too_large rfl hlarge (by omega)]
  rw [buffer_feed_freshDecoder]
  exact List.append_assoc _ _ _

end Agree

/-- A packet over the cap that deflates to nothing much is framed and then refused. -/
theorem not_limitsAgree_above_threshold {threshold : Nat} (hlong : threshold ≤ packet.length)
    (hlarge : maxFrameLen < packet.length) :
    ¬ LimitsAgree (Flate2.storing packet []) K (some threshold) packet := by
  intro hagree
  have hF := Flate2.storing_inflates packet [] (by simp)
  have hheader := length_writeVarint_le (asI32 packet.length)
  rw [length_writeVarint] at hheader
  have hframe : frameOf (fun data => if data = packet then [] else 0 :: data) (some threshold)
      packet = .ok (writeVarint (asI32 (varintLen (asI32 packet.length) + 0)) ++
        writeVarint (asI32 packet.length) ++ []) := by
    rw [frameOf, if_neg (by omega)]
    simp only [if_true, List.length_nil]
    rw [if_neg]
    unfold maxFrameLen
    unfold maxVarintBytes at hheader
    omega
  obtain ⟨compressor, scratch, hencode⟩ :=
    ((Encoder.new : Encoder (Flate2.storing packet []) K).enableCompression threshold).encode_ok hF
      rfl hframe []
  have hlength := Decoder.length_decode (hagree _ _ [] _ rfl rfl rfl hencode)
  rw [maxFrame_feed, freshDecoder_maxFrame] at hlength
  omega

/-- Encoder and decoder agree on a packet, whatever the zlib library makes of it, exactly
when the packet is within the limits that only the decoder checks. -/
theorem limits_agree_iff (config : ServerConfig) (hne : packet ≠ []) :
    (∀ (F : Flate2) (K : Cfb8) (deflated : Bytes → Bytes)
      (Deflating : F.Compress → Bytes → Bytes → Prop), F.Inflates deflated Deflating →
      LimitsAgree F K config.compression packet) ↔
    WithinLimits config.compression packet := by
  constructor
  · intro hagree threshold hthreshold
    rw [hthreshold] at hagree
    split
    · rename_i hshort
      by_contra hlarge
      have hF := Flate2.storing_inflates packet [] (by simp)
      obtain ⟨encoder, wire, hencode, hdecode⟩ := refused_below_threshold (K := keyStream []) hF
        hshort (ServerConfig.compression_lt hthreshold) (Nat.lt_of_not_le hlarge)
      rw [hagree _ _ _ _ hF _ _ [] wire rfl rfl rfl hencode] at hdecode
      simp at hdecode
    · rename_i hlong
      by_contra hlarge
      exact not_limitsAgree_above_threshold (K := keyStream []) (Nat.le_of_not_lt hlong)
        (Nat.lt_of_not_le hlarge) (hagree _ _ _ _ (Flate2.storing_inflates packet [] (by simp)))
  · intro hlimits F K deflated Deflating hF
    exact limitsAgree_of_within hF hne hlimits

theorem limits_agree_default :
    WithinLimits ServerConfig.default.compression (List.replicate 300 7) ∧
    ∀ (F : Flate2) (K : Cfb8) (deflated : Bytes → Bytes)
      (Deflating : F.Compress → Bytes → Bytes → Prop), F.Inflates deflated Deflating →
      LimitsAgree F K ServerConfig.default.compression (List.replicate 300 7) := by
  obtain ⟨packet, hpacket, hlength⟩ : ∃ packet : Bytes,
      packet = List.replicate 300 7 ∧ packet.length = 300 := ⟨_, rfl, List.length_replicate⟩
  have hfits : 1 + packet.length ≤ maxFrameLen := by
    rw [hlength]
    decide
  rw [← hpacket]
  exact ⟨withinLimits_of_le hfits, (limits_agree_iff ServerConfig.default
    (List.ne_nil_of_length_pos (by omega))).mpr (withinLimits_of_le hfits)⟩

/-- With a threshold of three million, two and a half million bytes are framed, and the
decoder refuses the frame. -/
theorem limits_disagree_large_threshold :
    ¬ ∀ (F : Flate2) (K : Cfb8) (deflated : Bytes → Bytes)
      (Deflating : F.Compress → Bytes → Bytes → Prop), F.Inflates deflated Deflating →
      LimitsAgree F K
        { ServerConfig.default with compressionThreshold := 3000000 }.compression
        (List.replicate 2500000 7) := by
  intro hagree
  have hlength : (List.replicate 2500000 (7 : UInt8)).length = 2500000 := List.length_replicate
  have hsetting : { ServerConfig.default with compressionThreshold := 3000000 }.compression =
      some 3000000 := by decide
  have hF := Flate2.storing_inflates [] [] (by simp)
  have hshort : (List.replicate 2500000 (7 : UInt8)).length < 3000000 := by
    rw [hlength]
    decide
  obtain ⟨encoder, wire, hencode, hdecode⟩ := refused_below_threshold (K := keyStream []) hF
    hshort (by decide) (by rw [hlength]; decide)
  have hread := hagree _ (keyStream []) _ _ hF
  rw [hsetting] at hread
  rw [hread _ _ [] wire rfl rfl rfl hencode] at hdecode
  cases hdecode

end Rukkit.Server
