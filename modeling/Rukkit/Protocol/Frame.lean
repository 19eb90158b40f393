import Rukkit.Protocol.Codec

/-!
# One frame through the codec

What the encoder writes for a packet as a function of the packet, and what the
decoder makes of a frame, whole or cut short.
-/

namespace Rukkit.Protocol

variable {F : Flate2} {K : Cfb8} {compression : Option Nat} {packet frame : Bytes}

theorem maxFrameLen_lt : maxFrameLen < 2 ^ 31 := by decide

/-- What the decoder demands of a packet and the encoder does not check. -/
def WithinLimits (compression : Option Nat) (packet : Bytes) : Prop :=
  ∀ threshold, compression = some threshold →
    if packet.length < threshold then 1 + packet.length ≤ maxFrameLen
    else packet.length ≤ maxFrameLen

theorem withinLimits_of_le (h : 1 + packet.length ≤ maxFrameLen) :
    WithinLimits compression packet := by
  intro threshold _
  split <;> omega

/-- The frame of a packet before encryption, `deflated` giving the zlib streams. -/
def frameOf (deflated : Bytes → Bytes) (compression : Option Nat) (packet : Bytes) :
    Except ProtocolError Bytes :=
  match compression with
  | none =>
      if maxFrameLen < packet.length then .error (.frameTooLarge packet.length maxFrameLen)
      else .ok (writeVarint (asI32 packet.length) ++ packet)
  | some threshold =>
      if packet.length < threshold then
        .ok (writeVarint (asI32 (1 + packet.length)) ++ writeVarint 0 ++ packet)
      else
        let frameLen := varintLen (asI32 packet.length) + (deflated packet).length
        if maxFrameLen < frameLen then .error (.frameTooLarge frameLen maxFrameLen)
        else
          .ok (writeVarint (asI32 frameLen) ++ writeVarint (asI32 packet.length) ++
            deflated packet)

/-- `frame` is one frame, whose body a decoder with this setting takes for `packet`. -/
def Frames (F : Flate2) (K : Cfb8) (compression : Option Nat) (packet frame : Bytes) : Prop :=
  ∃ body : Bytes, frame = writeVarint (asI32 body.length) ++ body ∧ body.length ≤ maxFrameLen ∧
    ∀ d : Decoder F K, d.compression = compression → d.maxFrame = maxFrameLen →
      ∃ decompressor, d.unpack body = ({ d with decompressor := decompressor }, .ok (some packet))

/-! ## Decoding -/

namespace Decoder

variable {d : Decoder F K} {body rest : Bytes}

theorem decode_whole (hmax : d.maxFrame = maxFrameLen) (hbody : body.length ≤ maxFrameLen)
    (hbuffer : d.buffer = writeVarint (asI32 body.length) ++ body ++ rest) :
    d.decode = unpack { d with buffer := rest } body := by
  have hlt : body.length < 2 ^ 31 := hbody.trans_lt maxFrameLen_lt
  have hread : readVarint d.buffer =
      .ok (asI32 body.length, (writeVarint (asI32 body.length)).length) := by
    rw [hbuffer, List.append_assoc]
    exact readVarint_writeVarint _ _
  have hlength : ¬ d.buffer.length <
      (writeVarint (asI32 body.length)).length + body.length := by
    rw [hbuffer, List.length_append, List.length_append]
    omega
  have hdrop : d.buffer.drop (writeVarint (asI32 body.length)).length = body ++ rest := by
    rw [hbuffer, List.append_assoc, List.drop_left]
  rw [decode, hread]
  simp only [if_neg (not_asI32_neg hlt), toNatClampNeg_asI32 hlt, hmax,
    if_neg (Nat.not_lt.mpr hbody), if_neg hlength, hdrop, List.drop_left, List.take_left]

theorem decode_cut (hmax : d.maxFrame = maxFrameLen) (hbody : body.length ≤ maxFrameLen)
    (hbuffer : writeVarint (asI32 body.length) ++ body = d.buffer ++ rest) (hrest : rest ≠ []) :
    d.decode = (d, .ok none) := by
  have hlt : body.length < 2 ^ 31 := hbody.trans_lt maxFrameLen_lt
  have hheader : writeVarint (asI32 body.length) <+: d.buffer ++ rest := ⟨body, hbuffer⟩
  have hread : d.buffer <+: d.buffer ++ rest := List.prefix_append _ _
  have hpos := List.length_pos_iff.mpr hrest
  have htotal := congrArg List.length hbuffer
  rw [List.length_append, List.length_append] at htotal
  rcases Nat.lt_or_ge d.buffer.length (writeVarint (asI32 body.length)).length with hcut | hcut
  · obtain ⟨tail, htail⟩ := List.prefix_of_prefix_length_le hread hheader (Nat.le_of_lt hcut)
    have hne : tail ≠ [] := by
      rintro rfl
      rw [← htail, List.append_nil] at hcut
      exact Nat.lt_irrefl _ hcut
    rw [decode, readVarint_prefix htail.symm hne]
  · obtain ⟨tail, htail⟩ := List.prefix_of_prefix_length_le hheader hread hcut
    have hvalue : readVarint d.buffer =
        .ok (asI32 body.length, (writeVarint (asI32 body.length)).length) := by
      rw [← htail]
      exact readVarint_writeVarint _ _
    rw [decode, hvalue]
    simp only [if_neg (not_asI32_neg hlt), toNatClampNeg_asI32 hlt, hmax,
      if_neg (Nat.not_lt.mpr hbody)]
    rw [if_pos (by omega)]

theorem length_decompressExact {decompressor : F.Decompress} {input bytes : Bytes} {expected : Nat}
    (h : (decompressExact F decompressor input expected).2 = .ok bytes) :
    bytes.length = expected :=
  decompressExact_length (Prod.ext rfl h)

/-- A decoder never hands back a packet longer than the cap. -/
theorem length_unpack (hframe : frame.length ≤ d.maxFrame)
    (h : (d.unpack frame).2 = .ok (some packet)) : packet.length ≤ d.maxFrame := by
  unfold unpack at h
  split at h
  · simp only [Except.ok.injEq, Option.some.injEq] at h
    rwa [← h]
  · split at h
    · simp at h
    · split at h
      · simp only [Except.ok.injEq, Option.some.injEq] at h
        rw [← h, List.length_drop]
        omega
      · split at h
        · simp at h
        · dsimp only at h
          split at h
          · simp at h
          · split at h
            · simp at h
            · rename_i hdata
              generalize hresult : (decompressExact F _ _ _).2 = result at h
              cases result with
              | error e => simp [Except.map] at h
              | ok bytes =>
                  simp only [Except.map, Except.ok.injEq, Option.some.injEq] at h
                  rw [← h, length_decompressExact hresult]
                  omega

theorem length_decode (h : d.decode.2 = .ok (some packet)) : packet.length ≤ d.maxFrame := by
  unfold decode at h
  split at h
  · simp at h
  · simp at h
  · split at h
    · simp at h
    · dsimp only at h
      split at h
      · simp at h
      · split at h
        · simp at h
        · rename_i hframe _
          apply length_unpack (d := { d with buffer := _ }) _ h
          rw [List.length_take]
          change _ ≤ d.maxFrame
          omega

end Decoder

namespace Frames

variable {d : Decoder F K} {rest : Bytes}

theorem decode (hframes : Frames F K d.compression packet frame)
    (hmax : d.maxFrame = maxFrameLen) (hbuffer : d.buffer = frame ++ rest) :
    ∃ decompressor, d.decode =
      ({ d with buffer := rest, decompressor := decompressor }, .ok (some packet)) := by
  obtain ⟨body, rfl, hbody, hunpack⟩ := hframes
  rw [Decoder.decode_whole hmax hbody hbuffer]
  exact hunpack { d with buffer := rest } rfl hmax

theorem decode_cut (hframes : Frames F K compression packet frame)
    (hmax : d.maxFrame = maxFrameLen) (hbuffer : frame = d.buffer ++ rest) (hrest : rest ≠ []) :
    d.decode = (d, .ok none) := by
  obtain ⟨body, rfl, hbody, -⟩ := hframes
  exact Decoder.decode_cut hmax hbody hbuffer hrest

/-- Of a stream that starts with a frame the decoder asks for more until it holds all of the
frame, and then hands out its packet and keeps what follows. -/
theorem decode_stream {later : Bytes} (hframes : Frames F K d.compression packet frame)
    (hmax : d.maxFrame = maxFrameLen) (hstream : d.buffer ++ later = frame ++ rest) :
    (d.buffer.length < frame.length ∧ d.decode = (d, .ok none)) ∨
    ∃ buffer decompressor, buffer ++ later = rest ∧ d.decode =
      ({ d with buffer := buffer, decompressor := decompressor }, .ok (some packet)) := by
  have hframe : frame <+: d.buffer ++ later := ⟨_, hstream.symm⟩
  have hheld : d.buffer <+: d.buffer ++ later := List.prefix_append _ _
  rcases Nat.lt_or_ge d.buffer.length frame.length with hshort | hlong
  · left
    have hprefix := List.prefix_of_prefix_length_le hheld hframe (Nat.le_of_lt hshort)
    obtain ⟨tail, htail⟩ := hprefix
    have hne : tail ≠ [] := by
      rintro rfl
      rw [← htail, List.append_nil] at hshort
      exact Nat.lt_irrefl _ hshort
    exact ⟨hshort, hframes.decode_cut hmax htail.symm hne⟩
  · right
    obtain ⟨tail, htail⟩ := List.prefix_of_prefix_length_le hframe hheld hlong
    obtain ⟨decompressor, hdecode⟩ := hframes.decode hmax htail.symm
    rw [← htail, List.append_assoc] at hstream
    exact ⟨tail, decompressor, List.append_cancel_left hstream, hdecode⟩

theorem length_pos (hframes : Frames F K compression packet frame) : 0 < frame.length := by
  obtain ⟨body, rfl, -, -⟩ := hframes
  have := length_writeVarint_pos (asI32 body.length)
  rw [List.length_append]
  omega

end Frames

/-! ## Encoding -/

section Encoding

variable {deflated : Bytes → Bytes} {Deflating : F.Compress → Bytes → Bytes → Prop}
  (hF : F.Inflates deflated Deflating)

include hF

theorem Encoder.frame_eq (e : Encoder F K) (hmax : e.maxFrame = maxFrameLen) (packet : Bytes) :
    ∃ compressor scratch, e.frame packet =
      some ({ e with compressor := compressor, scratch := scratch },
        frameOf deflated e.compression packet) := by
  obtain ⟨compression, encryptor, compressor, scratch, maxFrame⟩ := e
  change maxFrame = maxFrameLen at hmax
  subst hmax
  cases compression with
  | none =>
      refine ⟨compressor, scratch, ?_⟩
      simp only [frame, frameOf]
      split <;> rfl
  | some threshold =>
      by_cases hshort : packet.length < threshold
      · refine ⟨compressor, scratch, ?_⟩
        simp only [frame, frameOf, if_pos hshort]
      · obtain ⟨compressor', scratch', hcompress, hscratch⟩ :=
          compressInto_eq hF compressor packet scratch
        refine ⟨compressor', scratch', ?_⟩
        simp only [frame, frameOf, if_neg hshort, hcompress, Option.map_some, hscratch]
        split <;> rfl

theorem Encoder.encode_ok (e : Encoder F K) (hmax : e.maxFrame = maxFrameLen) {packet frame : Bytes}
    (hframe : frameOf deflated e.compression packet = .ok frame) (out : Bytes) :
    ∃ compressor scratch, e.encode packet out = some
      ({ e with
        compressor := compressor
        scratch := scratch
        encryptor := (encipher e.encryptor frame).1 },
        out ++ (encipher e.encryptor frame).2, .ok ()) := by
  obtain ⟨compressor, scratch, heq⟩ := e.frame_eq hF hmax packet
  exact ⟨compressor, scratch, by rw [encode, heq, hframe]; rfl⟩

theorem Encoder.encode_refused (e : Encoder F K) (hmax : e.maxFrame = maxFrameLen)
    {packet : Bytes} {err : ProtocolError}
    (hframe : frameOf deflated e.compression packet = .error err) (out : Bytes) :
    ∃ compressor scratch, e.encode packet out = some
      ({ e with compressor := compressor, scratch := scratch }, out, .error err) := by
  obtain ⟨compressor, scratch, heq⟩ := e.frame_eq hF hmax packet
  exact ⟨compressor, scratch, by rw [encode, heq, hframe]; rfl⟩

/-- Within the limits the decoder reads the encoder's frame as the packet. -/
theorem frameOf_frames (hne : packet ≠ []) (hlimits : WithinLimits compression packet)
    (hframe : frameOf deflated compression packet = .ok frame) :
    Frames F K compression packet frame := by
  have hpos := List.length_pos_iff.mpr hne
  unfold frameOf at hframe
  split at hframe
  · split at hframe
    · simp at hframe
    · refine ⟨packet, (Except.ok.inj hframe).symm, by omega, ?_⟩
      rintro ⟨buffer, compression, decryptor, decompressor, maxFrame⟩ rfl _
      exact ⟨decompressor, rfl⟩
  · rename_i threshold
    have hlimit := hlimits threshold rfl
    split at hframe
    · rename_i hshort
      rw [if_pos hshort] at hlimit
      have hlength : (writeVarint 0 ++ packet).length = 1 + packet.length := by
        rw [List.length_append]
        rfl
      refine ⟨writeVarint 0 ++ packet, ?_, by rwa [hlength], ?_⟩
      · rw [hlength, ← List.append_assoc]
        exact (Except.ok.inj hframe).symm
      · rintro ⟨buffer, compression, decryptor, decompressor, maxFrame⟩ rfl _
        refine ⟨decompressor, ?_⟩
        simp only [Decoder.unpack, readVarint_writeVarint, if_true, List.drop_left]
    · rename_i hlong
      rw [if_neg hlong] at hlimit
      have hlt : packet.length < 2 ^ 31 := hlimit.trans_lt maxFrameLen_lt
      dsimp only at hframe
      split at hframe
      · simp at hframe
      · rename_i hfits
        have hlength : (writeVarint (asI32 packet.length) ++ deflated packet).length =
            varintLen (asI32 packet.length) + (deflated packet).length := by
          rw [List.length_append, length_writeVarint]
        refine ⟨writeVarint (asI32 packet.length) ++ deflated packet, ?_, ?_, ?_⟩
        · rw [hlength, ← List.append_assoc]
          exact (Except.ok.inj hframe).symm
        · rw [hlength]
          omega
        · rintro ⟨buffer, compression, decryptor, decompressor, maxFrame⟩ rfl rfl
          obtain ⟨decompressor', hinflate⟩ := decompressExact_eq hF decompressor packet
          refine ⟨decompressor', ?_⟩
          simp only [Decoder.unpack, readVarint_writeVarint,
            if_neg (asI32_ne_zero hlt hpos.ne'), if_neg (not_asI32_neg hlt),
            toNatClampNeg_asI32 hlt, if_neg hlong, if_neg (Nat.not_lt.mpr hlimit),
            List.drop_left, hinflate]
          rfl

end Encoding

end Rukkit.Protocol
