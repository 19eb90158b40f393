import Rukkit.Lib.Runs
import Rukkit.Protocol.Frame

/-!
# Streams of frames

A one-way link from an encoder to a decoder: packets are framed onto the wire, the
bytes on the wire are fed to the decoder in chunks cut anywhere, and both ends switch
compression or encryption on while nothing is on the wire.  Whatever was accepted at
one end comes out at the other, in order and once.
-/

namespace Rukkit.Protocol

open Rukkit.Lib

variable {F : Flate2} {K : Cfb8}

/-! ## Draining a decoder -/

namespace Decoder

/-- Unpacking a frame touches the decompressor alone. -/
theorem unpack_fst (d : Decoder F K) (frame : Bytes) :
    (d.unpack frame).1 = { d with decompressor := (d.unpack frame).1.decompressor } := by
  unfold unpack
  split
  · rfl
  · split
    · rfl
    · split
      · rfl
      · split
        · rfl
        · dsimp only
          split
          · rfl
          · split <;> rfl

/-- A decode touches the buffer and the decompressor alone. -/
theorem decode_fst (d : Decoder F K) :
    d.decode.1 = { d with
      buffer := d.decode.1.buffer
      decompressor := d.decode.1.decompressor } := by
  unfold decode
  split
  · rfl
  · rfl
  · split
    · rfl
    · dsimp only
      split
      · rfl
      · split
        · rfl
        · rw [unpack_fst]

theorem decode_shrinks {d d' : Decoder F K} {packet : Bytes}
    (h : d.decode = (d', .ok (some packet))) : d'.buffer.length < d.buffer.length := by
  unfold decode at h
  split at h
  · simp at h
  · simp at h
  · rename_i headerLen hread
    split at h
    · simp at h
    · dsimp only at h
      split at h
      · simp at h
      · split at h
        · simp at h
        · obtain ⟨hpos, -, hused⟩ := readVarint_used hread
          have hbuffer := congrArg (fun result => result.1.buffer.length) h
          rw [unpack_fst, List.length_drop, List.length_drop] at hbuffer
          change _ = d'.buffer.length at hbuffer
          omega

/-- `decode` until it asks for more bytes or fails. -/
def drain (d : Decoder F K) : Decoder F K × List Bytes × Option ProtocolError :=
  match _ : d.decode with
  | (d', .ok (some packet)) =>
      let (d'', packets, failure) := d'.drain
      (d'', packet :: packets, failure)
  | (d', .ok none) => (d', [], none)
  | (d', .error e) => (d', [], some e)
termination_by d.buffer.length
decreasing_by
  rename_i h
  exact decode_shrinks h

theorem drain_some {d d' : Decoder F K} {packet : Bytes}
    (h : d.decode = (d', .ok (some packet))) :
    d.drain = (d'.drain.1, packet :: d'.drain.2.1, d'.drain.2.2) := by
  rw [drain]
  split
  · rename_i heq
    rw [h] at heq
    simp only [Prod.mk.injEq, Except.ok.injEq, Option.some.injEq] at heq
    obtain ⟨rfl, rfl⟩ := heq
    rfl
  · rename_i heq
    rw [h] at heq
    simp at heq
  · rename_i heq
    rw [h] at heq
    simp at heq

theorem drain_none {d d' : Decoder F K} (h : d.decode = (d', .ok none)) :
    d.drain = (d', [], none) := by
  rw [drain]
  split
  · rename_i heq
    rw [h] at heq
    simp at heq
  · rename_i heq
    rw [h] at heq
    simp only [Prod.mk.injEq, and_true] at heq
    rw [heq]
  · rename_i heq
    rw [h] at heq
    simp at heq

/-- A decoder whose buffer starts a stream of frames hands out the packets of the
complete ones and keeps the rest. -/
theorem drain_frames {plain : Bytes} : ∀ {pending : List (Bytes × Bytes)} {d : Decoder F K},
    d.maxFrame = maxFrameLen → (∀ x ∈ pending, Frames F K d.compression x.1 x.2) →
    d.buffer ++ plain = pending.flatMap Prod.snd →
    ∃ done rest buffer decompressor, pending = done ++ rest ∧
      d.drain = ({ d with buffer := buffer, decompressor := decompressor },
        done.map Prod.fst, none) ∧
      buffer ++ plain = rest.flatMap Prod.snd ∧
      ∀ x ∈ rest.head?, buffer.length < x.2.length := by
  intro pending
  induction pending with
  | nil =>
      intro d _ _ hbuffer
      obtain ⟨hempty, rfl⟩ := List.append_eq_nil_iff.mp hbuffer
      have hdecode : d.decode = (d, .ok none) := by
        rw [decode, hempty]
        rfl
      refine ⟨[], [], d.buffer, d.decompressor, rfl, ?_, hbuffer, by simp⟩
      rw [drain_none hdecode]
      rfl
  | cons x pending ih =>
      intro d hmax hframes hbuffer
      rw [List.flatMap_cons] at hbuffer
      rcases (hframes x List.mem_cons_self).decode_stream hmax hbuffer with
        ⟨hshort, hdecode⟩ | ⟨tail, decompressor, hrest, hdecode⟩
      · refine ⟨[], x :: pending, d.buffer, d.decompressor, rfl, ?_, ?_, ?_⟩
        · rw [drain_none hdecode]
          rfl
        · rw [hbuffer, List.flatMap_cons]
        · rintro y hy
          rw [List.head?_cons, Option.mem_some_iff] at hy
          rwa [← hy]
      · obtain ⟨done, rest, buffer, decompressor', hsplit, hdrain, hleft, hhead⟩ :=
          ih (d := { d with buffer := tail, decompressor := decompressor }) hmax
            (fun y hy => hframes y (List.mem_cons_of_mem x hy)) hrest
        refine ⟨x :: done, rest, buffer, decompressor', by rw [hsplit]; rfl, ?_, hleft, hhead⟩
        rw [drain_some hdecode, hdrain]
        rfl

end Decoder

/-! ## Ciphers on both ends -/

/-- Both ends run without a cipher or with ciphers in step. -/
def CiphersInStep (InStep : K.Enc → K.Dec → Prop) :
    Option (Encryptor K) → Option (Decryptor K) → Prop
  | none, none => True
  | some e, some d => InStep e.inner d.inner
  | _, _ => False

theorem decipher_append (decryptor : Option (Decryptor K)) (data data' : Bytes) :
    decipher decryptor (data ++ data') =
      ((decipher (decipher decryptor data).1 data').1,
        (decipher decryptor data).2 ++ (decipher (decipher decryptor data).1 data').2) := by
  cases decryptor with
  | none => rfl
  | some decryptor => simp only [decipher, Decryptor.decrypt_append]

theorem decipher_nil (decryptor : Option (Decryptor K)) :
    decipher decryptor [] = (decryptor, []) := by
  cases decryptor <;> rfl

theorem decipher_encipher {InStep : K.Enc → K.Dec → Prop} (hK : K.Inverts InStep)
    {encryptor : Option (Encryptor K)} {decryptor : Option (Decryptor K)}
    (hstep : CiphersInStep InStep encryptor decryptor) (data : Bytes) :
    (decipher decryptor (encipher encryptor data).2).2 = data ∧
      CiphersInStep InStep (encipher encryptor data).1
        (decipher decryptor (encipher encryptor data).2).1 := by
  match encryptor, decryptor, hstep with
  | none, none, _ => exact ⟨rfl, trivial⟩
  | some e, some d, hstep => exact decrypt_encrypt hK hstep data

theorem ciphers_new {InStep : K.Enc → K.Dec → Prop} (hK : K.Inverts InStep) {secret : Bytes}
    {encryptor : Encryptor K} {decryptor : Decryptor K}
    (hencryptor : Encryptor.new secret = .ok encryptor)
    (hdecryptor : Decryptor.new secret = .ok decryptor) :
    InStep encryptor.inner decryptor.inner := by
  unfold Encryptor.new at hencryptor
  unfold Decryptor.new at hdecryptor
  split at hencryptor
  · simp at hencryptor
  · rename_i hlength
    rw [if_neg hlength] at hdecryptor
    rw [← Except.ok.inj hencryptor, ← Except.ok.inj hdecryptor]
    exact hK.new secret

/-! ## The link -/

/-- `wire` holds the bytes the encoder has produced and the decoder has not been fed. -/
structure Link (F : Flate2) (K : Cfb8) where
  encoder : Encoder F K
  wire : Bytes
  decoder : Decoder F K
  /-- The packets for which `encode` returned `Ok`. -/
  accepted : List Bytes
  /-- The packets `decode` returned. -/
  delivered : List Bytes
  failure : Option ProtocolError

inductive LinkEvent where
  | encode (packet : Bytes)
  | feed (chunk : Bytes)
  | enableCompression (threshold : Nat)
  | enableEncryption (secret : Bytes)

namespace Link

def new : Link F K where
  encoder := Encoder.new
  wire := []
  decoder := Decoder.new
  accepted := []
  delivered := []
  failure := none

inductive Step : Link F K → LinkEvent → Link F K → Prop
  | accept {l : Link F K} {packet wire : Bytes} {encoder : Encoder F K}
      (hencode : l.encoder.encode packet l.wire = some (encoder, wire, .ok ())) :
      Step l (.encode packet)
        { l with encoder := encoder, wire := wire, accepted := l.accepted ++ [packet] }
  | reject {l : Link F K} {packet wire : Bytes} {encoder : Encoder F K} {err : ProtocolError}
      (hencode : l.encoder.encode packet l.wire = some (encoder, wire, .error err)) :
      Step l (.encode packet) { l with encoder := encoder, wire := wire }
  | feed {l : Link F K} {chunk rest : Bytes} {decoder : Decoder F K} {packets : List Bytes}
      {failure : Option ProtocolError} (hwire : l.wire = chunk ++ rest)
      (hdrain : (l.decoder.feed chunk).drain = (decoder, packets, failure)) :
      Step l (.feed chunk)
        { l with
          wire := rest
          decoder := decoder
          delivered := l.delivered ++ packets
          failure := l.failure.or failure }
  | enableCompression {l : Link F K} {threshold : Nat} (hwire : l.wire = []) :
      Step l (.enableCompression threshold)
        { l with
          encoder := l.encoder.enableCompression threshold
          decoder := l.decoder.enableCompression threshold }
  | enableEncryption {l : Link F K} {secret : Bytes} {encryptor : Encryptor K}
      {decryptor : Decryptor K} (hwire : l.wire = [])
      (hencryptor : Encryptor.new secret = .ok encryptor)
      (hdecryptor : Decryptor.new secret = .ok decryptor) :
      Step l (.enableEncryption secret)
        { l with
          encoder := l.encoder.enableEncryption encryptor
          decoder := l.decoder.enableEncryption decryptor }

/-- What is between the two ends: the packets accepted and not yet delivered, with
their frames.  What the decoder holds is short of the first of them. -/
structure Inv (InStep : K.Enc → K.Dec → Prop) (l : Link F K) : Prop where
  compression_eq : l.encoder.compression = l.decoder.compression
  encoder_maxFrame : l.encoder.maxFrame = maxFrameLen
  decoder_maxFrame : l.decoder.maxFrame = maxFrameLen
  failure_eq : l.failure = none
  ciphers : CiphersInStep InStep l.encoder.encryptor (decipher l.decoder.decryptor l.wire).1
  pending : ∃ pending : List (Bytes × Bytes), l.accepted = l.delivered ++ pending.map Prod.fst ∧
    (∀ x ∈ pending, Frames F K l.decoder.compression x.1 x.2) ∧
    l.decoder.buffer ++ (decipher l.decoder.decryptor l.wire).2 = pending.flatMap Prod.snd ∧
    ∀ x ∈ pending.head?, l.decoder.buffer.length < x.2.length

variable {deflated : Bytes → Bytes} {Deflating : F.Compress → Bytes → Bytes → Prop}
  {InStep : K.Enc → K.Dec → Prop} {l l' : Link F K}

theorem Inv.new : (Link.new : Link F K).Inv InStep where
  compression_eq := rfl
  encoder_maxFrame := rfl
  decoder_maxFrame := rfl
  failure_eq := rfl
  ciphers := trivial
  pending := ⟨[], rfl, by simp, rfl, by simp⟩

/-- Once the wire is empty everything accepted has been delivered. -/
theorem Inv.drained (h : l.Inv InStep) (hwire : l.wire = []) :
    l.delivered = l.accepted ∧ l.decoder.buffer = [] := by
  obtain ⟨pending, haccepted, -, hbuffer, hhead⟩ := h.pending
  rw [hwire, decipher_nil, List.append_nil] at hbuffer
  cases pending with
  | nil =>
      rw [haccepted, List.map_nil, List.append_nil]
      exact ⟨rfl, hbuffer⟩
  | cons x pending =>
      have hshort := hhead x rfl
      rw [hbuffer, List.flatMap_cons, List.length_append] at hshort
      omega

theorem Step.accepted_prefix {event : LinkEvent} (h : Step l event l') :
    l.accepted <+: l'.accepted := by
  cases h with
  | accept hencode => exact List.prefix_append _ _
  | _ => exact List.prefix_refl _

section Steps

variable (hF : F.Inflates deflated Deflating) (hK : K.Inverts InStep)

include hF hK in
theorem Inv.accept (h : l.Inv InStep) {packet wire : Bytes} {encoder : Encoder F K}
    (hne : packet ≠ []) (hlength : 1 + packet.length ≤ maxFrameLen)
    (hencode : l.encoder.encode packet l.wire = some (encoder, wire, .ok ())) :
    Inv InStep
      { l with encoder := encoder, wire := wire, accepted := l.accepted ++ [packet] } := by
  cases hframe : frameOf deflated l.encoder.compression packet with
  | error err =>
      obtain ⟨compressor, scratch, heq⟩ :=
        l.encoder.encode_refused hF h.encoder_maxFrame hframe l.wire
      rw [hencode] at heq
      simp at heq
  | ok frame =>
      obtain ⟨compressor, scratch, heq⟩ := l.encoder.encode_ok hF h.encoder_maxFrame hframe l.wire
      rw [hencode] at heq
      simp only [Option.some.injEq, Prod.mk.injEq, and_true] at heq
      obtain ⟨rfl, rfl⟩ := heq
      obtain ⟨hplain, hciphers⟩ := decipher_encipher hK h.ciphers frame
      obtain ⟨pending, haccepted, hframes, hbuffer, hhead⟩ := h.pending
      have hnew : Frames F K l.decoder.compression packet frame := by
        rw [← h.compression_eq]
        exact frameOf_frames hF hne (withinLimits_of_le hlength) hframe
      refine ⟨h.compression_eq, h.encoder_maxFrame, h.decoder_maxFrame, h.failure_eq, ?_, ?_⟩
      · rw [decipher_append]
        exact hciphers
      · refine ⟨pending ++ [(packet, frame)], ?_, ?_, ?_, ?_⟩
        · rw [haccepted, List.map_append, List.append_assoc]
          rfl
        · intro x hx
          rcases List.mem_append.mp hx with hx | hx
          · exact hframes x hx
          · rw [List.mem_singleton.mp hx]
            exact hnew
        · rw [decipher_append, ← List.append_assoc, hbuffer, hplain, List.flatMap_append]
          simp
        · cases pending with
          | nil =>
              have hempty : l.decoder.buffer = [] := (List.append_eq_nil_iff.mp hbuffer).1
              intro x hx
              rw [List.nil_append, List.head?_cons, Option.mem_some_iff] at hx
              rw [← hx, hempty]
              exact hnew.length_pos
          | cons y pending => exact hhead

include hF in
theorem Inv.reject (h : l.Inv InStep) {packet wire : Bytes} {encoder : Encoder F K}
    {err : ProtocolError}
    (hencode : l.encoder.encode packet l.wire = some (encoder, wire, .error err)) :
    Inv InStep { l with encoder := encoder, wire := wire } := by
  cases hframe : frameOf deflated l.encoder.compression packet with
  | error err =>
      obtain ⟨compressor, scratch, heq⟩ :=
        l.encoder.encode_refused hF h.encoder_maxFrame hframe l.wire
      rw [hencode] at heq
      simp only [Option.some.injEq, Prod.mk.injEq] at heq
      obtain ⟨rfl, rfl, -⟩ := heq
      exact ⟨h.compression_eq, h.encoder_maxFrame, h.decoder_maxFrame, h.failure_eq, h.ciphers,
        h.pending⟩
  | ok frame =>
      obtain ⟨compressor, scratch, heq⟩ := l.encoder.encode_ok hF h.encoder_maxFrame hframe l.wire
      rw [hencode] at heq
      simp at heq

theorem Inv.feed (h : l.Inv InStep) {chunk rest : Bytes} {decoder : Decoder F K}
    {packets : List Bytes} {failure : Option ProtocolError} (hwire : l.wire = chunk ++ rest)
    (hdrain : (l.decoder.feed chunk).drain = (decoder, packets, failure)) :
    Inv InStep
      { l with
        wire := rest
        decoder := decoder
        delivered := l.delivered ++ packets
        failure := l.failure.or failure } := by
  have hciphers := h.ciphers
  obtain ⟨pending, haccepted, hframes, hbuffer, -⟩ := h.pending
  rw [hwire, decipher_append] at hciphers hbuffer
  rw [← List.append_assoc] at hbuffer
  obtain ⟨done, left, buffer, decompressor, hsplit, hframed, hleft, hhead⟩ :=
    Decoder.drain_frames (d := l.decoder.feed chunk) h.decoder_maxFrame hframes hbuffer
  rw [hdrain] at hframed
  simp only [Prod.mk.injEq] at hframed
  obtain ⟨rfl, rfl, rfl⟩ := hframed
  refine ⟨h.compression_eq, h.encoder_maxFrame, h.decoder_maxFrame, ?_, hciphers, ?_⟩
  · rw [h.failure_eq]
    rfl
  · refine ⟨left, ?_, ?_, hleft, hhead⟩
    · rw [haccepted, hsplit, List.map_append, List.append_assoc]
    · intro x hx
      exact hframes x (hsplit ▸ List.mem_append_right _ hx)

theorem Inv.enableCompression (h : l.Inv InStep) (hwire : l.wire = []) (threshold : Nat) :
    Inv InStep
      { l with
        encoder := l.encoder.enableCompression threshold
        decoder := l.decoder.enableCompression threshold } := by
  obtain ⟨hdelivered, hbuffer⟩ := h.drained hwire
  refine ⟨rfl, h.encoder_maxFrame, h.decoder_maxFrame, h.failure_eq, h.ciphers, [], ?_, by simp,
    ?_, by simp⟩
  · rw [List.map_nil, List.append_nil]
    exact hdelivered.symm
  · change l.decoder.buffer ++ (decipher l.decoder.decryptor l.wire).2 = []
    rw [hbuffer, hwire, decipher_nil]
    rfl

include hK in
theorem Inv.enableEncryption (h : l.Inv InStep) (hwire : l.wire = []) {secret : Bytes}
    {encryptor : Encryptor K} {decryptor : Decryptor K}
    (hencryptor : Encryptor.new secret = .ok encryptor)
    (hdecryptor : Decryptor.new secret = .ok decryptor) :
    Inv InStep
      { l with
        encoder := l.encoder.enableEncryption encryptor
        decoder := l.decoder.enableEncryption decryptor } := by
  obtain ⟨hdelivered, hbuffer⟩ := h.drained hwire
  refine ⟨h.compression_eq, h.encoder_maxFrame, h.decoder_maxFrame, h.failure_eq, ?_, [], ?_,
    by simp, ?_, by simp⟩
  · change CiphersInStep InStep (some encryptor) (decipher (some decryptor) l.wire).1
    rw [hwire]
    exact ciphers_new hK hencryptor hdecryptor
  · rw [List.map_nil, List.append_nil]
    exact hdelivered.symm
  · change l.decoder.buffer ++ (decipher (some decryptor) l.wire).2 = []
    rw [hbuffer, hwire, decipher_nil]
    rfl

include hF hK

theorem Inv.step {event : LinkEvent} (hstep : Step l event l') (h : l.Inv InStep)
    (hpackets : ∀ packet ∈ l'.accepted, packet ≠ [] ∧ 1 + packet.length ≤ maxFrameLen) :
    l'.Inv InStep := by
  cases hstep with
  | accept hencode =>
      obtain ⟨hne, hlength⟩ := hpackets _ (List.mem_append_right _ List.mem_cons_self)
      exact h.accept hF hK hne hlength hencode
  | reject hencode => exact h.reject hF hencode
  | feed hwire hdrain => exact h.feed hwire hdrain
  | enableCompression hwire => exact h.enableCompression hwire _
  | enableEncryption hwire hencryptor hdecryptor =>
      exact h.enableEncryption hK hwire hencryptor hdecryptor

theorem Inv.run {events : List LinkEvent} (hrun : Run Step Link.new events l)
    (hpackets : ∀ packet ∈ l.accepted, packet ≠ [] ∧ 1 + packet.length ≤ maxFrameLen) :
    l.Inv InStep := by
  apply hrun.invariant (I := fun l =>
    (∀ packet ∈ l.accepted, packet ≠ [] ∧ 1 + packet.length ≤ maxFrameLen) → l.Inv InStep)
    (fun _ => Inv.new) _ hpackets
  intro a event b ih hstep hb
  have hinv := ih fun packet hmem => hb packet (hstep.accepted_prefix.subset hmem)
  exact Inv.step hF hK hstep hinv hb

end Steps

end Link

/-! ## Rejected packets -/

namespace Encoder

/-- Encoders that differ in the compressor's history and the scratch buffer only. -/
structure Alike (e e' : Encoder F K) : Prop where
  compression_eq : e.compression = e'.compression
  encryptor_eq : e.encryptor = e'.encryptor
  maxFrame_eq : e.maxFrame = e'.maxFrame

/-- The bytes and results an encoder produces over its part of a run. -/
def writes (e : Encoder F K) : List LinkEvent → Bytes →
    Option (Bytes × List (Except ProtocolError Unit))
  | [], out => some (out, [])
  | .encode packet :: events, out =>
      (e.encode packet out).bind fun (e, out, result) =>
        (e.writes events out).map fun (out, results) => (out, result :: results)
  | .feed _ :: events, out => e.writes events out
  | .enableCompression threshold :: events, out => (e.enableCompression threshold).writes events out
  | .enableEncryption secret :: events, out =>
      match Encryptor.new secret with
      | .ok encryptor => (e.enableEncryption encryptor).writes events out
      | .error _ => e.writes events out

section

variable {deflated : Bytes → Bytes} {Deflating : F.Compress → Bytes → Bytes → Prop}
  (hF : F.Inflates deflated Deflating)

include hF

theorem Alike.encode {e e' : Encoder F K} (h : Alike e e') (hmax : e.maxFrame = maxFrameLen)
    (packet out : Bytes) :
    ∃ next next' out' result, e.encode packet out = some (next, out', result) ∧
      e'.encode packet out = some (next', out', result) ∧ Alike next next' ∧
      next.maxFrame = maxFrameLen := by
  have hmax' : e'.maxFrame = maxFrameLen := h.maxFrame_eq ▸ hmax
  cases hframe : frameOf deflated e.compression packet with
  | error err =>
      obtain ⟨compressor, scratch, heq⟩ := e.encode_refused hF hmax hframe out
      obtain ⟨compressor', scratch', heq'⟩ :=
        e'.encode_refused hF hmax' (h.compression_eq ▸ hframe) out
      exact ⟨_, _, _, _, heq, heq', ⟨h.compression_eq, h.encryptor_eq, h.maxFrame_eq⟩, hmax⟩
  | ok frame =>
      obtain ⟨compressor, scratch, heq⟩ := e.encode_ok hF hmax hframe out
      obtain ⟨compressor', scratch', heq'⟩ := e'.encode_ok hF hmax' (h.compression_eq ▸ hframe) out
      rw [← h.encryptor_eq] at heq'
      exact ⟨_, _, _, _, heq, heq', ⟨h.compression_eq, rfl, h.maxFrame_eq⟩, hmax⟩

theorem Alike.writes : ∀ {e e' : Encoder F K} {events : List LinkEvent} {out : Bytes}, Alike e e' →
    e.maxFrame = maxFrameLen → e.writes events out = e'.writes events out := by
  intro e e' events
  induction events generalizing e e' with
  | nil => intro out _ _; rfl
  | cons event events ih =>
      intro out h hmax
      cases event with
      | encode packet =>
          obtain ⟨next, next', out', result, heq, heq', halike, hnext⟩ :=
            h.encode hF hmax packet out
          simp only [Encoder.writes, heq, heq', Option.bind_some, ih halike hnext]
      | feed chunk => exact ih h hmax
      | enableCompression threshold =>
          have halike : Alike (e.enableCompression threshold) (e'.enableCompression threshold) :=
            ⟨rfl, h.encryptor_eq, h.maxFrame_eq⟩
          exact ih halike hmax
      | enableEncryption secret =>
          rw [Encoder.writes, Encoder.writes]
          cases Encryptor.new secret with
          | error err => exact ih h hmax
          | ok encryptor =>
              have halike : Alike (e.enableEncryption encryptor) (e'.enableEncryption encryptor) :=
                ⟨h.compression_eq, rfl, h.maxFrame_eq⟩
              exact ih halike hmax

/-- A packet that is refused leaves no trace on the wire, in the cipher or in what is
written later. -/
theorem encode_error {e : Encoder F K} (hmax : e.maxFrame = maxFrameLen) (packet out : Bytes) :
    ∃ next out' result, e.encode packet out = some (next, out', result) ∧
      ∀ err, result = .error err → out' = out ∧ next.encryptor = e.encryptor ∧
        ∀ events later, next.writes events later = e.writes events later := by
  cases hframe : frameOf deflated e.compression packet with
  | error err =>
      obtain ⟨compressor, scratch, heq⟩ := e.encode_refused hF hmax hframe out
      refine ⟨_, _, _, heq, ?_⟩
      intro _ _
      refine ⟨rfl, rfl, ?_⟩
      intro events later
      exact Alike.writes hF ⟨rfl, rfl, rfl⟩ hmax
  | ok frame =>
      obtain ⟨compressor, scratch, heq⟩ := e.encode_ok hF hmax hframe out
      refine ⟨_, _, _, heq, ?_⟩
      simp

end

end Encoder

namespace Link

/-- In every run of a link, the packets `decode` has returned are the packets `encode`
has accepted, in order and once each, up to those still on the way, and no `decode`
fails.  `encode` always returns, and a packet it refuses has no effect. -/
theorem frame_stream_round_trip {deflated : Bytes → Bytes}
    {Deflating : F.Compress → Bytes → Bytes → Prop} {InStep : K.Enc → K.Dec → Prop}
    (hF : F.Inflates deflated Deflating) (hK : K.Inverts InStep) {l : Link F K}
    {events : List LinkEvent} (hrun : Run Step Link.new events l)
    (hpackets : ∀ packet ∈ l.accepted, packet ≠ [] ∧ 1 + packet.length ≤ maxFrameLen) :
    l.failure = none ∧ l.delivered <+: l.accepted ∧
      (l.wire = [] → l.delivered = l.accepted ∧ l.decoder.buffer = []) ∧
      ∀ packet, ∃ encoder wire result,
        l.encoder.encode packet l.wire = some (encoder, wire, result) ∧
        ∀ err, result = .error err → wire = l.wire ∧ encoder.encryptor = l.encoder.encryptor ∧
          ∀ later out, encoder.writes later out = l.encoder.writes later out := by
  have hinv := Inv.run hF hK hrun hpackets
  obtain ⟨pending, haccepted, -, -, -⟩ := hinv.pending
  refine ⟨hinv.failure_eq, ?_, hinv.drained, ?_⟩
  · rw [haccepted]
    exact List.prefix_append _ _
  · intro packet
    exact Encoder.encode_error hF hinv.encoder_maxFrame packet l.wire

/-- The library's stream of forty zeros. -/
abbrev zerosFlate2 : Flate2 :=
  Flate2.storing (List.replicate 40 0) [120, 156, 99, 96, 32, 14, 0, 0, 0, 40, 0, 1]

/-- The key stream of the secret `0123456789abcdef` over the frame of forty zeros. -/
abbrev zerosCipher : Cfb8 :=
  keyStream [114, 157, 67, 56, 135, 249, 215, 138, 31, 106, 60, 117, 7, 165]

/-- A plain packet in two chunks, an oversized one refused, and a compressed and
encrypted one in two chunks. -/
theorem frame_stream_round_trip_switches :
    ∃ l : Link zerosFlate2 zerosCipher,
      Run Step Link.new [.encode [0, 1], .encode (List.replicate 3000000 0), .feed [2],
        .feed [0, 1], .enableCompression 32, .enableEncryption (utf8 "0123456789abcdef"),
        .encode (List.replicate 40 0), .feed [127, 181, 59],
        .feed [164, 228, 153, 247, 132, 31, 106, 60, 93, 7, 164]] l ∧
      l.failure = none ∧ l.delivered = [[0, 1], List.replicate 40 0] ∧ l.decoder.buffer = [] := by
  have hF : zerosFlate2.Inflates _ _ :=
    Flate2.storing_inflates (List.replicate 40 0) _ (by intro data h; simp at h)
  have hK : zerosCipher.Inverts (· = ·) := keyStream_inverts _
  have hlarge : frameOf (fun data => if data = List.replicate 40 0 then
      [120, 156, 99, 96, 32, 14, 0, 0, 0, 40, 0, 1] else 0 :: data) none
      (List.replicate 3000000 0) = .error (.frameTooLarge 3000000 maxFrameLen) := by
    rw [frameOf, List.length_replicate, if_pos (by decide)]
  have hzeros : frameOf (fun data => if data = List.replicate 40 0 then
      [120, 156, 99, 96, 32, 14, 0, 0, 0, 40, 0, 1] else 0 :: data) (some 32)
      (List.replicate 40 0) = .ok [13, 40, 120, 156, 99, 96, 32, 14, 0, 0, 0, 40, 0, 1] := by
    decide
  let key : Bytes := [114, 157, 67, 56, 135, 249, 215, 138, 31, 106, 60, 117, 7, 165]
  obtain ⟨c₁, s₁, hplain⟩ := Encoder.encode_ok (K := zerosCipher) hF Encoder.new rfl
    (rfl : frameOf _ none [0, 1] = .ok [2, 0, 1]) []
  obtain ⟨c₂, s₂, hrefused⟩ := Encoder.encode_refused (K := zerosCipher) hF
    ⟨none, none, c₁, s₁, maxFrameLen⟩ rfl hlarge [2, 0, 1]
  obtain ⟨c₃, s₃, hsecret⟩ := Encoder.encode_ok (K := zerosCipher) hF
    ⟨some 32, some ⟨key⟩, c₂, s₂, maxFrameLen⟩ rfl hzeros []
  have hwire : (encipher (some (⟨key⟩ : Encryptor zerosCipher))
      [13, 40, 120, 156, 99, 96, 32, 14, 0, 0, 0, 40, 0, 1]).2 =
      [127, 181, 59] ++ [164, 228, 153, 247, 132, 31, 106, 60, 93, 7, 164] := by decide
  obtain ⟨d₁, p₁, f₁, hdrain₁⟩ : ∃ d p f, ((Decoder.new : Decoder zerosFlate2 zerosCipher).feed
    [2]).drain = (d, p, f) := ⟨_, _, _, rfl⟩
  obtain ⟨d₂, p₂, f₂, hdrain₂⟩ : ∃ d p f, (d₁.feed [0, 1]).drain = (d, p, f) := ⟨_, _, _, rfl⟩
  let d₂' : Decoder zerosFlate2 zerosCipher := (d₂.enableCompression 32).enableEncryption ⟨key⟩
  obtain ⟨d₃, p₃, f₃, hdrain₃⟩ : ∃ d p f, (d₂'.feed [127, 181, 59]).drain = (d, p, f) :=
    ⟨_, _, _, rfl⟩
  obtain ⟨d₄, p₄, f₄, hdrain₄⟩ : ∃ d p f,
    (d₃.feed [164, 228, 153, 247, 132, 31, 106, 60, 93, 7, 164]).drain = (d, p, f) :=
    ⟨_, _, _, rfl⟩
  let e₁ : Encoder zerosFlate2 zerosCipher := ⟨none, none, c₁, s₁, maxFrameLen⟩
  let e₂ : Encoder zerosFlate2 zerosCipher := ⟨none, none, c₂, s₂, maxFrameLen⟩
  let e₃ := (e₂.enableCompression 32).enableEncryption ⟨key⟩
  let e₄ : Encoder zerosFlate2 zerosCipher := ⟨some 32,
    (encipher (some ⟨key⟩) [13, 40, 120, 156, 99, 96, 32, 14, 0, 0, 0, 40, 0, 1]).1, c₃, s₃,
    maxFrameLen⟩
  have h₁ : Step Link.new (.encode [0, 1]) ⟨e₁, [2, 0, 1], Decoder.new, [[0, 1]], [], none⟩ :=
    Step.accept hplain
  have h₂ : Step ⟨e₁, [2, 0, 1], Decoder.new, [[0, 1]], [], none⟩
      (.encode (List.replicate 3000000 0)) ⟨e₂, [2, 0, 1], Decoder.new, [[0, 1]], [], none⟩ :=
    Step.reject hrefused
  have h₃ : Step ⟨e₂, [2, 0, 1], Decoder.new, [[0, 1]], [], none⟩ (.feed [2])
      ⟨e₂, [0, 1], d₁, [[0, 1]], p₁, f₁⟩ := Step.feed rfl hdrain₁
  have h₄ : Step ⟨e₂, [0, 1], d₁, [[0, 1]], p₁, f₁⟩ (.feed [0, 1])
      ⟨e₂, [], d₂, [[0, 1]], p₁ ++ p₂, f₁.or f₂⟩ := Step.feed rfl hdrain₂
  have h₅ : Step ⟨e₂, [], d₂, [[0, 1]], p₁ ++ p₂, f₁.or f₂⟩ (.enableCompression 32)
      ⟨e₂.enableCompression 32, [], d₂.enableCompression 32, [[0, 1]], p₁ ++ p₂, f₁.or f₂⟩ :=
    Step.enableCompression rfl
  have h₆ : Step ⟨e₂.enableCompression 32, [], d₂.enableCompression 32, [[0, 1]], p₁ ++ p₂,
      f₁.or f₂⟩ (.enableEncryption (utf8 "0123456789abcdef"))
      ⟨e₃, [], d₂', [[0, 1]], p₁ ++ p₂, f₁.or f₂⟩ := Step.enableEncryption rfl rfl rfl
  have h₇ : Step ⟨e₃, [], d₂', [[0, 1]], p₁ ++ p₂, f₁.or f₂⟩ (.encode (List.replicate 40 0))
      ⟨e₄, [127, 181, 59] ++ [164, 228, 153, 247, 132, 31, 106, 60, 93, 7, 164], d₂',
        [[0, 1]] ++ [List.replicate 40 0], p₁ ++ p₂, f₁.or f₂⟩ := by
    rw [← hwire]
    exact Step.accept hsecret
  have h₈ : Step ⟨e₄, [127, 181, 59] ++ [164, 228, 153, 247, 132, 31, 106, 60, 93, 7, 164], d₂',
      [[0, 1]] ++ [List.replicate 40 0], p₁ ++ p₂, f₁.or f₂⟩ (.feed [127, 181, 59])
      ⟨e₄, [164, 228, 153, 247, 132, 31, 106, 60, 93, 7, 164], d₃,
        [[0, 1]] ++ [List.replicate 40 0], p₁ ++ p₂ ++ p₃, (f₁.or f₂).or f₃⟩ :=
    Step.feed rfl hdrain₃
  have h₉ : Step ⟨e₄, [164, 228, 153, 247, 132, 31, 106, 60, 93, 7, 164], d₃,
        [[0, 1]] ++ [List.replicate 40 0], p₁ ++ p₂ ++ p₃, (f₁.or f₂).or f₃⟩
      (.feed [164, 228, 153, 247, 132, 31, 106, 60, 93, 7, 164])
      ⟨e₄, [], d₄, [[0, 1]] ++ [List.replicate 40 0], p₁ ++ p₂ ++ p₃ ++ p₄,
        ((f₁.or f₂).or f₃).or f₄⟩ := Step.feed rfl hdrain₄
  have hrun := ((((((((Run.nil.snoc h₁).snoc h₂).snoc h₃).snoc h₄).snoc h₅).snoc h₆).snoc h₇).snoc
    h₈).snoc h₉
  have hpackets : ∀ packet ∈ ([[0, 1], List.replicate 40 0] : List Bytes),
      packet ≠ [] ∧ 1 + packet.length ≤ maxFrameLen := by decide
  obtain ⟨hfailure, -, hend, -⟩ := frame_stream_round_trip hF hK hrun hpackets
  obtain ⟨hdelivered, hbuffer⟩ := hend rfl
  exact ⟨_, hrun, hfailure, hdelivered, hbuffer⟩

end Link

end Rukkit.Protocol
