import Rukkit.Protocol.FrameStream

/-!
# Cutting the input

The socket hands the decoder its bytes in chunks of any size.  What is decoded, and the
first error, depend on the bytes alone.
-/

namespace Rukkit.Protocol

variable {F : Flate2} {K : Cfb8}

namespace Decoder

/-- The decoder with more bytes at hand, from a cipher that is elsewhere in its stream. -/
def extend (d : Decoder F K) (more : Bytes) (decryptor : Option (Decryptor K)) : Decoder F K :=
  { d with buffer := d.buffer ++ more, decryptor := decryptor }

variable {d d' : Decoder F K} {more : Bytes} {decryptor : Option (Decryptor K)}

/-- A frame that was split off is unpacked without a look at the buffer or the cipher. -/
theorem unpack_extend (frame : Bytes) :
    (d.extend more decryptor).unpack frame =
      ((d.unpack frame).1.extend more decryptor, (d.unpack frame).2) := by
  have hcompression : (d.extend more decryptor).compression = d.compression := rfl
  have hdecompressor : (d.extend more decryptor).decompressor = d.decompressor := rfl
  have hmax : (d.extend more decryptor).maxFrame = d.maxFrame := rfl
  unfold unpack
  rw [hcompression, hdecompressor, hmax]
  split
  · rfl
  · split
    · rfl
    · dsimp only
      split
      · rfl
      · split
        · rfl
        · split
          · rfl
          · split
            · rfl
            · rfl

/-- A decode that does not ask for more bytes is not changed by them. -/
theorem decode_extend (h : d.decode.2 ≠ .ok none) :
    (d.extend more decryptor).decode =
      (d.decode.1.extend more decryptor, d.decode.2) := by
  have hread : readVarint (d.extend more decryptor).buffer = readVarint d.buffer := by
    apply readVarint_append
    intro needed available heof
    apply h
    rw [decode, heof]
  have hmax : (d.extend more decryptor).maxFrame = d.maxFrame := rfl
  unfold decode at h ⊢
  rw [hread, hmax]
  split
  · rfl
  · rfl
  · rename_i rawLen headerLen heq
    rw [heq] at h
    dsimp only at h ⊢
    by_cases hneg : rawLen < 0
    · simp only [if_pos hneg]
    · simp only [if_neg hneg] at h ⊢
      by_cases hlarge : d.maxFrame < rawLen.toNatClampNeg
      · simp only [if_pos hlarge]
      · simp only [if_neg hlarge] at h ⊢
        by_cases hshort : d.buffer.length < headerLen + rawLen.toNatClampNeg
        · rw [if_pos hshort] at h
          exact absurd rfl h
        · have hlength : (d.extend more decryptor).buffer.length =
              d.buffer.length + more.length := List.length_append
          have hlong : ¬ (d.extend more decryptor).buffer.length <
              headerLen + rawLen.toNatClampNeg := by omega
          have hdrop : (d.extend more decryptor).buffer.drop headerLen =
              d.buffer.drop headerLen ++ more :=
            List.drop_append_of_le_length (by omega)
          have hframe : rawLen.toNatClampNeg ≤ (d.buffer.drop headerLen).length := by
            rw [List.length_drop]
            omega
          simp only [if_neg hlong, if_neg hshort]
          rw [hdrop, List.take_append_of_le_length hframe,
            List.drop_append_of_le_length hframe]
          exact unpack_extend
            (d := { d with buffer := (d.buffer.drop headerLen).drop rawLen.toNatClampNeg }) _

theorem feed_eq_extend (data : Bytes) :
    d.feed data = d.extend (decipher d.decryptor data).2 (decipher d.decryptor data).1 := rfl

theorem decode_feed (data : Bytes) (h : d.decode.2 ≠ .ok none) :
    (d.feed data).decode = (d.decode.1.feed data, d.decode.2) := by
  have hcipher : d.decode.1.decryptor = d.decryptor := by rw [decode_fst]
  rw [feed_eq_extend, decode_extend h, feed_eq_extend, hcipher]

/-! ## Draining -/

theorem drain_error {e : ProtocolError} (h : d.decode = (d', .error e)) :
    d.drain = (d', [], some e) := by
  rw [drain]
  split
  · rename_i heq
    rw [h] at heq
    simp at heq
  · rename_i heq
    rw [h] at heq
    simp at heq
  · rename_i heq
    rw [h] at heq
    simp only [Prod.mk.injEq, Except.error.injEq] at heq
    obtain ⟨rfl, rfl⟩ := heq
    rfl

theorem unpack_ne_none (frame : Bytes) : (d.unpack frame).2 ≠ .ok none := by
  unfold unpack
  split
  · simp
  · split
    · simp
    · split
      · simp
      · split
        · simp
        · dsimp only
          split
          · simp
          · split
            · simp
            · cases (decompressExact F _ _ _).2 <;> simp [Except.map]

/-- A decoder that asks for more bytes is left as it is. -/
theorem decode_none (h : d.decode = (d', .ok none)) : d' = d := by
  unfold decode at h
  split at h
  · exact (Prod.mk.inj h).1.symm
  · simp at h
  · split at h
    · simp at h
    · dsimp only at h
      split at h
      · simp at h
      · split at h
        · exact (Prod.mk.inj h).1.symm
        · exact absurd (congrArg Prod.snd h) (unpack_ne_none _)

/-- A drained decoder has no packet left. -/
theorem decode_drain (d : Decoder F K) (h : d.drain.2.2 = none) :
    d.drain.1.decode = (d.drain.1, .ok none) := by
  induction d using drain.induct with
  | case1 d d' packet hdecode _ _ _ _ ih =>
      rw [drain_some hdecode] at h ⊢
      exact ih h
  | case2 d d' hdecode =>
      rw [drain_none hdecode, decode_none hdecode]
      exact decode_none hdecode ▸ hdecode
  | case3 d d' e hdecode =>
      rw [drain_error hdecode] at h
      cases h

/-- The packets of two drains in a row, the second one unless the first has failed. -/
def andThen (first : Decoder F K × List Bytes × Option ProtocolError)
    (next : Decoder F K → Decoder F K × List Bytes × Option ProtocolError) :
    Decoder F K × List Bytes × Option ProtocolError :=
  match first with
  | (d, packets, some e) => (d, packets, some e)
  | (d, packets, none) =>
      let (d', more, failure) := next d
      (d', packets ++ more, failure)

theorem andThen_cons (packet : Bytes) (first : Decoder F K × List Bytes × Option ProtocolError)
    (next : Decoder F K → Decoder F K × List Bytes × Option ProtocolError) :
    andThen (first.1, packet :: first.2.1, first.2.2) next =
      ((andThen first next).1, packet :: (andThen first next).2.1, (andThen first next).2.2) := by
  obtain ⟨d, packets, failure⟩ := first
  cases failure <;> rfl

/-- What is drained with more bytes at hand: first what was there without them. -/
theorem drain_feed (data : Bytes) (d : Decoder F K) :
    (d.feed data).drain.2 = (andThen d.drain fun d' => (d'.feed data).drain).2 ∧
    (d.drain.2.2 = none → (d.feed data).drain.1 = (d.drain.1.feed data).drain.1) := by
  induction d using drain.induct with
  | case1 d d' packet hdecode _ _ _ _ ih =>
      have hfeed : (d.feed data).decode = (d'.feed data, .ok (some packet)) := by
        rw [decode_feed data (by rw [hdecode]; simp), hdecode]
      rw [drain_some hdecode, drain_some hfeed, andThen_cons]
      exact ⟨by rw [ih.1], ih.2⟩
  | case2 d d' hdecode =>
      rw [drain_none hdecode, decode_none hdecode]
      exact ⟨rfl, fun _ => rfl⟩
  | case3 d d' e hdecode =>
      have hfeed : (d.feed data).decode = (d'.feed data, .error e) := by
        rw [decode_feed data (by rw [hdecode]; simp), hdecode]
      rw [drain_error hdecode, drain_error hfeed]
      exact ⟨rfl, fun h => by cases h⟩

/-! ## Receiving -/

/-- Feeds the chunks one after the other, decoding after each until more bytes are needed,
up to the first error. -/
def receive (d : Decoder F K) : List Bytes → Decoder F K × List Bytes × Option ProtocolError
  | [] => (d, [], none)
  | chunk :: chunks => andThen (d.feed chunk).drain fun d' => d'.receive chunks

theorem feed_append (data data' : Bytes) : d.feed (data ++ data') = (d.feed data).feed data' := by
  simp only [feed, decipher_append, List.append_assoc]

theorem feed_nil : d.feed [] = d := by
  simp only [feed, decipher_nil, List.append_nil]

/-- Chunks are as good as their bytes in one piece. -/
theorem receive_eq (chunks : List Bytes) : ∀ {d : Decoder F K}, d.decode = (d, .ok none) →
    (d.receive chunks).2 = (d.feed chunks.flatten).drain.2 ∧
      ((d.receive chunks).2.2 = none →
        (d.receive chunks).1 = (d.feed chunks.flatten).drain.1) := by
  induction chunks with
  | nil =>
      intro d hdrained
      rw [List.flatten_nil, feed_nil, drain_none hdrained]
      exact ⟨rfl, fun _ => rfl⟩
  | cons chunk chunks ih =>
      intro d _
      obtain ⟨hresult, hdecoder⟩ := drain_feed chunks.flatten (d.feed chunk)
      have hdone := decode_drain (d.feed chunk)
      rw [List.flatten_cons, feed_append, receive, hresult]
      rcases hdrain : (d.feed chunk).drain with ⟨d', packets, failure⟩
      rw [hdrain] at hdone hdecoder
      cases failure with
      | some e => exact ⟨rfl, fun h => by cases h⟩
      | none =>
          obtain ⟨hpackets, hleft⟩ := ih (hdone rfl)
          rw [hdecoder rfl]
          exact ⟨by simp only [andThen, hpackets], hleft⟩

/-- However the bytes are cut, the packets, the first error and, when there is none, what the
decoder is left with are the same. -/
theorem packetisation_independent {chunks chunks' : List Bytes}
    (hdrained : d.decode = (d, .ok none)) (hsame : chunks.flatten = chunks'.flatten) :
    (d.receive chunks).2 = (d.receive chunks').2 ∧
      ((d.receive chunks).2.2 = none → (d.receive chunks).1 = (d.receive chunks').1) := by
  obtain ⟨hresult, hdecoder⟩ := receive_eq chunks hdrained
  obtain ⟨hresult', hdecoder'⟩ := receive_eq chunks' hdrained
  rw [← hsame] at hresult' hdecoder'
  refine ⟨hresult.trans hresult'.symm, fun h => (hdecoder h).trans (hdecoder' ?_).symm⟩
  rw [hresult', ← hresult]
  exact h

/-- A compressed frame that comes byte by byte, and the first byte of the next one. -/
theorem packetisation_independent_bytewise :
    let d : Decoder (Flate2.storing [] []) (keyStream [7]) := new.enableCompression 256
    ([[3], [0], [5], [6], [1]] : List Bytes).flatten = ([[3, 0, 5, 6, 1]] : List Bytes).flatten ∧
    (d.receive [[3], [0], [5], [6], [1]]).2 = (d.receive [[3, 0, 5, 6, 1]]).2 ∧
      ((d.receive [[3], [0], [5], [6], [1]]).2.2 = none →
        (d.receive [[3], [0], [5], [6], [1]]).1 = (d.receive [[3, 0, 5, 6, 1]]).1) :=
  ⟨rfl, packetisation_independent rfl rfl⟩

end Decoder

end Rukkit.Protocol
