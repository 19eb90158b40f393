import Mathlib.Data.List.Basic
import Rukkit.Lib.Loops
import Rukkit.Protocol.Varint

/-!
# The zlib library

The streaming interface of the `flate2` crate, which is not part of the repository
and is taken as a parameter, and the two loops of `rukkit-protocol/src/codec.rs`
that drive it.  The codec makes every call with the flush mode `Finish`.
-/

namespace Rukkit.Protocol

/-- What one call of the library reports. -/
inductive Status where
  | ok
  | bufError
  | streamEnd
deriving DecidableEq, Repr

/-- The bytes one call writes, which fit the room it was given. -/
abbrev Piece (room : Nat) := { bytes : Bytes // bytes.length ≤ room }

structure Flate2 where
  Compress : Type
  newCompress : (level : Nat) → (zlibHeader : Bool) → Compress
  resetCompress : Compress → Compress
  compressTotalIn : Compress → Nat
  compressVec : Compress → (input : Bytes) → (room : Nat) →
    Compress × Piece room × Except String Status
  Decompress : Type
  newDecompress : (zlibHeader : Bool) → Decompress
  resetDecompress : Decompress → (zlibHeader : Bool) → Decompress
  decompressTotalIn : Decompress → Nat
  decompressVec : Decompress → (input : Bytes) → (room : Nat) →
    Decompress × Piece room × Except String Status

/-- What the codec relies on.  `deflated data` is the zlib stream of `data`, and
`Deflating compressor data written` says that since its last reset the compressor
was given `data` and has written `written`. -/
structure Flate2.Inflates (F : Flate2) (deflated : Bytes → Bytes)
    (Deflating : F.Compress → Bytes → Bytes → Prop) : Prop where
  reset : ∀ compressor data, Deflating (F.resetCompress compressor) data []
  totalIn_le : ∀ {compressor data written}, Deflating compressor data written →
    F.compressTotalIn compressor ≤ data.length
  /-- A call extends the stream, and with room left it makes progress until the end. -/
  compress : ∀ {compressor data written} room, Deflating compressor data written →
    ∃ compressor' piece status,
      F.compressVec compressor (data.drop (F.compressTotalIn compressor)) room =
        (compressor', piece, .ok status) ∧
      Deflating compressor' data (written ++ piece.val) ∧
      written ++ piece.val <+: deflated data ∧
      (status = .streamEnd → written ++ piece.val = deflated data) ∧
      (status ≠ .streamEnd → 0 < room → piece.val ≠ [])
  totalIn_reset : ∀ decompressor, F.decompressTotalIn (F.resetDecompress decompressor true) = 0
  /-- Given the whole stream and room for the result, one call inflates it. -/
  inflate : ∀ decompressor data room, data.length ≤ room → ∃ decompressor' piece,
    F.decompressVec (F.resetDecompress decompressor true) (deflated data) room =
      (decompressor', piece, .ok .streamEnd) ∧ piece.val = data

/-! ## Growing output -/

/-- A `Vec<u8>` and how many bytes it has room for. -/
structure Vec where
  bytes : Bytes
  capacity : Nat
  length_le : bytes.length ≤ capacity

namespace Vec

def withCapacity (capacity : Nat) : Vec := ⟨[], capacity, Nat.zero_le _⟩

def new : Vec := withCapacity 0

variable (v : Vec)

def clear : Vec := withCapacity v.capacity

/-- The room left before the next allocation. -/
def spare : Nat := v.capacity - v.bytes.length

/-- `Vec::reserve`, which at least doubles a capacity that does not suffice. -/
def reserve (additional : Nat) : Vec :=
  if v.spare < additional then
    { bytes := v.bytes
      capacity := max (2 * v.capacity) (v.bytes.length + additional)
      length_le := by have := v.length_le; omega }
  else v

def reserveExact (additional : Nat) : Vec :=
  if v.spare < additional then
    { bytes := v.bytes
      capacity := v.bytes.length + additional
      length_le := Nat.le_add_right _ _ }
  else v

def write (piece : Piece v.spare) : Vec where
  bytes := v.bytes ++ piece.val
  capacity := v.capacity
  length_le := by
    have hpiece := piece.property
    have hle := v.length_le
    rw [List.length_append]
    unfold spare at hpiece
    omega

@[simp] theorem bytes_reserve (additional : Nat) : (v.reserve additional).bytes = v.bytes := by
  unfold reserve
  split <;> rfl

theorem le_spare_reserve (additional : Nat) : additional ≤ (v.reserve additional).spare := by
  by_cases h : v.spare < additional
  · rw [reserve, if_pos h]
    change additional ≤ max (2 * v.capacity) (v.bytes.length + additional) - v.bytes.length
    omega
  · rw [reserve, if_neg h]
    omega

@[simp] theorem bytes_reserveExact (additional : Nat) :
    (v.reserveExact additional).bytes = v.bytes := by
  unfold reserveExact
  split <;> rfl

theorem le_spare_reserveExact (additional : Nat) :
    additional ≤ (v.reserveExact additional).spare := by
  by_cases h : v.spare < additional
  · rw [reserveExact, if_pos h]
    change additional ≤ v.bytes.length + additional - v.bytes.length
    omega
  · rw [reserveExact, if_neg h]
    omega

@[simp] theorem bytes_write (piece : Piece v.spare) :
    (v.write piece).bytes = v.bytes ++ piece.val := rfl

theorem spare_write (piece : Piece v.spare) :
    (v.write piece).spare = v.spare - piece.val.length := by
  change v.capacity - (v.bytes ++ piece.val).length = v.capacity - v.bytes.length - _
  rw [List.length_append, Nat.sub_sub]

end Vec

section Loops

variable (F : Flate2)

/-- A turn of the loop of `compress_into`, which panics where the input is sliced out of
range. -/
def compressTurn (input : Bytes) : F.Compress × Vec →
    Option (F.Compress × Vec ⊕ F.Compress × Vec × Except ProtocolError Unit)
  | (compressor, out) =>
    let consumed := F.compressTotalIn compressor
    if input.length < consumed then none
    else
      match F.compressVec compressor (input.drop consumed) out.spare with
      | (compressor, piece, .error message) =>
          some (.inr (compressor, out.write piece, .error (.compression message)))
      | (compressor, piece, .ok status) =>
          let next := out.write piece
          if status = .streamEnd then some (.inr (compressor, next, .ok ()))
          else if next.bytes.length = out.bytes.length then
            some (.inl (compressor, next.reserve (max next.capacity 64)))
          else some (.inl (compressor, next))

/-- The loop of `compress_into`.  The result is `none` where the source does not
return: the loop runs on, or a turn panics. -/
def compressLoop (input : Bytes) (compressor : F.Compress) (out : Vec) :
    Option (F.Compress × Vec × Except ProtocolError Unit) :=
  Lib.Loop.run { turn := compressTurn F input } (compressor, out)

def compressInto (compressor : F.Compress) (input : Bytes) (out : Vec) :
    Option (F.Compress × Vec × Except ProtocolError Unit) :=
  compressLoop F input (F.resetCompress compressor) (out.clear.reserve (input.length / 2 + 64))

/-- The loop of `decompress_exact`. -/
def decompressLoop (input : Bytes) (decompressor : F.Decompress) (out : Vec) :
    F.Decompress × Except ProtocolError Vec :=
  let consumed := F.decompressTotalIn decompressor
  if input.length < consumed then
    (decompressor, .error (.compression "zlib stream consumed more than was supplied"))
  else
    match F.decompressVec decompressor (input.drop consumed) out.spare with
    | (decompressor, _, .error message) => (decompressor, .error (.compression message))
    | (decompressor, piece, .ok status) =>
        if status = .streamEnd then (decompressor, .ok (out.write piece))
        else if _ : (out.write piece).bytes.length = out.bytes.length then
          (decompressor, .error (.compression
            "truncated zlib stream, or larger than its declared size"))
        else decompressLoop input decompressor (out.write piece)
termination_by out.spare
decreasing_by
  rename_i hprogress
  have hpiece := piece.property
  rw [Vec.bytes_write, List.length_append] at hprogress
  rw [Vec.spare_write]
  omega

/-- Inflates `input` and requires the result to be exactly `expected` bytes. -/
def decompressExact (decompressor : F.Decompress) (input : Bytes) (expected : Nat) :
    F.Decompress × Except ProtocolError Bytes :=
  match decompressLoop F input (F.resetDecompress decompressor true)
      (Vec.new.clear.reserveExact expected) with
  | (decompressor, .error e) => (decompressor, .error e)
  | (decompressor, .ok out) =>
      if out.bytes.length ≠ expected then
        (decompressor, .error (.compression
          ("zlib stream produced " ++ toString out.bytes.length ++ " bytes, declared " ++
            toString expected)))
      else (decompressor, .ok out.bytes)

end Loops

/-! ## What the loops compute -/

section Specs

variable {F : Flate2}

theorem decompressExact_length {decompressor decompressor' : F.Decompress} {input bytes : Bytes}
    {expected : Nat}
    (h : decompressExact F decompressor input expected = (decompressor', .ok bytes)) :
    bytes.length = expected := by
  unfold decompressExact at h
  split at h
  · simp at h
  · split at h
    · simp at h
    · rename_i hlength
      simp only [Prod.mk.injEq, Except.ok.injEq] at h
      rw [← h.2]
      exact not_not.mp hlength

variable {deflated : Bytes → Bytes} {Deflating : F.Compress → Bytes → Bytes → Prop}
  (hF : F.Inflates deflated Deflating)

include hF

/-- A turn ends the stream, writes more of it or makes room for it.  What is left is counted
twice, and once more when there is no room. -/
theorem compressTurn_advances {input : Bytes} (s : F.Compress × Vec)
    (hs : Deflating s.1 input s.2.bytes ∧ s.2.bytes <+: deflated input) :
    Lib.Loop.Advances { turn := compressTurn F input }
      (fun s => Deflating s.1 input s.2.bytes ∧ s.2.bytes <+: deflated input)
      (fun s => 2 * ((deflated input).length - s.2.bytes.length) + if s.2.spare = 0 then 1 else 0)
      (fun _ result => result.2.2 = .ok () ∧ result.2.1.bytes = deflated input) s := by
  obtain ⟨compressor, out⟩ := s
  change Deflating compressor input out.bytes ∧ out.bytes <+: deflated input at hs
  obtain ⟨hdeflating, hwritten⟩ := hs
  obtain ⟨next, piece, status, hcall, hnext, hextends, hend, hprogress⟩ :=
    hF.compress out.spare hdeflating
  have hin := hF.totalIn_le hdeflating
  have hle := hextends.length_le
  rw [List.length_append] at hle
  have hturn : compressTurn F input (compressor, out) =
      if status = .streamEnd then some (.inr (next, out.write piece, .ok ()))
      else if (out.write piece).bytes.length = out.bytes.length then
        some (.inl (next, (out.write piece).reserve (max (out.write piece).capacity 64)))
      else some (.inl (next, out.write piece)) := by
    simp only [compressTurn, if_neg (by omega : ¬ input.length < F.compressTotalIn compressor),
      hcall]
  by_cases hstatus : status = .streamEnd
  · rw [if_pos hstatus] at hturn
    exact .done hturn ⟨rfl, hend hstatus⟩
  rw [if_neg hstatus] at hturn
  by_cases hpiece : piece.val = []
  · have hfull : out.spare = 0 := by
      by_contra hroom
      exact hprogress hstatus (Nat.pos_of_ne_zero hroom) hpiece
    have hsame : (out.write piece).bytes = out.bytes := by
      rw [Vec.bytes_write, hpiece, List.append_nil]
    have hroom := (out.write piece).le_spare_reserve (max (out.write piece).capacity 64)
    rw [if_pos (by rw [hsame])] at hturn
    refine .next hturn ⟨?_, ?_⟩ ?_ fun _ hresult => hresult
    · rw [Vec.bytes_reserve]
      exact hnext
    · rw [Vec.bytes_reserve]
      exact hextends
    · dsimp only
      rw [Vec.bytes_reserve, hsame, if_neg (by omega), if_pos hfull]
      omega
  · have hpos := List.length_pos_iff.mpr hpiece
    rw [if_neg (by rw [Vec.bytes_write, List.length_append]; omega)] at hturn
    refine .next hturn ⟨hnext, hextends⟩ ?_ fun _ hresult => hresult
    dsimp only
    rw [Vec.bytes_write, List.length_append]
    split <;> split <;> omega

theorem compressInto_eq (compressor : F.Compress) (input : Bytes) (out : Vec) :
    ∃ compressor' out', compressInto F compressor input out = some (compressor', out', .ok ()) ∧
      out'.bytes = deflated input := by
  have hempty : (out.clear.reserve (input.length / 2 + 64)).bytes = [] := Vec.bytes_reserve _ _
  have hinit : Deflating (F.resetCompress compressor) input
      (out.clear.reserve (input.length / 2 + 64)).bytes ∧
      (out.clear.reserve (input.length / 2 + 64)).bytes <+: deflated input := by
    rw [hempty]
    exact ⟨hF.reset compressor input, List.nil_prefix⟩
  obtain ⟨⟨compressor', out', _⟩, hrun, rfl, hbytes⟩ :=
    Lib.Loop.run_spec _ (compressTurn_advances hF)
      (s := (F.resetCompress compressor, out.clear.reserve (input.length / 2 + 64))) hinit
  exact ⟨compressor', out', hrun, hbytes⟩

theorem decompressExact_eq (decompressor : F.Decompress) (data : Bytes) :
    ∃ decompressor', decompressExact F decompressor (deflated data) data.length =
      (decompressor', .ok data) := by
  have hroom := Vec.new.clear.le_spare_reserveExact data.length
  obtain ⟨next, piece, hcall, hpiece⟩ := hF.inflate decompressor data _ hroom
  have hbytes : ((Vec.new.clear.reserveExact data.length).write piece).bytes = data := by
    rw [Vec.bytes_write, Vec.bytes_reserveExact, hpiece]
    rfl
  refine ⟨next, ?_⟩
  rw [decompressExact, decompressLoop, hF.totalIn_reset]
  simp only [Nat.not_lt_zero, if_false, List.drop_zero, hcall, if_true, hbytes, ne_eq,
    not_true_eq_false]

end Specs

/-! ## Libraries given by a pair of functions -/

namespace Flate2

/-- The stream is made at the first call and handed out as the room permits. -/
def ofPair (zlib : Bytes → Bytes) (unzlib : Bytes → Option Bytes) : Flate2 where
  Compress := Option Bytes × Nat
  newCompress _ _ := (none, 0)
  resetCompress _ := (none, 0)
  compressTotalIn compressor := compressor.2
  compressVec compressor input room :=
    let left := compressor.1.getD (zlib input)
    ((some (left.drop room), compressor.2 + input.length),
      ⟨left.take room, List.length_take_le room left⟩,
      .ok (if left.length ≤ room then .streamEnd else .ok))
  Decompress := Nat
  newDecompress _ := 0
  resetDecompress _ _ := 0
  decompressTotalIn decompressor := decompressor
  decompressVec decompressor input room :=
    match unzlib input with
    | none => (decompressor, ⟨[], Nat.zero_le room⟩, .error "deflate decompression error")
    | some data =>
        if h : data.length ≤ room then
          (decompressor + input.length, ⟨data, h⟩, .ok .streamEnd)
        else (decompressor, ⟨[], Nat.zero_le room⟩, .ok .bufError)

/-- Before the first call nothing was taken in or written; after it, what is left
completes the stream. -/
def PairDeflating (zlib : Bytes → Bytes) (compressor : Option Bytes × Nat) (data written : Bytes) :
    Prop :=
  match compressor.1 with
  | none => compressor.2 = 0 ∧ written = []
  | some left => compressor.2 = data.length ∧ written ++ left = zlib data

theorem ofPair_inflates {zlib : Bytes → Bytes} {unzlib : Bytes → Option Bytes}
    (h : ∀ data, unzlib (zlib data) = some data) :
    (ofPair zlib unzlib).Inflates zlib (PairDeflating zlib) where
  reset _ _ := ⟨rfl, rfl⟩
  totalIn_le := by
    rintro ⟨_ | left, totalIn⟩ data written hdeflating
    · exact hdeflating.1.trans_le (Nat.zero_le _)
    · exact hdeflating.1.le
  compress := by
    rintro ⟨state, totalIn⟩ data written room hdeflating
    obtain ⟨left, hleft⟩ : ∃ left, state.getD (zlib (data.drop totalIn)) = left := ⟨_, rfl⟩
    have hcall : (ofPair zlib unzlib).compressVec (state, totalIn) (data.drop totalIn) room =
        ((some (left.drop room), totalIn + (data.drop totalIn).length),
          ⟨left.take room, List.length_take_le room left⟩,
          .ok (if left.length ≤ room then .streamEnd else .ok)) := by
      subst hleft
      rfl
    have hstream : written ++ left = zlib data ∧
        totalIn + (data.drop totalIn).length = data.length := by
      rw [← hleft]
      cases state with
      | none =>
          obtain ⟨htotal, rfl⟩ := hdeflating
          change totalIn = 0 at htotal
          subst htotal
          exact ⟨rfl, Nat.zero_add _⟩
      | some left =>
          obtain ⟨htotal, hwritten⟩ := hdeflating
          change totalIn = data.length at htotal
          refine ⟨hwritten, ?_⟩
          rw [List.length_drop]
          omega
    obtain ⟨hstream, htotal⟩ := hstream
    have hsplit : written ++ left.take room ++ left.drop room = zlib data := by
      rw [List.append_assoc, List.take_append_drop, hstream]
    refine ⟨_, _, _, hcall, ⟨htotal, hsplit⟩, ⟨_, hsplit⟩, ?_, ?_⟩
    · intro hstatus
      split at hstatus
      · rename_i hfits
        change written ++ left.take room = _
        rw [List.take_of_length_le hfits, hstream]
      · cases hstatus
    · intro hstatus hroom hempty
      split at hstatus
      · exact hstatus rfl
      · have hlength := congrArg List.length hempty
        rw [List.length_take] at hlength
        change min room left.length = 0 at hlength
        omega
  totalIn_reset _ := rfl
  inflate decompressor data room hroom := by
    have hcall : (ofPair zlib unzlib).decompressVec (0 : Nat) (zlib data) room =
        ((0 : Nat) + (zlib data).length, ⟨data, hroom⟩, .ok .streamEnd) := by
      simp only [ofPair, h, dif_pos hroom]
    exact ⟨_, _, hcall, rfl⟩

/-- One packet has the given stream; every other one is stored behind a zero byte. -/
def storing (packet stream : Bytes) : Flate2 :=
  ofPair (fun data => if data = packet then stream else 0 :: data)
    (fun input => if input = stream then some packet else input.tail?)

theorem storing_inflates (packet stream : Bytes) (hstream : ∀ data, 0 :: data ≠ stream) :
    (storing packet stream).Inflates (fun data => if data = packet then stream else 0 :: data)
      (PairDeflating fun data => if data = packet then stream else 0 :: data) := by
  apply ofPair_inflates
  intro data
  by_cases hdata : data = packet
  · rw [if_pos hdata, if_pos rfl, hdata]
  · rw [if_neg hdata, if_neg (hstream data)]
    rfl

end Flate2

end Rukkit.Protocol
