import Rukkit.Protocol.CheckedReader
import Rukkit.Protocol.Codec

/-!
# Decoder with its panics

`Decoder::decode` and `decompress_exact` of `codec.rs` with every `advance`, `split_to` and
slice as an operation that panics out of range.  From any state of the decoder, whatever
was fed to it and in whatever pieces, none does.
-/

namespace Rukkit.Protocol

open Rukkit.Lib Rukkit.Lib.Checked

namespace Checked

section Inflate

variable (F : Flate2)

/-- A turn of the loop of `decompress_exact`, which slices `&input[consumed..]`. -/
def decompressTurn (input : Bytes) : F.Decompress × Vec →
    Option (F.Decompress × Vec ⊕ F.Decompress × Except ProtocolError Vec)
  | (decompressor, out) =>
    let consumed := F.decompressTotalIn decompressor
    if input.length < consumed then
      some (.inr (decompressor, .error
        (.compression "zlib stream consumed more than was supplied")))
    else do
      let rest ← sliceFrom input consumed
      match F.decompressVec decompressor rest out.spare with
      | (decompressor, _, .error message) =>
          some (.inr (decompressor, .error (.compression message)))
      | (decompressor, piece, .ok status) =>
          if status = .streamEnd then some (.inr (decompressor, .ok (out.write piece)))
          else if (out.write piece).bytes.length = out.bytes.length then
            some (.inr (decompressor, .error (.compression
              "truncated zlib stream, or larger than its declared size")))
          else some (.inl (decompressor, out.write piece))

def decompressLoop (input : Bytes) (decompressor : F.Decompress) (out : Vec) :
    Option (F.Decompress × Except ProtocolError Vec) :=
  Loop.run { turn := decompressTurn F input } (decompressor, out)

def decompressExact (decompressor : F.Decompress) (input : Bytes) (expected : Nat) :
    Option (F.Decompress × Except ProtocolError Bytes) := do
  match ← decompressLoop F input (F.resetDecompress decompressor true)
      (Vec.new.clear.reserveExact expected) with
  | (decompressor, .error e) => some (decompressor, .error e)
  | (decompressor, .ok out) =>
      if out.bytes.length ≠ expected then
        some (decompressor, .error (.compression
          ("zlib stream produced " ++ toString out.bytes.length ++ " bytes, declared " ++
            toString expected)))
      else some (decompressor, .ok out.bytes)

/-- A turn that goes on has used up room, so the loop ends. -/
theorem decompressLoop_eq (input : Bytes) (decompressor : F.Decompress) (out : Vec) :
    decompressLoop F input decompressor out =
      some (Protocol.decompressLoop F input decompressor out) := by
  induction hroom : out.spare using Nat.strong_induction_on generalizing decompressor out with
  | h room ih =>
      rw [decompressLoop, Loop.run_eq, Protocol.decompressLoop]
      dsimp only [decompressTurn]
      split
      · rfl
      · rename_i hconsumed
        rw [sliceFrom_eq (Nat.not_lt.mp hconsumed), Option.bind_eq_bind, Option.bind_some]
        rcases F.decompressVec decompressor _ out.spare with ⟨next, piece, message | status⟩
        · rfl
        · dsimp only
          split
          · rfl
          · by_cases hsame : (out.write piece).bytes.length = out.bytes.length
            · rw [if_pos hsame, dif_pos hsame]
              rfl
            · rw [if_neg hsame, dif_neg hsame]
              apply ih _ _ next (out.write piece) rfl
              have hpiece := piece.property
              rw [Vec.bytes_write, List.length_append] at hsame
              rw [Vec.spare_write]
              omega

theorem decompressExact_eq (decompressor : F.Decompress) (input : Bytes) (expected : Nat) :
    decompressExact F decompressor input expected =
      some (Protocol.decompressExact F decompressor input expected) := by
  rw [decompressExact, Protocol.decompressExact, decompressLoop_eq, Option.bind_eq_bind,
    Option.bind_some]
  rcases Protocol.decompressLoop F input _ _ with ⟨next, e | out⟩
  · rfl
  · dsimp only
    split <;> rfl

end Inflate

variable {F : Flate2} {K : Cfb8}

def unpack (d : Decoder F K) (frame : Bytes) :
    Option (Decoder F K × Except ProtocolError (Option Bytes)) :=
  match d.compression with
  | none => some (d, .ok (some frame))
  | some threshold => do
      match ← (readVarint frame).run with
      | .error e => some (d, .error e)
      | .ok (rawLen, used) =>
          if rawLen = 0 then
            let body ← sliceFrom frame used
            some (d, .ok (some body))
          else if rawLen < 0 then some (d, .error (.negativeLength rawLen))
          else
            let dataLen := rawLen.toNatClampNeg
            if dataLen < threshold then some (d, .error (.badlyCompressed dataLen threshold))
            else if d.maxFrame < dataLen then
              some (d, .error (.decompressedTooLarge dataLen d.maxFrame))
            else
              let input ← sliceFrom frame used
              let (decompressor, result) ← decompressExact F d.decompressor input dataLen
              some ({ d with decompressor := decompressor }, result.map some)

def decode (d : Decoder F K) : Option (Decoder F K × Except ProtocolError (Option Bytes)) := do
  match ← (readVarint d.buffer).run with
  | .error (.unexpectedEof _ _) => some (d, .ok none)
  | .error e => some (d, .error e)
  | .ok (rawLen, headerLen) =>
      if rawLen < 0 then some (d, .error (.negativeLength rawLen))
      else
        let frameLen := rawLen.toNatClampNeg
        if d.maxFrame < frameLen then some (d, .error (.frameTooLarge frameLen d.maxFrame))
        else if d.buffer.length < headerLen + frameLen then some (d, .ok none)
        else
          let rest ← sliceFrom d.buffer headerLen
          let (frame, rest) ← splitTo rest frameLen
          unpack { d with buffer := rest } frame

theorem run_readVarint (buf : Bytes) : (readVarint buf).run = some (Protocol.readVarint buf) :=
  readVarint_eq buf

theorem unpack_eq (d : Decoder F K) (frame : Bytes) : unpack d frame = some (d.unpack frame) := by
  unfold unpack Decoder.unpack
  cases d.compression with
  | none => rfl
  | some threshold =>
      dsimp only
      rw [run_readVarint, Option.bind_eq_bind, Option.bind_some]
      cases hread : Protocol.readVarint frame with
      | error e => rfl
      | ok found =>
          obtain ⟨rawLen, used⟩ := found
          have hused := (readVarint_used hread).2.2
          dsimp only
          rw [sliceFrom_eq hused]
          split
          · rfl
          · split
            · rfl
            · split
              · rfl
              · split
                · rfl
                · rw [Option.bind_eq_bind, Option.bind_some, decompressExact_eq]
                  rfl

theorem decode_eq (d : Decoder F K) : decode d = some d.decode := by
  rw [decode, Decoder.decode, run_readVarint, Option.bind_eq_bind, Option.bind_some]
  rcases hread : Protocol.readVarint d.buffer with e | ⟨rawLen, headerLen⟩
  · cases e <;> rfl
  · have hused := (readVarint_used hread).2.2
    dsimp only
    split
    · rfl
    · split
      · rfl
      · split
        · rfl
        · rename_i hbuffer
          rw [sliceFrom_eq hused, Option.bind_eq_bind, Option.bind_some, splitTo_eq,
            Option.bind_eq_bind, Option.bind_some]
          · exact unpack_eq _ _
          · rw [List.length_drop]
            omega

end Checked

end Rukkit.Protocol
