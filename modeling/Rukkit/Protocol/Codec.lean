import Rukkit.Protocol.Crypt
import Rukkit.Protocol.Flate2
import Rukkit.Protocol.Writer

/-!
# Frame codec

The model of `rukkit-protocol/src/codec.rs`: length prefixing, optional zlib
compression, optional encryption.
-/

namespace Rukkit.Protocol

/-- Hard cap on a single frame. -/
def maxFrameLen : Nat := 2 * 1024 * 1024

/-- Packets at or above this length are compressed by default. -/
def defaultCompressionThreshold : Nat := 256

def compressionLevel : Nat := 6

variable {F : Flate2} {K : Cfb8}

/-- The bytes of a frame, encrypted in place if a cipher is on. -/
def encipher (encryptor : Option (Encryptor K)) (frame : Bytes) : Option (Encryptor K) × Bytes :=
  match encryptor with
  | some encryptor =>
      let (encryptor, frame) := encryptor.encrypt frame
      (some encryptor, frame)
  | none => (none, frame)

def decipher (decryptor : Option (Decryptor K)) (data : Bytes) : Option (Decryptor K) × Bytes :=
  match decryptor with
  | some decryptor =>
      let (decryptor, data) := decryptor.decrypt data
      (some decryptor, data)
  | none => (none, data)

/-! ## Decoder -/

/-- Splits an incoming byte stream into packet bodies. -/
structure Decoder (F : Flate2) (K : Cfb8) where
  buffer : Bytes
  compression : Option Nat
  decryptor : Option (Decryptor K)
  decompressor : F.Decompress
  maxFrame : Nat

namespace Decoder

def new : Decoder F K where
  buffer := []
  compression := none
  decryptor := none
  decompressor := F.newDecompress true
  maxFrame := maxFrameLen

variable (d : Decoder F K)

def enableCompression (threshold : Nat) : Decoder F K :=
  { d with compression := some threshold }

def enableEncryption (decryptor : Decryptor K) : Decoder F K :=
  { d with decryptor := some decryptor }

/-- Feeds freshly read bytes, deciphering them first. -/
def feed (data : Bytes) : Decoder F K :=
  let (decryptor, data) := decipher d.decryptor data
  { d with decryptor := decryptor, buffer := d.buffer ++ data }

/-- The second half of `decode`: the packet in a frame that was split off. -/
def unpack (frame : Bytes) : Decoder F K × Except ProtocolError (Option Bytes) :=
  match d.compression with
  | none => (d, .ok (some frame))
  | some threshold =>
      match readVarint frame with
      | .error e => (d, .error e)
      | .ok (rawLen, used) =>
          if rawLen = 0 then (d, .ok (some (frame.drop used)))
          else if rawLen < 0 then (d, .error (.negativeLength rawLen))
          else
            let dataLen := rawLen.toNatClampNeg
            if dataLen < threshold then (d, .error (.badlyCompressed dataLen threshold))
            else if d.maxFrame < dataLen then
              (d, .error (.decompressedTooLarge dataLen d.maxFrame))
            else
              let (decompressor, result) :=
                decompressExact F d.decompressor (frame.drop used) dataLen
              ({ d with decompressor := decompressor }, result.map some)

/-- Pops the next complete packet body, or `none` if more bytes are needed. -/
def decode : Decoder F K × Except ProtocolError (Option Bytes) :=
  match readVarint d.buffer with
  -- a partial length prefix means that more has to be read from the socket
  | .error (.unexpectedEof _ _) => (d, .ok none)
  | .error e => (d, .error e)
  | .ok (rawLen, headerLen) =>
      if rawLen < 0 then (d, .error (.negativeLength rawLen))
      else
        let frameLen := rawLen.toNatClampNeg
        if d.maxFrame < frameLen then (d, .error (.frameTooLarge frameLen d.maxFrame))
        else if d.buffer.length < headerLen + frameLen then (d, .ok none)
        else
          let rest := d.buffer.drop headerLen
          unpack { d with buffer := rest.drop frameLen } (rest.take frameLen)

end Decoder

/-! ## Encoder -/

/-- Serializes packet bodies into framed bytes. -/
structure Encoder (F : Flate2) (K : Cfb8) where
  compression : Option Nat
  encryptor : Option (Encryptor K)
  compressor : F.Compress
  scratch : Vec
  maxFrame : Nat

namespace Encoder

def new : Encoder F K where
  compression := none
  encryptor := none
  compressor := F.newCompress compressionLevel true
  scratch := Vec.withCapacity (8 * 1024)
  maxFrame := maxFrameLen

variable (e : Encoder F K)

def enableCompression (threshold : Nat) : Encoder F K :=
  { e with compression := some threshold }

def enableEncryption (encryptor : Encryptor K) : Encoder F K :=
  { e with encryptor := some encryptor }

/-- The first half of `encode`: the frame of a packet before encryption. -/
def frame (packet : Bytes) : Option (Encoder F K × Except ProtocolError Bytes) :=
  match e.compression with
  | none =>
      if e.maxFrame < packet.length then
        some (e, .error (.frameTooLarge packet.length e.maxFrame))
      else some (e, .ok (writeVarint (asI32 packet.length) ++ packet))
  | some threshold =>
      if packet.length < threshold then
        some (e, .ok (writeVarint (asI32 (1 + packet.length)) ++ writeVarint 0 ++ packet))
      else
        (compressInto F e.compressor packet e.scratch).map fun (compressor, scratch, result) =>
          let e := { e with compressor := compressor, scratch := scratch }
          match result with
          | .error err => (e, .error err)
          | .ok () =>
              let frameLen := varintLen (asI32 packet.length) + scratch.bytes.length
              if e.maxFrame < frameLen then (e, .error (.frameTooLarge frameLen e.maxFrame))
              else
                (e, .ok (writeVarint (asI32 frameLen) ++ writeVarint (asI32 packet.length) ++
                  scratch.bytes))

/-- Appends one framed packet to `out`. The result is `none` where the source does
not return. -/
def encode (packet out : Bytes) : Option (Encoder F K × Bytes × Except ProtocolError Unit) :=
  (e.frame packet).map fun (e, result) =>
    match result with
    | .error err => (e, out, .error err)
    | .ok frame =>
        let (encryptor, frame) := encipher e.encryptor frame
        ({ e with encryptor := encryptor }, out ++ frame, .ok ())

end Encoder

end Rukkit.Protocol
