/-!
# Protocol errors

The model of `rukkit-protocol/src/error.rs`: the error type shared by every
decoding and encoding path, with the data each variant carries.
-/

namespace Rukkit.Protocol

/-- The byte slices and byte vectors of the source. -/
abbrev Bytes := List UInt8

inductive ProtocolError where
  | unexpectedEof (needed available : Nat)
  | varIntTooLong (max : Nat)
  | stringTooLong (len max : Nat)
  | stringTooManyChars (len max : Nat)
  | invalidUtf8
  | negativeLength (raw : Int32)
  | lengthLimitExceeded (len max : Nat)
  | frameTooLarge (len max : Nat)
  | invalidEnum (kind : String) (value : Int64)
  | unknownPacket (state : String) (id : Int32)
  | trailingBytes (state : String) (id : Int32) (trailing : Nat)
  | nbt (reason : String)
  | nbtTooDeep (max : Nat)
  | compression (message : String)
  | decompressedTooLarge (len max : Nat)
  | badlyCompressed (size threshold : Nat)
deriving DecidableEq, Repr

end Rukkit.Protocol
