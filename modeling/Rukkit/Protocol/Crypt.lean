import Rukkit.Protocol.Error

/-!
# Stream encryption

The model of `rukkit-protocol/src/crypt.rs`.  The byte-wise cipher of the `cfb8`
crate, which is not part of the repository, is a parameter.
-/

namespace Rukkit.Protocol

/-- Length of the shared secret, which doubles as the initial vector. -/
def sharedSecretLen : Nat := 16

/-- `Aes128Cfb8Enc` and `Aes128Cfb8Dec`, which take one byte at a time. -/
structure Cfb8 where
  Enc : Type
  newEnc : (key iv : Bytes) → Enc
  encryptBlock : Enc → UInt8 → Enc × UInt8
  Dec : Type
  newDec : (key iv : Bytes) → Dec
  decryptBlock : Dec → UInt8 → Dec × UInt8

/-- What the codec relies on: ciphers made from one secret are in step, and a byte
taken through both comes back and leaves them in step. -/
structure Cfb8.Inverts (K : Cfb8) (InStep : K.Enc → K.Dec → Prop) : Prop where
  new : ∀ secret, InStep (K.newEnc secret secret) (K.newDec secret secret)
  block : ∀ {enc dec} byte, InStep enc dec →
    (K.decryptBlock dec (K.encryptBlock enc byte).2).2 = byte ∧
    InStep (K.encryptBlock enc byte).1 (K.decryptBlock dec (K.encryptBlock enc byte).2).1

/-- The shared secret has the wrong length. -/
structure BadSecretLength where
  len : Nat
deriving DecidableEq, Repr

structure Encryptor (K : Cfb8) where
  inner : K.Enc

structure Decryptor (K : Cfb8) where
  inner : K.Dec

variable {K : Cfb8}

namespace Encryptor

def new (secret : Bytes) : Except BadSecretLength (Encryptor K) :=
  if secret.length ≠ sharedSecretLen then .error ⟨secret.length⟩
  else .ok ⟨K.newEnc secret secret⟩

/-- The bytes of `data` one after the other. -/
def encrypt (e : Encryptor K) : (data : Bytes) → Encryptor K × Bytes
  | [] => (e, [])
  | byte :: data =>
      let (inner, byte) := K.encryptBlock e.inner byte
      let (e, data) := encrypt ⟨inner⟩ data
      (e, byte :: data)

end Encryptor

namespace Decryptor

def new (secret : Bytes) : Except BadSecretLength (Decryptor K) :=
  if secret.length ≠ sharedSecretLen then .error ⟨secret.length⟩
  else .ok ⟨K.newDec secret secret⟩

def decrypt (d : Decryptor K) : (data : Bytes) → Decryptor K × Bytes
  | [] => (d, [])
  | byte :: data =>
      let (inner, byte) := K.decryptBlock d.inner byte
      let (d, data) := decrypt ⟨inner⟩ data
      (d, byte :: data)

theorem decrypt_append (d : Decryptor K) (data data' : Bytes) :
    d.decrypt (data ++ data') = (((d.decrypt data).1.decrypt data').1,
      (d.decrypt data).2 ++ ((d.decrypt data).1.decrypt data').2) := by
  induction data generalizing d with
  | nil => rfl
  | cons byte data ih => simp only [List.cons_append, decrypt, ih]

theorem length_decrypt (d : Decryptor K) (data : Bytes) :
    (d.decrypt data).2.length = data.length := by
  induction data generalizing d with
  | nil => rfl
  | cons byte data ih => simp only [decrypt, List.length_cons, ih]

end Decryptor

/-- Decrypting what was encrypted gives it back and leaves the ciphers in step. -/
theorem decrypt_encrypt {InStep : K.Enc → K.Dec → Prop} (hK : K.Inverts InStep) {e : Encryptor K}
    {d : Decryptor K} (hstep : InStep e.inner d.inner) (data : Bytes) :
    (d.decrypt (e.encrypt data).2).2 = data ∧
      InStep (e.encrypt data).1.inner (d.decrypt (e.encrypt data).2).1.inner := by
  induction data generalizing e d with
  | nil => exact ⟨rfl, hstep⟩
  | cons byte data ih =>
      obtain ⟨hbyte, hnext⟩ := hK.block byte hstep
      obtain ⟨hdata, hend⟩ := ih (e := ⟨_⟩) (d := ⟨_⟩) hnext
      refine ⟨?_, hend⟩
      simp only [Encryptor.encrypt, Decryptor.decrypt, hbyte, hdata]

/-- A cipher that adds a fixed key stream to the bytes. -/
def keyStream (key : Bytes) : Cfb8 where
  Enc := Bytes
  newEnc _ _ := key
  encryptBlock left byte := (left.tail, byte ^^^ left.headD 0)
  Dec := Bytes
  newDec _ _ := key
  decryptBlock left byte := (left.tail, byte ^^^ left.headD 0)

theorem keyStream_inverts (key : Bytes) : (keyStream key).Inverts (· = ·) where
  new _ := rfl
  block := by
    rintro enc dec byte rfl
    refine ⟨?_, rfl⟩
    change byte ^^^ List.headD enc 0 ^^^ List.headD enc 0 = byte
    rw [UInt8.xor_assoc, UInt8.xor_self, UInt8.xor_zero]

end Rukkit.Protocol
