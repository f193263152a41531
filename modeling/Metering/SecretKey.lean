import Metering.Cipher.Aes
import Metering.Cipher.Des
import Metering.Eax
set_option autoImplicit false

/-! # Secret keys

A key is checked for its length when it is taken over, is wiped by overwriting it with zeros,
and never shows its bytes. A key of zeros counts as wiped. -/

namespace Metering

/-- Symmetric key material. -/
structure SecretKey where
  bytes : Bytes
  deriving DecidableEq

namespace SecretKey

/-- Takes a key over whose length is one of the allowed ones. -/
def ofBytes (allowed : List Nat) (bytes : Bytes) : Except Fault SecretKey :=
  if bytes.length ∈ allowed then .ok ⟨bytes⟩
  else .error (.security (.keyLength allowed bytes.length))

/-- Takes over a key for AES with 128 bits. -/
def aes128 (bytes : Bytes) : Except Fault SecretKey := ofBytes [16] bytes

/-- The number of bytes. -/
def length (k : SecretKey) : Nat := k.bytes.length

/-- The key overwritten with zeros; its length stays. -/
def clear (k : SecretKey) : SecretKey := ⟨k.bytes.map fun _ => 0⟩

/-- Only zeros are left. -/
def isCleared (k : SecretKey) : Bool := k.bytes.all (· == 0)

/-- The text for diagnostics; it hides the bytes. -/
def text (k : SecretKey) : String := "SecretKey(" ++ toString k.length ++ " bytes, redacted)"

/-! ## Ciphers under a key -/

/-- The AES cipher of a key of sixteen bytes. -/
def aes (k : SecretKey) : Except Fault (BlockCipher 16) :=
  if k.length = 16 then .ok (Aes.cipher (Block.ofBytes k.bytes))
  else .error (.security (.aesKeyLength k.length))

/-- The DES cipher of a key of eight bytes. -/
def des (k : SecretKey) : Except Fault (BlockCipher 8) :=
  if k.length = 8 then .ok (Des.cipher (Vector.ofFn fun i => k.bytes.getD i.val 0))
  else .error (.security (.desKeyLength k.length))

/-- Authenticated encryption under the key. -/
def eax (k : SecretKey) : Except Fault Eax := do
  let c ← k.aes
  return Eax.ofCipher c.encrypt

end SecretKey

namespace BlockCipher

/-- Applies a function on blocks to data that is a whole number of blocks, and not none. -/
def onBlocks (f : Block → Block) (data : Bytes) : Except Fault Bytes :=
  if data.isEmpty ∨ data.length % 16 ≠ 0 then .error (.security (.notWholeBlocks data.length))
  else .ok ((Bytes.chunks 16 data).flatMap fun c => (f (Block.ofBytes c)).bytes)

/-- Encrypts block by block. -/
def encryptAll (c : BlockCipher 16) : Bytes → Except Fault Bytes := onBlocks c.encrypt

/-- Decrypts block by block. -/
def decryptAll (c : BlockCipher 16) : Bytes → Except Fault Bytes := onBlocks c.decrypt

end BlockCipher

end Metering
