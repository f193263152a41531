import Metering.Cipher.Block
import Metering.Fault
set_option autoImplicit false

/-! # Authenticated encryption

The mode of the network standard protects a body under a cleartext that is sent along. A chain
of block encryptions over the cleartext gives the nonce; the body is encrypted in counter mode
from the nonce; a second chain over the encrypted body, added to the nonce, gives the tag, of
which the last four bytes are sent. Without a body the tag is cut from the nonce itself.

The two chains are kept apart by their start values `d` and `q`, which are also what the last
block is mixed with, whole or padded. The mode works with any function on blocks. -/

namespace Metering

/-- The number of tag bytes that are sent. -/
def tagLength : Nat := 4

namespace Block

/-- The block times two: every byte moves up by one bit and hands its top bit to the next byte,
and the bit that leaves the last byte comes back as `0x87` in the first one. -/
def double (b : Block) : Block :=
  Vector.ofFn fun i =>
    let carried : UInt8 :=
      if i.val = 0 then (if b.getD 15 0 >>> 7 = 0 then 0 else 0x87) else b.getD (i.val - 1) 0 >>> 7
    (b.get i <<< 1) ^^^ carried

/-- Adds the bytes of a run to the front of a block. -/
def xorFront (b : Block) (bytes : Bytes) : Block :=
  Vector.ofFn fun i => b.get i ^^^ bytes.getD i.val 0

/-- The last four bytes. -/
def tag (b : Block) : Bytes := b.bytes.drop (16 - tagLength)

end Block

/-- The mode under one key. -/
structure Eax where
  /-- Encryption of one block. -/
  encrypt : Block → Block
  /-- Start of the chain over the cleartext, and mixed into a whole last block. -/
  d : Block
  /-- Start of the chain over the body, and mixed into a padded last block. -/
  q : Block

namespace Eax

/-- The mode over a function on blocks. -/
def ofCipher (encrypt : Block → Block) : Eax :=
  let d := (encrypt Block.zero).double
  { encrypt, d, q := d.double }

/-! ## The chain -/

/-- The end of a chain: a whole block is mixed with `d`; a shorter one is padded with a one bit
and mixed with `q`. -/
def lastBlock (e : Eax) (start : Block) (tail : Bytes) : Block :=
  if tail.length = 16 then e.encrypt ((start.xorFront tail).xor e.d)
  else e.encrypt ((start.xorFront (tail ++ [0x80])).xor e.q)

/-- The chain over `data` from `start`; nothing is done for no data. -/
def chain (e : Eax) (start : Block) (data : Bytes) : Block :=
  if data.isEmpty then start
  else
    let whole := (data.length - 1) / 16 * 16
    let before := (Bytes.chunks 16 (data.take whole)).foldl (fun b c => e.encrypt (b.xorFront c)) start
    e.lastBlock before (data.drop whole)

/-- The block that a cleartext is bound to. -/
def nonce (e : Eax) (cleartext : Bytes) : Block := e.chain e.d cleartext

/-! ## Counter mode -/

/-- The first counter: the nonce with two bits cleared. -/
def firstCounter (n : Block) : Block :=
  Vector.ofFn fun i => if i.val = 12 ∨ i.val = 14 then n.get i &&& 0x7F else n.get i

/-- Adds the key stream from a counter to the runs of a body. -/
def addStream (e : Eax) (counter : Nat) : List Bytes → Bytes
  | [] => []
  | c :: rest => Bytes.xor c (e.encrypt (Block.ofNat counter)).bytes ++ addStream e (counter + 1) rest

/-- Encrypts or decrypts a body: counter mode is its own inverse. -/
def applyStream (e : Eax) (n : Block) (body : Bytes) : Bytes :=
  e.addStream (firstCounter n).toNat (Bytes.chunks 16 body)

/-! ## Sealing and opening -/

/-- The tag of an encrypted body. -/
def bodyTag (e : Eax) (n : Block) (body : Bytes) : Bytes := ((e.chain e.q body).xor n).tag

/-- The tag of a cleartext without a body. -/
def authenticate (e : Eax) (cleartext : Bytes) : Bytes := (e.nonce cleartext).tag

/-- The encrypted body and its tag. -/
def encryptBody (e : Eax) (cleartext body : Bytes) : Bytes × Bytes :=
  let n := e.nonce cleartext
  if body.isEmpty then (body, n.tag)
  else
    let sealed := e.applyStream n body
    (sealed, e.bodyTag n sealed)

/-- The decrypted body and the tag that the encrypted one should have had. -/
def decryptBody (e : Eax) (cleartext body : Bytes) : Bytes × Bytes :=
  let n := e.nonce cleartext
  if body.isEmpty then (body, n.tag) else (e.applyStream n body, e.bodyTag n body)

/-- The encrypted body followed by its tag. -/
def sealWithTag (e : Eax) (cleartext body : Bytes) : Bytes :=
  let r := e.encryptBody cleartext body
  r.1 ++ r.2

/-- Two tags agree: same length and no bit differs. -/
def tagsAgree (expected received : Bytes) : Bool :=
  expected.length = received.length &&
    (List.zipWith (· ^^^ ·) expected received).foldl (· ||| ·) 0 = 0

/-- The body of sealed data. A wrong key, a changed body and a changed tag all fail alike. -/
def openWithTag (e : Eax) (cleartext data : Bytes) : Except Fault Bytes :=
  if data.length < tagLength then .error (.authentication .shorterThanTag)
  else
    let body := data.take (data.length - tagLength)
    let r := e.decryptBody cleartext body
    if tagsAgree r.2 (data.drop (data.length - tagLength)) then .ok r.1
    else .error (.authentication .tagMismatch)

end Eax

end Metering
