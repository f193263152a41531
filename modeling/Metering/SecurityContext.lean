import Metering.SecretKey
import Metering.Step
set_option autoImplicit false

/-! # The security context of a session

Every secured session announces an initialization vector that must never come twice under one
key. It is normally the time in seconds, and one more than the last vector where the clock has
not moved on. A caller may choose the next vector once; the rule is the same. When the largest
vector was used the key is exhausted. -/

namespace Metering

/-- Key, clock and used vectors of a session. -/
structure SecurityContext where
  key : SecretKey
  keyId : UInt8
  eax : Eax
  /-- The last vector given out. -/
  lastVector : Option UInt32
  /-- A vector chosen by the caller for the next time. -/
  chosenVector : Option UInt32
  /-- Seconds since 1970. -/
  clock : UInt64

namespace SecurityContext

/-- A context without a past. -/
def ofKey (key : SecretKey) (keyId : UInt8) (clock : UInt64) : Except Fault SecurityContext := do
  return { key, keyId, eax := ← key.eax, lastVector := none, chosenVector := none, clock }

/-- Chooses the next vector. -/
def choose (iv : UInt32) (c : SecurityContext) : SecurityContext :=
  { c with chosenVector := some iv }

/-- The vector that would be used if it had not been used before. -/
def candidate (c : SecurityContext) : UInt32 := c.chosenVector.getD c.clock.toUInt32

/-- Gives out the next vector, above every one before. -/
def nextVector : Step SecurityContext UInt32 := do
  let c ← get
  let wanted := c.candidate
  set { c with chosenVector := none }
  let iv ← match c.lastVector with
    | some last =>
      if wanted ≤ last then
        if last = 0xFFFFFFFF then throw (.security .vectorsExhausted) else pure (last + 1)
      else pure wanted
    | none => pure wanted
  modify ({ · with lastVector := some iv })
  return iv

/-- Overwrites the key with zeros and forgets the vectors. -/
def clear (c : SecurityContext) : SecurityContext :=
  let key := c.key.clear
  match key.eax with
  | .ok eax => { c with key, eax, lastVector := none, chosenVector := none }
  | .error _ => { c with key }

/-- The key was wiped, or is all zeros. -/
def isCleared (c : SecurityContext) : Bool := c.key.isCleared

/-- The text for diagnostics. -/
def text (c : SecurityContext) : String :=
  let last := match c.lastVector with
    | none => "None"
    | some iv => "Some(" ++ toString iv.toNat ++ ")"
  "SecurityContext \x7b key: " ++ c.key.text ++ ", key_id: " ++ toString c.keyId.toNat ++
    ", last_iv: " ++ last ++ " \x7d"

end SecurityContext

end Metering
