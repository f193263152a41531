import Metering.Acse.Parameters
set_option autoImplicit false

/-! # The secured cleartext

A secured body is bound to a cleartext that both sides derive from the APDU: the addressing
elements in a fixed order with titles made absolute, the key and vector element if it was sent,
the header of the body, the calling title, and the key and vector in force. -/

namespace Metering.Acse

/-- What the cleartext is derived from. -/
structure Addressing where
  context : String
  calledTitle : String
  calledId : Option UInt32
  callingTitle : String
  callingQualifier : Option UInt32
  callingId : Option UInt32
  deriving DecidableEq, Repr

/-- The cleartext that a body is bound to. -/
def cleartext (a : Addressing) (sent : Bool) (bodyHeader : Bytes) (auth : Authentication) :
    Except Fault Bytes := do
  let context ← uidElement contextTag a.context
  let called ← absoluteElement calledTitleTag a.context a.calledTitle
  let calling ← absoluteElement callingTitleTag a.context a.callingTitle
  return context ++ called ++ numberElement calledIdTag a.calledId ++
    numberElement callingQualifierTag a.callingQualifier ++
    numberElement callingIdTag a.callingId ++
    (if sent then auth.element else []) ++ bodyHeader ++ calling ++ auth.trailer

/-- The addressing elements as they are sent. -/
def addressing (a : Addressing) : Except Fault Bytes := do
  let context ← uidElement contextTag a.context
  let called ← uidElement calledTitleTag a.calledTitle
  let calling ← uidElement callingTitleTag a.callingTitle
  return context ++ called ++ numberElement calledIdTag a.calledId ++ calling ++
    numberElement callingQualifierTag a.callingQualifier ++
    numberElement callingIdTag a.callingId

end Metering.Acse
