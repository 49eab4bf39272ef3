import Cryptoki.Scheme
import Cryptoki.EncodingError
import Cryptoki.ReturnCode
import Cryptoki.SignatureValue

/-!
# `Cryptoki.EngineError` — why signing or verifying does not come to an answer

## Contents
- `KeyFault` — why a key is not accepted.
- `Shortage` — why there is no session.
- `Operation` — the token calls whose failure is reported by name.
- `StateFault` — what a call would have needed and did not find.
- `EngineError`, `EngineError.message`, `EngineError.mayPass` — all of them together.
- `EngineError.ofKeyFault` — what a fault of a key is reported as.
-/

namespace Cryptoki

/-- Why a key is not accepted. -/
inductive KeyFault
  /-- Its family is not the algorithm's. -/
  | wrongFamily (key : KeyFamily) (algorithm : SignatureAlgorithm)
  /-- It is the half that the mode does not work with. -/
  | wrongHalf (mode : OperationMode)
  /-- It is smaller than the token supports. -/
  | tooFewBits (key : KeyFamily) (min : Nat)
  /-- It is larger than the token supports. -/
  | tooManyBits (key : KeyFamily) (max : Nat)
  /-- No block of its size can be padded. -/
  | unpaddable (cause : EncodingError)
  /-- A padded block of its size does not hold the digest. -/
  | tooShortForDigest
  /-- How much the block has to hold cannot be told. -/
  | unknownDemand (cause : EncodingError)
  /-- The token does not accept it. -/
  | rejectedByToken (code : ReturnCode)
deriving DecidableEq, Repr

namespace KeyFault

/-- The fault in words. -/
def message : KeyFault → String
  | wrongFamily key algorithm => key.name ++ " key cannot be used with " ++ algorithm.name
  | wrongHalf mode => mode.name ++ " requires a " ++ mode.half.name ++ " key"
  | tooFewBits key min => key.name ++ " key must be at least " ++ toString min ++ " bits"
  | tooManyBits key max => key.name ++ " key must be at most " ++ toString max ++ " bits"
  | unpaddable cause => cause.message
  | tooShortForDigest => "Key is too short for this signature algorithm"
  | unknownDemand cause => cause.message
  | rejectedByToken code => "token rejected key: " ++ code.message

end KeyFault

/-- Why there is no session. -/
inductive Shortage
  /-- All sessions the pool may open are in use. -/
  | allInUse (max : Nat)
  /-- The token has no session to give. -/
  | refusedByToken
deriving DecidableEq, Repr

/-- The shortage in words. -/
def Shortage.message : Shortage → String
  | .allInUse max => "all " ++ toString max ++ " sessions in use"
  | .refusedByToken => "token refused to open a session"

/-- A token call whose failure is reported by name. -/
inductive Operation
  | openSession
  | signInit
  | verifyInit
  | signUpdate
  | verifyUpdate
  | signFinal
  | sign
  | verifyFinal
  | verify
  /-- The call that ends an operation that is given up. -/
  | cancel
deriving DecidableEq, Repr

namespace Operation

/-- The name in a report. -/
def name : Operation → String
  | openSession => "C_OpenSession"
  | signInit => "C_SignInit"
  | verifyInit => "C_VerifyInit"
  | signUpdate => "C_SignUpdate"
  | verifyUpdate => "C_VerifyUpdate"
  | signFinal => "C_SignFinal"
  | sign => "C_Sign"
  | verifyFinal => "C_VerifyFinal"
  | verify => "C_Verify"
  | cancel => "cancel"

end Operation

/-- What a call would have needed and did not find. -/
inductive StateFault
  | noKeyBound
  /-- The engine is initialized for this mode and not for the other. -/
  | initializedFor (mode : OperationMode)
  | noOperationMode
  | noSessionHeld
  | noLocalDigest
  | noRawBuffer
  | noLocalInput
  | noWindUpInput
deriving DecidableEq, Repr

namespace StateFault

/-- The fault in words. -/
def message : StateFault → String
  | noKeyBound => "no key bound"
  | initializedFor .sign => "engine initialized for signing"
  | initializedFor .verify => "engine initialized for verification"
  | noOperationMode => "no operation mode"
  | noSessionHeld => "no session held"
  | noLocalDigest => "no local digest in progress"
  | noRawBuffer => "no raw input buffer"
  | noLocalInput => "streamed operation has no local input"
  | noWindUpInput => "no input to finish the operation with"

end StateFault

/-- Why signing or verifying does not come to an answer. -/
inductive EngineError
  /-- The algorithm does not run on the mechanism. -/
  | unsupported (what : UnsupportedScheme)
  /-- The key is not accepted. -/
  | unacceptableKey (fault : KeyFault)
  /-- There is no session now; there may be one later. -/
  | noSession (shortage : Shortage)
  /-- The raw input does not have an allowed length. -/
  | wrongLength (rule : LengthRule)
  /-- A token call failed. -/
  | tokenFailure (operation : Operation) (code : ReturnCode)
  /-- The token returned a block that is no signature. -/
  | malformedBlock (cause : BlockError)
  /-- Data could not be prepared for the token. -/
  | encoding (cause : EncodingError)
  /-- The call came in a state that does not allow it. -/
  | wrongState (fault : StateFault)
deriving DecidableEq, Repr

/-- What raw input has to be, in words. -/
def LengthRule.message : LengthRule → String
  | .exact n => "Data for RawDSA must be exactly " ++ toString n ++ " bytes long"
  | .atMost n => "Data for NONEwithECDSA must be at most " ++ toString n ++ " bytes long"

namespace EngineError

/-- How a fault is reported. What keeps a digest from being encoded is no fault of the key. -/
def ofKeyFault : KeyFault → EngineError
  | .unknownDemand cause => encoding cause
  | fault => unacceptableKey fault

/-- The error in words. -/
def message : EngineError → String
  | unsupported what => "Unsupported signature algorithm: " ++ what.text
  | unacceptableKey fault => "Invalid key: " ++ fault.message
  | noSession shortage => "Token sessions exhausted: " ++ shortage.message
  | wrongLength rule => "Invalid signature data: " ++ rule.message
  | tokenFailure operation code =>
    "Token failure during " ++ operation.name ++ ": " ++ code.message
  | malformedBlock cause =>
    "Token returned a malformed signature: " ++ cause.message
  | encoding cause => "Signature encoding failed: " ++ cause.message
  | wrongState fault => "Invalid engine state: " ++ fault.message

/-- Whether the same call may succeed later. -/
def mayPass : EngineError → Bool
  | noSession _ => true
  | _ => false

end EngineError

end Cryptoki
