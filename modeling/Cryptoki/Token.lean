import Cryptoki.Key
import Cryptoki.Mechanism
import Cryptoki.ReturnCode

/-!
# `Cryptoki.Token` — tokens, as their callers see them

A token is a value that answers calls. A call succeeds or fails with a code, and leaves the token in
some state; nothing else is known of a token in general.

## Contents
- `Primitive` — a call on a session that starts, feeds or ends an operation.
- `Call` — every call, with `Call.Result`, what it answers when it succeeds.
- `Token` — the types whose values answer calls.
- `Call.name`, `Call.text` — how calls are shown.
-/

namespace Cryptoki

/-- A call on a session that starts, feeds or ends an operation. -/
inductive Primitive
  /-- Starts an operation. -/
  | init (mode : OperationMode) (mechanism : Mechanism) (key : ObjectHandle)
  /-- Feeds the operation. -/
  | update (mode : OperationMode) (data : Bytes)
  /-- Ends the operation with the signature of all it was fed. -/
  | signFinal (expectedLength : Nat)
  /-- Ends the operation with the signature of all it was fed and `data`. -/
  | sign (data : Bytes)
  /-- Ends the operation with the verdict on a signature of all it was fed. -/
  | verifyFinal (signature : Bytes)
  /-- Ends the operation with the verdict on a signature of all it was fed and `data`. -/
  | verify (data signature : Bytes)
deriving DecidableEq, Repr

/-- What a primitive answers when it succeeds. -/
abbrev Primitive.Result : Primitive → Type
  | .init .. => Unit
  | .update .. => Unit
  | .signFinal _ => Bytes
  | .sign _ => Bytes
  | .verifyFinal _ => Unit
  | .verify .. => Unit

/-- A call on a token. -/
inductive Call
  | openSession
  | closeSession (session : SessionId)
  | mechanismInfo (mechanism : Mechanism)
  | operate (session : SessionId) (primitive : Primitive)
deriving DecidableEq, Repr

/-- What a call answers when it succeeds. -/
abbrev Call.Result : Call → Type
  | .openSession => SessionId
  | .closeSession _ => Unit
  | .mechanismInfo _ => Option KeySizeRange
  | .operate _ primitive => primitive.Result

/-- A type whose values are tokens. -/
class Token (τ : Type) where
  /-- The answer to a call, and the token after it. -/
  answer : (call : Call) → τ → Except ReturnCode call.Result × τ
  /-- Whether a session owns objects, which would be lost with it. -/
  ownsObjects : τ → SessionId → Bool

/-! ## How calls are shown -/

/-- The name of a primitive. -/
def Primitive.name : Primitive → String
  | .init .sign .. => "C_SignInit"
  | .init .verify .. => "C_VerifyInit"
  | .update .sign _ => "C_SignUpdate"
  | .update .verify _ => "C_VerifyUpdate"
  | .signFinal _ => "C_SignFinal"
  | .sign _ => "C_Sign"
  | .verifyFinal _ => "C_VerifyFinal"
  | .verify .. => "C_Verify"

/-- The arguments of a primitive after its session, numbers in decimal and bytes in
hexadecimal. -/
def Primitive.arguments : Primitive → List String
  | .init _ mechanism key => [toString mechanism.code, toString key.value]
  | .update _ data => [Bytes.toHex data]
  | .signFinal expectedLength => [toString expectedLength]
  | .sign data => [Bytes.toHex data]
  | .verifyFinal signature => [Bytes.toHex signature]
  | .verify data signature => [Bytes.toHex data, Bytes.toHex signature]

namespace Call

/-- The name of a call. -/
def name : Call → String
  | openSession => "C_OpenSession"
  | closeSession _ => "C_CloseSession"
  | mechanismInfo _ => "C_GetMechanismInfo"
  | operate _ primitive => primitive.name

/-- The arguments of a call, numbers in decimal and bytes in hexadecimal. -/
def arguments : Call → List String
  | openSession => []
  | closeSession session => [toString session.value]
  | mechanismInfo mechanism => [toString mechanism.code]
  | operate session primitive => toString session.value :: primitive.arguments

/-- A call with its arguments. -/
def text (c : Call) : String := c.name ++ "(" ++ ",".intercalate c.arguments ++ ")"

end Call

end Cryptoki
