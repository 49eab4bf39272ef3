import Cryptoki.CodeText

/-!
# `Cryptoki.ReturnCode` — why a token refuses a call

## Contents
- `ReturnCode` — fifteen codes with a meaning to this library, and all others by number.
- `ReturnCode.code`, `ReturnCode.ofCode` — their numbers.
- `ReturnCode.deniesSignature`, `ReturnCode.rejectsKey` — the two classes of codes that do
  not mean that the token failed.
- `ReturnCode.text`, `ReturnCode.message` — how they are shown.
-/

namespace Cryptoki

/-- The code of a call that a token refused. -/
inductive ReturnCode
  | generalError
  | functionFailed
  | dataLenRange
  | deviceError
  | keyHandleInvalid
  | keySizeRange
  | keyTypeInconsistent
  | keyFunctionNotPermitted
  | mechanismInvalid
  | operationActive
  | operationNotInitialized
  | sessionCount
  | sessionHandleInvalid
  | signatureInvalid
  | signatureLenRange
  /-- Any other code. -/
  | other (code : Nat)
deriving DecidableEq, Repr

namespace ReturnCode

/-- The number of a code. -/
def code : ReturnCode → Nat
  | generalError => 0x05
  | functionFailed => 0x06
  | dataLenRange => 0x21
  | deviceError => 0x30
  | keyHandleInvalid => 0x60
  | keySizeRange => 0x62
  | keyTypeInconsistent => 0x63
  | keyFunctionNotPermitted => 0x68
  | mechanismInvalid => 0x70
  | operationActive => 0x90
  | operationNotInitialized => 0x91
  | sessionCount => 0xb1
  | sessionHandleInvalid => 0xb3
  | signatureInvalid => 0xc0
  | signatureLenRange => 0xc1
  | other code => code

/-- The code with a number. -/
def ofCode : Nat → ReturnCode
  | 0x05 => generalError
  | 0x06 => functionFailed
  | 0x21 => dataLenRange
  | 0x30 => deviceError
  | 0x60 => keyHandleInvalid
  | 0x62 => keySizeRange
  | 0x63 => keyTypeInconsistent
  | 0x68 => keyFunctionNotPermitted
  | 0x70 => mechanismInvalid
  | 0x90 => operationActive
  | 0x91 => operationNotInitialized
  | 0xb1 => sessionCount
  | 0xb3 => sessionHandleInvalid
  | 0xc0 => signatureInvalid
  | 0xc1 => signatureLenRange
  | code => other code

/-- No number is lost. -/
theorem code_ofCode (n : Nat) : (ofCode n).code = n := by
  unfold ofCode; split <;> rfl

/-- The name of a code that has one. -/
def name? : ReturnCode → Option String
  | generalError => some "GeneralError"
  | functionFailed => some "FunctionFailed"
  | dataLenRange => some "DataLenRange"
  | deviceError => some "DeviceError"
  | keyHandleInvalid => some "KeyHandleInvalid"
  | keySizeRange => some "KeySizeRange"
  | keyTypeInconsistent => some "KeyTypeInconsistent"
  | keyFunctionNotPermitted => some "KeyFunctionNotPermitted"
  | mechanismInvalid => some "MechanismInvalid"
  | operationActive => some "OperationActive"
  | operationNotInitialized => some "OperationNotInitialized"
  | sessionCount => some "SessionCount"
  | sessionHandleInvalid => some "SessionHandleInvalid"
  | signatureInvalid => some "SignatureInvalid"
  | signatureLenRange => some "SignatureLenRange"
  | other _ => none

/-- Whether the code says that a signature does not verify. Some tokens report a signature that
does not fit as a data length out of range. -/
def deniesSignature : ReturnCode → Bool
  | signatureInvalid | signatureLenRange | dataLenRange => true
  | _ => false

/-- Whether the code rejects the key and not the operation. -/
def rejectsKey : ReturnCode → Bool
  | keyHandleInvalid | keySizeRange | keyTypeInconsistent | keyFunctionNotPermitted => true
  | _ => false

/-- The name and the number of a code, or its number alone. -/
def text (c : ReturnCode) : String :=
  match c.name? with
  | some name => name ++ " (" ++ codeText c.code ++ ")"
  | none => "CKR " ++ codeText c.code

/-- The refusal in words. -/
def message (c : ReturnCode) : String := "token returned " ++ c.text

end ReturnCode

end Cryptoki
