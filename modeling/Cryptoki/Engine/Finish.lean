import Cryptoki.Engine.Basic

/-!
# `Cryptoki.Engine.Finish` — ending an operation with a signature or a verdict

The engine is uninitialized from the moment an operation is being ended, and its session is given
back whatever comes of it.

## Contents
- `Engine.finalInput` — what the token gets where it does not have the message already.
- `Engine.takeLease` — the session for the last call.
- `Engine.sign` — ending with a signature, by way of `Engine.signOn`.
- `Engine.verify` — ending with a verdict, by way of `Engine.verifyOn`.
-/

namespace Cryptoki.Engine

/-- What the token gets where it does not have the message already. -/
def finalInput (e : Engine) : Except EngineError Bytes × Engine :=
  match e.scheme.processing with
  | .digestHere _ =>
    match e.pending.takeDigest with
    | (.ok hash, pending) => (e.tokenForm hash, { e with pending })
    | (.error err, pending) => (.error err, { e with pending })
  | .raw _ =>
    match e.pending.gathered with
    | .ok data => (e.tokenForm data, e)
    | .error err => (.error err, e)
  | .stream => (.error (.wrongState .noLocalInput), e)

variable {τ : Type} [Token τ]

/-- The session for the last call of an operation, which is started first if none is under way. -/
def takeLease (e : Engine) (mode : OperationMode) (p : Pool τ) :
    Except EngineError Lease × Engine × Pool τ :=
  match e.expectMode mode with
  | .error err => (.error err, e, p)
  | .ok _ =>
    match e.ensureStarted p with
    | (.error err, e, p) => (.error err, e, p)
    | (.ok _, e, p) =>
      let e := { e with state := .uninitialized }
      match e.lease with
      | none => (.error (.wrongState .noSessionHeld), e, p)
      | some lease => (.ok lease, { e with lease := none }, p)

/-! ## Signing -/

/-- The last call of a signing operation: the token's block. -/
def signBlock (e : Engine) (lease : Lease) (p : Pool τ) :
    Except EngineError Bytes × Engine × Lease × Pool τ :=
  match e.scheme.processing with
  | .stream =>
    let (result, lease, p) := lease.operate (.signFinal e.scheme.expectedLength) p
    (result.mapError (.tokenFailure .signFinal), e, lease, p)
  | _ =>
    match e.finalInput with
    | (.error err, e) => (.error err, e, lease, p)
    | (.ok input, e) =>
      let (result, lease, p) := lease.operate (.sign input) p
      (result.mapError (.tokenFailure .sign), e, lease, p)

/-- The signature that callers see, from the token's block. -/
def encodeSignature (scheme : Scheme) (block : Bytes) : Except EngineError Bytes :=
  if scheme.hasPairSignatures then (SignatureValue.derOfBlock block).mapError .malformedBlock
  else .ok block

/-- The signature of the message of an operation. -/
def signOn (e : Engine) (lease : Lease) (p : Pool τ) :
    Except EngineError Bytes × Engine × Lease × Pool τ :=
  match e.signBlock lease p with
  | (.error err, e, lease, p) => (.error err, e, lease, p)
  | (.ok block, e, lease, p) => (encodeSignature e.scheme block, e, lease, p)

/-- Ends a signing operation with its signature. -/
def sign (e : Engine) (p : Pool τ) : Except EngineError Bytes × Engine × Pool τ :=
  match e.takeLease .sign p with
  | (.error err, e, p) => (.error err, e, p)
  | (.ok lease, e, p) =>
    let (result, e, lease, p) := e.signOn lease p
    (result, e, lease.close p)

/-! ## Verifying -/

/-- The block that the token takes, from the signature that a caller gives. -/
def decodeSignature (scheme : Scheme) (signature : Bytes) :
    Except DecodeError Bytes :=
  if scheme.hasPairSignatures then
    if scheme.family = .dsa then SignatureValue.dsaBlock signature
    else SignatureValue.ecdsaBlock signature
  else .ok signature

/-- The verdict in the token's answer: success, a mismatch, or no verdict at all. -/
def verdictOf (operation : Operation) : Except ReturnCode Unit → Except EngineError Bool
  | .ok _ => .ok true
  | .error code =>
    if code.deniesSignature then .ok false else .error (.tokenFailure operation code)

/-- The last call of a verifying operation on a block. -/
def verifyBlock (e : Engine) (lease : Lease) (block : Bytes) (p : Pool τ) :
    Except EngineError Bool × Engine × Lease × Pool τ :=
  match e.scheme.processing with
  | .stream =>
    let (result, lease, p) := lease.operate (.verifyFinal block) p
    (verdictOf .verifyFinal result, e, lease, p)
  | _ =>
    match e.finalInput with
    | (.error err, e) => (.error err, e, lease, p)
    | (.ok input, e) =>
      let (result, lease, p) := lease.operate (.verify input block) p
      (verdictOf .verify result, e, lease, p)

/-- The verdict on a signature of the message of an operation. Bytes that are no signature do not
verify, and the token is not asked. -/
def verifyOn (e : Engine) (lease : Lease) (signature : Bytes) (p : Pool τ) :
    Except EngineError Bool × Engine × Lease × Pool τ :=
  match decodeSignature e.scheme signature with
  | .error _ => (.ok false, e, lease, p)
  | .ok block => e.verifyBlock lease block p

/-- Ends a verifying operation with the verdict on a signature. -/
def verify (e : Engine) (signature : Bytes) (p : Pool τ) :
    Except EngineError Bool × Engine × Pool τ :=
  match e.takeLease .verify p with
  | (.error err, e, p) => (.error err, e, p)
  | (.ok lease, e, p) =>
    let (result, e, lease, p) := e.verifyOn lease signature p
    (result, e, lease.close p)

end Cryptoki.Engine
