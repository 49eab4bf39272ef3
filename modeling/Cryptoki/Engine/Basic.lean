import Cryptoki.PendingInput
import Cryptoki.BlockPadding
import Cryptoki.DigestInfo
import Cryptoki.KeyAcceptance
import Cryptoki.Lease

/-!
# `Cryptoki.Engine.Basic` — an engine for one algorithm, and how it starts

An engine signs or verifies messages with one algorithm on one mechanism, one message after the
other. It is initialized while it holds a session in which an operation is under way. A call takes
the engine and the pool to a result, and to the engine and the pool after it.

## Contents
- `Engine`, `EngineState` — the engine.
- `Engine.new` — an engine for a name and a mechanism.
- `Engine.start`, `Engine.ensureStarted` — starting an operation.
- `Engine.giveBack` — giving the session back.
- `Engine.tokenForm` — a digest in the form that the token takes.
-/

namespace Cryptoki

/-- Whether an engine accepts the parts of a message. -/
inductive EngineState
  | uninitialized
  | initialized
deriving DecidableEq, Repr

/-- The name of a state. -/
def EngineState.name : EngineState → String
  | .uninitialized => "uninitialized"
  | .initialized => "initialized"

/-- An engine for one algorithm on one mechanism. -/
structure Engine where
  scheme : Scheme
  /-- The key that operations are started with. -/
  key : Option Key
  /-- The mode that operations are started in. -/
  mode : Option OperationMode
  /-- The session in use. -/
  lease : Option Lease
  /-- The input of the operation under way. -/
  pending : PendingInput
  state : EngineState

namespace Engine

/-- An engine without a key, for what an algorithm and a mechanism were resolved to. -/
def ofScheme (scheme : Scheme) : Engine :=
  ⟨scheme, none, none, none, .new scheme.processing, .uninitialized⟩

/-- An engine without a key, for a name and a mechanism. -/
def new (name : String) (mechanism : Mechanism) : Except EngineError Engine :=
  match Scheme.resolve name mechanism with
  | .ok scheme => .ok (ofScheme scheme)
  | .error what => .error (.unsupported what)

variable {τ : Type} [Token τ]

/-- Gives the session back, if there is one. -/
def giveBack (e : Engine) (p : Pool τ) : Engine × Pool τ :=
  match e.lease with
  | none => ({ e with state := .uninitialized }, p)
  | some lease => ({ e with state := .uninitialized, lease := none }, lease.close p)

/-! ## Starting an operation -/

/-- The name under which a failure to start is reported. -/
def initOperation : OperationMode → Operation
  | .sign => .signInit
  | .verify => .verifyInit

/-- The session the engine holds, or another. -/
def obtainLease (e : Engine) (p : Pool τ) : Except EngineError Lease × Pool τ :=
  match e.lease with
  | some lease => (.ok lease, p)
  | none => p.acquire

/-- The engine after the token refused to start an operation; a key that the token rejects is not
bound any longer. -/
def afterRefusal (e : Engine) (mode : OperationMode) (code : ReturnCode) :
    EngineError × Engine :=
  if code.rejectsKey then
    (.unacceptableKey (.rejectedByToken code), { e with key := none, lease := none })
  else (.tokenFailure (initOperation mode) code, { e with lease := none })

/-- Starts an operation with the bound key and mode. -/
def start (e : Engine) (p : Pool τ) : Except EngineError Unit × Engine × Pool τ :=
  match e.key, e.mode with
  | some key, some mode =>
    match e.obtainLease p with
    | (.error err, p) => (.error err, e, p)
    | (.ok lease, p) =>
      match lease.operate (.init mode e.scheme.mechanism key.handle) p with
      | (.error code, lease, p) =>
        let (err, e) := e.afterRefusal mode code
        (.error err, e, lease.close p)
      | (.ok _, lease, p) =>
        (.ok (),
          { e with
            pending := e.pending.reset, lease := some lease, state := .initialized }, p)
  | _, _ => (.error (.wrongState .noKeyBound), e, p)

/-- Starts an operation unless one is under way. -/
def ensureStarted (e : Engine) (p : Pool τ) : Except EngineError Unit × Engine × Pool τ :=
  match e.state with
  | .initialized => (.ok (), e, p)
  | .uninitialized => e.start p

/-- The engine works in the given mode. -/
def expectMode (e : Engine) (expected : OperationMode) : Except EngineError Unit :=
  match e.mode with
  | none => .error (.wrongState .noKeyBound)
  | some mode =>
    if mode = expected then .ok () else .error (.wrongState (.initializedFor mode))

/-! ## The form of a digest -/

/-- A digest in the form that the token takes: wrapped with the name of its algorithm, and padded,
where the mechanism does neither. Other data is left as it is. -/
def tokenForm (e : Engine) (data : Bytes) : Except EngineError Bytes :=
  match e.scheme.wrappedDigest with
  | none => .ok data
  | some digest =>
    match DigestInfo.encode digest data with
    | .error cause => .error (.encoding cause)
    | .ok info =>
      if e.scheme.padsHere then
        match e.key with
        | none => .error (.wrongState .noKeyBound)
        | some key =>
          match BlockPadding.ofBits key.bits with
          | .error cause => .error (.encoding cause)
          | .ok padding => (padding.pad info).mapError .encoding
      else .ok info

end Engine

end Cryptoki
