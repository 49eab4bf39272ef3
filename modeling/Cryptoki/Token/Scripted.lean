import Cryptoki.Scheme
import Cryptoki.Digest.Stream
import Cryptoki.Table
import Cryptoki.Token.Sessions

/-!
# `Cryptoki.Token.Scripted` — a token that answers as it is told

For trying out callers: signatures are hashes of what was signed, any call can be made to fail, and
the advertised key sizes and the next signature can be set.

## Contents
- `Scripted` — the state and the settings of the token.
- `Scripted.addPair` — key pairs, which have a signature length only.
- `Scripted.failNext` — a failure in wait for the next call of a name.
- `Scripted.hashSignature` — the signature of some input.
- The `Token` instance.
-/

namespace Cryptoki

/-- An operation of a session, with all data it was fed. -/
structure ScriptedOperation where
  mode : OperationMode
  mechanism : Mechanism
  key : ObjectHandle
  streamed : Bytes
deriving DecidableEq, Repr

/-- A token that answers as it is told. -/
structure Scripted where
  /-- The signature length of each key pair, oldest first. -/
  pairs : List Nat
  /-- The open sessions with their operations. -/
  sessions : Sessions ScriptedOperation
  /-- Whether sessions own objects. -/
  sessionObjects : Bool
  /-- The key sizes for mechanisms. -/
  keySizes : Table Mechanism KeySizeRange
  /-- The code that every query for key sizes fails with. -/
  keySizesFailure : Option ReturnCode
  /-- The codes that the next calls of some names fail with. -/
  pendingFailures : Table String ReturnCode
  /-- The signature to be made next. -/
  nextSignature : Option Bytes

namespace Scripted

/-- The token without keys or sessions. -/
def empty (sessionLimit : Option Nat) (sessionObjects : Bool) : Scripted where
  pairs := []
  sessions := .empty sessionLimit
  sessionObjects := sessionObjects
  keySizes := .empty
  keySizesFailure := none
  pendingFailures := .empty
  nextSignature := none

variable (t : Scripted)

/-! ## Settings -/

/-- Adds a key pair with signatures of the given length. The `i`-th pair, counted from one, has the
handles `2 * i` and `2 * i + 1`. -/
def addPair (signatureLength : Nat) : ObjectHandle × ObjectHandle × Scripted :=
  let i := t.pairs.length + 1
  (⟨2 * i⟩, ⟨2 * i + 1⟩, { t with pairs := t.pairs ++ [signatureLength] })

/-- The next call of that name fails with the code. -/
def failNext (name : String) (code : ReturnCode) : Scripted :=
  { t with pendingFailures := t.pendingFailures.insert name code }

/-- The sessions that are open. -/
def openSessions : Nat := t.sessions.size

/-! ## Keys and signatures -/

/-- The signature length of the pair that a handle belongs to. -/
def signatureLength? (handle : ObjectHandle) : Option Nat :=
  if handle.value < 2 then none else t.pairs[handle.value / 2 - 1]?

/-- Which half of its pair a handle is. -/
def handleHalf (handle : ObjectHandle) : KeyHalf :=
  if handle.value % 2 = 0 then .privateKey else .publicKey

/-- Hashes of a seed with a counter from `counter` on, `blocks` of them. -/
def hashBlocks (seed input : Bytes) (counter : Nat) : Nat → Bytes
  | 0 => []
  | blocks + 1 =>
    DigestAlgorithm.sha256.digest (seed ++ Bytes.ofNatWidth 4 counter ++ input)
      ++ hashBlocks seed input (counter + 1) blocks

/-- The signature of some input with either half of a pair. -/
def hashSignature (handle : ObjectHandle) (length : Nat) (input : Bytes) : Bytes :=
  let seed := Bytes.ofNatWidth 8 (handle.value / 2)
  (hashBlocks seed input 0 ((length + 31) / 32)).take length

/-! ## Calls -/

/-- Takes the failure in wait for a call, if there is one. -/
def takeFailure (name : String) : Option ReturnCode × Scripted :=
  match t.pendingFailures.get? name with
  | some code => (some code, { t with pendingFailures := t.pendingFailures.erase name })
  | none => (none, t)

/-- The token with another operation, or none, in a session. -/
def setOperation (session : SessionId) (op : Option ScriptedOperation) : Scripted :=
  { t with sessions := t.sessions.setSlot session op }

/-- The key sizes for a mechanism. -/
def mechanismInfo (mechanism : Mechanism) : Except ReturnCode (Option KeySizeRange) :=
  match t.keySizesFailure with
  | some code => .error code
  | none => .ok (t.keySizes.get? mechanism)

/-- Starts an operation. -/
def init (session : SessionId) (mode : OperationMode) (mechanism : Mechanism)
    (key : ObjectHandle) : Except ReturnCode Unit × Scripted :=
  if t.signatureLength? key = none then (.error .keyHandleInvalid, t)
  else if handleHalf key ≠ mode.half then (.error .keyFunctionNotPermitted, t)
  else
    match t.sessions.slot? session with
    | none => (.error .sessionHandleInvalid, t)
    | some (some _) => (.error .operationActive, t)
    | some none => (.ok (), t.setOperation session (some ⟨mode, mechanism, key, []⟩))

/-- Feeds the operation of a session. An injected failure ends it; being for the other mode leaves
it as it is. -/
def update (session : SessionId) (mode : OperationMode) (data : Bytes)
    (failure : Option ReturnCode) : Except ReturnCode Unit × Scripted :=
  match t.sessions.slot? session, failure with
  | none, _ => (.error .sessionHandleInvalid, t)
  | some _, some code => (.error code, t.setOperation session none)
  | some none, none => (.error .operationNotInitialized, t)
  | some (some op), none =>
    if op.mode ≠ mode then (.error .operationNotInitialized, t)
    else (.ok (), t.setOperation session (some { op with streamed := op.streamed ++ data }))

/-- Ends the operation of a session: its key, signature length and input. -/
def finish (session : SessionId) (mode : OperationMode) (data : Option Bytes)
    (failure : Option ReturnCode) :
    Except ReturnCode (ObjectHandle × Nat × Bytes) × Scripted :=
  match t.sessions.slot? session with
  | none => (.error .sessionHandleInvalid, t)
  | some op =>
    let result :=
      match failure, op with
      | some code, _ => .error code
      | none, none => .error .operationNotInitialized
      | none, some op =>
        if op.mode ≠ mode then .error .operationNotInitialized
        else if op.mechanism = .dsa ∧ data.any (·.length ≠ rawDsaLength) then .error .dataLenRange
        else
          .ok (op.key, (t.signatureLength? op.key).getD 0, op.streamed ++ data.getD [])
    (result, t.setOperation session none)

/-- Ends a signing operation, with the signature that was set if there is one. -/
def sign (session : SessionId) (data : Option Bytes) (failure : Option ReturnCode) :
    Except ReturnCode Bytes × Scripted :=
  match t.finish session .sign data failure with
  | (.error code, t) => (.error code, t)
  | (.ok (key, length, input), t) =>
    match t.nextSignature with
    | some signature => (.ok signature, { t with nextSignature := none })
    | none => (.ok (hashSignature key length input), t)

/-- Ends a verifying operation. -/
def verify (session : SessionId) (data : Option Bytes) (signature : Bytes)
    (failure : Option ReturnCode) : Except ReturnCode Unit × Scripted :=
  match t.finish session .verify data failure with
  | (.error code, t) => (.error code, t)
  | (.ok (key, length, input), t) =>
    if signature.length ≠ length then (.error .signatureLenRange, t)
    else if signature ≠ hashSignature key length input then (.error .signatureInvalid, t)
    else (.ok (), t)

/-- The answer to a primitive on a session, given the failure in wait for it. -/
def operate (session : SessionId) (failure : Option ReturnCode) :
    (p : Primitive) → Except ReturnCode p.Result × Scripted
  | .init mode mechanism key =>
    match failure with
    | some code => (.error code, t)
    | none => t.init session mode mechanism key
  | .update mode data => t.update session mode data failure
  | .signFinal _ => t.sign session none failure
  | .sign data => t.sign session (some data) failure
  | .verifyFinal signature => t.verify session none signature failure
  | .verify data signature => t.verify session (some data) signature failure

/-- The answer to a call, given the failure in wait for it. -/
def answer (failure : Option ReturnCode) :
    (call : Call) → Except ReturnCode call.Result × Scripted
  | .operate session primitive => t.operate session failure primitive
  | .openSession =>
    match failure with
    | some code => (.error code, t)
    | none =>
      let (result, sessions) := t.sessions.openNext
      (result, { t with sessions })
  | .closeSession session =>
    match failure with
    | some code => (.error code, t)
    | none =>
      let (result, sessions) := t.sessions.close session
      (result, { t with sessions })
  | .mechanismInfo mechanism =>
    match failure with
    | some code => (.error code, t)
    | none => (t.mechanismInfo mechanism, t)

instance : Token Scripted where
  answer call t :=
    let (failure, t) := t.takeFailure call.name
    t.answer failure call
  ownsObjects t _ := t.sessionObjects

end Scripted

end Cryptoki
