import Cryptoki.BlockPadding
import Cryptoki.DigestInfo
import Cryptoki.Digest.Stream
import Cryptoki.KeyOperations
import Cryptoki.Table
import Cryptoki.Token.Sessions

/-!
# `Cryptoki.Token.Software` — a token in memory

The token keeps keys and sessions in tables. A session has one operation at most: starting another
fails and changes nothing, the last call of an operation ends it whether it succeeds or not, and an
update that fails ends it too. RSA mechanisms and ECDSA on `secp256k1` are available.

## Contents
- `StoredKey`, `SoftwareOperation`, `Software` — the token's state.
- `Software.addRsa`, `Software.addEc` — storing key pairs.
- `Mechanism.family?`, `Mechanism.digest?` — what the token knows of mechanisms.
- `Software.init`, `Software.update`, `Software.complete` — the life of an operation.
- `Mechanism.rsaPayload`, `scalarPair?` — the input of the key operations.
- The `Token` instance.
-/

namespace Cryptoki

/-! ## State -/

/-- A key as the token stores it. -/
inductive StoredKey
  | rsaPrivate (k : Rsa.PrivateKey)
  | rsaPublic (k : Rsa.PublicKey)
  | ecPrivate (k : Ecdsa.SecretKey)
  | ecPublic (k : Ecdsa.PublicKey)

namespace StoredKey

/-- The family of a stored key. -/
def family : StoredKey → KeyFamily
  | rsaPrivate _ | rsaPublic _ => .rsa
  | ecPrivate _ | ecPublic _ => .ec

/-- Which half of a pair a stored key is. -/
def half : StoredKey → KeyHalf
  | rsaPrivate _ | ecPrivate _ => .privateKey
  | rsaPublic _ | ecPublic _ => .publicKey

end StoredKey

/-- An operation of a session. -/
structure SoftwareOperation where
  mode : OperationMode
  mechanism : Mechanism
  key : ObjectHandle
  /-- The digest in progress, if the mechanism digests. -/
  digest : Option DigestStream

/-- A token in memory, over some key operations. -/
structure Software (ops : KeyOperations) where
  keys : Table ObjectHandle StoredKey
  /-- The last handle given to a key. Handles do not run out either. -/
  lastHandle : Nat
  /-- The open sessions with their operations. -/
  sessions : Sessions SoftwareOperation
  /-- Whether sessions own objects. -/
  sessionObjects : Bool

/-- The two halves of a stored key pair. -/
structure KeyPair where
  privateKey : Key
  publicKey : Key
deriving DecidableEq, Repr

/-! ## Mechanisms -/

/-- The keys that a mechanism works with. -/
def Mechanism.family? : Mechanism → Option KeyFamily
  | .rsaPkcs | .rsaX509 | .md2RsaPkcs | .md5RsaPkcs | .sha1RsaPkcs | .sha224RsaPkcs
  | .sha256RsaPkcs | .sha384RsaPkcs | .sha512RsaPkcs => some .rsa
  | .ecdsa | .ecdsaSha1 => some .ec
  | _ => none

/-- The digest that a mechanism computes, if it computes one. -/
def Mechanism.digest? : Mechanism → Option DigestAlgorithm
  | .md2RsaPkcs => some .md2
  | .md5RsaPkcs => some .md5
  | .sha1RsaPkcs | .ecdsaSha1 => some .sha1
  | .sha224RsaPkcs => some .sha224
  | .sha256RsaPkcs => some .sha256
  | .sha384RsaPkcs => some .sha384
  | .sha512RsaPkcs => some .sha512
  | _ => none

/-- The sizes of RSA keys that the token says it supports. -/
def rsaKeySizes : KeySizeRange := .bounded 512 4096

/-- The bits of the field of `secp256k1`. -/
def secp256k1Bits : Nat := 256

/-- The key sizes for a mechanism. -/
def Mechanism.softwareKeySizes (mechanism : Mechanism) : Except ReturnCode (Option KeySizeRange) :=
  match mechanism.family? with
  | some .rsa => .ok (some rsaKeySizes)
  | some .ec => .ok (some (.bounded secp256k1Bits secp256k1Bits))
  | _ => .error .mechanismInvalid

/-! ## The input of the key operations -/

/-- The payload that an RSA mechanism signs for some input, in blocks of `size` bytes. -/
def Mechanism.rsaPayload (mechanism : Mechanism) (size : Nat) (input : Bytes) :
    Except ReturnCode Bytes := do
  let padding ← (BlockPadding.new size).mapError fun _ => .keySizeRange
  let payload ←
    match mechanism.digest? with
    | some digest => (DigestInfo.encode digest input).mapError fun _ => .dataLenRange
    | none =>
      if mechanism = .rsaX509 then (padding.unpad input).mapError fun _ => .dataLenRange
      else .ok input
  if payload.length ≤ padding.capacity then return payload else throw .dataLenRange

/-- The signature in a block of any even width up to that of two scalars. -/
def scalarPair? (block : Bytes) : Option (SizedBytes Ecdsa.signatureWidth) :=
  if h : block ≠ [] ∧ block.length % 2 = 0 ∧ block.length ≤ Ecdsa.signatureWidth then
    let half := block.length / 2
    some ⟨Bytes.justifyRight Ecdsa.scalarWidth (block.take half)
        ++ Bytes.justifyRight Ecdsa.scalarWidth (block.drop half), by
      simp only [Ecdsa.signatureWidth] at h ⊢
      rw [List.length_append, Bytes.length_justifyRight, Bytes.length_justifyRight]
      · omega
      · rw [List.length_drop]; omega
      · rw [List.length_take]; omega⟩
  else none

/-- The code of a call without a result, by whether it came out well. -/
def verdict (failure : ReturnCode) (success : Bool) : Except ReturnCode Unit :=
  if success then .ok () else .error failure

/-- The signature that a key makes of some input. -/
def StoredKey.sign (ops : KeyOperations) (mechanism : Mechanism) (input : Bytes) :
    StoredKey → Except ReturnCode Bytes
  | rsaPrivate k => do
    let payload ← mechanism.rsaPayload k.size input
    match ops.rsaSign k payload with
    | some signature => .ok signature.val
    | none => .error .functionFailed
  | ecPrivate k =>
    match ops.ecdsaSign k input with
    | some signature => .ok signature.val
    | none => .error .dataLenRange
  | rsaPublic _ | ecPublic _ => .error .keyFunctionNotPermitted

/-- What a key says of a signature of some input. -/
def StoredKey.verify (ops : KeyOperations) (mechanism : Mechanism) (input signature : Bytes) :
    StoredKey → Except ReturnCode Unit
  | rsaPublic k =>
    if h : signature.length = k.size then do
      let payload ← mechanism.rsaPayload k.size input
      verdict .signatureInvalid (ops.rsaVerify k payload ⟨signature, h⟩)
    else .error .signatureLenRange
  | ecPublic k =>
    match scalarPair? signature with
    | some signature => verdict .signatureInvalid (ops.ecdsaVerify k input signature)
    | none => .error .signatureLenRange
  | rsaPrivate _ | ecPrivate _ => .error .keyFunctionNotPermitted

namespace Software

variable {ops : KeyOperations}

/-- The token without keys or sessions. -/
def empty (sessionLimit : Option Nat) (sessionObjects : Bool) : Software ops :=
  ⟨.empty, 0, .empty sessionLimit, sessionObjects⟩

/-! ## Keys -/

/-- Stores a key under the next handle. -/
def store (t : Software ops) (k : StoredKey) : ObjectHandle × Software ops :=
  let handle := ⟨t.lastHandle + 1⟩
  (handle, { t with keys := t.keys.insert handle k, lastHandle := t.lastHandle + 1 })

/-- Stores the halves of a pair, the private one first. -/
def storePair (t : Software ops) (privateKey publicKey : StoredKey) (params : KeyParameters) :
    KeyPair × Software ops :=
  let (privateHandle, t) := t.store privateKey
  let (publicHandle, t) := t.store publicKey
  (⟨⟨privateHandle, .privateKey, params⟩, ⟨publicHandle, .publicKey, params⟩⟩, t)

/-- Stores an RSA key pair. -/
def addRsa (t : Software ops) (k : Rsa.PrivateKey) : KeyPair × Software ops :=
  t.storePair (.rsaPrivate k) (.rsaPublic k.toPublicKey) (.rsa (Bytes.ofNat k.modulus))

/-- Stores a `secp256k1` key pair. -/
def addEc (t : Software ops) (k : Ecdsa.SecretKey) : KeyPair × Software ops :=
  t.storePair (.ecPrivate k) (.ecPublic k.publicKey) (.ec secp256k1Bits)

/-! ## Sessions -/

/-- The sessions that are open. -/
def openSessions (t : Software ops) : Nat := t.sessions.size

/-- The token with another operation, or none, in a session. -/
def setOperation (t : Software ops) (session : SessionId) (op : Option SoftwareOperation) :
    Software ops :=
  { t with sessions := t.sessions.setSlot session op }

/-! ## Operations -/

/-- The operation that a session would start. -/
def startOperation (t : Software ops) (session : SessionId) (mode : OperationMode)
    (mechanism : Mechanism) (handle : ObjectHandle) : Except ReturnCode SoftwareOperation :=
  match mechanism.family? with
  | none => .error .mechanismInvalid
  | some family =>
    match t.sessions.slot? session with
    | none => .error .sessionHandleInvalid
    | some (some _) => .error .operationActive
    | some none =>
      match t.keys.get? handle with
      | none => .error .keyHandleInvalid
      | some key =>
        if key.family ≠ family then .error .keyTypeInconsistent
        else if key.half ≠ mode.half then .error .keyFunctionNotPermitted
        else .ok ⟨mode, mechanism, handle, mechanism.digest?.map .new⟩

/-- Starts an operation; a session that has one keeps it. -/
def init (t : Software ops) (session : SessionId) (mode : OperationMode) (mechanism : Mechanism)
    (handle : ObjectHandle) : Except ReturnCode Unit × Software ops :=
  match t.startOperation session mode mechanism handle with
  | .ok op => (.ok (), t.setOperation session (some op))
  | .error code => (.error code, t)

/-- The operation fed some more data, if it is for the given mode and digests. -/
def feed (mode : OperationMode) (data : Bytes) :
    Option SoftwareOperation → Except ReturnCode SoftwareOperation
  | none => .error .operationNotInitialized
  | some op =>
    if op.mode ≠ mode then .error .operationNotInitialized
    else
      match op.digest with
      | some md => .ok { op with digest := some (md.update data) }
      | none => .error .functionFailed

/-- Feeds the operation of a session; a failure ends it. -/
def update (t : Software ops) (session : SessionId) (mode : OperationMode) (data : Bytes) :
    Except ReturnCode Unit × Software ops :=
  match t.sessions.slot? session with
  | none => (.error .sessionHandleInvalid, t)
  | some op =>
    match feed mode data op with
    | .ok op => (.ok (), t.setOperation session (some op))
    | .error code => (.error code, t.setOperation session none)

/-- The input of the key operation that ends an operation: the digest of all it was fed, or the data
of the last call. -/
def keyInput (mode : OperationMode) (data : Option Bytes) :
    Option SoftwareOperation → Except ReturnCode (SoftwareOperation × Bytes)
  | none => .error .operationNotInitialized
  | some op =>
    if op.mode ≠ mode then .error .operationNotInitialized
    else
      match op.digest, data with
      | some md, some data => .ok (op, (md.update data).finish.1)
      | some md, none => .ok (op, md.finish.1)
      | none, some data => .ok (op, data)
      | none, none => .error .functionFailed

/-- Ends the operation of a session with a key operation on its input. -/
def complete {α : Type} (t : Software ops) (session : SessionId) (mode : OperationMode)
    (data : Option Bytes)
    (keyOperation : Mechanism → Bytes → StoredKey → Except ReturnCode α) :
    Except ReturnCode α × Software ops :=
  match t.sessions.slot? session with
  | none => (.error .sessionHandleInvalid, t)
  | some op =>
    let result :=
      match keyInput mode data op with
      | .error code => .error code
      | .ok (op, input) =>
        match t.keys.get? op.key with
        | none => .error .keyHandleInvalid
        | some key => keyOperation op.mechanism input key
    (result, t.setOperation session none)

/-- Ends a signing operation. -/
def sign (t : Software ops) (session : SessionId) (data : Option Bytes) :
    Except ReturnCode Bytes × Software ops :=
  t.complete session .sign data fun mechanism input key => key.sign ops mechanism input

/-- Ends a verifying operation. -/
def verify (t : Software ops) (session : SessionId) (data : Option Bytes) (signature : Bytes) :
    Except ReturnCode Unit × Software ops :=
  t.complete session .verify data fun mechanism input key =>
    key.verify ops mechanism input signature

/-- The answer to a primitive on a session. -/
def operate (t : Software ops) (session : SessionId) :
    (p : Primitive) → Except ReturnCode p.Result × Software ops
  | .init mode mechanism key => t.init session mode mechanism key
  | .update mode data => t.update session mode data
  | .signFinal _ => t.sign session none
  | .sign data => t.sign session (some data)
  | .verifyFinal signature => t.verify session none signature
  | .verify data signature => t.verify session (some data) signature

instance : Token (Software ops) where
  answer
    | .openSession, t =>
      let (result, sessions) := t.sessions.openNext
      (result, { t with sessions })
    | .closeSession session, t =>
      let (result, sessions) := t.sessions.close session
      (result, { t with sessions })
    | .mechanismInfo mechanism, t => (mechanism.softwareKeySizes, t)
    | .operate session primitive, t => t.operate session primitive
  ownsObjects t _ := t.sessionObjects

end Software

end Cryptoki
