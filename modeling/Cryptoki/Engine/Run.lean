import Cryptoki.Engine.Cancel
import Cryptoki.Engine.Finish

/-!
# `Cryptoki.Engine.Run` — the calls of an engine

## Contents
- `Engine.accept`, `Engine.startWith` — binding a key and starting an operation with it.
- `Engine.update` — a part of the message.
- `Engine.Request`, `Engine.Answer`, `Engine.handle` — every call in one form.
- `Engine.close` — the end of an engine.
-/

namespace Cryptoki.Engine

variable {τ : Type} [Token τ]

/-! ## Binding a key -/

/-- The key is checked for size, as far as the token tells which sizes it supports. -/
def acceptSize (e : Engine) (key : Key) (p : Pool τ) : Except KeyFault Unit × Pool τ :=
  match p.call (.mechanismInfo e.scheme.mechanism) with
  | (.ok info, p) => (e.scheme.acceptSize key info, p)
  | (.error _, p) => (e.scheme.acceptSize key none, p)

/-- The key is checked for the mode, and for size unless it is the one that is bound. -/
def accept (e : Engine) (key : Key) (mode : OperationMode) (p : Pool τ) :
    Except KeyFault Unit × Pool τ :=
  match e.scheme.acceptKey key mode with
  | .error fault => (.error fault, p)
  | .ok _ => if e.key = some key then (.ok (), p) else e.acceptSize key p

/-- Gives up the operation under way and starts one with another key or mode. A key that is not
accepted leaves the engine without key and session. -/
def startWith (e : Engine) (key : Key) (mode : OperationMode) (p : Pool τ) :
    Except EngineError Unit × Engine × Pool τ :=
  let (check, p) := e.accept key mode p
  let (e, p) := e.abandon p
  match check with
  | .error fault =>
    let (e, p) := { e with key := none }.giveBack p
    (.error (.ofKeyFault fault), e, p)
  | .ok _ => { e with key := some key, mode := some mode }.start p

/-! ## Parts of the message -/

/-- The name under which a failure to pass data on is reported. -/
def updateOperation : OperationMode → Operation
  | .sign => .signUpdate
  | .verify => .verifyUpdate

/-- Passes data on to the token; a failure ends the operation. -/
def forward (e : Engine) (data : Bytes) (p : Pool τ) :
    Except EngineError Unit × Engine × Pool τ :=
  match e.mode with
  | none => (.error (.wrongState .noOperationMode), e, p)
  | some mode =>
    match e.lease with
    | none => (.error (.wrongState .noSessionHeld), e, p)
    | some lease =>
      let (result, lease, p) := lease.operate (.update mode data) p
      let e := { e with lease := some lease }
      match result with
      | .ok _ => (.ok (), e, p)
      | .error code =>
        let (e, p) := e.giveBack p
        (.error (.tokenFailure (updateOperation mode) code), e, p)

/-- Takes in some data that is there. -/
def takeIn (e : Engine) (data : Bytes) (p : Pool τ) :
    Except EngineError Unit × Engine × Pool τ :=
  let (result, e, p) := if e.scheme.processing = .stream then e.forward data p else (.ok (), e, p)
  match result with
  | .error err => (.error err, e, p)
  | .ok _ => (.ok (), { e with pending := e.pending.add data }, p)

/-- Takes in a part of the message, after starting an operation if none is under way. -/
def update (e : Engine) (data : Bytes) (p : Pool τ) :
    Except EngineError Unit × Engine × Pool τ :=
  match e.ensureStarted p with
  | (.error err, e, p) => (.error err, e, p)
  | (.ok _, e, p) => if data = [] then (.ok (), e, p) else e.takeIn data p

/-! ## Every call in one form -/

/-- A call of an engine. -/
inductive Request
  | init (key : Key) (mode : OperationMode)
  | update (data : Bytes)
  | sign
  | verify (signature : Bytes)
  | cancel
deriving DecidableEq, Repr

/-- What a call answers when it succeeds. -/
inductive Answer
  | done
  | signature (s : Bytes)
  | verdict (valid : Bool)
deriving DecidableEq, Repr

/-- The engine's answer to a call. -/
def handle (e : Engine) (request : Request) (p : Pool τ) :
    Except EngineError Answer × Engine × Pool τ :=
  match request with
  | .init key mode =>
    let (result, e, p) := e.startWith key mode p
    (result.map fun _ => .done, e, p)
  | .update data =>
    let (result, e, p) := e.update data p
    (result.map fun _ => .done, e, p)
  | .sign =>
    let (result, e, p) := e.sign p
    (result.map .signature, e, p)
  | .verify signature =>
    let (result, e, p) := e.verify signature p
    (result.map .verdict, e, p)
  | .cancel =>
    let (e, p) := e.cancel p
    (.ok .done, e, p)

/-- The end of an engine: its session is given back. -/
def close (e : Engine) (p : Pool τ) : Pool τ :=
  match e.lease with
  | none => p
  | some lease => lease.close p

end Cryptoki.Engine
