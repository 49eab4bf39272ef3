import Cryptoki.Engine.Basic

/-!
# `Cryptoki.Engine.Cancel` — giving an operation up

An operation under way blocks its session. Where sessions own objects and the settings ask for it,
the operation is ended with the input so far and its result thrown away, and the session stays with
the engine; else, or if that fails, the session is closed.

## Contents
- `Engine.placeholderSignature` — a signature to end a verifying operation with.
- `Engine.windUpInput`, `Engine.windUpPrimitive` — the call that ends the operation.
- `Engine.windUp` — ending it.
- `Engine.abandon` — giving it up; the session may stay.
- `Engine.cancel` — giving it up, and the session back.
-/

namespace Cryptoki.Engine

/-- A signature of the right length, whatever it signs. -/
def placeholderSignature (e : Engine) : Bytes :=
  let keyBytes := e.key.elim 0 Key.bytes
  let length :=
    match e.scheme.family with
    | .dsa => dsaSignatureLength
    | .ec => 2 * keyBytes
    | .rsa => keyBytes
  List.replicate length 0

/-- The input the operation is ended with, in the form that the token takes; none if the token has
all input already. -/
def windUpInput (e : Engine) : Except EngineError (Option Bytes) × Engine :=
  match e.scheme.processing with
  | .stream => (.ok none, e)
  | _ =>
    let (input, pending) := e.pending.windUpInput
    let e := { e with pending }
    match input with
    | none => (.error (.wrongState .noWindUpInput), e)
    | some data => ((e.tokenForm data).map some, e)

/-- The call that ends the operation with some input. -/
def windUpPrimitive (e : Engine) (mode : OperationMode) (input : Option Bytes) : Primitive :=
  match mode, input with
  | .sign, none => .signFinal e.scheme.expectedLength
  | .sign, some data => .sign data
  | .verify, none => .verifyFinal e.placeholderSignature
  | .verify, some data => .verify data e.placeholderSignature

/-- Whether the operation is over after the call that ends it: a verdict on the signature ends it as
success does. -/
def windUpResult {α : Type} (mode : OperationMode) : Except ReturnCode α → Except EngineError Unit
  | .ok _ => .ok ()
  | .error code =>
    if mode = .verify ∧ code.deniesSignature then .ok ()
    else .error (.tokenFailure .cancel code)

variable {τ : Type} [Token τ]

/-- Ends the operation of a session with the input so far. -/
def windUp (e : Engine) (lease : Lease) (p : Pool τ) :
    Except EngineError Unit × Engine × Lease × Pool τ :=
  match e.mode with
  | none => (.error (.wrongState .noOperationMode), e, lease, p)
  | some mode =>
    match e.windUpInput with
    | (.error err, e) => (.error err, e, lease, p)
    | (.ok input, e) =>
      let (result, lease, p) := lease.operate (e.windUpPrimitive mode input) p
      (windUpResult mode result, e, lease, p)

/-- Gives up the operation under way, if there is one. A session that survives stays with the
engine. -/
def abandon (e : Engine) (p : Pool τ) : Engine × Pool τ :=
  match e.state with
  | .uninitialized => (e, p)
  | .initialized =>
    let e := { e with state := .uninitialized }
    match e.lease with
    | none => (e, p)
    | some lease =>
      if lease.active then
        let e := { e with lease := none }
        if p.config.explicitCancel && lease.ownsObjects p then
          match e.windUp lease p with
          | (.ok _, e, lease, p) => ({ e with lease := some lease }, p)
          | (.error _, e, lease, p) => (e, lease.discard p)
        else (e, lease.discard p)
      else (e, p)

/-- Gives up the operation under way, and the session back. -/
def cancel (e : Engine) (p : Pool τ) : Engine × Pool τ :=
  let (e, p) := e.abandon p
  e.giveBack p

end Cryptoki.Engine
