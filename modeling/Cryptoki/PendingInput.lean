import Cryptoki.Digest.Stream
import Cryptoki.EngineError

/-!
# `Cryptoki.PendingInput` — what updates leave on this side

Between the start and the end of an operation the message is digested, counted or gathered, as the
processing asks. Gathering never fails: input beyond what is allowed is dropped and remembered as an
overflow, and its length is judged at the end.

## Contents
- `PendingInput` — the three shapes.
- `PendingInput.add`, `PendingInput.reset` — taking input in and forgetting it.
- `PendingInput.takeDigest`, `PendingInput.gathered` — what the token gets at the end.
- `PendingInput.windUpInput` — what an operation that is given up is ended with.
-/

namespace Cryptoki

/-- The input of one operation. -/
inductive PendingInput
  /-- A digest in progress over `count` bytes. -/
  | digest (md : DigestStream) (count : Nat)
  /-- A count of bytes passed on. -/
  | stream (count : Nat)
  /-- Input gathered as long as it fits. -/
  | raw (buffer : Bytes) (rule : LengthRule) (overflow : Bool)

namespace PendingInput

/-- No input yet. -/
def new : Processing → PendingInput
  | .digestHere algorithm => digest (.new algorithm) 0
  | .stream => stream 0
  | .raw rule => raw [] rule false

/-- Forgets all input. -/
def reset : PendingInput → PendingInput
  | digest md _ => digest md.reset 0
  | stream _ => stream 0
  | raw _ rule _ => raw [] rule false

/-- Takes in some input; what would not fit is dropped as a whole. -/
def add (data : Bytes) : PendingInput → PendingInput
  | digest md count => digest (md.update data) (count + data.length)
  | stream count => stream (count + data.length)
  | raw buffer rule overflow =>
    if overflow then raw buffer rule true
    else if rule.capacity < buffer.length + data.length then raw buffer rule true
    else raw (buffer ++ data) rule false

/-- The bytes taken in and not dropped. -/
def count : PendingInput → Nat
  | digest _ count | stream count => count
  | raw buffer _ _ => buffer.length

/-- Whether input was dropped. -/
def hasDropped : PendingInput → Bool
  | raw _ _ overflow => overflow
  | _ => false

/-- The digest of the input; a new one starts. -/
def takeDigest : PendingInput → Except EngineError Bytes × PendingInput
  | digest md _ =>
    let (hash, md) := md.finish
    (.ok hash, digest md 0)
  | input => (.error (.wrongState .noLocalDigest), input)

/-- The gathered input, unless some was dropped. What was not dropped fits, so only a length that is
prescribed is still to be checked. -/
def gathered : PendingInput → Except EngineError Bytes
  | raw buffer (.exact length) overflow =>
    if overflow ∨ buffer.length ≠ length then .error (.wrongLength (.exact length)) else .ok buffer
  | raw buffer (.atMost length) overflow =>
    if overflow then .error (.wrongLength (.atMost length)) else .ok buffer
  | _ => .error (.wrongState .noRawBuffer)

/-- Input that the operation can be ended with, if there is any: the digest, after which a new one
starts, or what was gathered, filled with zeros to a length that is prescribed. -/
def windUpInput : PendingInput → Option Bytes × PendingInput
  | digest md _ =>
    let (hash, md) := md.finish
    (some hash, digest md 0)
  | stream count => (none, stream count)
  | raw buffer rule overflow =>
    let input :=
      if overflow ∨ buffer = [] then none
      else
        match rule with
        | .exact length => some (buffer ++ List.replicate (length - buffer.length) 0)
        | .atMost _ => some buffer
    (input, raw buffer rule overflow)

end PendingInput

end Cryptoki
