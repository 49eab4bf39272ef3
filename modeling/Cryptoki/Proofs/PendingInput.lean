import Cryptoki.PendingInput
import Cryptoki.Proofs.Digest.Streaming
import Mathlib.Data.List.Induction

/-!
# `Cryptoki.Proofs.PendingInput` — pending input, as the bytes it was given

The shape of pending input is that of the processing and never changes, so forgetting everything
leads back to the very start. From there the bytes alone determine what is read, whatever parts they
came in, and each of the ways to end an operation reads their concatenation.

## Contents
- `PendingInput.Fits` — the shape belongs to a processing; every operation keeps it.
- `PendingInput.reset_eq_new` — forgetting leads back to the start.
- `PendingInput.StandsFor` — the bytes that the input was given, and what is read of them.
- `PendingInput.ofParts` — the input after some parts, from the start.
- `PendingInput.takeDigest_ofParts`, `PendingInput.gathered_ofParts` — what is read at the end.
- `PendingInput.takeDigest_error`, `PendingInput.gathered_error` — why nothing is read.
-/

namespace Cryptoki.PendingInput

/-! ## Shapes -/

/-- The input has the shape that a processing asks for. -/
def Fits (processing : Processing) : PendingInput → Prop
  | digest md _ => processing = .digestHere md.algorithm
  | stream _ => processing = .stream
  | raw _ rule _ => processing = .raw rule

variable {processing : Processing} {input : PendingInput}

theorem fits_new (processing : Processing) : (new processing).Fits processing := by
  cases processing <;> rfl

theorem Fits.add (h : input.Fits processing) (data : Bytes) :
    (input.add data).Fits processing := by
  cases input with
  | digest md count => exact h
  | stream count => exact h
  | raw buffer rule overflow =>
      simp only [PendingInput.add]
      split
      · exact h
      · split <;> exact h

theorem Fits.takeDigest (h : input.Fits processing) : input.takeDigest.2.Fits processing := by
  cases input <;> exact h

theorem Fits.windUpInput (h : input.Fits processing) : input.windUpInput.2.Fits processing := by
  cases input <;> exact h

/-- Forgetting leads back to the start, whatever was taken in. -/
theorem Fits.reset_eq_new (h : input.Fits processing) : input.reset = new processing := by
  cases input with
  | digest md count => rw [show processing = .digestHere md.algorithm from h]; rfl
  | stream count => rw [show processing = .stream from h]; rfl
  | raw buffer rule overflow => rw [show processing = .raw rule from h]; rfl

/-! ## What the input stands for -/

variable {message : Bytes}

/-- The input stands for the bytes that were given: they were digested, counted, or gathered. What
    a buffer still holds after it has dropped some depends on the parts that the bytes came in, and
    only its size is known. -/
inductive StandsFor : PendingInput → Processing → Bytes → Prop
  | digested {md : DigestStream} {a : DigestAlgorithm} {message : Bytes}
      (h : md.StandsFor a message) :
      StandsFor (.digest md message.length) (.digestHere a) message
  | counted (message : Bytes) : StandsFor (.stream message.length) .stream message
  | held {rule : LengthRule} {message : Bytes} (h : message.length ≤ rule.capacity) :
      StandsFor (.raw message rule false) (.raw rule) message
  | overrun {rule : LengthRule} {buffer message : Bytes} (hbuffer : buffer.length ≤ rule.capacity)
      (h : rule.capacity < message.length) : StandsFor (.raw buffer rule true) (.raw rule) message

theorem standsFor_new (processing : Processing) : (new processing).StandsFor processing [] := by
  cases processing with
  | digestHere a => exact .digested (DigestStream.standsFor_new a)
  | stream => exact .counted []
  | raw rule => exact .held (Nat.zero_le _)

theorem StandsFor.fits (h : input.StandsFor processing message) : input.Fits processing := by
  cases h with
  | digested h => exact congrArg Processing.digestHere h.algorithm_eq.symm
  | counted | held | overrun => rfl

theorem StandsFor.add (h : input.StandsFor processing message) (data : Bytes) :
    (input.add data).StandsFor processing (message ++ data) := by
  cases h with
  | digested h =>
      rw [PendingInput.add, ← List.length_append]
      exact .digested (h.update data)
  | counted =>
      rw [PendingInput.add, ← List.length_append]
      exact .counted _
  | @held rule _ hle =>
      -- a part that would not fit is dropped as a whole, so the buffer does not grow then
      by_cases hlt : rule.capacity < message.length + data.length
      · rw [PendingInput.add, if_neg Bool.false_ne_true, if_pos hlt]
        exact .overrun hle (by rwa [List.length_append])
      · rw [PendingInput.add, if_neg Bool.false_ne_true, if_neg hlt]
        exact .held (by rw [List.length_append]; omega)
  | overrun hbuffer hlt => exact .overrun hbuffer (by rw [List.length_append]; omega)

theorem StandsFor.reset (h : input.StandsFor processing message) :
    input.reset.StandsFor processing [] :=
  h.fits.reset_eq_new ▸ standsFor_new processing

/-- A local digest is that of the bytes, and a new one starts. -/
theorem StandsFor.takeDigest_eq {a : DigestAlgorithm}
    (h : input.StandsFor (.digestHere a) message) :
    input.takeDigest = (.ok (a.digest message), new (.digestHere a)) := by
  cases h with
  | digested h => rw [takeDigest, h.finish_eq]; rfl

theorem le_capacity_of_allows {rule : LengthRule} {n : Nat} (h : rule.Allows n) :
    n ≤ rule.capacity := by
  cases rule with
  | exact length => exact Nat.le_of_eq h
  | atMost length => exact h

/-- **Gathered input is what was given exactly if that has an allowed length.** -/
theorem StandsFor.gathered_eq {rule : LengthRule} (h : input.StandsFor (.raw rule) message) :
    input.gathered
      = if rule.Allows message.length then .ok message else .error (.wrongLength rule) := by
  cases h with
  | held hle =>
      cases rule with
      | exact length =>
          simp only [gathered, LengthRule.Allows, Bool.false_eq_true, false_or, ne_eq, ite_not]
      | atMost length =>
          rw [if_pos (show LengthRule.Allows (.atMost length) _ from hle)]
          rfl
  | overrun hbuffer hlt =>
      have hnot : ¬ rule.Allows message.length := fun ha => by
        have := le_capacity_of_allows ha
        omega
      rw [if_neg hnot]
      cases rule with
      | exact length => simp only [gathered, true_or, if_true]
      | atMost length => rfl

/-! ## The input after some parts -/

/-- The input after some parts, from the start. -/
def ofParts (processing : Processing) (parts : List Bytes) : PendingInput :=
  parts.foldl (fun input data => input.add data) (new processing)

theorem ofParts_append (parts : List Bytes) (data : Bytes) :
    ofParts processing (parts ++ [data]) = (ofParts processing parts).add data := by
  rw [ofParts, List.foldl_append]; rfl

theorem standsFor_ofParts (processing : Processing) (parts : List Bytes) :
    (ofParts processing parts).StandsFor processing parts.flatten := by
  induction parts using List.reverseRecOn with
  | nil => exact standsFor_new processing
  | append_singleton parts data ih =>
      rw [ofParts_append, List.flatten_append, List.flatten_singleton]
      exact ih.add data

theorem fits_ofParts (processing : Processing) (parts : List Bytes) :
    (ofParts processing parts).Fits processing :=
  (standsFor_ofParts processing parts).fits

/-- A local digest ends in the digest of all parts. -/
theorem takeDigest_ofParts (a : DigestAlgorithm) (parts : List Bytes) :
    (ofParts (.digestHere a) parts).takeDigest.1 = .ok (a.digest parts.flatten) :=
  congrArg Prod.fst (standsFor_ofParts (.digestHere a) parts).takeDigest_eq

/-- Gathered input is the concatenation of the parts exactly if that has an allowed length, whatever
    the parts were. -/
theorem gathered_ofParts (rule : LengthRule) (parts : List Bytes) :
    (ofParts (.raw rule) parts).gathered
      = if rule.Allows parts.flatten.length then .ok parts.flatten
        else .error (.wrongLength rule) :=
  (standsFor_ofParts (.raw rule) parts).gathered_eq

/-! ## Input of another shape -/

theorem takeDigest_error {input' : PendingInput} {err : EngineError}
    (h : input.takeDigest = (.error err, input')) : err = .wrongState .noLocalDigest := by
  cases input with
  | digest md count =>
      rcases hfinish : md.finish with ⟨hash, md'⟩
      rw [takeDigest, hfinish] at h
      cases h
  | stream count => exact (Except.error.inj (congrArg Prod.fst h)).symm
  | raw buffer rule overflow => exact (Except.error.inj (congrArg Prod.fst h)).symm

theorem gathered_error {err : EngineError} (h : input.gathered = .error err) :
    (∃ rule, err = .wrongLength rule) ∨ err = .wrongState .noRawBuffer := by
  unfold gathered at h
  split at h
  · split at h
    · exact .inl ⟨_, (Except.error.inj h).symm⟩
    · cases h
  · split at h
    · exact .inl ⟨_, (Except.error.inj h).symm⟩
    · cases h
  · exact .inr (Except.error.inj h).symm

end Cryptoki.PendingInput
