import Cryptoki.Proofs.PendingInput

/-!
# `Cryptoki.Proofs.PendingInput.Record` — pending input answers as a plain record of the bytes

A record is the list of all bytes that were given since they were last forgotten, with no buffer,
no digest in progress and no limit, and it answers every call from that list alone. Pending input
keeps much less, and what a buffer keeps of too much depends on the parts it came in. It answers the
same all the same: once a buffer has dropped some, no answer depends on what it holds.

## Contents
- `PendingInput.Call`, `PendingInput.Answer`, `PendingInput.answer` — calls and what they answer.
- `LengthRule.filled` — bytes filled with zeros to a length that is prescribed.
- `PendingInput.remember` — what the record answers.
- `PendingInput.run` — any calls, on either of the two.
- `PendingInput.StandsFor.answer_eq` — one call on both.
- `PendingInput.run_parts` — on record, parts are their concatenation.
- `PendingInput.answers_from_record` — any calls on both.
-/

namespace Cryptoki

/-- Bytes that are not too long, filled with zeros to a length that is prescribed. -/
def LengthRule.filled : LengthRule → Bytes → Bytes
  | .exact length, data => data ++ List.replicate (length - data.length) 0
  | .atMost _, data => data

theorem LengthRule.allows_filled {rule : LengthRule} {data : Bytes}
    (h : data.length ≤ rule.capacity) : rule.Allows (rule.filled data).length := by
  cases rule with
  | exact length =>
      show (data ++ List.replicate (length - data.length) 0).length = length
      rw [List.length_append, List.length_replicate]
      exact Nat.add_sub_cancel' h
  | atMost length => exact h

namespace PendingInput

/-! ## Calls -/

/-- A call on pending input. -/
inductive Call
  | add (data : Bytes)
  | reset
  | takeDigest
  | gathered
  | windUpInput
  | hasDropped
deriving DecidableEq

/-- What a call answers. -/
inductive Answer
  /-- Bytes, or why there are none. -/
  | read (result : Except EngineError Bytes)
  /-- Input to end an operation with, if there is any. -/
  | ending (input : Option Bytes)
  /-- Whether some input was dropped. -/
  | dropped (any : Bool)

/-- The answer of pending input to a call, if the call has one, and the input after it. -/
def answer (input : PendingInput) : Call → Option Answer × PendingInput
  | .add data => (none, input.add data)
  | .reset => (none, input.reset)
  | .takeDigest =>
    let (result, input) := input.takeDigest
    (some (.read result), input)
  | .gathered => (some (.read input.gathered), input)
  | .windUpInput =>
    let (ending, input) := input.windUpInput
    (some (.ending ending), input)
  | .hasDropped => (some (.dropped input.hasDropped), input)

/-- The record after its digest was read: it starts over, but where there is no digest it stays. -/
def afterDigest : Processing → Bytes → Bytes
  | .digestHere _, _ => []
  | _, record => record

/-- The answer of a record of the bytes given, if the call has one, and the record after it. -/
def remember (processing : Processing) (record : Bytes) : Call → Option Answer × Bytes
  | .add data => (none, record ++ data)
  | .reset => (none, [])
  | .takeDigest =>
    let result :=
      match processing with
      | .digestHere a => .ok (a.digest record)
      | _ => .error (.wrongState .noLocalDigest)
    (some (.read result), afterDigest processing record)
  | .gathered =>
    let result :=
      match processing with
      | .raw rule => if rule.Allows record.length then .ok record else .error (.wrongLength rule)
      | _ => .error (.wrongState .noRawBuffer)
    (some (.read result), record)
  | .windUpInput =>
    let ending :=
      match processing with
      | .digestHere a => some (a.digest record)
      | .stream => none
      | .raw rule =>
        if record = [] ∨ rule.capacity < record.length then none else some (rule.filled record)
    (some (.ending ending), afterDigest processing record)
  | .hasDropped =>
    let dropped :=
      match processing with
      | .raw rule => decide (rule.capacity < record.length)
      | _ => false
    (some (.dropped dropped), record)

/-- The answers to calls, in order, and the state after them, where `step` is one call. -/
def run {σ : Type} (step : σ → Call → Option Answer × σ) (s : σ) : List Call → List Answer × σ
  | [] => ([], s)
  | call :: calls =>
    let (answer, s) := step s call
    let (answers, s) := run step s calls
    (answer.toList ++ answers, s)

/-! ## One call -/

variable {input : PendingInput} {processing : Processing} {record : Bytes}

/-- A digest can end an operation, and a new one starts. -/
theorem StandsFor.windUpInput_digest {a : DigestAlgorithm}
    (h : input.StandsFor (.digestHere a) record) :
    input.windUpInput = (some (a.digest record), new (.digestHere a)) := by
  cases h with
  | digested h =>
      rw [windUpInput, h.finish_eq]
      rfl

/-- Gathered input can end an operation unless there is none or some was dropped. -/
theorem StandsFor.windUpInput_raw {rule : LengthRule} (h : input.StandsFor (.raw rule) record) :
    input.windUpInput
      = (if record = [] ∨ rule.capacity < record.length then none else some (rule.filled record),
        input) := by
  cases h with
  | held hle =>
      simp only [windUpInput, Nat.not_lt.mpr hle, or_false, Bool.false_eq_true, false_or]
      cases rule <;> rfl
  | overrun hbuffer hlt => simp only [windUpInput, hlt, or_true, true_or, if_true]

/-- What it ends an operation with has an allowed length. -/
theorem StandsFor.allows_of_windUpInput {rule : LengthRule} {ending : Bytes}
    (h : input.StandsFor (.raw rule) record) (hending : input.windUpInput.1 = some ending) :
    rule.Allows ending.length := by
  rw [h.windUpInput_raw] at hending
  dsimp only at hending
  split at hending
  · cases hending
  · next hnot =>
      obtain rfl := Option.some.inj hending
      exact LengthRule.allows_filled (Nat.le_of_not_lt fun hlt => hnot (.inr hlt))

/-- Whether some was dropped is a matter of the length alone. -/
theorem StandsFor.hasDropped_raw {rule : LengthRule} (h : input.StandsFor (.raw rule) record) :
    input.hasDropped = decide (rule.capacity < record.length) := by
  cases h with
  | held hle => exact (decide_eq_false (Nat.not_lt.mpr hle)).symm
  | overrun hbuffer hlt => exact (decide_eq_true hlt).symm

/-- **One call is answered alike**, and afterwards the input stands for what is on record. -/
theorem StandsFor.answer_eq (h : input.StandsFor processing record) (call : Call) :
    (input.answer call).1 = (remember processing record call).1
      ∧ (input.answer call).2.StandsFor processing (remember processing record call).2 := by
  cases call with
  | add data => exact ⟨rfl, h.add data⟩
  | reset => exact ⟨rfl, h.reset⟩
  | takeDigest =>
      -- a digest starts over, and so does its record; the other shapes keep what they have
      cases processing with
      | digestHere a =>
          rw [answer, h.takeDigest_eq]
          exact ⟨rfl, standsFor_new (.digestHere a)⟩
      | stream =>
          cases h
          exact ⟨rfl, .counted _⟩
      | raw rule =>
          have hkept : input.takeDigest = (.error (.wrongState .noLocalDigest), input) := by
            cases h <;> rfl
          rw [answer, hkept]
          exact ⟨rfl, h⟩
  | gathered =>
      refine ⟨?_, h⟩
      cases processing with
      | digestHere a => cases h; rfl
      | stream => cases h; rfl
      | raw rule => exact congrArg (some ∘ Answer.read) h.gathered_eq
  | windUpInput =>
      cases processing with
      | digestHere a =>
          rw [answer, h.windUpInput_digest]
          exact ⟨rfl, standsFor_new (.digestHere a)⟩
      | stream =>
          cases h
          exact ⟨rfl, .counted _⟩
      | raw rule =>
          rw [answer, h.windUpInput_raw]
          exact ⟨rfl, h⟩
  | hasDropped =>
      refine ⟨?_, h⟩
      cases processing with
      | digestHere a => cases h; rfl
      | stream => cases h; rfl
      | raw rule => exact congrArg (some ∘ Answer.dropped) h.hasDropped_raw

/-- What was not dropped is counted. -/
theorem StandsFor.count_eq (h : input.StandsFor processing record)
    (hdropped : input.hasDropped = false) : input.count = record.length := by
  cases h with
  | digested | counted | held => rfl
  | overrun => cases hdropped

/-- A buffer does not outgrow its capacity. -/
theorem StandsFor.length_le {buffer : Bytes} {rule : LengthRule} {overflow : Bool}
    (h : (raw buffer rule overflow).StandsFor processing record) :
    buffer.length ≤ rule.capacity := by
  cases h with
  | held hle => exact hle
  | overrun hbuffer hlt => exact hbuffer

theorem hasDropped_answer {call : Call} (hcall : call ≠ .reset) (h : input.hasDropped = true) :
    (input.answer call).2.hasDropped = true := by
  cases input with
  | digest md count => cases h
  | stream count => cases h
  | raw buffer rule overflow =>
      obtain rfl : overflow = true := h
      -- only a reset writes the mark of an overflow again
      cases call with
      | reset => exact absurd rfl hcall
      | add | takeDigest | gathered | windUpInput | hasDropped => rfl

/-! ## Any calls -/

/-- The induction is over the calls, from any record. -/
theorem StandsFor.run_eq (h : input.StandsFor processing record) (calls : List Call) :
    (run answer input calls).1 = (run (remember processing) record calls).1
      ∧ (run answer input calls).2.StandsFor processing
        (run (remember processing) record calls).2 := by
  induction calls generalizing input record with
  | nil => exact ⟨rfl, h⟩
  | cons call calls ih =>
      obtain ⟨hanswer, hafter⟩ := h.answer_eq call
      obtain ⟨hanswers, hlast⟩ := ih hafter
      refine ⟨?_, hlast⟩
      simp only [run, hanswer, hanswers]

theorem run_append {σ : Type} (step : σ → Call → Option Answer × σ) (s : σ)
    (calls later : List Call) :
    (run step s (calls ++ later)).1
      = (run step s calls).1 ++ (run step (run step s calls).2 later).1 := by
  induction calls generalizing s with
  | nil => rfl
  | cons call calls ih => simp only [List.cons_append, run, ih, List.append_assoc]

/-- On record, parts are their concatenation. -/
theorem run_parts (processing : Processing) (record : Bytes) (parts : List Bytes) :
    run (remember processing) record (parts.map .add) = ([], record ++ parts.flatten) := by
  induction parts generalizing record with
  | nil => simp [run]
  | cons data parts ih => simp [run, remember, ih]

/-- So no later answer depends on the parts that data was given in. -/
theorem StandsFor.run_parts (h : input.StandsFor processing record) (parts : List Bytes)
    (later : List Call) :
    (run answer input (parts.map .add ++ later)).1
      = (run answer input (.add parts.flatten :: later)).1 := by
  rw [(h.run_eq _).1, (h.run_eq _).1, run_append, PendingInput.run_parts]
  rfl

/-- What was dropped is missing until everything is forgotten. -/
theorem hasDropped_run {later : List Call} (hlater : .reset ∉ later)
    (h : input.hasDropped = true) : (run answer input later).2.hasDropped = true := by
  induction later generalizing input with
  | nil => exact h
  | cons call later ih =>
      rw [List.mem_cons, not_or] at hlater
      exact ih hlater.2 (hasDropped_answer (Ne.symm hlater.1) h)

/-- **Pending input answers as a record of the bytes does.** For every processing, and any calls in
    any order: every answer is the one that the list of the bytes given since they were last forgotten
    leads to, and afterwards the count is that of the list unless some was dropped. A buffer stays
    within its capacity; once it has dropped some, it says so until it is reset; and if an operation
    can be ended with it, then with an allowed length. No later answer depends on the parts that data
    was given in, be it before or after the buffer was full. -/
theorem answers_from_record (processing : Processing) (calls : List Call) :
    let out := run answer (new processing) calls
    let remembered := run (remember processing) [] calls
    out.1 = remembered.1
      ∧ (out.2.hasDropped = false → out.2.count = remembered.2.length)
      ∧ (∀ buffer rule overflow, out.2 = raw buffer rule overflow → buffer.length ≤ rule.capacity)
      ∧ (∀ later, .reset ∉ later → out.2.hasDropped = true →
        (run answer out.2 later).2.hasDropped = true)
      ∧ (∀ rule ending, processing = .raw rule → out.2.windUpInput.1 = some ending →
        rule.Allows ending.length)
      ∧ ∀ (parts : List Bytes) later, (run answer out.2 (parts.map .add ++ later)).1
        = (run answer out.2 (.add parts.flatten :: later)).1 := by
  intro out remembered
  obtain ⟨hanswers, hstands⟩ := (standsFor_new processing).run_eq calls
  refine ⟨hanswers, hstands.count_eq, ?_, ?_, ?_, hstands.run_parts⟩
  · intro buffer rule overflow hraw
    rw [hraw] at hstands
    exact hstands.length_le
  · intro later hlater hdropped
    exact hasDropped_run hlater hdropped
  · rintro rule ending rfl hending
    exact hstands.allows_of_windUpInput hending

/-- Raw input for DSA: the second part is too much, and the third would have fitted after the first;
    but nothing is read of the buffer until it is reset. -/
theorem answers_from_record_of_dropped :
    let given : List Call := [.add (List.replicate 12 1), .add (List.replicate 9 2), .add [3]]
    let read : List Call := [.hasDropped, .gathered, .windUpInput]
    let again : List Call := [.reset, .add [4, 5], .windUpInput]
    let ending : Bytes := [4, 5] ++ List.replicate 18 0
    let input := (run answer (new (.raw (.exact 20))) given).2
    let out := run answer (new (.raw (.exact 20))) (given ++ read ++ again)
    (∃ buffer, input = raw buffer (.exact 20) true ∧ buffer.length ≤ 20)
      ∧ (run answer input read).2.hasDropped = true
      ∧ out.1 = [.dropped true, .read (.error (.wrongLength (.exact 20))), .ending none,
        .ending (some ending)]
      ∧ out.2.count = 2 ∧ ending.length = 20 := by
  intro given read again ending input out
  obtain ⟨_, _, hbuffer, hdropped, _⟩ := answers_from_record (.raw (.exact 20)) given
  obtain ⟨hanswers, hcount, _, _, hallows, _⟩ :=
    answers_from_record (.raw (.exact 20)) (given ++ read ++ again)
  exact ⟨⟨List.replicate 12 1, rfl, hbuffer _ _ _ rfl⟩, hdropped read (by decide) rfl,
    hanswers.trans rfl, hcount rfl, hallows (.exact 20) ending rfl rfl⟩

end PendingInput

end Cryptoki
