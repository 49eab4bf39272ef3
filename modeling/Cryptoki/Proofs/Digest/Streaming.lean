import Cryptoki.Proofs.Digest.Hasher

/-!
# `Cryptoki.Proofs.Digest.Streaming` — piece by piece or whole, the digest is the same

A digest in progress stands for the bytes it has taken in: its hash function cannot be told from one
that has taken them in as a whole. Taking in more keeps that, so only the concatenation of the pieces
shows in the digest. Finishing and resetting both lead back to the start, so one value digests any
number of messages, and none of them shows in another. All of this holds over any hash functions that
keep their laws.

## Contents
- `DigestStream.StandsFor` — what a digest in progress stands for, by algorithm and message.
- `DigestStream.StandsFor.finish_eq` — its digest, by the standard algorithms.
- `DigestStream.finish_foldl_update` — pieces digest as their concatenation does.
- `DigestStream.run`, `DigestStream.messages` — any calls on one digest in progress.
- `DigestStream.digests_each_message` — what they answer.
-/

namespace Cryptoki.DigestStream

open DigestAlgorithm (published digest_published)
open Hasher (Call)

/-! ## One message -/

section

variable {hashers : DigestAlgorithm → Hasher}

/-- The digest in progress is one by the algorithm, and has taken in the bytes of the message. -/
structure StandsFor (md : DigestStream hashers) (a : DigestAlgorithm) (message : Bytes) : Prop where
  algorithm_eq : md.algorithm = a
  running : (hashers md.algorithm).Alike md.running
    ((hashers md.algorithm).update (hashers md.algorithm).start message)

variable [hlawful : LawfulHashers hashers] {md : DigestStream hashers} {a : DigestAlgorithm}
  {message : Bytes}

theorem standsFor_new (a : DigestAlgorithm) : (new a : DigestStream hashers).StandsFor a [] :=
  ⟨rfl, ((hlawful.lawful a).update_nil _).symm⟩

theorem StandsFor.update (h : md.StandsFor a message) (data : Bytes) :
    (md.update data).StandsFor a (message ++ data) := by
  obtain ⟨rfl, hrunning⟩ := h
  exact ⟨rfl, (hrunning.update data).trans ((hlawful.lawful _).update_append _ _ _)⟩

theorem StandsFor.foldl_update (h : md.StandsFor a message) (pieces : List Bytes) :
    (pieces.foldl DigestStream.update md).StandsFor a (message ++ pieces.flatten) := by
  induction pieces generalizing md message with
  | nil => simpa using h
  | cons piece pieces ih => simpa using ih (h.update piece)

/-- What was taken in is forgotten as a whole. -/
theorem StandsFor.reset (h : md.StandsFor a message) : md.reset.StandsFor a [] := by
  obtain ⟨rfl, _⟩ := h
  exact ⟨rfl, ((hlawful.lawful _).reset _).trans ((hlawful.lawful _).update_nil _).symm⟩

/-- **The digest is that of the message, and the value starts over.** -/
theorem StandsFor.finish (h : md.StandsFor a message) :
    md.finish.1 = (hashers a).hash message ∧ md.finish.2.StandsFor a [] := by
  obtain ⟨rfl, hrunning⟩ := h
  refine ⟨hrunning.finish_eq.trans ((hlawful.lawful _).finish_update message), rfl, ?_⟩
  exact ((hlawful.lawful _).finish _).trans ((hlawful.lawful _).update_nil _).symm

/-- A message that is there as a whole has the digest that it has in one step. -/
theorem digestOf_eq (a : DigestAlgorithm) (message : Bytes) :
    digestOf hashers a message = (hashers a).hash message :=
  ((standsFor_new a).update message).finish.1

end

/-! ## The standard algorithms -/

/-- By a standard algorithm, the value that starts over is the one that it started as. -/
theorem StandsFor.finish_eq {md : DigestStream} {a : DigestAlgorithm} {message : Bytes}
    (h : md.StandsFor a message) : md.finish = (a.digest message, new a) := by
  refine Prod.ext h.finish.1 ?_
  obtain ⟨rfl, _⟩ := h
  rfl

/-- **Pieces digest as their concatenation does.** -/
theorem finish_foldl_update (a : DigestAlgorithm) (pieces : List Bytes) :
    (pieces.foldl update (new a : DigestStream)).finish = (a.digest pieces.flatten, new a) :=
  ((standsFor_new a).foldl_update pieces).finish_eq

/-! ## One message after the other -/

section

variable {hashers : DigestAlgorithm → Hasher}

/-- The digests that calls answer, in order, and the digest in progress after them. -/
def run (md : DigestStream hashers) : List Call → List Bytes × DigestStream hashers
  | [] => ([], md)
  | .update data :: calls => (md.update data).run calls
  | .reset :: calls => md.reset.run calls
  | .finish :: calls =>
    let (digest, md) := md.finish
    let (digests, md) := md.run calls
    (digest :: digests, md)

/-- The messages that calls finish, in order: each is the concatenation of the data given since the
    last reset or the last message, and the first one begins with `message`. -/
def messages (message : Bytes) : List Call → List Bytes
  | [] => []
  | .update data :: calls => messages (message ++ data) calls
  | .reset :: calls => messages [] calls
  | .finish :: calls => message :: messages [] calls

variable [LawfulHashers hashers] {md : DigestStream hashers} {a : DigestAlgorithm} {message : Bytes}

/-- The induction is over the calls, with any message already taken in. -/
theorem StandsFor.run_eq (h : md.StandsFor a message) (calls : List Call) :
    (md.run calls).1 = (messages message calls).map (hashers a).hash := by
  induction calls generalizing md message with
  | nil => rfl
  | cons call calls ih =>
      cases call with
      | update data => exact ih (h.update data)
      | reset => exact ih h.reset
      | finish => exact congr (congrArg List.cons h.finish.1) (ih h.finish.2)

/-- **One value digests any number of messages.** Let the hash functions keep their laws. Whatever is
    called on a digest in progress, each digest that it answers is that of the concatenation of the
    data given since the last reset or the last digest, as a new value digests it when it is given as
    a whole, and has the length that the algorithm announces. This is also the digest that the hash
    function gives in one step. -/
theorem digests_each_message (hashers : DigestAlgorithm → Hasher) [hlawful : LawfulHashers hashers]
    (a : DigestAlgorithm) (calls : List Call) :
    let answers := ((new a : DigestStream hashers).run calls).1
    answers = (messages [] calls).map (digestOf hashers a)
      ∧ (∀ digest ∈ answers, digest.length = a.outputLength)
      ∧ ∀ message, digestOf hashers a message = (hashers a).hash message := by
  intro answers
  have hnew : (new a : DigestStream hashers).StandsFor a [] := standsFor_new a
  have hrun : answers = (messages [] calls).map (hashers a).hash := hnew.run_eq calls
  refine ⟨?_, ?_, digestOf_eq a⟩
  · rw [hrun]
    exact List.map_congr_left fun message _ => (digestOf_eq a message).symm
  · intro digest hdigest
    rw [hrun] at hdigest
    obtain ⟨message, _, rfl⟩ := List.mem_map.mp hdigest
    exact (hlawful.lawful a).length_hash message

end

/-- By each of the standard algorithms, more than a block is forgotten, then "abc" comes in pieces, and
    nothing comes after it. -/
theorem digests_each_message_of_forgotten :
    let calls : List Call := [.update (List.replicate 130 0), .reset, .update [97], .update [],
      .update [98, 99], .finish, .finish]
    DigestAlgorithm.all.map (fun a => ((new a : DigestStream).run calls).1)
        = DigestAlgorithm.all.map (fun a => [(published a).1, (published a).2])
      ∧ ((new .sha384 : DigestStream).run calls).1.map List.length = [48, 48] := by
  intro calls
  have hanswers (a : DigestAlgorithm) :
      ((new a : DigestStream).run calls).1 = [(published a).1, (published a).2] := by
    obtain ⟨hrun, _, hwhole⟩ := digests_each_message DigestAlgorithm.hasher a calls
    obtain ⟨habc, hnone⟩ := digest_published a
    have hmessages : messages [] calls = [[97, 98, 99], []] := rfl
    rw [hrun, hmessages, List.map_cons, List.map_cons, List.map_nil, hwhole, hwhole]
    exact congr (congrArg _ habc) (congrArg (fun digest => [digest]) hnone)
  obtain ⟨_, hlength, _⟩ := digests_each_message DigestAlgorithm.hasher .sha384 calls
  refine ⟨List.map_congr_left fun a _ => hanswers a, ?_⟩
  rw [hanswers] at hlength ⊢
  exact congr (congrArg _ (hlength _ List.mem_cons_self))
    (congrArg (fun length => [length]) (hlength _ (List.mem_cons_of_mem _ List.mem_cons_self)))

end Cryptoki.DigestStream
