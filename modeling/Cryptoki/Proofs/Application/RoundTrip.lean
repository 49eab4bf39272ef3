import Cryptoki.Proofs.Application.Messages
import Cryptoki.Proofs.Rsa

/-!
# `Cryptoki.Proofs.Application.RoundTrip` — what one engine signs another verifies

The key operations verify what they sign, each on the payload itself. Between the caller and them
are two engines, that may run the algorithm on different mechanisms, a pool that others use as well,
and the encoding of the signature, once in each direction. None of this stands in the way: a message
that is signed through any engine is verified through any other, at any later time and in any parts.

## Contents
- `Application.round_trip` — signing a message and verifying the signature.
- `Application.round_trip_of_primes` — RSA, from a mechanism that digests to one that does not pad.
-/

namespace Cryptoki.Application

variable {ops : KeyOperations} {a : Application (Logged (Software ops))} {secret : KeySecret}
  {pair : KeyPair} {signer : String} {e : Engine}

/-- **What is signed verifies.** The pair is stored, its keys pass the check of the algorithm, and
    the key operations verify what they sign with it. Then an engine signs a message with the
    signature of its payload, unless a session is lacking; and whatever happens meanwhile, the
    signature verifies over the same message, split in any other way, with the same engine or
    another one for the algorithm, on any mechanism. Data that is signed as given must be neither
    too short for the key operations nor too long for the algorithm. -/
theorem round_trip {parts parts' : List Bytes} (h : a.Stores secret pair)
    (hlaw : ops.RoundTrips secret) (hsigner : a.engines.get? signer = some e)
    (hkeys : ∀ mode, e.scheme.check (pair.keyFor mode) mode = .ok ())
    (hsession : ¬ a.Starves (.engine signer (.init pair.privateKey .sign)))
    (hmessage : parts'.flatten = parts.flatten)
    (hraw : e.scheme.algorithm.digest = none →
      Ecdsa.minPrehash ≤ parts.flatten.length ∧ parts.flatten.length ≤ rawEcdsaMax) :
    let out := a.run (exchange signer pair.privateKey .sign parts .sign)
    ∃ signature, secret.signature? ops (e.scheme.algorithm.payload parts.flatten) = some signature
      ∧ out.1 = exchanged parts (.ok (.signature signature))
      ∧ ∀ (meanwhile : List Action) (verifier : String) (e' : Engine),
          (out.2.after meanwhile).engines.get? verifier = some e' →
          e'.scheme.algorithm = e.scheme.algorithm →
          ¬ (out.2.after meanwhile).Starves (.engine verifier (.init pair.publicKey .verify)) →
          ((out.2.after meanwhile).run
              (exchange verifier pair.publicKey .verify parts' (.verify signature))).1
            = exchanged parts' (.ok (.verdict true)) := by
  intro out
  have hstart := (h.init_ok_iff hsigner .sign).mpr ⟨hkeys .sign, hsession⟩
  obtain ⟨hsuits, result, hsigned, hresult⟩ :=
    h.signed hsigner hstart parts fun hnone => (hraw hnone).2
  have hparams := h.holds.params .sign
  -- the payload is one that the pair signs, and its signature is the one that callers see
  have htakes := hsuits.takes hparams fun hnone => (hraw hnone).1
  obtain ⟨signature, hsignature, haccepts⟩ := hlaw.accepts htakes
  rw [hsignature, Option.map_some] at hresult
  cases result with
  | error err => cases hresult
  | ok answer =>
      obtain rfl := Option.some.inj hresult
      refine ⟨signature, hsignature, hsigned, ?_⟩
      intro meanwhile verifier e' hverifier halgorithm hsession'
      have hlater : (out.2.after meanwhile).Stores secret pair := by
        rw [run_after]
        exact (h.after _).after meanwhile
      -- the check of the public key is the same for both engines
      have hdsa := hsuits.family_ne_dsa hparams
      have hcheck : e'.scheme.check pair.publicKey .verify = .ok () :=
        (h.check_eq hlater hsigner hverifier halgorithm.symm hdsa .verify).symm.trans
          (hkeys .verify)
      have hstart' := (hlater.init_ok_iff hverifier .verify).mpr ⟨hcheck, hsession'⟩
      have hlength : e'.scheme.algorithm.digest = none → parts'.flatten.length ≤ rawEcdsaMax := by
        rw [halgorithm, hmessage]
        exact fun hnone => (hraw hnone).2
      rw [hlater.verified hverifier hstart' parts' hlength, halgorithm, hmessage, haccepts]

/-- The token digests, names and pads what one engine signs; another engine has done all that before
    it asks the token for a verdict. -/
theorem round_trip_of_primes :
    let pair := firstPair (.rsa Rsa.mersenneKey)
    let out := (sideBySide .standard Rsa.mersenneKey).run
      (exchange "digested" pair.privateKey .sign [[1], [2, 3]] .sign)
    ∃ signature, out.1 = exchanged [[1], [2, 3]] (.ok (.signature signature))
      ∧ (out.2.run (exchange "raw" pair.publicKey .verify [[1, 2, 3]] (.verify signature))).1
        = exchanged [[1, 2, 3]] (.ok (.verdict true)) := by
  intro pair out
  have h := sideBySide_stores .standard Rsa.mersenneKey
  let scheme : Scheme := ⟨.sha256WithRsa, .sha256RsaPkcs, .stream⟩
  have hsigner : (sideBySide .standard Rsa.mersenneKey).engines.get? "digested"
      = some (.ofScheme scheme) := rfl
  have hkeys : ∀ mode, scheme.check (pair.keyFor mode) mode = .ok () := by
    intro mode
    cases mode <;> decide +kernel
  have hstart : ((sideBySide .standard Rsa.mersenneKey).step
      (.engine "digested" (.init pair.privateKey .sign))).1 = .engine (.ok .done) := by
    rw [step_engine hsigner]
    exact congrArg Reply.engine (by decide +kernel)
  obtain ⟨_, hsession⟩ := (h.init_ok_iff hsigner .sign).mp hstart
  have hmessage : ([[1, 2, 3]] : List Bytes).flatten = ([[1], [2, 3]] : List Bytes).flatten := rfl
  obtain ⟨signature, _, hsigned, hverified⟩ :=
    round_trip h Rsa.mersenneKey_roundTrips hsigner hkeys hsession hmessage nofun
  refine ⟨signature, hsigned, ?_⟩
  -- the other engine is still there after that, and its start succeeds
  have hfound : (out.2.engines.get? "raw").map (fun e =>
      (e.scheme.algorithm, (e.handle (.init pair.publicKey .verify) out.2.pool).1))
        = some (.sha256WithRsa, .ok .done) := by decide +kernel
  obtain ⟨e', hverifier, hfacts⟩ := Option.map_eq_some_iff.mp hfound
  obtain ⟨halgorithm, hanswer⟩ := Prod.mk.inj hfacts
  have hstart' : (out.2.step (.engine "raw" (.init pair.publicKey .verify))).1
      = .engine (.ok .done) := by
    rw [step_engine hverifier]
    exact congrArg Reply.engine hanswer
  have hlater : out.2.Stores (.rsa Rsa.mersenneKey) pair := by
    rw [run_after]
    exact h.after _
  obtain ⟨_, hsession'⟩ := (hlater.init_ok_iff hverifier .verify).mp hstart'
  have hnow : out.2.after [] = out.2 := rfl
  rw [← hnow] at hverifier hsession' ⊢
  exact hverified [] "raw" e' hverifier halgorithm hsession'

end Cryptoki.Application
