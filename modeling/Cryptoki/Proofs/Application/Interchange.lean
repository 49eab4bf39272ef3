import Cryptoki.Proofs.Application.Messages
import Cryptoki.Proofs.Rsa

/-!
# `Cryptoki.Proofs.Application.Interchange` — the mechanism makes no difference

An algorithm with a digest can run on a mechanism that digests, on one that does not, and for RSA on
one that does not even pad. What is left to the caller is done on this side, so engines on any of
them accept the same keys, make the same signatures and come to the same verdicts, be the signature
valid or not. The engines need not share a token, as long as the same pair is on both.

## Contents
- `Application.Stores.starts_agree` — starting with a key of the pair.
- `Application.Stores.signatures_agree`, `Application.Stores.verdicts_agree` — messages.
- `Application.mechanisms_agree` — all of it, and which mechanisms these are.
-/

namespace Cryptoki.Application

variable {ops : KeyOperations} {a a' : Application (Logged (Software ops))} {secret : KeySecret}
  {pair pair' : KeyPair} {name name' : String} {e e' : Engine}

/-- Two engines accept the same keys, and reject others with the same words. -/
theorem Stores.starts_agree (h : a.Stores secret pair) (h' : a'.Stores secret pair')
    (hget : a.engines.get? name = some e) (hget' : a'.engines.get? name' = some e')
    (halgorithm : e.scheme.algorithm = e'.scheme.algorithm) (hdsa : e.scheme.family ≠ .dsa)
    (mode : OperationMode) :
    (a.step (.engine name (.init (pair.keyFor mode) mode))).1
        = (a'.step (.engine name' (.init (pair'.keyFor mode) mode))).1
      ∨ a.Starves (.engine name (.init (pair.keyFor mode) mode))
      ∨ a'.Starves (.engine name' (.init (pair'.keyFor mode) mode)) := by
  have hcheck := h.check_eq h' hget hget' halgorithm hdsa mode
  rcases h.opened hget mode with hstarves | ⟨fault, hfault, hreply⟩ | ⟨hok, hreply, _⟩
  · exact .inr (.inl hstarves)
  · rcases h'.opened hget' mode with hstarves' | ⟨fault', hfault', hreply'⟩ | ⟨hok', _⟩
    · exact .inr (.inr hstarves')
    · rw [hcheck, hfault'] at hfault
      obtain rfl := Except.error.inj hfault
      exact .inl (hreply.trans hreply'.symm)
    · rw [hcheck, hok'] at hfault
      cases hfault
  · rcases h'.opened hget' mode with hstarves' | ⟨fault', hfault', _⟩ | ⟨_, hreply', _⟩
    · exact .inr (.inr hstarves')
    · rw [hcheck, hfault'] at hok
      cases hok
    · exact .inl (hreply.trans hreply'.symm)

/-- Once they have started to sign, both make the signature of the payload, or neither makes one. -/
theorem Stores.signatures_agree {parts parts' : List Bytes} (h : a.Stores secret pair)
    (h' : a'.Stores secret pair') (hget : a.engines.get? name = some e)
    (hget' : a'.engines.get? name' = some e')
    (halgorithm : e.scheme.algorithm = e'.scheme.algorithm)
    (hdigest : e.scheme.algorithm.digest ≠ none)
    (hstart : (a.step (.engine name (.init pair.privateKey .sign))).1 = .engine (.ok .done))
    (hstart' : (a'.step (.engine name' (.init pair'.privateKey .sign))).1 = .engine (.ok .done))
    (hmessage : parts.flatten = parts'.flatten) :
    ∃ result result',
      (a.run (exchange name pair.privateKey .sign parts .sign)).1 = exchanged parts result
        ∧ (a'.run (exchange name' pair'.privateKey .sign parts' .sign)).1
          = exchanged parts' result'
        ∧ result.toOption = result'.toOption
        ∧ result.toOption
          = (secret.signature? ops (e.scheme.algorithm.payload parts.flatten)).map .signature := by
  obtain ⟨_, result, hsigned, hresult⟩ :=
    h.signed hget hstart parts fun hnone => absurd hnone hdigest
  obtain ⟨_, result', hsigned', hresult'⟩ :=
    h'.signed hget' hstart' parts' fun hnone => absurd hnone (halgorithm ▸ hdigest)
  refine ⟨result, result', hsigned, hsigned', ?_, hresult⟩
  rw [hresult, hresult', halgorithm, hmessage]

/-- Once they have started to verify, both come to the verdict of the pair, on any bytes. -/
theorem Stores.verdicts_agree {parts parts' : List Bytes} (h : a.Stores secret pair)
    (h' : a'.Stores secret pair') (hget : a.engines.get? name = some e)
    (hget' : a'.engines.get? name' = some e')
    (halgorithm : e.scheme.algorithm = e'.scheme.algorithm)
    (hdigest : e.scheme.algorithm.digest ≠ none)
    (hstart : (a.step (.engine name (.init pair.publicKey .verify))).1 = .engine (.ok .done))
    (hstart' : (a'.step (.engine name' (.init pair'.publicKey .verify))).1 = .engine (.ok .done))
    (hmessage : parts.flatten = parts'.flatten) (signature : Bytes) :
    let success := secret.accepts ops (e.scheme.algorithm.payload parts.flatten) signature
    (a.run (exchange name pair.publicKey .verify parts (.verify signature))).1
        = exchanged parts (.ok (.verdict success))
      ∧ (a'.run (exchange name' pair'.publicKey .verify parts' (.verify signature))).1
        = exchanged parts' (.ok (.verdict success)) := by
  intro success
  refine ⟨h.verified hget hstart parts (fun hnone => absurd hnone hdigest) signature, ?_⟩
  have hsuccess : success
      = secret.accepts ops (e'.scheme.algorithm.payload parts'.flatten) signature := by
    rw [← halgorithm, ← hmessage]
  rw [hsuccess]
  exact h'.verified hget' hstart' parts' (fun hnone => absurd hnone (halgorithm ▸ hdigest)) signature

/-- **The mechanism makes no difference.** The same pair is stored for two engines, in one token or
    in two, and both run one algorithm with a digest, for keys of the pair's family. Then a start
    has the same reply from both, unless a session is lacking for one of them. Once both were
    started, they make the same signature of a message, that of its payload, or both fail; and on
    any bytes whatever as a signature of the message they come to the same verdict, that of the pair
    on the payload. The message may reach them in other parts. The mechanisms are the one that
    digests as the algorithm does, which every RSA algorithm has, and those that leave digest, name
    or padding to this side. -/
theorem mechanisms_agree (h : a.Stores secret pair) (h' : a'.Stores secret pair')
    (hget : a.engines.get? name = some e) (hget' : a'.engines.get? name' = some e')
    (halgorithm : e.scheme.algorithm = e'.scheme.algorithm)
    (hdigest : e.scheme.algorithm.digest ≠ none) (hfamily : e.scheme.family = secret.family) :
    (∀ mode,
        (a.step (.engine name (.init (pair.keyFor mode) mode))).1
            = (a'.step (.engine name' (.init (pair'.keyFor mode) mode))).1
          ∨ a.Starves (.engine name (.init (pair.keyFor mode) mode))
          ∨ a'.Starves (.engine name' (.init (pair'.keyFor mode) mode)))
      ∧ ((a.step (.engine name (.init pair.privateKey .sign))).1 = .engine (.ok .done) →
        (a'.step (.engine name' (.init pair'.privateKey .sign))).1 = .engine (.ok .done) →
        ∀ parts parts' : List Bytes, parts.flatten = parts'.flatten →
          ∃ result result',
            (a.run (exchange name pair.privateKey .sign parts .sign)).1 = exchanged parts result
              ∧ (a'.run (exchange name' pair'.privateKey .sign parts' .sign)).1
                = exchanged parts' result'
              ∧ result.toOption = result'.toOption
              ∧ result.toOption
                = (secret.signature? ops (e.scheme.algorithm.payload parts.flatten)).map .signature)
      ∧ ((a.step (.engine name (.init pair.publicKey .verify))).1 = .engine (.ok .done) →
        (a'.step (.engine name' (.init pair'.publicKey .verify))).1 = .engine (.ok .done) →
        ∀ parts parts' : List Bytes, parts.flatten = parts'.flatten → ∀ signature,
          let success := secret.accepts ops (e.scheme.algorithm.payload parts.flatten) signature
          (a.run (exchange name pair.publicKey .verify parts (.verify signature))).1
              = exchanged parts (.ok (.verdict success))
            ∧ (a'.run (exchange name' pair'.publicKey .verify parts' (.verify signature))).1
              = exchanged parts' (.ok (.verdict success)))
      ∧ (∀ mechanism, (Scheme.processing? e.scheme.algorithm mechanism).isSome = true ↔
        Scheme.streamed? mechanism = some e.scheme.algorithm
          ∨ (e.scheme.family = .rsa ∧ (mechanism = .rsaPkcs ∨ mechanism = .rsaX509))
          ∨ (e.scheme.family = .ec ∧ mechanism = .ecdsa))
      ∧ (e.scheme.family = .rsa → ∃ mechanism, Scheme.streamed? mechanism = some e.scheme.algorithm)
      := by
  have hdsa : e.scheme.family ≠ .dsa := hfamily ▸ secret.family_ne_dsa
  refine ⟨h.starts_agree h' hget hget' halgorithm hdsa, ?_, ?_,
    Scheme.isSome_processing?_iff hdigest hdsa, Scheme.exists_streamed?_of_rsa⟩
  · intro hstart hstart' parts parts' hmessage
    exact h.signatures_agree h' hget hget' halgorithm hdigest hstart hstart' hmessage
  · intro hstart hstart' parts parts' hmessage signature
    exact h.verdicts_agree h' hget hget' halgorithm hdigest hstart hstart' hmessage signature

/-- Two engines of one application, one of which pads what the other has digested by the token: they
    sign alike, and they agree about a byte that is no signature. -/
theorem mechanisms_agree_of_primes :
    let pair := firstPair (.rsa Rsa.mersenneKey)
    let a := sideBySide .standard Rsa.mersenneKey
    (∃ result result',
        (a.run (exchange "digested" pair.privateKey .sign [[1], [2, 3]] .sign)).1
            = exchanged [[1], [2, 3]] result
          ∧ (a.run (exchange "raw" pair.privateKey .sign [[1, 2, 3]] .sign)).1
            = exchanged [[1, 2, 3]] result'
          ∧ result.toOption = result'.toOption)
      ∧ ∃ success,
        (a.run (exchange "digested" pair.publicKey .verify [[1], [2, 3]] (.verify [0]))).1
            = exchanged [[1], [2, 3]] (.ok (.verdict success))
          ∧ (a.run (exchange "raw" pair.publicKey .verify [[1, 2, 3]] (.verify [0]))).1
            = exchanged [[1, 2, 3]] (.ok (.verdict success)) := by
  intro pair a
  have h := sideBySide_stores .standard Rsa.mersenneKey
  have hget : a.engines.get? "digested"
      = some (.ofScheme ⟨.sha256WithRsa, .sha256RsaPkcs, .stream⟩) := rfl
  have hget' : a.engines.get? "raw"
      = some (.ofScheme ⟨.sha256WithRsa, .rsaX509, .digestHere .sha256⟩) := rfl
  have hstart : ∀ mode, (a.step (.engine "digested" (.init (pair.keyFor mode) mode))).1
      = .engine (.ok .done) := by
    intro mode
    rw [step_engine hget]
    refine congrArg Reply.engine ?_
    cases mode <;> decide +kernel
  have hstart' : ∀ mode, (a.step (.engine "raw" (.init (pair.keyFor mode) mode))).1
      = .engine (.ok .done) := by
    intro mode
    rw [step_engine hget']
    refine congrArg Reply.engine ?_
    cases mode <;> decide +kernel
  have hmessage : ([[1], [2, 3]] : List Bytes).flatten = ([[1, 2, 3]] : List Bytes).flatten := rfl
  obtain ⟨_, hsign, hverify, _⟩ := mechanisms_agree h h hget hget' rfl nofun rfl
  obtain ⟨result, result', hsigned, hsigned', hsame, _⟩ :=
    hsign (hstart .sign) (hstart' .sign) _ _ hmessage
  exact ⟨⟨result, result', hsigned, hsigned', hsame⟩, _,
    hverify (hstart .verify) (hstart' .verify) _ _ hmessage [0]⟩

end Cryptoki.Application
