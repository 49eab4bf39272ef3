import Cryptoki.Proofs.Engine.Implicit
import Cryptoki.Proofs.Engine.Serving
import Cryptoki.Proofs.SignatureValue.Block

/-!
# `Cryptoki.Proofs.Engine.Course` — the course of a message, call by call

An engine that works with keys of stored pairs is, between any two calls, at rest or in the middle of
a message that is known from the calls so far: a start begins one, a part is added to it or, at rest,
begins one, and a call that comes to nothing leaves it alone. So whatever is asked for, in whatever
order, a verdict is given on all of the message that was taken in, and only one thing can keep an
engine from giving it: an algorithm without a digest that was given too much.

## Contents
- `KeyPair.Has`, `Pool.Knows` — the keys of pairs on the token.
- `Engine.messageAfter` — the message after a call.
- `Engine.Ready.init_serves`, `Engine.Ready.update_begins`, `Engine.Ready.update_goesOn` — how a
  message begins and goes on.
- `Engine.Ready.handle_serves` — an engine in the middle of a message, through every call.
- `Engine.Overlong`, `Engine.Serves.verify_overlong`, `Engine.Serves.verify_total` — what comes of
  asking for a verdict, in full.
-/

namespace Cryptoki

/-- The key is one of the pair. -/
def KeyPair.Has (pair : KeyPair) (key : Key) : Prop := key = pair.privateKey ∨ key = pair.publicKey

/-- The key is one of a pair on the token. -/
def Pool.Knows {ops : KeyOperations} (p : Pool (Logged (Software ops))) (key : Key) : Prop :=
  ∃ secret pair, p.token.token.Holds secret pair ∧ pair.Has key

theorem KeyPair.Has.keyFor {pair : KeyPair} {key : Key} (h : pair.Has key) :
    ∃ mode, key = pair.keyFor mode := by
  rcases h with rfl | rfl
  · exact ⟨.sign, rfl⟩
  · exact ⟨.verify, rfl⟩

namespace Engine

/-! ## Failures leave an engine at rest -/

section

variable {τ : Type} [Token τ] {scheme : Scheme} {e : Engine} {key : Key} {mode : OperationMode}
  {p : Pool τ}

/-- A start that succeeds was with a key that is accepted. -/
theorem acceptKey_of_init {answer : Answer}
    (h : (e.handle (.init key mode) p).1 = .ok answer) : e.scheme.acceptKey key mode = .ok () := by
  simp only [handle, startWith] at h
  cases haccept : e.accept key mode p with
  | mk check q =>
      rw [haccept] at h
      cases check with
      | error fault => cases h
      | ok u => exact acceptKey_of_accept haccept

/-- A call that is to end an operation does nothing, or leaves the engine at rest. -/
theorem finish_cases {request : Request} (hfinishes : request.finishes? = some mode)
    (p : Pool τ) :
    (e.handle request p).2 = (e, p) ∨ (e.handle request p).2.1.state = .uninitialized := by
  have hfinished := finished (e := e) p hfinishes
  generalize (e.handle request p).2 = out at hfinished ⊢
  cases hfinished with
  | wrongMode => exact .inl rfl
  | notStarted _ hstate hstart => exact .inr ((start_error hstart).trans hstate)
  | leaseless => exact .inr rfl
  | ended => exact .inr rfl

end

/-! ## The message -/

/-- The message that an engine has taken in after a call, by what it had before and by what it
    answers. -/
def messageAfter (e : Engine) (message : Bytes) (request : Request)
    (result : Except EngineError Answer) : Bytes :=
  match request, result with
  | .init .., _ => []
  | .update data, .ok _ => if e.state = .initialized then message ++ data else data
  | _, _ => message

variable {ops : KeyOperations} {scheme : Scheme} {secret : KeySecret} {pair : KeyPair}
  {e : Engine} {key : Key} {mode : OperationMode} {message : Bytes}
  {p : Pool (Logged (Software ops))}

theorem messageAfter_of_finishes {request : Request} (h : request.finishes? = some mode)
    (e : Engine) (message : Bytes) (result : Except EngineError Answer) :
    e.messageAfter message request result = message := by
  cases request with
  | init | update | cancel => cases h
  | sign => rfl
  | verify signature => rfl

/-- The key that is bound suits the scheme. -/
theorem Ready.suits (h : e.Ready) (hkey : e.key = some key) : e.scheme.Suits key := by
  obtain ⟨_, _, haccept⟩ := h.coherent.accepted key hkey
  exact ⟨h.resolved, (Scheme.family_of_acceptKey haccept).1,
    Scheme.roomy_of_acceptSize (h.sized key hkey)⟩

/-- Of a pair, the key that is accepted for a mode is the one for the mode. -/
theorem keyFor_of_accept (hholds : p.token.token.Holds secret pair) (hhas : pair.Has key)
    (haccept : scheme.acceptKey key mode = .ok ()) : key = pair.keyFor mode := by
  obtain ⟨mode', rfl⟩ := hhas.keyFor
  have hhalf := (hholds.half mode').symm.trans (Scheme.family_of_acceptKey haccept).2
  cases mode <;> cases mode' <;> first | rfl | cases hhalf

/-- Keys of pairs on the token are none of DSA. -/
theorem Ready.ne_dsa (h : e.Ready) (hknown : p.Knows key) (hkey : e.key = some key) :
    e.scheme.family ≠ .dsa := by
  obtain ⟨secret, pair, hholds, hhas⟩ := hknown
  obtain ⟨mode, rfl⟩ := hhas.keyFor
  exact (h.suits hkey).family_ne_dsa (hholds.params mode)

/-! ## Every call -/

/-- A start fails and leaves the engine at rest, or it begins a message. -/
theorem Ready.init_serves (h : e.Ready) (hknown : p.Knows key) (mode : OperationMode) :
    let out := e.handle (.init key mode) p
    (∃ err, out.1 = .error err ∧ out.2.1.state = .uninitialized)
      ∨ (out.1 = .ok .done ∧ Serves e.scheme key mode [] out.2.1 out.2.2) := by
  intro out
  obtain ⟨secret, pair, hholds, hhas⟩ := hknown
  rcases hresult : out.1 with err | answer
  · exact .inl ⟨err, rfl, h.coherent.rest_of_init hresult⟩
  · obtain rfl := keyFor_of_accept hholds hhas (acceptKey_of_init hresult)
    have hopened := h.opened hholds mode
    change Opened _ _ _ _ out at hopened
    generalize out = out at hopened hresult
    cases hopened with
    | unavailable => cases hresult
    | rejected => cases hresult
    | serving _ hserves => exact .inr ⟨hresult.symm, hserves⟩

theorem Serves.key_eq (h : Serves scheme key mode message e p) : e.key = some key := by
  obtain ⟨session, parts, rfl, _⟩ := h
  rfl

/-- A part goes on with the message. -/
theorem Ready.update_goesOn (h : e.Ready) (hknown : ∀ key, e.key = some key → p.Knows key)
    (hserves : Serves e.scheme key mode message e p) (data : Bytes) :
    let out := e.handle (.update data) p
    out.1 = .ok .done ∧ Serves e.scheme key mode (message ++ data) out.2.1 out.2.2 := by
  have hdsa := h.ne_dsa (hknown key hserves.key_eq) hserves.key_eq
  obtain ⟨e', q, hupdate, hserves'⟩ := hserves.update h.resolved hdsa data
  rw [hupdate]
  exact ⟨rfl, hserves'⟩

/-- At rest a part fails and leaves the engine at rest, or it begins a message. -/
theorem Ready.update_begins (h : e.Ready) (hknown : ∀ key, e.key = some key → p.Knows key)
    (hrest : e.state = .uninitialized) (data : Bytes) :
    let out := e.handle (.update data) p
    out.2.1.state = .uninitialized
      ∨ ∃ key mode, out.1 = .ok .done ∧ Serves e.scheme key mode data out.2.1 out.2.2 := by
  intro out
  cases hkey : e.key with
  | none =>
      -- without a key there is nothing to start with
      have hstart := start_unbound (.inl hkey) p
      have hout : out = (.error (.wrongState .noKeyBound), e, p) := by
        show e.handle (.update data) p = _
        rw [handle_update_of_rest hrest, hstart]
      rw [hout]
      exact .inl hrest
  | some key =>
      -- the part starts an operation as a start does, and is then taken in
      obtain ⟨mode, hmode, _⟩ := h.coherent.accepted key hkey
      have hout : out = e.startThenUpdate key mode data p :=
        h.coherent.update_eq hrest hkey hmode data p
      have hinit := h.init_serves (hknown key hkey) mode
      unfold startThenUpdate at hout
      generalize e.handle (.init key mode) p = started at hinit hout
      obtain ⟨result, e₁, q⟩ := started
      rcases hinit with ⟨err, rfl, hrest₁⟩ | ⟨rfl, hserves⟩
      · rw [hout]
        exact .inl hrest₁
      · obtain ⟨e', r, hupdate, hserves'⟩ :=
          hserves.update h.resolved (h.ne_dsa (hknown key hkey) hkey) data
        rw [hout]
        dsimp only
        rw [hupdate]
        exact .inr ⟨key, mode, rfl, hserves'⟩

/-- **Whatever is asked for, an engine that is initialized is in the middle of a message**, which is
    known from the calls. -/
theorem Ready.handle_serves (h : e.Ready) (hknown : ∀ key, e.key = some key → p.Knows key)
    (hserves : e.state = .initialized → ∃ key mode, Serves e.scheme key mode message e p)
    (request : Request) (hrequest : ∀ key mode, request = .init key mode → p.Knows key) :
    let out := e.handle request p
    out.2.1.state = .initialized →
      ∃ key mode, Serves e.scheme key mode (e.messageAfter message request out.1) out.2.1 out.2.2 := by
  intro out hstate
  have hfinish : ∀ {mode}, request.finishes? = some mode →
      ∃ key mode, Serves e.scheme key mode (e.messageAfter message request out.1) out.2.1
        out.2.2 := by
    intro mode hfinishes
    rw [messageAfter_of_finishes hfinishes]
    -- still initialized afterwards, the engine was asked in the wrong mode
    rcases finish_cases (e := e) hfinishes p with hsame | hrest
    · have hout : out.2 = (e, p) := hsame
      rw [hout] at hstate ⊢
      exact hserves hstate
    · cases hrest.symm.trans hstate
  cases request with
  | init key mode =>
      rcases h.init_serves (hrequest key mode rfl) mode with ⟨err, _, hrest⟩ | ⟨_, hserves'⟩
      · cases hrest.symm.trans hstate
      · exact ⟨key, mode, hserves'⟩
  | update data =>
      cases hbefore : e.state with
      | initialized =>
          obtain ⟨key, mode, hserves⟩ := hserves hbefore
          obtain ⟨hresult, hserves'⟩ := h.update_goesOn hknown hserves data
          refine ⟨key, mode, ?_⟩
          rw [show out.1 = .ok .done from hresult, messageAfter, if_pos hbefore]
          exact hserves'
      | uninitialized =>
          rcases h.update_begins hknown hbefore data with hrest | ⟨key, mode, hresult, hserves'⟩
          · cases hrest.symm.trans hstate
          · refine ⟨key, mode, ?_⟩
            rw [show out.1 = .ok .done from hresult, messageAfter, if_neg (by simp [hbefore])]
            exact hserves'
  | sign => exact hfinish rfl
  | verify signature => exact hfinish rfl
  | cancel => cases (giveBack_rest _ _).symm.trans hstate

/-! ## Verdicts -/

variable {signature : Bytes}

/-- Signatures for ECDSA are read as two numbers. -/
theorem decodeSignature_of_ec (hfamily : scheme.family = .ec) (signature : Bytes) :
    decodeSignature scheme signature = SignatureValue.ecdsaBlock signature := by
  simp [decodeSignature, Scheme.hasPairSignatures, hfamily]

/-- The message is too long for its algorithm, and the signature is read as two numbers. -/
def Overlong (scheme : Scheme) (message signature : Bytes) : Prop :=
  scheme.algorithm = .noneWithEcdsa ∧ rawEcdsaMax < message.length
    ∧ ∃ v, SignatureValue.decode signature = .ok v

theorem Overlong.family (h : Overlong scheme message signature) : scheme.family = .ec := by
  rw [Scheme.family, h.1]
  rfl

/-- A message that is too long is found to be so, if the signature can be read. -/
theorem Serves.verify_overlong (h : Serves scheme (pair.keyFor .verify) .verify message e p)
    (hsuits : scheme.Suits (pair.keyFor .verify)) (hlong : Overlong scheme message signature) :
    (e.handle (.verify signature) p).1 = .error (.wrongLength (.atMost rawEcdsaMax)) := by
  obtain ⟨session, parts, rfl, rfl, _⟩ := h
  obtain ⟨block, hblock⟩ := SignatureValue.ecdsaBlock_isOk_iff.mpr hlong.2.2
  have hdsa : scheme.family ≠ .dsa := by
    rw [hlong.family]
    decide
  have hfault := hsuits.resolved.lengthFault?_eq hdsa parts.flatten.length
  rw [if_pos ⟨hlong.1, hlong.2.1⟩] at hfault
  obtain ⟨e', hverify⟩ := verify_wrongLength hsuits
    ((decodeSignature_of_ec hlong.family signature).trans hblock) hfault session p
  rw [hverify]

/-- **In all other cases there is a verdict**, that of the pair for the payload of the message. -/
theorem Serves.verify_total (h : Serves scheme (pair.keyFor .verify) .verify message e p)
    (hsuits : scheme.Suits (pair.keyFor .verify)) (hholds : p.token.token.Holds secret pair)
    (hfine : ¬ Overlong scheme message signature) :
    (e.handle (.verify signature) p).1
      = .ok (.verdict (secret.accepts ops (scheme.algorithm.payload message) signature)) := by
  have hparams := hholds.params .verify
  cases hdecode : decodeSignature scheme signature with
  | error cause =>
      -- the signature is looked at first, so the length of the message does not matter
      obtain ⟨session, parts, rfl, rfl, _⟩ := h
      obtain ⟨e', hverify⟩ := verify_unread hdecode (pair.keyFor .verify) session parts p
      rw [hverify, hsuits.accepts_unread hparams hdecode]
  | ok block =>
      refine h.verify hsuits hholds ?_ signature
      rw [hsuits.resolved.lengthFault?_eq (hsuits.family_ne_dsa hparams)]
      apply if_neg
      rintro ⟨halgorithm, hlong⟩
      have hfamily : scheme.family = .ec := by
        rw [Scheme.family, halgorithm]
        rfl
      rw [decodeSignature_of_ec hfamily] at hdecode
      exact hfine ⟨halgorithm, hlong, SignatureValue.ecdsaBlock_isOk_iff.mp ⟨block, hdecode⟩⟩

end Engine

end Cryptoki
