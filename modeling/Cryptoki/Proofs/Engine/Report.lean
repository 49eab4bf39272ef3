import Cryptoki.Proofs.Engine.Cycle
import Cryptoki.Proofs.Engine.Finish
import Cryptoki.Proofs.SignatureValue
import Cryptoki.Token.Scripted

/-!
# `Cryptoki.Proofs.Engine.Report` — an engine reports what the token said

Once an operation is under way, ending it leaves little to go wrong on this side: a signature that
cannot be read does not verify, and raw input may be too short or too long. In all other cases one
call is made, and what it answers is what is reported. A code that says that a signature does not
verify counts as a verdict when one was asked for, and as a failure when a signature was.

## Contents
- `Engine.Unasked` — the token is not asked.
- `Engine.VerdictReport`, `Engine.VerifyReport` — what a verifying operation comes to.
- `Engine.BlockReport`, `Engine.SignReport` — what a signing operation comes to.
- `Engine.Cycle.Follows.underWay` — operations under way, in runs of calls.
- `Engine.Cycle.reported` — the report of every call that ends an operation.
-/

namespace Cryptoki.Engine

open Token (Event)

variable {τ : Type} [Token τ] {scheme : Scheme} {key : Key} {session : SessionId}
  {parts : List Bytes} {message signature block : Bytes} {p : Pool (Logged τ)}

/-! ## Reports -/

/-- No operation is ended on the token; its session is closed. -/
def Unasked (session : SessionId) (events : List Event) : Prop :=
  ∃ result, events = [⟨.closeSession session, result⟩]

/-- The codes that say that a signature does not verify. -/
def mismatches : List ReturnCode := [.signatureInvalid, .signatureLenRange, .dataLenRange]

/-- The verdict is the token's, and a failure is reported with its code. -/
structure VerdictReport (operation : Operation) (result : Except ReturnCode Unit)
    (answer : Except EngineError Answer) : Prop where
  holds : answer = .ok (.verdict true) ↔ result = .ok ()
  denied : answer = .ok (.verdict false) ↔ ∃ code ∈ mismatches, result = .error code
  failed : ∀ code, code ∉ mismatches → result = .error code →
    answer = .error (.tokenFailure operation code)

/-- What verifying a signature of a message comes to: the token is asked about the block that was
    read from the signature, unless there is none, or the raw message breaks its rule. -/
def VerifyReport (scheme : Scheme) (key : Key) (session : SessionId) (message signature : Bytes)
    (events : List Event) (answer : Except EngineError Answer) : Prop :=
  match decodeSignature scheme signature, scheme.lengthFault? message.length with
  | .error _, _ => Unasked session events ∧ answer = .ok (.verdict false)
  | .ok _, some rule => Unasked session events ∧ answer = .error (.wrongLength rule)
  | .ok block, none =>
    if scheme.processing = .stream then
      ∃ result, events = [⟨.operate session (.verifyFinal block), result⟩]
        ∧ VerdictReport .verifyFinal result answer
    else
      ∃ result, events = [⟨.operate session (.verify (scheme.presented key message) block), result⟩]
        ∧ VerdictReport .verify result answer

/-- A failure of the token is reported with its code, whichever it is, and its block becomes the
    signature: as it is for RSA keys, else encoded, if it has an encoding. -/
structure BlockReport (scheme : Scheme) (operation : Operation) (result : Except ReturnCode Bytes)
    (answer : Except EngineError Answer) : Prop where
  failed : ∀ code, result = .error code → answer = .error (.tokenFailure operation code)
  plain : ∀ block, result = .ok block → scheme.family = .rsa → answer = .ok (.signature block)
  encoded : ∀ block d, result = .ok block → scheme.family ≠ .rsa →
    (answer = .ok (.signature d) ↔ SignatureValue.derOfBlock block = .ok d)
  malformed : ∀ block, result = .ok block → scheme.family ≠ .rsa →
    ((∃ cause, answer = .error (.malformedBlock cause)) ↔
      block = [] ∨ block.length % 2 = 1 ∨
        ∃ v, SignatureValue.ofBlock block = .ok v ∧ Der.maxLength < v.encoding.length)

/-- What signing a message comes to: the token is asked for the block of it, unless the raw message
    breaks its rule. -/
def SignReport (scheme : Scheme) (key : Key) (session : SessionId) (message : Bytes)
    (events : List Event) (answer : Except EngineError Answer) : Prop :=
  match scheme.lengthFault? message.length with
  | some rule => Unasked session events ∧ answer = .error (.wrongLength rule)
  | none =>
    if scheme.processing = .stream then
      ∃ result, events = [⟨.operate session (.signFinal scheme.expectedLength), result⟩]
        ∧ BlockReport scheme .signFinal result answer
    else
      ∃ result, events = [⟨.operate session (.sign (scheme.presented key message)), result⟩]
        ∧ BlockReport scheme .sign result answer

/-! ## Answers -/

theorem deniesSignature_iff {code : ReturnCode} :
    code.deniesSignature = true ↔ code ∈ mismatches := by
  cases code <;> simp [ReturnCode.deniesSignature, mismatches]

theorem verdictReport (operation : Operation) (result : Except ReturnCode Unit) :
    VerdictReport operation result ((verdictOf operation result).map .verdict) := by
  cases result with
  | ok u =>
      refine ⟨iff_of_true rfl rfl, iff_of_false nofun ?_, nofun⟩
      rintro ⟨code, _, hcode⟩
      cases hcode
  | error code =>
      simp only [verdictOf]
      split
      · next hdenies =>
          have hmem := deniesSignature_iff.mp hdenies
          refine ⟨iff_of_false nofun nofun, iff_of_true rfl ⟨code, hmem, rfl⟩, ?_⟩
          intro code' hnot hcode
          obtain rfl := Except.error.inj hcode
          exact absurd hmem hnot
      · next hdenies =>
          have hnot : code ∉ mismatches := fun hmem => hdenies (deniesSignature_iff.mpr hmem)
          refine ⟨iff_of_false nofun nofun, iff_of_false nofun ?_, ?_⟩
          · rintro ⟨code', hmem, hcode⟩
            obtain rfl := Except.error.inj hcode
            exact hnot hmem
          · intro code' _ hcode
            rw [Except.error.inj hcode]
            rfl

theorem blockReport (scheme : Scheme) (operation : Operation) (result : Except ReturnCode Bytes) :
    BlockReport scheme operation result
      ((signReport scheme operation result).map .signature) := by
  cases result with
  | error code => exact ⟨fun _ hcode => by rw [Except.error.inj hcode]; rfl, nofun, nofun, nofun⟩
  | ok block =>
      have hreport : signReport scheme operation (.ok block) = encodeSignature scheme block := rfl
      rw [hreport, encodeSignature]
      refine ⟨nofun, ?_, ?_, ?_⟩
      · intro block' hblock hrsa
        obtain rfl := Except.ok.inj hblock
        rw [if_neg (by simp [Scheme.hasPairSignatures, hrsa])]
        rfl
      · intro block' d hblock hrsa
        obtain rfl := Except.ok.inj hblock
        rw [if_pos (by simp [Scheme.hasPairSignatures, hrsa])]
        cases SignatureValue.derOfBlock block with
        | error cause => exact iff_of_false nofun nofun
        | ok encoded => simp [Except.map, Except.mapError]
      · intro block' hblock hrsa
        obtain rfl := Except.ok.inj hblock
        rw [if_pos (by simp [Scheme.hasPairSignatures, hrsa]), ← SignatureValue.derOfBlock_error_iff]
        cases SignatureValue.derOfBlock block with
        | error cause => simp [Except.map, Except.mapError]
        | ok encoded => exact iff_of_false nofun nofun

/-! ## Ending an operation under way -/

/-- A session whose operation goes on is closed in one call. -/
theorem unasked_of_close (hempty : p.token.log = []) :
    Unasked session ((⟨session, true⟩ : Lease).close p).token.log := by
  refine ⟨(Token.answer (.closeSession session) p.token).1, ?_⟩
  show _ :: p.token.log = _
  rw [hempty]
  rfl

/-- The last primitive is the one call, since the session goes back without another. -/
theorem log_of_last {primitive : Primitive} {mode : OperationMode}
    {result : Except ReturnCode primitive.Result} {lease' : Lease} {q : Pool (Logged τ)}
    (hempty : p.token.log = []) (hends : primitive.Ends mode)
    (hop : (⟨session, true⟩ : Lease).operate primitive p = (result, lease', q)) :
    (lease'.close q).token.log = [⟨.operate session primitive, result⟩] := by
  rw [Lease.close_log hends hop, hempty]

theorem sign_reported (hsuits : scheme.Suits key) (hempty : p.token.log = []) :
    let out := (underWay scheme key .sign session parts).handle .sign p
    SignReport scheme key session parts.flatten out.2.2.token.log out.1 := by
  cases hfault : scheme.lengthFault? parts.flatten.length with
  | some rule =>
      obtain ⟨e', hout⟩ := sign_wrongLength hsuits hfault session p
      simp only [SignReport, hfault, hout]
      exact ⟨unasked_of_close hempty, trivial⟩
  | none =>
      simp only [SignReport, hfault]
      by_cases hproc : scheme.processing = .stream
      · rw [if_pos hproc]
        cases hop : (⟨session, true⟩ : Lease).operate (.signFinal scheme.expectedLength) p with
        | mk result rest =>
            obtain ⟨e', hout⟩ := sign_streamed key parts hproc hop
            rw [hout]
            exact ⟨result, log_of_last hempty rfl hop, blockReport _ _ _⟩
      · rw [if_neg hproc]
        cases hop : (⟨session, true⟩ : Lease).operate
            (.sign (scheme.presented key parts.flatten)) p with
        | mk result rest =>
            obtain ⟨e', hout⟩ := sign_gathered hsuits hproc hfault hop
            rw [hout]
            exact ⟨result, log_of_last hempty rfl hop, blockReport _ _ _⟩

theorem verify_reported (hsuits : scheme.Suits key) (hempty : p.token.log = []) :
    let out := (underWay scheme key .verify session parts).handle (.verify signature) p
    VerifyReport scheme key session parts.flatten signature out.2.2.token.log out.1 := by
  cases hdecode : decodeSignature scheme signature with
  | error cause =>
      -- the signature is looked at first, so the length of the message does not matter
      obtain ⟨e', hout⟩ := verify_unread hdecode key session parts p
      simp only [VerifyReport, hdecode, hout]
      exact ⟨unasked_of_close hempty, trivial⟩
  | ok block =>
      cases hfault : scheme.lengthFault? parts.flatten.length with
      | some rule =>
          obtain ⟨e', hout⟩ := verify_wrongLength hsuits hdecode hfault session p
          simp only [VerifyReport, hdecode, hfault, hout]
          exact ⟨unasked_of_close hempty, trivial⟩
      | none =>
          simp only [VerifyReport, hdecode, hfault]
          by_cases hproc : scheme.processing = .stream
          · rw [if_pos hproc]
            cases hop : (⟨session, true⟩ : Lease).operate (.verifyFinal block) p with
            | mk result rest =>
                obtain ⟨e', hout⟩ := verify_streamed key parts hdecode hproc hop
                rw [hout]
                exact ⟨result, log_of_last hempty rfl hop, verdictReport _ _⟩
          · rw [if_neg hproc]
            cases hop : (⟨session, true⟩ : Lease).operate
                (.verify (scheme.presented key parts.flatten) block) p with
            | mk result rest =>
                obtain ⟨e', hout⟩ := verify_gathered hsuits hdecode hproc hfault hop
                rw [hout]
                exact ⟨result, log_of_last hempty rfl hop, verdictReport _ _⟩

/-! ## Runs -/

namespace Cycle

/-- What a call of the engine answers. -/
def answer (c : Cycle) (turn : Turn τ) : Except EngineError Answer :=
  (c.engine.handle turn.request turn.pool).1

variable {c : Cycle}

/-- The answer is the same over the token with its log. -/
theorem answer_eq (c : Cycle) (turn : Turn τ) :
    c.answer turn = (c.engine.handle turn.request turn.pool.logged).1 :=
  congrArg (·.1) (c.engine.handle_erase turn.pool.logged turn.request)

/-- An engine that is initialized has an operation under way, with a key that suits the scheme and
    the parts taken in since. -/
theorem Follows.underWay (h : c.Follows scheme) (hcoherent : c.engine.Coherent scheme)
    (hroomy : c.engine.Binds scheme.Roomy) (hresolved : scheme.Resolved)
    (hstate : c.engine.state = .initialized) :
    ∃ session key mode, scheme.Suits key
      ∧ c.engine = Engine.underWay scheme key mode session (nonempty c.parts) := by
  obtain ⟨session, key, mode, older, hlease, hkey, hmode, hpending, _⟩ := h hstate
  obtain ⟨_, _, haccept⟩ := hcoherent.accepted key hkey
  rw [hcoherent.scheme_eq] at haccept
  refine ⟨session, key, mode,
    ⟨hresolved, (Scheme.family_of_acceptKey haccept).1, hroomy key hkey⟩, ?_⟩
  show (⟨c.engine.scheme, c.engine.key, c.engine.mode, c.engine.lease, c.engine.pending,
    c.engine.state⟩ : Engine) = _
  rw [hcoherent.scheme_eq, hkey, hmode, hlease, hpending, hstate]
  rfl

/-- So it is after any calls. -/
theorem run_underWay (hresolved : scheme.Resolved) (turns : List (Turn τ))
    (hstate : ((Cycle.start scheme).run turns).engine.state = .initialized) :
    ∃ session key mode, scheme.Suits key
      ∧ ((Cycle.start scheme).run turns).engine
        = Engine.underWay scheme key mode session
          (nonempty ((Cycle.start scheme).run turns).parts) := by
  have hstart := ofScheme_coherent scheme
  obtain ⟨hcoherent, hfollows⟩ := run_follows hstart (start_follows scheme) turns
  have hroomy : ((Cycle.start scheme).run turns).engine.Binds scheme.Roomy := by
    rw [run_engine]
    exact after_roomy hstart (fun key hkey => absurd hkey (by simp [ofScheme])) turns
  exact hfollows.underWay hcoherent hroomy hresolved hstate

/-- A verifying operation under way comes to what the report says, in runs as well. -/
theorem verifyReport_of_underWay {turn : Turn τ} (hsuits : scheme.Suits key)
    (hengine : c.engine = Engine.underWay scheme key .verify session (nonempty c.parts))
    (hrequest : turn.request = .verify signature) :
    VerifyReport scheme key session c.parts.flatten signature (c.events turn) (c.answer turn) := by
  rw [answer_eq, events, hengine, hrequest, ← flatten_nonempty]
  exact verify_reported hsuits rfl

/-- **An engine reports exactly what the token said.** After any calls, over any token and with
    anything between them, an engine that is initialized holds a session and a key, and a call that
    ends its operation in its own mode comes to what the reports say, with the calls that the engine
    makes of the token then: none that ends an operation if the signature cannot be read or the raw
    message breaks its rule, in this order, and else exactly one, on the message of the parts that
    were taken in. A verdict is the token's, a block becomes the signature, and any other code is
    reported as a failure of that call. -/
theorem reported {name : String} {mechanism : Mechanism}
    (hresolve : Scheme.resolve name mechanism = .ok scheme) (turns : List (Turn τ)) :
    let c := (Cycle.start scheme).run turns
    c.engine.state = .initialized → ∃ session key,
      c.engine.lease = some ⟨session, true⟩ ∧ c.engine.key = some key
        ∧ ∀ turn : Turn τ,
          (c.engine.mode = some .sign → turn.request = .sign →
            SignReport scheme key session c.parts.flatten (c.events turn) (c.answer turn))
          ∧ ∀ signature, c.engine.mode = some .verify → turn.request = .verify signature →
              VerifyReport scheme key session c.parts.flatten signature (c.events turn)
                (c.answer turn) := by
  intro c hstate
  have hstart := ofScheme_coherent scheme
  obtain ⟨hcoherent, hfollows⟩ := run_follows hstart (start_follows scheme) turns
  have hroomy : c.engine.Binds scheme.Roomy := by
    rw [run_engine]
    exact after_roomy hstart (fun key hkey => absurd hkey (by simp [ofScheme])) turns
  obtain ⟨session, key, mode, hsuits, hengine⟩ :=
    hfollows.underWay hcoherent hroomy (Scheme.resolved_of_resolve hresolve) hstate
  refine ⟨session, key, by rw [hengine]; rfl, by rw [hengine]; rfl, fun turn => ⟨?_, ?_⟩⟩
  · intro hmode hrequest
    rw [hengine] at hmode
    obtain rfl := Option.some.inj hmode
    rw [answer_eq, events, hengine, hrequest, ← flatten_nonempty]
    exact sign_reported hsuits rfl
  · intro signature hmode hrequest
    rw [hengine] at hmode
    obtain rfl := Option.some.inj hmode
    rw [answer_eq, events, hengine, hrequest, ← flatten_nonempty]
    exact verify_reported hsuits rfl

/-- A DSA engine that was started and given twenty bytes, over a token that refuses to verify. -/
def refusing : List (Turn Scripted) :=
  let token := ((Scripted.empty none false).addPair dsaSignatureLength).2.2.failNext "C_Verify"
    .dataLenRange
  [⟨.init ⟨⟨3⟩, .publicKey, .dsa [0xff]⟩ .verify, .empty token {}⟩,
    ⟨.update (List.replicate rawDsaLength 0), .empty token {}⟩]

/-- After these calls, the engine's verdict is what the report says, for any signature and over any
    token that is left by then. -/
theorem reported_of_refusing :
    let scheme : Scheme := ⟨.noneWithDsa, .dsa, .raw (.exact rawDsaLength)⟩
    let c := (Cycle.start scheme).run refusing
    Scheme.resolve "RawDSA" .dsa = .ok scheme ∧ c.engine.state = .initialized
      ∧ c.engine.mode = some .verify
      ∧ ∃ session key, ∀ (turn : Turn Scripted) signature, turn.request = .verify signature →
          VerifyReport scheme key session c.parts.flatten signature (c.events turn)
            (c.answer turn) := by
  intro scheme c
  have hresolve : Scheme.resolve "RawDSA" .dsa = .ok scheme := by decide +kernel
  have hstate : c.engine.state = .initialized := by decide +kernel
  have hmode : c.engine.mode = some .verify := by decide +kernel
  obtain ⟨session, key, _, _, hreport⟩ := reported hresolve refusing hstate
  exact ⟨hresolve, hstate, hmode, session, key, fun turn signature hrequest =>
    (hreport turn).2 signature hmode hrequest⟩

end Cycle

end Cryptoki.Engine
