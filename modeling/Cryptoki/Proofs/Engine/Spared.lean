import Cryptoki.Proofs.Engine.Report

/-!
# `Cryptoki.Proofs.Engine.Spared` — the sessions that a signature can cost

An operation that is given up is ended on the token if its session owns objects. The end of an
operation does not ask for objects: a session goes back to the pool if the token was given the last
call, and is closed if that call was never made. Where the input is digested here or passed on, one
thing alone keeps a verifying operation from its last call: a signature that cannot be read. So the
signature decides what becomes of the session, unless the keys are RSA keys, since every signature is
read then.

## Contents
- `Engine.decodeSignature_of_rsa` — RSA engines read every signature.
- `Engine.verify_idle`, `Engine.verify_unread_pool` — the session after a verifying operation.
- `Engine.Cycle.Returns`, `Engine.Cycle.Forfeits` — a session that goes back, and one that is lost.
- `Engine.Cycle.spared_iff_read` — which of the two it is, after any calls.
- `Engine.Cycle.unread_closes` — a session with objects that is lost.
-/

namespace Cryptoki.Engine

open Token (Event)

variable {τ : Type} [Token τ] {scheme : Scheme} {key : Key} {session : SessionId}
  {parts : List Bytes} {message signature block : Bytes}

/-! ## The end of a verifying operation -/

/-- RSA engines read every signature. -/
theorem decodeSignature_of_rsa (hrsa : scheme.family = .rsa) (signature : Bytes) :
    decodeSignature scheme signature = .ok signature := by
  simp [decodeSignature, Scheme.hasPairSignatures, hrsa]

/-- Once the last call was made, the session is idle again, whatever the token has answered. -/
theorem verify_idle (hsuits : scheme.Suits key)
    (hdecode : decodeSignature scheme signature = .ok block)
    (hfault : scheme.lengthFault? parts.flatten.length = none) (session : SessionId)
    (p : Pool τ) :
    let out := (underWay scheme key .verify session parts).handle (.verify signature) p
    out.2.2.idle = session :: p.idle ∧ out.2.2.opened = p.opened := by
  by_cases hproc : scheme.processing = .stream
  · rcases hop : (⟨session, true⟩ : Lease).operate (.verifyFinal block) p with ⟨result, lease', q⟩
    obtain ⟨e', hout⟩ := verify_streamed key parts hdecode hproc hop
    have hends : Primitive.Ends .verify (.verifyFinal block) := rfl
    rw [hout]
    exact Lease.close_idle hends hop
  · rcases hop : (⟨session, true⟩ : Lease).operate
      (.verify (scheme.presented key parts.flatten) block) p with ⟨result, lease', q⟩
    obtain ⟨e', hout⟩ := verify_gathered hsuits hdecode hproc hfault hop
    have hends : Primitive.Ends .verify (.verify (scheme.presented key parts.flatten) block) := rfl
    rw [hout]
    exact Lease.close_idle hends hop

/-- A signature that is not read leads to no last call, so the session is closed and its slot given
    up. -/
theorem verify_unread_pool {cause : DecodeError}
    (hdecode : decodeSignature scheme signature = .error cause) (key : Key) (session : SessionId)
    (parts : List Bytes) (p : Pool τ) :
    ((underWay scheme key .verify session parts).handle (.verify signature) p).2.2
      = p.discard session := by
  obtain ⟨e', hout⟩ := verify_unread hdecode key session parts p
  rw [hout]
  rfl

/-- Where input is not gathered raw, a signature that is read leads to no call that closes. -/
theorem VerifyReport.not_closes {events : List Event} {answer : Except EngineError Answer}
    (h : VerifyReport scheme key session message signature events answer)
    (hraw : ∀ rule, scheme.processing ≠ .raw rule)
    (hdecode : decodeSignature scheme signature = .ok block) :
    ∀ event ∈ events, ¬ event.Closes := by
  intro event hevent
  simp only [VerifyReport, hdecode, Scheme.lengthFault?_of_not_raw hraw] at h
  split at h
  · obtain ⟨result, rfl, _⟩ := h
    obtain rfl := List.mem_singleton.mp hevent
    exact Event.not_closes_of_operate rfl
  · obtain ⟨result, rfl, _⟩ := h
    obtain rfl := List.mem_singleton.mp hevent
    exact Event.not_closes_of_operate rfl

/-- Where the token is not asked, a session is closed. -/
theorem Unasked.exists_closes {events : List Event} (h : Unasked session events) :
    ∃ event ∈ events, event.Closes := by
  obtain ⟨result, rfl⟩ := h
  exact ⟨_, List.mem_singleton_self _, session, rfl⟩

/-! ## Runs -/

namespace Cycle

/-- The session is idle after the turn, and as many are open as before. -/
structure Returns (c : Cycle) (session : SessionId) (turn : Turn τ) : Prop where
  idle : (c.engine.handle turn.request turn.pool).2.2.idle = session :: turn.pool.idle
  opened : (c.engine.handle turn.request turn.pool).2.2.opened = turn.pool.opened

/-- The signature does not verify, and the one call of the turn closes the session. -/
structure Forfeits (c : Cycle) (session : SessionId) (turn : Turn τ) : Prop where
  denied : c.answer turn = .ok (.verdict false)
  closed : Unasked session (c.events turn)
  idle : (c.engine.handle turn.request turn.pool).2.2.idle = turn.pool.idle
  opened : (c.engine.handle turn.request turn.pool).2.2.opened = turn.pool.opened - 1

variable {c : Cycle} {turn : Turn τ}

theorem returns_of_read (hsuits : scheme.Suits key)
    (hengine : c.engine = Engine.underWay scheme key .verify session (nonempty c.parts))
    (hraw : ∀ rule, scheme.processing ≠ .raw rule) (hrequest : turn.request = .verify signature)
    (hdecode : decodeSignature scheme signature = .ok block) : c.Returns session turn := by
  have hfault := Scheme.lengthFault?_of_not_raw hraw (nonempty c.parts).flatten.length
  obtain ⟨hidle, hopened⟩ := verify_idle hsuits hdecode hfault session turn.pool
  rw [← hengine, ← hrequest] at hidle hopened
  exact ⟨hidle, hopened⟩

theorem forfeits_of_unread {cause : DecodeError} (hsuits : scheme.Suits key)
    (hengine : c.engine = Engine.underWay scheme key .verify session (nonempty c.parts))
    (hrequest : turn.request = .verify signature)
    (hdecode : decodeSignature scheme signature = .error cause) : c.Forfeits session turn := by
  have hreport := verifyReport_of_underWay hsuits hengine hrequest
  simp only [VerifyReport, hdecode] at hreport
  have hpool := verify_unread_pool hdecode key session (nonempty c.parts) turn.pool
  rw [← hengine, ← hrequest] at hpool
  exact ⟨hreport.2, hreport.1, by rw [hpool]; rfl, by rw [hpool]; rfl⟩

/-- **A signature costs a session only if it cannot be read.** After any calls, over any token and with
    anything between them, let an engine be initialized for verification, on a scheme that digests the
    message or passes it on. It holds a session. Whatever bytes it is given as the signature then, no
    session is closed exactly if the bytes can be read as a signature of the scheme, and the session is
    idle again. If they cannot, which no engine for RSA keys will say, the answer is that the signature
    does not verify, and the one call on the token closes the session, with all its objects. -/
theorem spared_iff_read {name : String} {mechanism : Mechanism}
    (hresolve : Scheme.resolve name mechanism = .ok scheme)
    (hraw : ∀ rule, scheme.processing ≠ .raw rule) (turns : List (Turn τ)) :
    let c := (Cycle.start scheme).run turns
    c.engine.state = .initialized → c.engine.mode = some .verify →
      ∃ session, c.engine.lease = some ⟨session, true⟩
        ∧ ∀ (turn : Turn τ) (signature : Bytes), turn.request = .verify signature →
          ((∀ event ∈ c.events turn, ¬ event.Closes) ↔
              ∃ block, decodeSignature scheme signature = .ok block)
          ∧ (∀ block, decodeSignature scheme signature = .ok block → c.Returns session turn)
          ∧ ∀ cause, decodeSignature scheme signature = .error cause →
              scheme.family ≠ .rsa ∧ c.Forfeits session turn := by
  intro c hstate hmode
  obtain ⟨session, key, mode, hsuits, hengine⟩ :=
    run_underWay (Scheme.resolved_of_resolve hresolve) turns hstate
  rw [hengine] at hmode
  obtain rfl := Option.some.inj hmode
  refine ⟨session, congrArg (·.lease) hengine, fun turn signature hrequest => ?_⟩
  cases hdecode : decodeSignature scheme signature with
  | error cause =>
      have hforfeits : c.Forfeits session turn :=
        forfeits_of_unread hsuits hengine hrequest hdecode
      refine ⟨iff_of_false ?_ nofun, nofun, fun _ _ => ⟨?_, hforfeits⟩⟩
      · intro hnone
        obtain ⟨event, hevent, hcloses⟩ := hforfeits.closed.exists_closes
        exact hnone event hevent hcloses
      · intro hrsa
        cases hdecode.symm.trans (decodeSignature_of_rsa hrsa signature)
  | ok block =>
      have hreport : VerifyReport scheme key session c.parts.flatten signature (c.events turn)
          (c.answer turn) := verifyReport_of_underWay hsuits hengine hrequest
      exact ⟨iff_of_true (hreport.not_closes hraw hdecode) ⟨block, rfl⟩,
        fun _ _ => returns_of_read hsuits hengine hraw hrequest hdecode, nofun⟩

/-- A DSA engine that was started to verify, over a token whose sessions own objects, and the call that
    asks it about a signature. -/
def askedAbout (signature : Bytes) : List (Turn Scripted) × Turn Scripted :=
  let key : Key := ⟨⟨3⟩, .publicKey, .dsa [0xff]⟩
  let pool := Pool.empty ((Scripted.empty none true).addPair dsaSignatureLength).2.2 {}
  let started := (ofScheme ⟨.sha1WithDsa, .dsaSha1, .stream⟩).handle (.init key .verify) pool
  ([⟨.init key .verify, pool⟩], ⟨.verify signature, started.2.2⟩)

/-- The signature with two ones costs no session, and no bytes at all cost the session that is held. -/
theorem spared_iff_read_of_ones :
    let scheme : Scheme := ⟨.sha1WithDsa, .dsaSha1, .stream⟩
    let ones : Bytes := [0x30, 0x06, 0x02, 0x01, 0x01, 0x02, 0x01, 0x01]
    let c := (Cycle.start scheme).run (askedAbout ones).1
    Scheme.resolve "SHA1withDSA" .dsaSha1 = .ok scheme ∧ c.engine.state = .initialized
      ∧ c.engine.mode = some .verify ∧ ∃ session, c.engine.lease = some ⟨session, true⟩
        ∧ (∀ event ∈ c.events (askedAbout ones).2, ¬ event.Closes)
        ∧ c.Returns session (askedAbout ones).2 ∧ c.Forfeits session (askedAbout []).2 := by
  intro scheme ones c
  have hresolve : Scheme.resolve "SHA1withDSA" .dsaSha1 = .ok scheme := by decide +kernel
  have hstate : c.engine.state = .initialized := by decide +kernel
  have hmode : c.engine.mode = some .verify := by decide +kernel
  have hread : decodeSignature scheme ones
      = .ok (List.replicate 19 0x00 ++ 0x01 :: List.replicate 19 0x00 ++ [0x01]) := by decide +kernel
  obtain ⟨cause, hunread⟩ : ∃ cause, decodeSignature scheme [] = .error cause := ⟨_, rfl⟩
  obtain ⟨session, hlease, hspared⟩ :=
    spared_iff_read hresolve (fun _ => nofun) (askedAbout ones).1 hstate hmode
  obtain ⟨hiff, hreturns, _⟩ := hspared (askedAbout ones).2 ones rfl
  obtain ⟨_, _, hforfeits⟩ := hspared (askedAbout []).2 [] rfl
  exact ⟨hresolve, hstate, hmode, session, hlease, hiff.mpr ⟨_, hread⟩, hreturns _ hread,
    (hforfeits cause hunread).2⟩

/-- **Objects do not save a session.** Sessions own objects and operations that are given up are to be
    ended on the token, every call succeeds, and the session is closed for a signature of no bytes. -/
theorem unread_closes :
    let scheme : Scheme := ⟨.sha1WithDsa, .dsaSha1, .stream⟩
    let c := (Cycle.start scheme).run (askedAbout []).1
    let turn := (askedAbout []).2
    Scheme.resolve "SHA1withDSA" .dsaSha1 = .ok scheme
      ∧ turn.pool.config.explicitCancel = true
      ∧ (∀ session, Token.ownsObjects turn.pool.token session = true)
      ∧ c.engine.state = .initialized ∧ c.engine.mode = some .verify
      ∧ turn.request = .verify []
      ∧ (∀ event ∈ c.events turn ++ c.log, event.result.isOk = true)
      ∧ ∃ event ∈ c.events turn, event.Closes := by
  intro scheme c turn
  have hcalls : (c.events turn).map (·.call) = [.closeSession ⟨1⟩] := by decide +kernel
  obtain ⟨event, hevent, hcall⟩ := List.mem_map.mp (hcalls ▸ List.mem_singleton_self _)
  exact ⟨by decide +kernel, by decide +kernel, fun _ => rfl, by decide +kernel, by decide +kernel,
    rfl, by decide +kernel, event, hevent, _, hcall⟩

end Cycle

end Cryptoki.Engine
