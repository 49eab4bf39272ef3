import Cryptoki.Proofs.Engine.Renewal

/-!
# `Cryptoki.Proofs.Engine.Gathered` — messages that are signed as they are

Two algorithms sign their message without a digest, and limit its length. Its parts are gathered on
this side. What does not fit is dropped, and nobody is told before the operation is ended: then the
token is given the whole message if that has an allowed length, however it was cut into parts, and
else it is not called but to close the session. The engine goes on with its key and its mode, and
nothing of the message is left in it.

## Contents
- `Scheme.plainCall?` — the call on a message that is signed as it is.
- `Engine.handle_plain`, `Engine.handle_overrun` — what comes of ending an operation on it.
- `Engine.feeding`, `Engine.Cycle.run_feeding` — parts of it, one after the other.
- `Engine.Cycle.Overrun`, `Engine.Cycle.overrun` — what is left when it has no allowed length.
- `Engine.Cycle.undigested` — messages that are signed as they are, in any run of calls.
-/

namespace Cryptoki

open Token (Event)

/-- The call that gives the token a message as it is, with the signature to verify if there is one
    that can be read. -/
def Scheme.plainCall? (scheme : Scheme) (message : Bytes) : Engine.Request → Option Primitive
  | .sign => some (.sign message)
  | .verify signature =>
    match Engine.decodeSignature scheme signature with
    | .ok block => some (.verify message block)
    | .error _ => none
  | .init .. | .update _ | .cancel => none

namespace Engine

variable {τ : Type} [Token τ] {scheme : Scheme} {rule : LengthRule} {key : Key}
  {mode : OperationMode} {session : SessionId} {parts : List Bytes} {request : Request}
  {primitive : Primitive}

/-! ## The end of a message -/

theorem presented_of_raw (hraw : scheme.processing = .raw rule) (key : Key) (message : Bytes) :
    scheme.presented key message = message := by
  simp only [Scheme.presented, hraw]

theorem lengthFault?_of_raw (hraw : scheme.processing = .raw rule) (n : Nat) :
    scheme.lengthFault? n = if rule.Allows n then none else some rule := by
  simp only [Scheme.lengthFault?, hraw]

theorem plainCall?_ends {message : Bytes}
    (hcall : scheme.plainCall? message request = some primitive)
    (hfinishes : request.finishes? = some mode) : primitive.Ends mode := by
  cases request with
  | init | update | cancel => cases hfinishes
  | sign =>
      obtain rfl := Option.some.inj hcall
      exact (Option.some.inj hfinishes).symm
  | verify signature =>
      simp only [Scheme.plainCall?] at hcall
      split at hcall
      · obtain rfl := Option.some.inj hcall
        exact (Option.some.inj hfinishes).symm
      · cases hcall

/-- A message of an allowed length is given to the token, and the session back. -/
theorem handle_plain {p q : Pool τ} {lease' : Lease} {result : Except ReturnCode primitive.Result}
    (hsuits : scheme.Suits key) (hraw : scheme.processing = .raw rule)
    (hfinishes : request.finishes? = some mode)
    (hcall : scheme.plainCall? parts.flatten request = some primitive)
    (hallows : rule.Allows parts.flatten.length)
    (hop : (⟨session, true⟩ : Lease).operate primitive p = (result, lease', q)) :
    ∃ answer e', (underWay scheme key mode session parts).handle request p
      = (answer, e', lease'.close q) := by
  have hproc : scheme.processing ≠ .stream := by simp [hraw]
  have hfault : scheme.lengthFault? parts.flatten.length = none := by
    rw [lengthFault?_of_raw hraw, if_pos hallows]
  have hpresented := presented_of_raw hraw key parts.flatten
  cases request with
  | init | update | cancel => cases hfinishes
  | sign =>
      obtain rfl := Option.some.inj hfinishes
      obtain rfl := Option.some.inj hcall
      rw [← hpresented] at hop
      obtain ⟨e', hsign⟩ := sign_gathered hsuits hproc hfault hop
      exact ⟨_, e', hsign⟩
  | verify signature =>
      obtain rfl := Option.some.inj hfinishes
      simp only [Scheme.plainCall?] at hcall
      split at hcall
      · next block hdecode =>
          obtain rfl := Option.some.inj hcall
          rw [← hpresented] at hop
          obtain ⟨e', hverify⟩ := verify_gathered hsuits hdecode hproc hfault hop
          exact ⟨_, e', hverify⟩
      · cases hcall

/-- With any other message, the session is given back at once. -/
theorem handle_overrun (hsuits : scheme.Suits key) (hraw : scheme.processing = .raw rule)
    (hfinishes : request.finishes? = some mode)
    (hcall : scheme.plainCall? parts.flatten request = some primitive)
    (hallows : ¬ rule.Allows parts.flatten.length) (session : SessionId) (p : Pool τ) :
    ∃ e', (underWay scheme key mode session parts).handle request p
      = (.error (.wrongLength rule), e', (⟨session, true⟩ : Lease).close p) := by
  have hfault : scheme.lengthFault? parts.flatten.length = some rule := by
    rw [lengthFault?_of_raw hraw, if_neg hallows]
  cases request with
  | init | update | cancel => cases hfinishes
  | sign =>
      obtain rfl := Option.some.inj hfinishes
      exact sign_wrongLength hsuits hfault session p
  | verify signature =>
      obtain rfl := Option.some.inj hfinishes
      simp only [Scheme.plainCall?] at hcall
      split at hcall
      · next block hdecode => exact verify_wrongLength hsuits hdecode hfault session p
      · cases hcall

/-! ## The parts of a message -/

/-- Calls that take in parts, one after the other. -/
def feeding (feeds : List (Bytes × Pool τ)) : List (Turn τ) :=
  feeds.map fun feed => ⟨.update feed.1, feed.2⟩

namespace Cycle

/-- What the engine answers to some calls, one after the other. -/
def answers (c : Cycle) : List (Turn τ) → List (Except EngineError Answer)
  | [] => []
  | turn :: turns => c.answer turn :: (c.next turn).answers turns

/-- An engine that is initialized takes a part in, without a call. -/
theorem next_gathered {c : Cycle} (hproc : scheme.processing ≠ .stream)
    (hengine : c.engine = underWay scheme key mode session (nonempty c.parts)) (data : Bytes)
    (p : Pool τ) :
    c.answer ⟨.update data, p⟩ = .ok .done
      ∧ c.next (⟨.update data, p⟩ : Turn τ)
        = ⟨underWay scheme key mode session (nonempty (c.parts ++ [data])), c.parts ++ [data],
          c.log⟩ := by
  have hhandle : ∀ {υ : Type} [Token υ] (q : Pool υ), c.engine.handle (.update data) q
      = (.ok .done, underWay scheme key mode session (nonempty (c.parts ++ [data])), q) := by
    intro υ _ q
    rw [hengine, nonempty_append]
    split
    · next hempty =>
        subst hempty
        exact handle_update_empty
    · next hdata => exact handle_update_gathered hdata hproc
  refine ⟨congrArg (·.1) (hhandle p), ?_⟩
  simp only [next, events, hhandle]
  rfl

/-- So it takes in one after the other. -/
theorem run_feeding {c : Cycle} (hproc : scheme.processing ≠ .stream)
    (hengine : c.engine = underWay scheme key mode session (nonempty c.parts))
    (feeds : List (Bytes × Pool τ)) :
    (∀ answer ∈ c.answers (feeding feeds), answer = .ok .done)
      ∧ c.run (feeding feeds)
        = ⟨underWay scheme key mode session (nonempty (c.parts ++ feeds.map Prod.fst)),
          c.parts ++ feeds.map Prod.fst, c.log⟩ := by
  induction feeds generalizing c with
  | nil =>
      refine ⟨fun answer hmem => absurd hmem List.not_mem_nil, ?_⟩
      show c = _
      rw [List.map_nil, List.append_nil, ← hengine]
  | cons feed feeds ih =>
      obtain ⟨data, p⟩ := feed
      obtain ⟨hanswer, hnext⟩ := next_gathered hproc hengine data p
      obtain ⟨hanswers, hrun⟩ := ih (c := c.next ⟨.update data, p⟩) (by rw [hnext])
      refine ⟨?_, ?_⟩
      · intro answer hmem
        rcases List.mem_cons.mp hmem with rfl | hmem
        · exact hanswer
        · exact hanswers answer hmem
      · show (c.next ⟨.update data, p⟩).run (feeding feeds) = _
        rw [hrun, hnext, List.append_assoc]
        rfl

/-! ## What is asked, and what is left -/

/-- A message of an allowed length is given to the token in one call. -/
theorem asked {c : Cycle} (hsuits : scheme.Suits key) (hraw : scheme.processing = .raw rule)
    (hengine : c.engine = underWay scheme key mode session (nonempty c.parts))
    (hfinishes : request.finishes? = some mode)
    (hcall : scheme.plainCall? c.parts.flatten request = some primitive)
    (hallows : rule.Allows c.parts.flatten.length) (p : Pool τ) :
    ∃ result, c.events (⟨request, p⟩ : Turn τ) = [⟨.operate session primitive, result⟩] := by
  rw [← flatten_nonempty] at hcall hallows
  rcases hop : (⟨session, true⟩ : Lease).operate primitive p.logged with ⟨result, lease', q⟩
  obtain ⟨answer, e', hhandle⟩ := handle_plain hsuits hraw hfinishes hcall hallows hop
  refine ⟨result, ?_⟩
  rw [events, hengine, hhandle]
  exact log_of_last rfl (plainCall?_ends hcall hfinishes) hop

/-- A message without an allowed length was to be signed or verified: the call fails for that, and
    the session is closed and not put back. The engine is at rest with its key and mode, and does
    from then on what one does that was made anew and bound to them. -/
structure Overrun (scheme : Scheme) (rule : LengthRule) (key : Key) (mode : OperationMode)
    (session : SessionId) (c : Cycle) (turn : Turn τ) : Prop where
  answer_eq : c.answer turn = .error (.wrongLength rule)
  unasked : Unasked session (c.events turn)
  idle_eq : (c.engine.handle turn.request turn.pool).2.2.idle = turn.pool.idle
  opened_eq : (c.engine.handle turn.request turn.pool).2.2.opened = turn.pool.opened - 1
  state_eq : (c.next turn).engine.state = .uninitialized
  lease_eq : (c.next turn).engine.lease = none
  key_eq : (c.next turn).engine.key = some key
  mode_eq : (c.next turn).engine.mode = some mode
  answers_eq (later : List (Turn τ)) (next : Turn τ) :
    ((c.next turn).run later).answer next = ((bound scheme key mode).run later).answer next
  events_eq (later : List (Turn τ)) (next : Turn τ) :
    ((c.next turn).run later).events next = ((bound scheme key mode).run later).events next

theorem overrun {c : Cycle} (hcoherent : c.engine.Coherent scheme) (hsuits : scheme.Suits key)
    (hraw : scheme.processing = .raw rule)
    (hengine : c.engine = underWay scheme key mode session (nonempty c.parts))
    (hfinishes : request.finishes? = some mode)
    (hcall : scheme.plainCall? c.parts.flatten request = some primitive)
    (hallows : ¬ rule.Allows c.parts.flatten.length) (p : Pool τ) :
    Overrun scheme rule key mode session c ⟨request, p⟩ := by
  rw [← flatten_nonempty] at hcall hallows
  have hnext : (c.next (⟨request, p⟩ : Turn τ)).engine.Coherent scheme :=
    handle_coherent hcoherent request p.logged
  obtain ⟨pending, hleft⟩ : ∃ pending, (c.next (⟨request, p⟩ : Turn τ)).engine
      = { closing scheme key mode session (nonempty c.parts) with pending } := by
    show ∃ pending, (c.engine.handle request p.logged).2.1 = _
    rw [hengine]
    exact finish_of_initialized rfl rfl rfl hfinishes p.logged
  have halike := run_alike (τ := τ) (c := c.next ⟨request, p⟩) (d := bound scheme key mode) hnext
    (by rw [hleft]; exact .rest rfl)
  obtain ⟨_, hhandle⟩ := handle_overrun hsuits hraw hfinishes hcall hallows session p
  obtain ⟨_, hlogged⟩ := handle_overrun hsuits hraw hfinishes hcall hallows session p.logged
  rw [← hengine] at hhandle hlogged
  exact
    { answer_eq := congrArg (·.1) hhandle
      unasked := by
        rw [events, hlogged]
        exact unasked_of_close rfl
      idle_eq := by
        rw [hhandle]
        rfl
      opened_eq := by
        rw [hhandle]
        rfl
      state_eq := by rw [hleft]; rfl
      lease_eq := by rw [hleft]; rfl
      key_eq := by rw [hleft]; rfl
      mode_eq := by rw [hleft]; rfl
      answers_eq := fun later next => (halike later next).1
      events_eq := fun later next => (halike later next).2 }

/-- **Messages that are signed as they are.** There are two algorithms for them, with one mechanism
    and one rule for the length each. After any calls, over any token and with anything between
    them, let an engine for one of them be initialized. Then it accepts every part, without a call.
    Asked for a signature, or for a verdict on a signature that can be read, it makes one call if
    the message has an allowed length, however it was cut: the call gives the token all of it. Else
    the call fails for the length, the token is asked for nothing but to close the session, and what
    was gathered makes no difference to the engine any more. -/
theorem undigested {name : String} {mechanism : Mechanism}
    (hresolve : Scheme.resolve name mechanism = .ok scheme)
    (hraw : scheme.processing = .raw rule) :
    ((scheme.algorithm = .noneWithDsa ∧ scheme.mechanism = .dsa ∧ rule = .exact 20)
        ∨ (scheme.algorithm = .noneWithEcdsa ∧ scheme.mechanism = .ecdsa ∧ rule = .atMost 128))
      ∧ ∀ turns : List (Turn τ),
          let c := (Cycle.start scheme).run turns
          c.engine.state = .initialized → ∃ session key mode,
            c.engine.lease = some ⟨session, true⟩ ∧ c.engine.key = some key
              ∧ c.engine.mode = some mode
              ∧ ∀ feeds : List (Bytes × Pool τ),
                  let d := c.run (feeding feeds)
                  let message := (c.parts ++ feeds.map Prod.fst).flatten
                  (∀ answer ∈ c.answers (feeding feeds), answer = .ok .done)
                    ∧ d.log = c.log ∧ d.engine.state = .initialized
                    ∧ ∀ (request : Request) (primitive : Primitive) (p : Pool τ),
                        request.finishes? = some mode →
                        scheme.plainCall? message request = some primitive →
                        (rule.Allows message.length → ∃ result,
                          d.events (⟨request, p⟩ : Turn τ)
                            = [⟨.operate session primitive, result⟩])
                        ∧ (¬ rule.Allows message.length →
                          Overrun scheme rule key mode session d ⟨request, p⟩) := by
  have hresolved := Scheme.resolved_of_resolve hresolve
  refine ⟨hresolved.raw_cases hraw, fun turns => ?_⟩
  intro c hstate
  have hcoherent : c.engine.Coherent scheme :=
    (run_follows (ofScheme_coherent scheme) (start_follows scheme) turns).1
  obtain ⟨session, key, mode, hsuits, hengine⟩ := run_underWay hresolved turns hstate
  change c.engine = _ at hengine
  refine ⟨session, key, mode, by rw [hengine]; rfl, by rw [hengine]; rfl, by rw [hengine]; rfl,
    fun feeds => ?_⟩
  intro d message
  have hproc : scheme.processing ≠ .stream := by simp [hraw]
  obtain ⟨hanswers, hrun⟩ := run_feeding hproc hengine feeds
  have hparts : d.parts = c.parts ++ feeds.map Prod.fst := congrArg Cycle.parts hrun
  have hengine' : d.engine = underWay scheme key mode session (nonempty d.parts) := by
    rw [hparts]
    exact congrArg Cycle.engine hrun
  have hcoherent' : d.engine.Coherent scheme := by
    rw [show d.engine = _ from c.run_engine (feeding feeds)]
    exact after_coherent hcoherent _
  have hlog : d.log = c.log := by rw [show d = _ from hrun]
  refine ⟨hanswers, hlog, by rw [hengine']; rfl, ?_⟩
  intro request primitive p hfinishes hcall
  have hmessage : message = d.parts.flatten := by rw [hparts]
  rw [hmessage] at hcall ⊢
  exact ⟨fun hallows => asked hsuits hraw hengine' hfinishes hcall hallows p,
    fun hallows => overrun hcoherent' hsuits hraw hengine' hfinishes hcall hallows p⟩

/-- A DSA engine that was started to sign. -/
def signing : List (Turn Scripted) :=
  let token := ((Scripted.empty none false).addPair dsaSignatureLength).2.2
  [⟨.init ⟨⟨2⟩, .privateKey, .dsa [0xff]⟩ .sign, .empty token {}⟩]

/-- Twenty bytes are signed as two parts; not with a part between them that does not fit, though
    without it they would be the same twenty. -/
theorem undigested_of_signing :
    let scheme : Scheme := ⟨.noneWithDsa, .dsa, .raw (.exact rawDsaLength)⟩
    let c := (Cycle.start scheme).run signing
    let first : Bytes := List.replicate 15 1
    let last : Bytes := List.replicate 5 2
    Scheme.resolve "RawDSA" .dsa = .ok scheme ∧ c.engine.state = .initialized
      ∧ ∃ session, ∀ p : Pool Scripted,
        (∃ result, (c.run (feeding [(first, p), (last, p)])).events ⟨.sign, p⟩
          = [⟨.operate session (.sign (first ++ last)), result⟩])
        ∧ (c.run (feeding [(first, p), (List.replicate 6 0, p), (last, p)])).answer ⟨.sign, p⟩
          = .error (.wrongLength (.exact 20)) := by
  intro scheme c first last
  have hresolve : Scheme.resolve "RawDSA" .dsa = .ok scheme := by decide +kernel
  have hstate : c.engine.state = .initialized := by decide +kernel
  have hmode : c.engine.mode = some .sign := by decide +kernel
  have hparts : c.parts = [] := by decide +kernel
  obtain ⟨session, key, mode, _, _, hsame, hgathered⟩ := (undigested hresolve rfl).2 signing hstate
  obtain rfl := Option.some.inj (hmode.symm.trans hsame)
  -- nothing was taken in before the parts
  rw [hparts] at hgathered
  refine ⟨hresolve, hstate, session, fun p => ⟨?_, ?_⟩⟩
  · obtain ⟨_, _, _, hfinish⟩ := hgathered [(first, p), (last, p)]
    exact (hfinish .sign (.sign (first ++ last)) p rfl rfl).1 rfl
  · obtain ⟨_, _, _, hfinish⟩ := hgathered [(first, p), (List.replicate 6 0, p), (last, p)]
    exact ((hfinish .sign _ p rfl rfl).2 (show ¬ 26 = 20 by decide)).answer_eq

end Cycle

end Engine

end Cryptoki
