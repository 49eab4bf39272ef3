import Cryptoki.Engine.Run
import Cryptoki.Proofs.Lease
import Cryptoki.Proofs.PendingInput
import Cryptoki.Proofs.Scheme

/-!
# `Cryptoki.Proofs.Engine.Outcomes` — what comes of each call of an engine

An engine's calls have many early exits. Here each call is opened once: an inductive family lists its
exits, with the engine and the pool that each leaves behind, and one theorem per call says that the
list is complete. Invariants are then proved by cases on these families, and the functions are not
opened again.

## Contents
- `Engine.Started`, `Engine.started` — starting an operation.
- `Engine.Ended` — the last primitive of an operation, if one is called at all.
- `Engine.Abandoned`, `Engine.abandoned` — giving an operation up.
- `Engine.Parted`, `Engine.parted` — the same, while one is under way.
- `Engine.startWith_of_rejected`, `Engine.startWith_of_accepted` — starting with a key.
- `Engine.Updated`, `Engine.updated` — taking in a part of the message.
- `Engine.Finished`, `Engine.finished` — ending an operation with a signature or a verdict.
-/

namespace Cryptoki

namespace Engine

/-- A call that fails does so as the part of it that may fail. -/
theorem map_error {α β : Type} {f : α → β} {result : Except EngineError α}
    (h : result.map f = .error err) : result = .error err := by
  cases result with
  | error err' => exact congrArg _ (Except.error.inj h)
  | ok a => cases h

variable {τ : Type} [Token τ]

/-! ## Starting -/

/-- The ways that starting an operation can go. -/
inductive Started (e : Engine) (p : Pool τ) : Except EngineError Unit × Engine × Pool τ → Prop
  /-- No key is bound, or no mode. -/
  | unbound (h : e.key = none ∨ e.mode = none) :
      Started e p (.error (.wrongState .noKeyBound), e, p)
  /-- The engine holds no session and gets none. -/
  | starved {err : EngineError} {q : Pool τ} (hlease : e.lease = none)
      (hacq : p.acquire = (.error err, q)) : Started e p (.error err, e, q)
  /-- The token refuses; the session is given back. -/
  | refused {key : Key} {mode : OperationMode} {lease lease' : Lease} {q r : Pool τ}
      {code : ReturnCode} (hkey : e.key = some key) (hmode : e.mode = some mode)
      (hlease : e.obtainLease p = (.ok lease, q))
      (hinit : lease.operate (.init mode e.scheme.mechanism key.handle) q
        = (.error code, lease', r)) :
      Started e p
        (.error (e.afterRefusal mode code).1, (e.afterRefusal mode code).2, lease'.close r)
  /-- An operation is under way, without any input yet. -/
  | begun {key : Key} {mode : OperationMode} {lease lease' : Lease} {q r : Pool τ}
      (hkey : e.key = some key) (hmode : e.mode = some mode)
      (hlease : e.obtainLease p = (.ok lease, q))
      (hinit : lease.operate (.init mode e.scheme.mechanism key.handle) q
        = (.ok (), lease', r)) :
      Started e p
        (.ok (),
          { e with pending := e.pending.reset, lease := some lease', state := .initialized }, r)

/-- A session that cannot be obtained was not held. -/
theorem obtainLease_error {e : Engine} {p q : Pool τ} {err : EngineError}
    (h : e.obtainLease p = (.error err, q)) : e.lease = none ∧ p.acquire = (.error err, q) := by
  unfold obtainLease at h
  split at h
  · exact absurd (congrArg Prod.fst h) (by simp)
  · next hlease => exact ⟨hlease, h⟩

theorem started (e : Engine) (p : Pool τ) : Started e p (e.start p) := by
  unfold start
  split
  · next key mode hkey hmode =>
      split
      · next err q hlease =>
          obtain ⟨hnone, hacq⟩ := obtainLease_error hlease
          exact .starved hnone hacq
      · next lease q hlease =>
          split
          · next code lease' r hinit => exact .refused hkey hmode hlease hinit
          · next lease' r hinit => exact .begun hkey hmode hlease hinit
  · next hnone =>
      refine .unbound ?_
      cases hkey : e.key with
      | none => exact .inl rfl
      | some key =>
          cases hmode : e.mode with
          | none => exact .inr rfl
          | some mode => exact absurd hmode (hnone key mode hkey)

/-- Without a key or a mode, nothing is done. -/
theorem start_unbound {e : Engine} (h : e.key = none ∨ e.mode = none) (p : Pool τ) :
    e.start p = (.error (.wrongState .noKeyBound), e, p) := by
  unfold start
  split
  · next key mode hkey hmode =>
      rcases h with h | h
      · cases h.symm.trans hkey
      · cases h.symm.trans hmode
  · rfl

/-! ## Last primitives -/

/-- A last primitive of some kind, if one is called at all. -/
inductive Ended (kind : Primitive → Prop) (lease : Lease) (p : Pool τ) : Lease × Pool τ → Prop
  | silent : Ended kind lease p (lease, p)
  | called {primitive : Primitive} {result : Except ReturnCode primitive.Result} {lease' : Lease}
      {q : Pool τ} (hkind : kind primitive)
      (hop : lease.operate primitive p = (result, lease', q)) : Ended kind lease p (lease', q)

/-! ## Checking a key -/

/-- Checking a key asks the token for its key sizes at most. -/
theorem accept_pool (e : Engine) (key : Key) (mode : OperationMode) (p : Pool τ) :
    (e.accept key mode p).2 = p
      ∨ (e.accept key mode p).2 = (p.call (.mechanismInfo e.scheme.mechanism)).2 := by
  unfold accept
  split
  · exact .inl rfl
  · split
    · exact .inl rfl
    · refine .inr ?_
      unfold acceptSize
      split <;> next h => rw [h]

/-! ## Giving up -/

/-- The ways that giving an operation up can go. -/
inductive Abandoned (e : Engine) (p : Pool τ) : Engine × Pool τ → Prop
  /-- There is none. -/
  | idle (hstate : e.state = .uninitialized) : Abandoned e p (e, p)
  /-- The engine holds no session. -/
  | bare (hstate : e.state = .initialized) (hlease : e.lease = none) :
      Abandoned e p ({ e with state := .uninitialized }, p)
  /-- The session is at rest already. -/
  | rested {lease : Lease} (hstate : e.state = .initialized) (hlease : e.lease = some lease)
      (hactive : lease.active = false) : Abandoned e p ({ e with state := .uninitialized }, p)
  /-- The session is closed, at once or after its operation could not be ended well. -/
  | discarded {lease lease' : Lease} {q : Pool τ} {pending : PendingInput}
      (hstate : e.state = .initialized) (hlease : e.lease = some lease)
      (hactive : lease.active = true)
      (hend : Ended (fun c => ∃ mode, e.mode = some mode ∧ c.Ends mode) lease p (lease', q))
      (hpending : e.pending.Fits e.scheme.processing → pending.Fits e.scheme.processing) :
      Abandoned e p
        ({ e with state := .uninitialized, lease := none, pending }, lease'.discard q)
  /-- The operation is ended on the token, and the session stays. -/
  | kept {lease lease' : Lease} {q : Pool τ} {pending : PendingInput} {mode : OperationMode}
      {primitive : Primitive} {result : Except ReturnCode primitive.Result}
      (hstate : e.state = .initialized) (hlease : e.lease = some lease)
      (hactive : lease.active = true) (hmode : e.mode = some mode) (hends : primitive.Ends mode)
      (hop : lease.operate primitive p = (result, lease', q))
      (hpending : e.pending.Fits e.scheme.processing → pending.Fits e.scheme.processing) :
      Abandoned e p ({ e with state := .uninitialized, lease := some lease', pending }, q)

/-- The input that an operation is wound up with changes the pending input at most. -/
theorem windUpInput_engine (e : Engine) :
    ∃ pending, e.windUpInput.2 = { e with pending }
      ∧ (e.pending.Fits e.scheme.processing → pending.Fits e.scheme.processing) := by
  unfold windUpInput
  split
  · exact ⟨e.pending, rfl, id⟩
  · refine ⟨e.pending.windUpInput.2, ?_, PendingInput.Fits.windUpInput⟩
    cases e.pending.windUpInput with
    | mk input pending => cases input <;> rfl

theorem windUpPrimitive_ends (e : Engine) (mode : OperationMode) (input : Option Bytes) :
    (e.windUpPrimitive mode input).Ends mode := by
  cases mode <;> cases input <;> rfl

/-- The ways that winding an operation up can go. -/
inductive WoundUp (e : Engine) (lease : Lease) (p : Pool τ) :
    Except EngineError Unit × Engine × Lease × Pool τ → Prop
  /-- Nothing is called. -/
  | silent {err : EngineError} {pending : PendingInput}
      (hpending : e.pending.Fits e.scheme.processing → pending.Fits e.scheme.processing) :
      WoundUp e lease p (.error err, { e with pending }, lease, p)
  /-- The last primitive is called, whatever comes of it. -/
  | called {mode : OperationMode} {input : Option Bytes} {pending : PendingInput}
      {result : Except ReturnCode (e.windUpPrimitive mode input).Result} {lease' : Lease}
      {q : Pool τ} {outcome : Except EngineError Unit} (hmode : e.mode = some mode)
      (hop : lease.operate (e.windUpPrimitive mode input) p = (result, lease', q))
      (hpending : e.pending.Fits e.scheme.processing → pending.Fits e.scheme.processing)
      (houtcome : outcome = windUpResult mode result) :
      WoundUp e lease p (outcome, { e with pending }, lease', q)

theorem woundUp (e : Engine) (lease : Lease) (p : Pool τ) : WoundUp e lease p (e.windUp lease p) := by
  obtain ⟨pending, hengine, hpending⟩ := e.windUpInput_engine
  unfold windUp
  split
  · show WoundUp e lease p (_, { e with pending := e.pending }, lease, p)
    exact .silent id
  · next mode hmode =>
      split
      · next err e' h =>
          rw [h] at hengine
          subst hengine
          exact .silent hpending
      · next input e' h =>
          rw [h] at hengine
          subst hengine
          exact .called hmode rfl hpending rfl

theorem abandoned (e : Engine) (p : Pool τ) : Abandoned e p (e.abandon p) := by
  unfold abandon
  split
  · next hstate => exact .idle hstate
  · next hstate =>
      dsimp only
      split
      · next hlease => exact .bare hstate hlease
      · next lease hlease =>
          split
          · next hactive =>
              split
              · -- the session owns objects: its operation is ended on the token
                have h := woundUp { e with state := .uninitialized, lease := none } lease p
                split
                · next out hout =>
                    rw [hout] at h
                    cases h with
                    | called hmode hop hpending _ =>
                        exact .kept hstate hlease hactive hmode (windUpPrimitive_ends _ _ _) hop
                          hpending
                · next out hout =>
                    rw [hout] at h
                    cases h with
                    | silent hpending =>
                        exact .discarded hstate hlease hactive .silent hpending
                    | called hmode hop hpending _ =>
                        exact .discarded hstate hlease hactive
                          (.called ⟨_, hmode, windUpPrimitive_ends _ _ _⟩ hop) hpending
              · show Abandoned e p
                  ({ e with state := .uninitialized, lease := none, pending := e.pending },
                    lease.discard p)
                exact .discarded hstate hlease hactive .silent id
          · next hactive =>
              exact .rested hstate hlease (by simpa using hactive)

/-- The ways that giving up an operation under way can go. -/
inductive Parted (e : Engine) (session : SessionId) (p : Pool τ) : Engine × Pool τ → Prop
  /-- The operation is ended on the token, and the session stays, at rest. -/
  | kept {q : Pool τ} {pending : PendingInput} {mode : OperationMode} {primitive : Primitive}
      {result : Except ReturnCode primitive.Result} (hmode : e.mode = some mode)
      (hends : primitive.Ends mode)
      (hop : (⟨session, true⟩ : Lease).operate primitive p = (result, ⟨session, false⟩, q)) :
      Parted e session p
        ({ e with state := .uninitialized, lease := some ⟨session, false⟩, pending }, q)
  /-- The session is closed, at once or after its operation could not be ended well. -/
  | closed {lease' : Lease} {q : Pool τ} {pending : PendingInput}
      (hend : Ended (fun c => ∃ mode, e.mode = some mode ∧ c.Ends mode) ⟨session, true⟩ p
        (lease', q)) :
      Parted e session p
        ({ e with state := .uninitialized, lease := none, pending }, q.discard session)

theorem parted {e : Engine} {session : SessionId} (hstate : e.state = .initialized)
    (hlease : e.lease = some ⟨session, true⟩) (p : Pool τ) :
    Parted e session p (e.abandon p) := by
  have habandoned := e.abandoned p
  generalize e.abandon p = out at habandoned ⊢
  cases habandoned with
  | idle hrest => cases hrest.symm.trans hstate
  | bare _ hnone => cases hnone.symm.trans hlease
  | rested _ hheld hactive =>
      obtain rfl := Option.some.inj (hheld.symm.trans hlease)
      cases hactive
  | @discarded _ lease' q pending _ hheld _ hend =>
      obtain rfl := Option.some.inj (hheld.symm.trans hlease)
      have hsession : lease'.session = session := by
        cases hend with
        | silent => rfl
        | called _ hop => rw [(Lease.operate_cases hop).1]
      rw [Lease.discard, hsession]
      exact .closed hend
  | kept _ hheld _ hmode hends hop =>
      obtain rfl := Option.some.inj (hheld.symm.trans hlease)
      obtain ⟨rfl, _, _⟩ := Lease.operate_cases hop
      rw [hends.activeAfter] at hop ⊢
      exact .kept hmode hends hop

/-! ## Starting with a key -/

/-- What the check of a key finds is reported as a fault of the key. -/
theorem ofKeyFault_of_accept {e : Engine} {key : Key} {mode : OperationMode} {p q : Pool τ}
    {fault : KeyFault} (h : e.accept key mode p = (.error fault, q)) :
    EngineError.ofKeyFault fault = .unacceptableKey fault := by
  unfold accept at h
  split at h
  · next haccept =>
      obtain rfl := Except.error.inj (congrArg Prod.fst h)
      exact Scheme.ofKeyFault_of_acceptKey haccept
  · split at h
    · cases congrArg Prod.fst h
    · unfold acceptSize at h
      split at h
      · exact Scheme.ofKeyFault_of_acceptSize (Prod.mk.inj h).1
      · exact Scheme.ofKeyFault_of_acceptSize (Prod.mk.inj h).1

/-- With a key that is not accepted, the operation under way is given up, and the session given
    back. -/
theorem startWith_of_rejected {e : Engine} {key : Key} {mode : OperationMode} {p q : Pool τ}
    {fault : KeyFault} (h : e.accept key mode p = (.error fault, q)) :
    e.startWith key mode p
      = (.error (.unacceptableKey fault),
        { (e.abandon q).1 with key := none }.giveBack (e.abandon q).2) := by
  simp only [startWith, h, ofKeyFault_of_accept h]

/-- With a key that is accepted, another operation is started after that is given up. -/
theorem startWith_of_accepted {e : Engine} {key : Key} {mode : OperationMode} {p q : Pool τ}
    (h : e.accept key mode p = (.ok (), q)) :
    e.startWith key mode p
      = { (e.abandon q).1 with key := some key, mode := some mode }.start (e.abandon q).2 := by
  simp only [startWith, h]

/-! ## Parts of the message -/

/-- The ways that taking in a part can go, for an engine that holds a session while it is
initialized. -/
inductive Updated (e : Engine) (data : Bytes) (p : Pool τ) :
    Except EngineError Unit × Engine × Pool τ → Prop
  /-- No operation could be started. -/
  | notStarted {err : EngineError} {e' : Engine} {q : Pool τ} (hstate : e.state = .uninitialized)
      (hstart : e.start p = (.error err, e', q)) : Updated e data p (.error err, e', q)
  /-- There is nothing to take in. -/
  | empty {e' : Engine} {q : Pool τ} (hstart : e.ensureStarted p = (.ok (), e', q))
      (hdata : data = []) : Updated e data p (.ok (), e', q)
  /-- The part stays on this side. -/
  | gathered {e' : Engine} {q : Pool τ} (hstart : e.ensureStarted p = (.ok (), e', q))
      (hdata : data ≠ []) (hproc : e'.scheme.processing ≠ .stream) :
      Updated e data p (.ok (), { e' with pending := e'.pending.add data }, q)
  /-- The part is passed on. -/
  | forwarded {e' : Engine} {q r : Pool τ} {mode : OperationMode} {lease lease' : Lease}
      (hstart : e.ensureStarted p = (.ok (), e', q)) (hdata : data ≠ [])
      (hproc : e'.scheme.processing = .stream) (hmode : e'.mode = some mode)
      (hlease : e'.lease = some lease)
      (hop : lease.operate (.update mode data) q = (.ok (), lease', r)) :
      Updated e data p
        (.ok (), { e' with lease := some lease', pending := e'.pending.add data }, r)
  /-- The token refuses the part; the operation is over. -/
  | aborted {e' : Engine} {q r : Pool τ} {mode : OperationMode} {lease lease' : Lease}
      {code : ReturnCode} (hstart : e.ensureStarted p = (.ok (), e', q)) (hdata : data ≠ [])
      (hproc : e'.scheme.processing = .stream) (hmode : e'.mode = some mode)
      (hlease : e'.lease = some lease)
      (hop : lease.operate (.update mode data) q = (.error code, lease', r)) :
      Updated e data p
        (.error (.tokenFailure (updateOperation mode) code),
          { e' with state := .uninitialized, lease := none }, lease'.close r)

theorem ensureStarted_error {e e' : Engine} {p q : Pool τ} {err : EngineError}
    (h : e.ensureStarted p = (.error err, e', q)) :
    e.state = .uninitialized ∧ e.start p = (.error err, e', q) := by
  unfold ensureStarted at h
  split at h
  · exact absurd (congrArg Prod.fst h) (by simp)
  · next hstate => exact ⟨hstate, h⟩

theorem updated {e : Engine} {p : Pool τ} (data : Bytes)
    (hheld : ∀ e' q, e.ensureStarted p = (.ok (), e', q) →
      ∃ mode lease, e'.mode = some mode ∧ e'.lease = some lease) :
    Updated e data p (e.update data p) := by
  unfold update
  split
  · next err e' q hstart =>
      obtain ⟨hstate, hstart⟩ := ensureStarted_error hstart
      exact .notStarted hstate hstart
  · next e' q hstart =>
      split
      · next hdata => exact .empty hstart hdata
      · next hdata =>
          obtain ⟨mode, lease, hmode, hlease⟩ := hheld e' q hstart
          by_cases hproc : e'.scheme.processing = .stream
          · cases hop : lease.operate (.update mode data) q with
            | mk result rest =>
                obtain ⟨lease', r⟩ := rest
                cases result with
                | ok u =>
                    simp only [takeIn, if_pos hproc, forward, hmode, hlease, hop]
                    simpa only [hmode] using
                      Updated.forwarded hstart hdata hproc hmode hlease hop
                | error code =>
                    simp only [takeIn, if_pos hproc, forward, hmode, hlease, hop, giveBack]
                    simpa only [hmode] using
                      Updated.aborted hstart hdata hproc hmode hlease hop
          · simp only [takeIn, if_neg hproc]
            exact .gathered hstart hdata hproc

/-! ## Ending with a signature or a verdict -/

/-- The mode of the operations that a call ends, if it ends any. -/
def Request.finishes? : Request → Option OperationMode
  | .sign => some .sign
  | .verify _ => some .verify
  | .init .. | .update _ | .cancel => none

/-- The primitives that a finishing call may end an operation with. -/
inductive Concludes (e : Engine) : Request → Primitive → Prop
  | signStreamed (hproc : e.scheme.processing = .stream) :
      Concludes e .sign (.signFinal e.scheme.expectedLength)
  | sign {input : Bytes} (hproc : e.scheme.processing ≠ .stream)
      (hinput : e.finalInput.1 = .ok input) : Concludes e .sign (.sign input)
  | verifyStreamed {signature block : Bytes} (hproc : e.scheme.processing = .stream)
      (hblock : decodeSignature e.scheme signature = .ok block) :
      Concludes e (.verify signature) (.verifyFinal block)
  | verify {signature block input : Bytes} (hproc : e.scheme.processing ≠ .stream)
      (hblock : decodeSignature e.scheme signature = .ok block)
      (hinput : e.finalInput.1 = .ok input) : Concludes e (.verify signature) (.verify input block)

theorem Concludes.ends {e : Engine} {request : Request} {primitive : Primitive}
    {mode : OperationMode} (h : e.Concludes request primitive)
    (hmode : request.finishes? = some mode) : primitive.Ends mode := by
  cases h <;> exact (Option.some.inj hmode).symm

/-- The final input changes the pending input at most. -/
theorem finalInput_engine (e : Engine) :
    ∃ pending, e.finalInput.2 = { e with pending }
      ∧ (e.pending.Fits e.scheme.processing → pending.Fits e.scheme.processing) := by
  unfold finalInput
  split
  · refine ⟨e.pending.takeDigest.2, ?_, PendingInput.Fits.takeDigest⟩
    cases e.pending.takeDigest with
    | mk result pending => cases result <;> rfl
  · refine ⟨e.pending, ?_, id⟩
    cases e.pending.gathered <;> rfl
  · exact ⟨e.pending, rfl, id⟩

theorem signOn_ended (e : Engine) (lease : Lease) (p : Pool τ) :
    ∃ pending, (e.signOn lease p).2.1 = { e with pending }
      ∧ (e.pending.Fits e.scheme.processing → pending.Fits e.scheme.processing)
      ∧ Ended (e.Concludes .sign) lease p (e.signOn lease p).2.2 := by
  have hblock : (e.signOn lease p).2 = (e.signBlock lease p).2 := by
    unfold signOn
    split <;> next h => rw [h]
  rw [hblock]
  unfold signBlock
  split
  · next hproc => exact ⟨e.pending, rfl, id, .called (.signStreamed hproc) rfl⟩
  · next hproc =>
      obtain ⟨pending, hengine, hpending⟩ := e.finalInput_engine
      refine ⟨pending, ?_, hpending, ?_⟩
      · rw [← hengine]
        split <;> next h => rw [h]
      · split
        · exact .silent
        · next input e' h =>
            have hinput : e.finalInput.1 = .ok input := by rw [h]
            exact .called (.sign hproc hinput) rfl

theorem verifyOn_ended (e : Engine) (lease : Lease) (signature : Bytes) (p : Pool τ) :
    ∃ pending, (e.verifyOn lease signature p).2.1 = { e with pending }
      ∧ (e.pending.Fits e.scheme.processing → pending.Fits e.scheme.processing)
      ∧ Ended (e.Concludes (.verify signature)) lease p (e.verifyOn lease signature p).2.2 := by
  unfold verifyOn
  split
  · exact ⟨e.pending, rfl, id, .silent⟩
  · next block hblock =>
      unfold verifyBlock
      split
      · next hproc => exact ⟨e.pending, rfl, id, .called (.verifyStreamed hproc hblock) rfl⟩
      · next hproc =>
          obtain ⟨pending, hengine, hpending⟩ := e.finalInput_engine
          refine ⟨pending, ?_, hpending, ?_⟩
          · rw [← hengine]
            split <;> next h => rw [h]
          · split
            · exact .silent
            · next input e' h =>
                have hinput : e.finalInput.1 = .ok input := by rw [h]
                exact .called (.verify hproc hblock hinput) rfl

/-- The ways that ending an operation can go. -/
inductive Finished (e : Engine) (request : Request) (mode : OperationMode) (p : Pool τ) :
    Engine × Pool τ → Prop
  /-- The engine works in another mode, or in none. -/
  | wrongMode {err : EngineError} (hmode : e.expectMode mode = .error err) :
      Finished e request mode p (e, p)
  /-- No operation could be started. -/
  | notStarted {err : EngineError} {e' : Engine} {q : Pool τ} (hmode : e.expectMode mode = .ok ())
      (hstate : e.state = .uninitialized) (hstart : e.start p = (.error err, e', q)) :
      Finished e request mode p (e', q)
  /-- The engine holds no session. -/
  | leaseless {e' : Engine} {q : Pool τ} (hmode : e.expectMode mode = .ok ())
      (hstart : e.ensureStarted p = (.ok (), e', q)) (hlease : e'.lease = none) :
      Finished e request mode p ({ e' with state := .uninitialized }, q)
  /-- The operation is over and its session given back, whatever came of the last primitive. -/
  | ended {e' : Engine} {q r : Pool τ} {lease lease' : Lease} {pending : PendingInput}
      (hmode : e.expectMode mode = .ok ()) (hstart : e.ensureStarted p = (.ok (), e', q))
      (hlease : e'.lease = some lease)
      (hend : Ended (Concludes { e' with state := .uninitialized, lease := none } request) lease q
        (lease', r))
      (hpending : e'.pending.Fits e'.scheme.processing → pending.Fits e'.scheme.processing) :
      Finished e request mode p
        ({ e' with state := .uninitialized, lease := none, pending }, lease'.close r)

/-- The ways that getting the session for a last call can go. -/
inductive Taken (e : Engine) (mode : OperationMode) (p : Pool τ) :
    Except EngineError Lease × Engine × Pool τ → Prop
  | wrongMode {err : EngineError} (hmode : e.expectMode mode = .error err) :
      Taken e mode p (.error err, e, p)
  | notStarted {err : EngineError} {e' : Engine} {q : Pool τ} (hmode : e.expectMode mode = .ok ())
      (hstate : e.state = .uninitialized) (hstart : e.start p = (.error err, e', q)) :
      Taken e mode p (.error err, e', q)
  | leaseless {e' : Engine} {q : Pool τ} (hmode : e.expectMode mode = .ok ())
      (hstart : e.ensureStarted p = (.ok (), e', q)) (hlease : e'.lease = none) :
      Taken e mode p
        (.error (.wrongState .noSessionHeld), { e' with state := .uninitialized }, q)
  | taken {e' : Engine} {q : Pool τ} {lease : Lease} (hmode : e.expectMode mode = .ok ())
      (hstart : e.ensureStarted p = (.ok (), e', q)) (hlease : e'.lease = some lease) :
      Taken e mode p (.ok lease, { e' with state := .uninitialized, lease := none }, q)

theorem taken (e : Engine) (mode : OperationMode) (p : Pool τ) :
    Taken e mode p (e.takeLease mode p) := by
  unfold takeLease
  split
  · next err hmode => exact .wrongMode hmode
  · next hmode =>
      split
      · next err e' q hstart =>
          obtain ⟨hstate, hstart⟩ := ensureStarted_error hstart
          exact .notStarted hmode hstate hstart
      · next e' q hstart =>
          dsimp only
          split
          · next hlease => exact .leaseless hmode hstart hlease
          · next lease hlease => exact .taken hmode hstart hlease

/-- Ending an operation goes one of these ways, with a signature as with a verdict. -/
theorem finished {e : Engine} {request : Request} {mode : OperationMode} (p : Pool τ)
    (hmode : request.finishes? = some mode) :
    Finished e request mode p (e.handle request p).2 := by
  cases request with
  | init key mode => cases hmode
  | update data => cases hmode
  | cancel => cases hmode
  | sign =>
      cases hmode
      show Finished e .sign .sign p (e.sign p).2
      have htaken := e.taken .sign p
      unfold sign
      generalize e.takeLease .sign p = out at htaken ⊢
      cases htaken with
      | wrongMode hmode => exact .wrongMode hmode
      | notStarted hmode hstate hstart => exact .notStarted hmode hstate hstart
      | leaseless hmode hstart hlease => exact .leaseless hmode hstart hlease
      | @taken e' q lease hmode hstart hlease =>
          obtain ⟨pending, hengine, hpending, hend⟩ :=
            signOn_ended { e' with state := .uninitialized, lease := none } lease q
          dsimp only
          rw [hengine]
          show Finished e .sign .sign p
            ({ e' with state := .uninitialized, lease := none, pending }, _)
          exact .ended hmode hstart hlease hend hpending
  | verify signature =>
      cases hmode
      show Finished e (.verify signature) .verify p (e.verify signature p).2
      have htaken := e.taken .verify p
      unfold verify
      generalize e.takeLease .verify p = out at htaken ⊢
      cases htaken with
      | wrongMode hmode => exact .wrongMode hmode
      | notStarted hmode hstate hstart => exact .notStarted hmode hstate hstart
      | leaseless hmode hstart hlease => exact .leaseless hmode hstart hlease
      | @taken e' q lease hmode hstart hlease =>
          obtain ⟨pending, hengine, hpending, hend⟩ :=
            verifyOn_ended { e' with state := .uninitialized, lease := none } lease signature q
          dsimp only
          rw [hengine]
          show Finished e (.verify signature) .verify p
            ({ e' with state := .uninitialized, lease := none, pending }, _)
          exact .ended hmode hstart hlease hend hpending

end Engine

end Cryptoki
