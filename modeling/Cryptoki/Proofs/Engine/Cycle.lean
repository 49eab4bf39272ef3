import Cryptoki.Proofs.Engine.Calls
import Cryptoki.Proofs.Engine.Erasure
import Cryptoki.Proofs.Engine.Presented

/-!
# `Cryptoki.Proofs.Engine.Cycle` — what the token is given in one operation

From the call that starts an operation to the one that ends it, the token is given the parts of one
message and nothing else: piece by piece where it digests by itself, and in the last call otherwise.
Input that an earlier operation has left behind stays in the engine until the next one has been
started, and is forgotten then. The whole state of an engine that is initialized is that of one which
was just started and took in the parts since.

Runs are followed from outside: of the parts, by what the engine was asked and whether it accepted,
and of the calls, by what the token was asked and answered.

## Contents
- `Engine.Cycle`, `Engine.Cycle.next`, `Engine.Cycle.run` — an engine with its parts and calls.
- `Engine.Cycle.run_engine` — to follow an engine does not change it.
- `Scheme.passed`, `Scheme.startEvent` — the calls before the last one.
- `Engine.Cycle.Follows`, `Engine.next_follows` — parts, calls and engine agree.
- `Engine.Cycle.Concluded`, `Engine.finish_concluded` — an operation ends with its own message.
- `Engine.Cycle.isolated` — nothing else reaches the token, ever.
-/

namespace Cryptoki

open Token (Event)

variable {τ : Type} [Token τ]

/-! ## Cycles -/

/-- A pool over a token that begins to remember its answers. -/
def Pool.logged {τ : Type} (p : Pool τ) : Pool (Logged τ) :=
  ⟨p.config, .start p.token, p.idle, p.opened⟩

namespace Engine

/-- An engine, followed from outside. -/
structure Cycle where
  engine : Engine
  /-- The data of the updates that were accepted since an operation was last started. -/
  parts : List Bytes
  /-- The engine's calls with their answers, the last one first. -/
  log : List Event

/-- The data that a call of the engine has taken in. -/
def accepted : Request → Except EngineError Answer → List Bytes
  | .update data, .ok _ => [data]
  | _, _ => []

theorem accepted_of_finishes {request : Request} {mode : OperationMode}
    (h : request.finishes? = some mode) (result : Except EngineError Answer) :
    accepted request result = [] := by
  cases request with
  | update data => cases h
  | init key mode => rfl
  | sign => rfl
  | verify signature => rfl
  | cancel => rfl

namespace Cycle

/-- An engine without a key, that has made no calls. -/
def start (scheme : Scheme) : Cycle := ⟨ofScheme scheme, [], []⟩

/-- The engine after some calls of its own, and the data it has taken in with them. -/
def advance (c : Cycle) (e : Engine) (events : List Event) (taken : List Bytes) : Cycle :=
  ⟨e, (if events.any Event.starts then [] else c.parts) ++ taken, events ++ c.log⟩

/-- The calls that the engine makes in a turn, the last one first. -/
def events (c : Cycle) (turn : Turn τ) : List Event :=
  (c.engine.handle turn.request turn.pool.logged).2.2.token.log

/-- One call of the engine. -/
def next (c : Cycle) (turn : Turn τ) : Cycle :=
  let out := c.engine.handle turn.request turn.pool.logged
  c.advance out.2.1 (c.events turn) (accepted turn.request out.1)

/-- Calls of the engine one after the other. -/
def run (c : Cycle) (turns : List (Turn τ)) : Cycle := turns.foldl next c

/-- To follow an engine does not change what it does. -/
theorem run_engine (c : Cycle) (turns : List (Turn τ)) :
    (c.run turns).engine = c.engine.after turns := by
  induction turns generalizing c with
  | nil => rfl
  | cons turn turns ih =>
      have hturn : (c.engine.handle turn.request turn.pool).2.1 = (c.next turn).engine := by
        have herase := c.engine.handle_erase turn.pool.logged turn.request
        exact congrArg (·.2.1) herase
      show ((c.next turn).run turns).engine
        = after (c.engine.handle turn.request turn.pool).2.1 turns
      rw [ih, hturn]

end Cycle

end Engine

/-- The parts that there is something in. -/
def nonempty (parts : List Bytes) : List Bytes := parts.filter (· ≠ [])

/-- The calls by which parts are passed on piece by piece, the last one first. -/
def Scheme.passed (scheme : Scheme) (mode : OperationMode) (session : SessionId)
    (parts : List Bytes) : List Event :=
  if scheme.processing = .stream then
    (nonempty parts).reverse.map fun data => ⟨.operate session (.update mode data), .ok ()⟩
  else []

/-- The call that starts an operation. -/
def Scheme.startEvent (scheme : Scheme) (mode : OperationMode) (session : SessionId) (key : Key) :
    Event :=
  ⟨.operate session (.init mode scheme.mechanism key.handle), .ok ()⟩

theorem nonempty_append (parts : List Bytes) (data : Bytes) :
    nonempty (parts ++ [data]) = if data = [] then nonempty parts else nonempty parts ++ [data] := by
  rw [nonempty, List.filter_append]
  split
  · next h => simp [nonempty, h]
  · next h => simp [nonempty, h]

/-- Empty parts add nothing to the message. -/
theorem flatten_nonempty (parts : List Bytes) : (nonempty parts).flatten = parts.flatten :=
  List.flatten_filter_ne_nil

namespace Engine

/-- While an operation is under way, the engine holds its key, mode and session, and of its input
    the parts that were taken in since; and since the call that has started the operation, only
    those parts were passed on, if they are passed on at all. -/
def Cycle.Follows (scheme : Scheme) (c : Cycle) : Prop :=
  c.engine.state = .initialized → ∃ session key mode older,
    c.engine.lease = some ⟨session, true⟩ ∧ c.engine.key = some key ∧ c.engine.mode = some mode
      ∧ c.engine.pending = .ofParts scheme.processing (nonempty c.parts)
      ∧ c.log = scheme.passed mode session c.parts ++ scheme.startEvent mode session key :: older

variable {scheme : Scheme} {c : Cycle} {e : Engine} {events : List Event} {taken : List Bytes}
  {p q : Pool (Logged τ)}

theorem start_follows (scheme : Scheme) : (Cycle.start scheme).Follows scheme :=
  fun hstate => absurd hstate (by simp [Cycle.start, ofScheme])

/-- At rest there is nothing to follow. -/
theorem follows_of_rest (h : e.state = .uninitialized) : (c.advance e events taken).Follows scheme :=
  fun hstate => absurd (h.symm.trans hstate) (by decide)

/-- An engine that has just been started has no input. -/
theorem follows_of_start {e' : Engine} (hbound : e.Bound scheme)
    (hstart : e.start p = (.ok (), e', q)) : (c.advance e' q.token.log []).Follows scheme := by
  intro _
  obtain ⟨session, key, mode, older, hkey, hmode, rfl, hlog, _⟩ := start_ok_log hstart
  -- whatever was pending is forgotten, and the last call has started the parts anew
  refine ⟨session, key, mode, older ++ c.log, rfl, hkey, hmode, ?_, ?_⟩
  · show e.pending.reset = .ofParts scheme.processing (nonempty (c.advance _ q.token.log []).parts)
    rw [hbound.fits.reset_eq_new, hbound.scheme_eq, hlog]
    rfl
  · show q.token.log ++ c.log = _
    rw [hlog, hbound.scheme_eq]
    simp [Cycle.advance, Event.starts, Scheme.passed, nonempty, Scheme.startEvent]

/-- A call that comes to nothing changes nothing. -/
theorem Cycle.Follows.same (h : c.Follows scheme) :
    (c.advance c.engine [] []).Follows scheme := by
  have hsame : c.advance c.engine [] [] = c := by simp [Cycle.advance]
  rw [hsame]
  exact h

theorem ensureStarted_follows {e' : Engine} (hcoherent : c.engine.Coherent scheme)
    (h : c.Follows scheme) (hempty : p.token.log = [])
    (hstart : c.engine.ensureStarted p = (.ok (), e', q)) :
    (c.advance e' q.token.log []).Follows scheme := by
  unfold ensureStarted at hstart
  split at hstart
  · obtain ⟨_, rfl, rfl⟩ := hstart
    rw [hempty]
    exact h.same
  · exact follows_of_start hcoherent.toBound hstart

/-! ## Parts of the message -/

/-- An empty part is accepted and leaves no trace. -/
theorem Cycle.Follows.empty (h : c.Follows scheme) :
    ({ c with parts := c.parts ++ [[]] } : Cycle).Follows scheme := by
  intro hstate
  obtain ⟨session, key, mode, older, hlease, hkey, hmode, hpending, hlog⟩ := h hstate
  refine ⟨session, key, mode, older, hlease, hkey, hmode, ?_, ?_⟩
  · rw [nonempty_append, if_pos rfl]
    exact hpending
  · rw [Scheme.passed, nonempty_append, if_pos rfl]
    exact hlog

/-- A part that stays on this side. -/
theorem Cycle.Follows.gathered {data : Bytes} (h : c.Follows scheme) (hdata : data ≠ [])
    (hproc : scheme.processing ≠ .stream) :
    ({ c with
      engine := { c.engine with pending := c.engine.pending.add data },
      parts := c.parts ++ [data] } : Cycle).Follows scheme := by
  intro hstate
  obtain ⟨session, key, mode, older, hlease, hkey, hmode, hpending, hlog⟩ := h hstate
  refine ⟨session, key, mode, older, hlease, hkey, hmode, ?_, ?_⟩
  · show c.engine.pending.add data = _
    rw [nonempty_append, if_neg hdata, PendingInput.ofParts_append, hpending]
  · rw [Scheme.passed, if_neg hproc] at hlog ⊢
    exact hlog

/-- A part that is passed on. -/
theorem Cycle.Follows.forwarded {data : Bytes} {session : SessionId} {mode : OperationMode}
    (h : c.Follows scheme) (hdata : data ≠ []) (hproc : scheme.processing = .stream)
    (hlease : c.engine.lease = some ⟨session, true⟩) (hmode : c.engine.mode = some mode) :
    (⟨{ c.engine with pending := c.engine.pending.add data }, c.parts ++ [data],
      ⟨.operate session (.update mode data), .ok ()⟩ :: c.log⟩ : Cycle).Follows scheme := by
  intro hstate
  obtain ⟨session', key, mode', older, hlease', hkey, hmode', hpending, hlog⟩ := h hstate
  obtain ⟨rfl, _⟩ := Lease.mk.inj (Option.some.inj (hlease.symm.trans hlease'))
  obtain rfl := Option.some.inj (hmode.symm.trans hmode')
  refine ⟨session, key, mode, older, hlease, hkey, hmode, ?_, ?_⟩
  · show c.engine.pending.add data = _
    rw [nonempty_append, if_neg hdata, PendingInput.ofParts_append, hpending]
  · show _ :: c.log = _
    rw [Scheme.passed, if_pos hproc] at hlog ⊢
    rw [hlog, nonempty_append, if_neg hdata, List.reverse_append]
    rfl

theorem update_follows (hcoherent : c.engine.Coherent scheme) (h : c.Follows scheme)
    (hempty : p.token.log = []) (data : Bytes) :
    let out := c.engine.handle (.update data) p
    (c.advance out.2.1 out.2.2.token.log (accepted (.update data) out.1)).Follows scheme := by
  simp only [handle]
  have hupdated := hcoherent.updated data p
  generalize c.engine.update data p = out at hupdated ⊢
  cases hupdated with
  | notStarted hstate hstart => exact follows_of_rest ((start_error hstart).trans hstate)
  | aborted => exact follows_of_rest rfl
  | empty hstart hdata =>
      have hfollows := ensureStarted_follows hcoherent h hempty hstart
      subst hdata
      simpa [Cycle.advance, accepted, Except.map] using hfollows.empty
  | gathered hstart hdata hproc =>
      have hfollows := ensureStarted_follows hcoherent h hempty hstart
      rw [(hcoherent.ensureStarted hstart).1.scheme_eq] at hproc
      simpa [Cycle.advance, accepted, Except.map] using hfollows.gathered hdata hproc
  | @forwarded e' q r mode lease lease' hstart hdata hproc hmode hlease hop =>
      -- the operation may have been started in this very turn
      have hfollows := ensureStarted_follows hcoherent h hempty hstart
      obtain ⟨hcoherent', _, _, hstate⟩ := hcoherent.ensureStarted hstart
      obtain ⟨session, _, hheld, _⟩ := hcoherent'.busy hstate
      obtain rfl := Option.some.inj (hlease.symm.trans hheld)
      obtain ⟨rfl, _, hanswer⟩ := Lease.operate_cases hop
      obtain ⟨_, hlog⟩ := Logged.answer_eq hanswer
      rw [hcoherent'.scheme_eq] at hproc
      have hforwarded := hfollows.forwarded hdata hproc hlease hmode
      simpa [Cycle.advance, accepted, Except.map, hlog, Event.starts, hlease,
        Primitive.activeAfter, Except.isOk, Except.toBool] using hforwarded

/-! ## Every call -/

theorem init_follows (hcoherent : c.engine.Coherent scheme) (key : Key) (mode : OperationMode) :
    let out := c.engine.handle (.init key mode) p
    (c.advance out.2.1 out.2.2.token.log []).Follows scheme := by
  simp only [handle]
  unfold startWith
  cases haccept : c.engine.accept key mode p with
  | mk check q =>
      obtain ⟨hbound, hstate⟩ := abandon_bound q hcoherent.toBound
      dsimp only
      cases check with
      | error fault => exact follows_of_rest (giveBack_rest _ _)
      | ok u =>
          have hkey := acceptKey_of_accept haccept
          rw [hcoherent.scheme_eq] at hkey
          have hbound' := hbound.bind hkey
          cases hstart : ({ (c.engine.abandon q).1 with key := some key, mode := some mode } :
              Engine).start (c.engine.abandon q).2 with
          | mk result rest =>
              cases result with
              | error err => exact follows_of_rest ((start_error hstart).trans hstate)
              | ok u => exact follows_of_start hbound' hstart

theorem finish_follows {request : Request} {mode : OperationMode}
    (hfinishes : request.finishes? = some mode) (h : c.Follows scheme)
    (hempty : p.token.log = []) :
    let out := c.engine.handle request p
    (c.advance out.2.1 out.2.2.token.log []).Follows scheme := by
  have hfinished := finished (e := c.engine) p hfinishes
  generalize c.engine.handle request p = out at hfinished ⊢
  obtain ⟨answer, out⟩ := out
  cases hfinished with
  | wrongMode =>
      show (c.advance c.engine p.token.log []).Follows scheme
      rw [hempty]
      exact h.same
  | notStarted _ hstate hstart => exact follows_of_rest ((start_error hstart).trans hstate)
  | leaseless => exact follows_of_rest rfl
  | ended => exact follows_of_rest rfl

/-- **A call keeps parts, calls and engine in agreement.** -/
theorem next_follows (hcoherent : c.engine.Coherent scheme) (h : c.Follows scheme)
    (turn : Turn τ) : (c.next turn).Follows scheme := by
  obtain ⟨request, pool⟩ := turn
  cases request with
  | init key mode => exact init_follows hcoherent key mode
  | update data => exact update_follows hcoherent h rfl data
  | sign => exact finish_follows rfl h rfl
  | verify signature => exact finish_follows rfl h rfl
  | cancel => exact follows_of_rest (giveBack_rest _ _)

theorem run_follows (hcoherent : c.engine.Coherent scheme) (h : c.Follows scheme)
    (turns : List (Turn τ)) :
    (c.run turns).engine.Coherent scheme ∧ (c.run turns).Follows scheme := by
  induction turns generalizing c with
  | nil => exact ⟨hcoherent, h⟩
  | cons turn turns ih =>
      exact ih (handle_coherent hcoherent turn.request turn.pool.logged)
        (next_follows hcoherent h turn)

/-! ## One message for one operation -/

/-- An operation has just been ended: since the call that has started it, its parts were passed on,
    if they are passed on at all, and then came its last call, on the message of those parts. -/
def Cycle.Concluded (scheme : Scheme) (key : Key) (mode : OperationMode) (request : Request)
    (c : Cycle) : Prop :=
  ∃ session older last, ∃ result : Except ReturnCode last.Result,
    c.log = ⟨.operate session last, result⟩
        :: (scheme.passed mode session c.parts ++ scheme.startEvent mode session key :: older)
      ∧ scheme.Last key c.parts.flatten request last

/-- The last call of an operation under way, with all it holds. -/
theorem Cycle.Follows.concluded {lease : Lease} {primitive : Primitive} {mode : OperationMode}
    {request : Request} (h : c.Follows scheme) (hcoherent : c.engine.Coherent scheme)
    (hstate : c.engine.state = .initialized) (hlease : c.engine.lease = some lease)
    (hmode : c.engine.mode = some mode)
    (hconcludes : Concludes { c.engine with state := .uninitialized, lease := none } request
      primitive)
    (result : Except ReturnCode primitive.Result) (e' : Engine) :
    ∃ key, c.engine.key = some key
      ∧ (⟨e', c.parts, ⟨.operate lease.session primitive, result⟩ :: c.log⟩ : Cycle).Concluded
          scheme key mode request := by
  obtain ⟨session, key, mode', older, hlease', hkey, hmode', hpending, hlog⟩ := h hstate
  obtain rfl := Option.some.inj (hlease.symm.trans hlease')
  obtain rfl := Option.some.inj (hmode.symm.trans hmode')
  have hlast := hconcludes.last hkey (hpending.trans (by rw [hcoherent.scheme_eq]))
  rw [flatten_nonempty, hcoherent.scheme_eq] at hlast
  exact ⟨key, hkey, session, older, primitive, result, congrArg (_ :: ·) hlog, hlast⟩

theorem finish_concluded {request : Request} {mode : OperationMode}
    (hfinishes : request.finishes? = some mode) (hcoherent : c.engine.Coherent scheme)
    (h : c.Follows scheme) (hempty : p.token.log = []) :
    let out := c.engine.handle request p
    (∃ event ∈ out.2.2.token.log, event.Ends) → ∃ key, c.engine.key = some key
      ∧ (c.advance out.2.1 out.2.2.token.log []).Concluded scheme key mode request := by
  have hfinished := finished (e := c.engine) p hfinishes
  generalize c.engine.handle request p = out at hfinished ⊢
  obtain ⟨answer, out⟩ := out
  dsimp only at hfinished ⊢
  intro hcalled
  cases hfinished with
  | wrongMode => exact absurd hcalled (Logged.Bare.not_ends (.refl _) hempty)
  | notStarted _ _ hstart => exact absurd hcalled ((start_bare hstart).not_ends hempty)
  | leaseless _ hstart =>
      exact absurd hcalled ((ensureStarted_bare hstart).not_ends hempty)
  | @ended e' q r lease lease' _ hmode hstart hlease hend =>
      obtain ⟨hcoherent', hkey', hmode', hstate⟩ := hcoherent.ensureStarted hstart
      cases hend with
      | silent =>
          have hbare := (ensureStarted_bare hstart).trans (lease.close_bare q)
          exact absurd hcalled (Logged.Bare.not_ends hbare hempty)
      | @called primitive result _ _ hconcludes hop =>
          have hfollows := ensureStarted_follows hcoherent h hempty hstart
          have hends := hconcludes.ends hfinishes
          obtain ⟨key, hkey, hconcluded⟩ := hfollows.concluded hcoherent' hstate hlease
            (hmode'.trans (expectMode_ok hmode)) hconcludes result _
          refine ⟨key, hkey'.symm.trans hkey, ?_⟩
          -- the last call starts nothing, so the parts are those since the start
          rw [Lease.close_log hends hop]
          simpa only [Cycle.advance, List.any_cons, Event.not_starts_of_ends hends, Bool.false_or,
            List.cons_append] using hconcluded

/-- **Each operation is given its own message, and nothing that was taken in before it.** After any
    calls, over any token and with anything between them, an engine that is initialized is one that
    was just started and took in the parts since, and of its calls since the start all were to pass
    these parts on. Whatever it is asked for next, it passes on what it was asked to take in, or ends
    an operation, and gives the token no other input. Where it finishes one, the last call is on the
    message of the parts since the start: the message as it is, its digest, or the digest with its
    name, in a block of the size of the key if the scheme pads. -/
theorem Cycle.isolated (scheme : Scheme) (turns : List (Turn τ)) :
    let c := (Cycle.start scheme).run turns
    (c.engine.state = .initialized → ∃ session key mode older,
        c.engine = {
          scheme, key := some key, mode := some mode, lease := some ⟨session, true⟩,
          pending := .ofParts scheme.processing (nonempty c.parts), state := .initialized }
        ∧ c.log = scheme.passed mode session c.parts ++ scheme.startEvent mode session key :: older)
      ∧ ∀ turn : Turn τ, (∀ event ∈ c.events turn, c.engine.Gives turn.request event)
        ∧ ∀ mode, turn.request.finishes? = some mode → (∃ event ∈ c.events turn, event.Ends) →
            ∃ key, c.engine.key = some key
              ∧ (c.next turn).Concluded scheme key mode turn.request := by
  intro c
  obtain ⟨hcoherent, h⟩ : c.engine.Coherent scheme ∧ c.Follows scheme :=
    run_follows (ofScheme_coherent scheme) (start_follows scheme) turns
  constructor
  · intro hstate
    obtain ⟨session, key, mode, older, hlease, hkey, hmode, hpending, hlog⟩ := h hstate
    refine ⟨session, key, mode, older, ?_, hlog⟩
    show (⟨c.engine.scheme, c.engine.key, c.engine.mode, c.engine.lease, c.engine.pending,
      c.engine.state⟩ : Engine) = _
    rw [hcoherent.scheme_eq, hkey, hmode, hlease, hpending, hstate]
  · intro turn
    constructor
    · intro event hevent
      obtain ⟨events, hlog, hevents⟩ := handle_gives hcoherent turn.request turn.pool.logged
      have hmem : event ∈ events ++ [] := hlog ▸ hevent
      rw [List.append_nil] at hmem
      exact hevents event hmem
    · intro mode hfinishes hcalled
      rw [Cycle.next, accepted_of_finishes hfinishes]
      exact finish_concluded hfinishes hcoherent h rfl hcalled

/-- What was taken in for an operation that was given up is not signed with the next: the token is
    given the digest of "abc", and of nothing else. -/
theorem Cycle.isolated_of_leftover :
    let scheme : Scheme := ⟨.sha1WithDsa, .dsa, .digestHere .sha1⟩
    let done := dsaTurns "" [.init dsaKey .sign, .update [120], .init dsaKey .sign, .update [97],
      .update [98, 99]]
    let c := (Cycle.start scheme).run done.1
    let turn : Turn Scripted := ⟨.sign, done.2⟩
    c.parts = [[97], [98, 99]]
      ∧ (c.events turn).map (·.call) = [.operate ⟨2⟩ (.sign DigestAlgorithm.sha1.published.1)]
      ∧ ∃ key, c.engine.key = some key ∧ (c.next turn).Concluded scheme key .sign .sign := by
  intro scheme done c turn
  have hcalls : (c.events turn).map (·.call)
      = [.operate ⟨2⟩ (.sign DigestAlgorithm.sha1.published.1)] := by decide +kernel
  obtain ⟨event, hevent, hcall⟩ := List.mem_map.mp (hcalls ▸ List.mem_singleton_self _)
  exact ⟨by decide +kernel, hcalls,
    ((isolated scheme done.1).2 turn).2 .sign rfl ⟨event, hevent, _, _, .sign, hcall, rfl⟩⟩

end Engine

end Cryptoki
