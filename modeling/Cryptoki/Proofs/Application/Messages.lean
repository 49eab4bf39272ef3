import Cryptoki.Proofs.Application.Agreement
import Cryptoki.Proofs.Engine.Serving

/-!
# `Cryptoki.Proofs.Application.Messages` — whole messages, among anything else

A pair that was stored once is there for good, and every engine is ready whenever nobody calls it,
whatever was asked of the application before. So a message can be run through any engine at any
time: if it can be started, it takes in all parts, and ends with the signature or the verdict of the
pair for the payload of the message.

## Contents
- `Application.Stores` — the states of an application in which a pair has been stored.
- `Application.Pooled`, `Application.Starves` — starts that fail for want of a session.
- `Application.exchange`, `Application.exchanged` — the commands for a message, and their replies.
- `Application.Stores.ready`, `Application.Stores.holds` — what holds in these states.
- `Application.Stores.opened`, `Application.Stores.init_ok_iff` — what comes of a start.
- `Application.Stores.signed`, `Application.Stores.verified` — messages that were started.
- `Application.sideBySide` — engines for one algorithm on different mechanisms.
-/

namespace Cryptoki.Application

variable {ops : KeyOperations} {a : Application (Logged (Software ops))} {secret : KeySecret}
  {pair : KeyPair} {name : String} {e : Engine}

/-! ## States -/

/-- Stores a key pair in the token. -/
def addPair (a : Application (Logged (Software ops))) (secret : KeySecret) :
    KeyPair × Application (Logged (Software ops)) :=
  let (pair, token) := a.pool.token.token.addPair secret
  (pair, a.withToken token)

/-- The application has come from the start by some actions, and the pair was stored on the way. -/
def Stores (secret : KeySecret) (pair : KeyPair) (a : Application (Logged (Software ops))) : Prop :=
  ∃ (limit : Option Nat) (sessionObjects : Bool) (config : PoolConfig) (before later : List Action),
    let token : Software ops := .empty limit sessionObjects
    let b := (start (.empty (Logged.start token) config)).after before
    (b.addPair secret).1 = pair ∧ (b.addPair secret).2.after later = a

/-- The application has come from the start by commands that use sessions through the pool only, and
    by keys that were stored. -/
def Pooled (a : Application (Logged (Software ops))) : Prop :=
  ∃ (limit : Option Nat) (sessionObjects : Bool) (config : PoolConfig) (actions : List Action),
    (∀ c, .command c ∈ actions → c.ThroughPool)
      ∧ (start (.empty (Logged.start (.empty limit sessionObjects : Software ops)) config)).after
        actions = a

/-- The command to an engine fails for want of a session. Unless somebody has called the token past
    the pool, this is a failure that may pass. -/
def Starves (a : Application (Logged (Software ops))) (c : Command) : Prop :=
  ∃ err, (a.step c).1 = .engine (.error err) ∧ err.Unavailable ∧ (a.Pooled → err.mayPass = true)

/-- Every engine is ready. -/
def Ready (a : Application (Logged (Software ops))) : Prop :=
  ∀ name e, a.engines.get? name = some e → e.Ready

/-- The pair is on the token. -/
def Holds (secret : KeySecret) (pair : KeyPair) (a : Application (Logged (Software ops))) : Prop :=
  a.pool.token.token.Holds secret pair

/-- As long as sessions are used through the pool, calls come in time. -/
theorem Pooled.quiet {c : Command} (h : a.Pooled) (hthrough : c.ThroughPool)
    (hdrives : ¬ c.Drives) : Quiet a.pool.token (a.step c).2.pool.token := by
  obtain ⟨limit, sessionObjects, config, actions, hpool, rfl⟩ := h
  obtain ⟨t, hagrees⟩ := (start_agrees limit sessionObjects config).after hpool
  exact (Agrees.step ⟨hagrees.coherent, hagrees.tidy.restart⟩ hthrough hdrives).tidy.quiet

/-! ## Engines -/

/-- An engine that there is after a command was there before, or it is new, or it was called. -/
theorem engine_of_step {c : Command} (hget : (a.step c).2.engines.get? name = some e) :
    a.engines.get? name = some e
      ∨ (∃ algorithm mechanism, Engine.new algorithm mechanism = .ok e)
      ∨ ∃ e₀ request, c = .engine name request ∧ a.engines.get? name = some e₀
        ∧ (e₀.handle request a.pool).2.1 = e := by
  cases c with
  | newEngine name' algorithm mechanism =>
      simp only [step] at hget
      split at hget
      · exact .inl hget
      · next e' hnew =>
          rw [Table.get?_insert] at hget
          split at hget
          · exact .inr (.inl ⟨algorithm, mechanism, hnew.trans (congrArg _ (Option.some.inj hget))⟩)
          · exact .inl hget
  | engine name' request =>
      simp only [step] at hget
      split at hget
      · exact .inl hget
      · next e₀ hfound =>
          rw [Table.get?_insert] at hget
          split at hget
          · next hname =>
            subst hname
            exact .inr (.inr ⟨e₀, request, rfl, hfound, Option.some.inj hget⟩)
          · exact .inl hget
  | dropEngine name' =>
      simp only [step] at hget
      split at hget
      · exact .inl hget
      · rw [Table.get?_erase] at hget
        split at hget
        · cases hget
        · exact .inl hget
  -- the other commands leave the engines alone
  | acquire name' => simp only [step] at hget; split at hget <;> exact .inl hget
  | lease name' primitive => simp only [step] at hget; split at hget <;> exact .inl hget
  | closeLease name' => simp only [step] at hget; split at hget <;> exact .inl hget
  | discardLease name' => simp only [step] at hget; split at hget <;> exact .inl hget
  | token call => exact .inl hget

theorem Ready.step (h : a.Ready) (c : Command) : (a.step c).2.Ready := by
  intro name e hget
  rcases engine_of_step hget with
    hkept | ⟨algorithm, mechanism, hnew⟩ | ⟨e₀, request, _, hcalled, rfl⟩
  · exact h name e hkept
  · exact Engine.ready_of_new hnew
  · exact ((h name e₀ hcalled).handle request a.pool).1

theorem Ready.act (h : a.Ready) (action : Action) : (a.act action).Ready := by
  cases action with
  | command c => exact h.step c
  | importRsa k => exact h
  | importEc k => exact h

/-- **Engines are ready whatever was asked for.** -/
theorem Ready.after (h : a.Ready) (actions : List Action) : (a.after actions).Ready := by
  induction actions generalizing a with
  | nil => exact h
  | cons action actions ih => exact ih (h.act action)

/-! ## Pairs -/

theorem Holds.act (h : a.Holds secret pair) (action : Action) :
    (a.act action).Holds secret pair := by
  cases action with
  | command c =>
      exact Software.Holds.reached h (step_reached a c)
  | importRsa k => exact Software.Holds.addPair h (.rsa k)
  | importEc k => exact Software.Holds.addPair h (.ec k)

/-- **A pair stays whatever is asked for.** -/
theorem Holds.after (h : a.Holds secret pair) (actions : List Action) :
    (a.after actions).Holds secret pair := by
  induction actions generalizing a with
  | nil => exact h
  | cons action actions ih => exact ih (h.act action)

theorem ready_start (pool : Pool (Logged (Software ops))) : (start pool).Ready := by
  intro name e hget
  cases hget

namespace Stores

theorem ready (h : a.Stores secret pair) : a.Ready := by
  obtain ⟨limit, sessionObjects, config, before, later, _, rfl⟩ := h
  have hbefore := (ready_start (.empty (Logged.start (.empty limit sessionObjects : Software ops))
    config)).after before
  generalize (start _).after before = b at hbefore ⊢
  have hstored : (b.addPair secret).2.Ready := hbefore
  exact Application.Ready.after hstored later

theorem holds (h : a.Stores secret pair) : a.Holds secret pair := by
  obtain ⟨limit, sessionObjects, config, before, later, rfl, rfl⟩ := h
  generalize (start _).after before = b
  have hholds : (b.addPair secret).2.Holds secret (b.addPair secret).1 :=
    Software.addPair_holds b.pool.token.token secret
  exact Application.Holds.after hholds later

/-- The pair is stored after any other actions. -/
theorem after (h : a.Stores secret pair) (actions : List Action) :
    (a.after actions).Stores secret pair := by
  obtain ⟨limit, sessionObjects, config, before, later, hpair, rfl⟩ := h
  refine ⟨limit, sessionObjects, config, before, later ++ actions, hpair, ?_⟩
  exact List.foldl_append

end Stores

/-! ## Messages -/

/-- The commands that run a message through an engine, in parts. -/
def exchange (name : String) (key : Key) (mode : OperationMode) (parts : List Bytes)
    (last : Engine.Request) : List Command :=
  .engine name (.init key mode) :: parts.map (fun data => .engine name (.update data))
    ++ [.engine name last]

/-- The replies, if only the last call may fail. -/
def exchanged (parts : List Bytes) (result : Except EngineError Engine.Answer) : List Reply :=
  .engine (.ok .done) :: parts.map (fun _ => .engine (.ok .done)) ++ [.engine result]

/-- Commands are actions. -/
theorem run_after (a : Application (Logged (Software ops))) (commands : List Command) :
    (a.run commands).2 = a.after (commands.map .command) := by
  induction commands generalizing a with
  | nil => rfl
  | cons c commands ih => exact ih (a.step c).2

theorem run_append (a : Application (Logged (Software ops))) (commands commands' : List Command) :
    (a.run (commands ++ commands')).1
      = (a.run commands).1 ++ ((a.run commands).2.run commands').1 := by
  induction commands generalizing a with
  | nil => rfl
  | cons c commands ih => exact congrArg _ (ih (a.step c).2)

/-- An engine that goes by the name is in the middle of a message. -/
def Serves (name : String) (scheme : Scheme) (key : Key) (mode : OperationMode) (message : Bytes)
    (a : Application (Logged (Software ops))) : Prop :=
  ∃ e, a.engines.get? name = some e ∧ e.Serves scheme key mode message a.pool

variable {scheme : Scheme} {key : Key} {mode : OperationMode} {message : Bytes}
  {parts : List Bytes}

theorem step_engine (hget : a.engines.get? name = some e) (request : Engine.Request) :
    a.step (.engine name request)
      = (.engine (e.handle request a.pool).1,
        { a with
          pool := (e.handle request a.pool).2.2
          engines := a.engines.insert name (e.handle request a.pool).2.1 }) := by
  simp only [step, hget]

theorem serves_of_step {request : Engine.Request} (hget : a.engines.get? name = some e)
    (h : (e.handle request a.pool).2.1.Serves scheme key mode message
      (e.handle request a.pool).2.2) :
    (a.step (.engine name request)).2.Serves name scheme key mode message := by
  rw [step_engine hget]
  exact ⟨_, Table.get?_insert_self .., h⟩

/-- **Starting with a key of the pair goes one of three ways**: a session is lacking, or the key does
    not pass the check, or there is an operation on no message yet. -/
theorem Stores.opened (h : a.Stores secret pair) (hget : a.engines.get? name = some e)
    (mode : OperationMode) :
    let out := a.step (.engine name (.init (pair.keyFor mode) mode))
    a.Starves (.engine name (.init (pair.keyFor mode) mode))
      ∨ (∃ fault, e.scheme.check (pair.keyFor mode) mode = .error fault
          ∧ out.1 = .engine (.error (.unacceptableKey fault)))
      ∨ (e.scheme.check (pair.keyFor mode) mode = .ok () ∧ out.1 = .engine (.ok .done)
          ∧ out.2.Serves name e.scheme (pair.keyFor mode) mode []) := by
  have hopened := (h.ready name e hget).opened h.holds mode
  have hstep := step_engine hget (.init (pair.keyFor mode) mode)
  generalize e.handle (.init (pair.keyFor mode) mode) a.pool = started at hopened hstep
  cases hopened with
  | @unavailable err e' p herr hquiet =>
      refine .inl ⟨err, congrArg Prod.fst hstep, herr, ?_⟩
      intro hpooled
      have hcalls := hpooled.quiet (c := .engine name (.init (pair.keyFor mode) mode)) trivial id
      rw [hstep] at hcalls
      exact hquiet hcalls
  | @rejected fault e' p hcheck => exact .inr (.inl ⟨fault, hcheck, congrArg Prod.fst hstep⟩)
  | @serving e' p hcheck hserves =>
      refine .inr (.inr ⟨hcheck, congrArg Prod.fst hstep, ?_⟩)
      rw [hstep]
      exact ⟨e', Table.get?_insert_self .., hserves⟩

/-- A start succeeds if the key passes the check and no session is lacking. -/
theorem Stores.init_ok_iff (h : a.Stores secret pair) (hget : a.engines.get? name = some e)
    (mode : OperationMode) :
    (a.step (.engine name (.init (pair.keyFor mode) mode))).1 = .engine (.ok .done)
      ↔ e.scheme.check (pair.keyFor mode) mode = .ok ()
        ∧ ¬ a.Starves (.engine name (.init (pair.keyFor mode) mode)) := by
  constructor
  · intro hstart
    have hfed : ¬ a.Starves (.engine name (.init (pair.keyFor mode) mode)) := by
      rintro ⟨err, herr, _⟩
      cases hstart.symm.trans herr
    rcases h.opened hget mode with hstarves | ⟨fault, _, hfault⟩ | ⟨hcheck, _⟩
    · exact absurd hstarves hfed
    · cases hstart.symm.trans hfault
    · exact ⟨hcheck, hfed⟩
  · rintro ⟨hcheck, hfed⟩
    rcases h.opened hget mode with hstarves | ⟨fault, hrejected, _⟩ | ⟨_, hstart, _⟩
    · exact absurd hstarves hfed
    · cases hcheck.symm.trans hrejected
    · exact hstart

/-- The keys of a pair are checked the same way by all engines for an algorithm, wherever the pair is
    stored. -/
theorem Stores.check_eq {a' : Application (Logged (Software ops))} {pair' : KeyPair}
    {name' : String} {e' : Engine} (h : a.Stores secret pair) (h' : a'.Stores secret pair')
    (hget : a.engines.get? name = some e) (hget' : a'.engines.get? name' = some e')
    (halgorithm : e.scheme.algorithm = e'.scheme.algorithm) (hdsa : e.scheme.family ≠ .dsa)
    (mode : OperationMode) :
    e.scheme.check (pair.keyFor mode) mode = e'.scheme.check (pair'.keyFor mode) mode := by
  have hhalf := (h.holds.half mode).trans (h'.holds.half mode).symm
  have hparams := (h.holds.params mode).trans (h'.holds.params mode).symm
  rw [Scheme.check_congr hhalf hparams]
  exact Scheme.check_eq (h.ready name e hget).resolved (h'.ready name' e' hget').resolved hdsa
    halgorithm _ mode

/-- An engine that was started with a key of the pair has an operation on no message yet. -/
theorem Stores.started (h : a.Stores secret pair) (hget : a.engines.get? name = some e)
    (hstart : (a.step (.engine name (.init (pair.keyFor mode) mode))).1 = .engine (.ok .done)) :
    e.scheme.Suits (pair.keyFor mode)
      ∧ (a.step (.engine name (.init (pair.keyFor mode) mode))).2.Serves name e.scheme
        (pair.keyFor mode) mode [] := by
  rcases h.opened hget mode with ⟨err, herr, _⟩ | ⟨fault, _, hfault⟩ | ⟨hcheck, _, hserves⟩
  · cases hstart.symm.trans herr
  · cases hstart.symm.trans hfault
  · exact ⟨Engine.suits_of_check (h.ready name e hget).resolved hcheck, hserves⟩

/-- All parts of a message are taken in. -/
theorem Serves.updates (h : a.Serves name scheme key mode message) (hresolved : scheme.Resolved)
    (hdsa : scheme.family ≠ .dsa) (parts : List Bytes) :
    let out := a.run (parts.map fun data => .engine name (.update data))
    out.1 = parts.map (fun _ => .engine (.ok .done))
      ∧ out.2.Serves name scheme key mode (message ++ parts.flatten) := by
  induction parts generalizing a message with
  | nil =>
      rw [List.flatten_nil, List.append_nil]
      exact ⟨rfl, h⟩
  | cons data parts ih =>
      obtain ⟨e, hget, hserves⟩ := h
      obtain ⟨e', q, hupdate, hserves'⟩ := hserves.update hresolved hdsa data
      have hreply : (a.step (.engine name (.update data))).1 = .engine (.ok .done) := by
        rw [step_engine hget, hupdate]
      have hnext : (a.step (.engine name (.update data))).2.Serves name scheme key mode
          (message ++ data) := by
        apply serves_of_step hget
        rw [hupdate]
        exact hserves'
      obtain ⟨hreplies, hafter⟩ := ih hnext
      rw [List.append_assoc] at hafter
      exact ⟨congrArg₂ List.cons hreply hreplies, hafter⟩

/-- **A message that was started comes to its end**, and there the engine has all of it. -/
theorem Stores.served (h : a.Stores secret pair) (hget : a.engines.get? name = some e)
    (mode : OperationMode)
    (hstart : (a.step (.engine name (.init (pair.keyFor mode) mode))).1 = .engine (.ok .done))
    (parts : List Bytes) :
    e.scheme.Suits (pair.keyFor mode) ∧
      ∃ (e' : Engine) (p : Pool (Logged (Software ops))),
        e'.Serves e.scheme (pair.keyFor mode) mode parts.flatten p
          ∧ p.token.token.Holds secret pair
          ∧ ∀ last, (a.run (exchange name (pair.keyFor mode) mode parts last)).1
            = exchanged parts (e'.handle last p).1 := by
  obtain ⟨hsuits, hserves⟩ := h.started hget hstart
  have hdsa := hsuits.family_ne_dsa (h.holds.params mode)
  obtain ⟨hreplies, e', hget', hserves'⟩ := hserves.updates hsuits.resolved hdsa parts
  rw [List.nil_append] at hserves'
  have hstored := h.after
    ((.engine name (.init (pair.keyFor mode) mode) ::
      parts.map fun data => .engine name (.update data) : List Command).map .command)
  rw [← run_after] at hstored
  refine ⟨hsuits, e', _, hserves', hstored.holds, ?_⟩
  intro last
  rw [exchange, run_append]
  have hlast := step_engine hget' last
  refine congrArg₂ List.append (congrArg₂ List.cons hstart hreplies) ?_
  exact congrArg (fun out => [out.1]) hlast

/-- **The signature of a message is that of its payload**, and so are failures to sign. -/
theorem Stores.signed (h : a.Stores secret pair) (hget : a.engines.get? name = some e)
    (hstart : (a.step (.engine name (.init pair.privateKey .sign))).1 = .engine (.ok .done))
    (parts : List Bytes)
    (hlength : e.scheme.algorithm.digest = none → parts.flatten.length ≤ rawEcdsaMax) :
    e.scheme.Suits pair.privateKey ∧
      ∃ result, (a.run (exchange name pair.privateKey .sign parts .sign)).1
          = exchanged parts result
        ∧ result.toOption
          = (secret.signature? ops (e.scheme.algorithm.payload parts.flatten)).map .signature := by
  obtain ⟨hsuits, e', p, hserves, hholds, hrun⟩ := h.served hget .sign hstart parts
  have hfault := hsuits.resolved.lengthFault?_eq_none (hsuits.family_ne_dsa (hholds.params .sign)) hlength
  exact ⟨hsuits, _, hrun .sign, hserves.sign hsuits hholds hfault⟩

/-- **The verdict on a signature of a message is that for its payload.** -/
theorem Stores.verified (h : a.Stores secret pair) (hget : a.engines.get? name = some e)
    (hstart : (a.step (.engine name (.init pair.publicKey .verify))).1 = .engine (.ok .done))
    (parts : List Bytes)
    (hlength : e.scheme.algorithm.digest = none → parts.flatten.length ≤ rawEcdsaMax)
    (signature : Bytes) :
    (a.run (exchange name pair.publicKey .verify parts (.verify signature))).1
      = exchanged parts (.ok (.verdict
        (secret.accepts ops (e.scheme.algorithm.payload parts.flatten) signature))) := by
  obtain ⟨hsuits, e', p, hserves, hholds, hrun⟩ := h.served hget .verify hstart parts
  have hfault :=
    hsuits.resolved.lengthFault?_eq_none (hsuits.family_ne_dsa (hholds.params .verify)) hlength
  rw [← hserves.verify hsuits hholds hfault signature]
  exact hrun (.verify signature)

/-! ## Engines side by side -/

/-- The key pair that is the first on its token. -/
def firstPair (secret : KeySecret) : KeyPair :=
  ⟨⟨⟨1⟩, .privateKey, secret.params⟩, ⟨⟨2⟩, .publicKey, secret.params⟩⟩

/-- An RSA key pair, and engines that run an algorithm in all ways there are: the token digests, or
    it pads only, or it does neither. -/
def sideBySide (ops : KeyOperations) (k : Rsa.PrivateKey) : Application (Logged (Software ops)) :=
  (start (.empty (Logged.start (.empty none false)) {})).after
    [.importRsa k,
      .command (.newEngine "digested" "SHA256withRSA" .sha256RsaPkcs),
      .command (.newEngine "padded" "SHA256withRSA" .rsaPkcs),
      .command (.newEngine "raw" "SHA256withRSA" .rsaX509)]

theorem sideBySide_stores (ops : KeyOperations) (k : Rsa.PrivateKey) :
    (sideBySide ops k).Stores (.rsa k) (firstPair (.rsa k)) := ⟨none, false, {}, [], _, rfl, rfl⟩

end Cryptoki.Application
