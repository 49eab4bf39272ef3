import Cryptoki.Proofs.Application.Frame
import Cryptoki.Proofs.Application.Messages
import Cryptoki.Proofs.Engine.Alone

/-!
# `Cryptoki.Proofs.Application.Isolation` — engines that share a pool do not notice each other

What an engine answers, and what it is bound to, could depend on the other users of its pool in three
ways: by what they leave in a session that it gets after them, by what they do to a session while it
has it, and by the sessions that they keep from it. The first two do not happen. So as long as it gets
a session whenever it asks for one, its history is the one that it would have without anybody beside
it.

Two runs are compared for this: one of all commands, and one of those about the engine alone. Between
the commands about the engine only the first run goes on, and both sides stay alike; at a command
about the engine both go on, and it cannot tell them apart.

## Contents
- `Application.seen`, `Application.history` — what can be seen of an engine, over a run.
- `Application.Action.concerns` — what is left of a run if an engine is alone.
- `Application.Sides`, `Application.Sides.step` — the engine in two runs, and a command about it.
- `Application.Sides.elsewhere` — a command that is not about it.
- `Application.undisturbed` — an engine has the history that it would have alone.
-/

namespace Cryptoki.Application

/-! ## What is seen of an engine -/

section

variable {τ : Type}

/-- An engine's state, mode and key, if there is an engine by the name. -/
def seen (a : Application τ) (name : String) :
    Option (EngineState × Option OperationMode × Option Key) :=
  (a.engines.get? name).map fun e => (e.state, e.mode, e.key)

/-- Whether the command failed for want of a session. -/
def Reply.exhausted : Reply → Bool
  | .engine (.error err) => err.mayPass
  | _ => false

end

variable {ops : KeyOperations}

/-- What comes of the commands about an engine: each reply, and what is seen of the engine after it. -/
def history (name : String) : Application (Logged (Software ops)) → List Action →
    List (Reply × Option (EngineState × Option OperationMode × Option Key))
  | _, [] => []
  | a, .command c :: actions =>
    if c.engine? = some name then
      ((a.step c).1, (a.step c).2.seen name) :: history name (a.step c).2 actions
    else history name (a.step c).2 actions
  | a, .importRsa k :: actions => history name (a.act (.importRsa k)) actions
  | a, .importEc k :: actions => history name (a.act (.importEc k)) actions

/-- The action is a command about the engine, or it stores a key. -/
def Action.concerns (name : String) : Action → Bool
  | .command c => c.engine? = some name
  | .importRsa _ | .importEc _ => true

/-! ## Commands about the engine -/

section

variable {τ τ' : Type} [Token τ] [Token τ'] {m : Mirror τ τ'} {name : String} {a : Application τ}
  {b : Application τ'} {c : Command}

/-- In both runs there is no engine by the name, or there is one that cannot tell them apart. -/
inductive Sides (m : Mirror τ τ') (name : String) (a : Application τ) (b : Application τ') : Prop
  | absent (ha : a.engines.get? name = none) (hb : b.engines.get? name = none)
      (h : m.Leases none a.pool none b.pool)
  | present {e e' : Engine} (ha : a.engines.get? name = some e) (hb : b.engines.get? name = some e')
      (h : m.Twins e a.pool e' b.pool)

theorem Sides.seen_eq (h : Sides m name a b) : b.seen name = a.seen name := by
  cases h with
  | absent ha hb => rw [seen, seen, ha, hb]
  | present ha hb h =>
      rw [seen, seen, ha, hb]
      cases h
      rfl

variable {p : Pool τ} {p' : Pool τ'} {e : Engine} {e' : Engine}

/-- Twins that are put in place on both sides. -/
theorem Sides.insert (h : m.Twins e p e' p') (engines engines' : Table String Engine)
    (leases leases' : Table String Lease) :
    Sides m name ⟨p, engines.insert name e, leases⟩ ⟨p', engines'.insert name e', leases'⟩ :=
  .present (Table.get?_insert_self ..) (Table.get?_insert_self ..) h

/-- Twins end in the same way. -/
theorem closed_of_twins (h : m.Twins e p e' p') : m.idle (e.close p) (e'.close p') := by
  cases h with
  | mk hleases => exact Mirror.closed hleases

/-- A new engine has no session. -/
theorem twins_of_new {algorithm : String} {mechanism : Mechanism} (h : m.idle p p')
    (hnew : Engine.new algorithm mechanism = .ok e) : m.Twins e p e p' := by
  obtain ⟨scheme, _, rfl⟩ := Engine.new_ok hnew
  exact .mk (.none h)

theorem Sides.newEngine (h : Sides m name a b) (algorithm : String) (mechanism : Mechanism) :
    let c := Command.newEngine name algorithm mechanism
    (b.step c).1 = (a.step c).1 ∧ Sides m name (a.step c).2 (b.step c).2 := by
  simp only [Application.step]
  cases hnew : Engine.new algorithm mechanism with
  | error err => exact ⟨rfl, h⟩
  | ok e =>
      refine ⟨rfl, ?_⟩
      -- an engine that had the name ends on both sides
      cases h with
      | absent ha hb h =>
          cases h with
          | none h =>
              simp only [ha, hb]
              exact .insert (twins_of_new h hnew) ..
      | present ha hb h =>
          simp only [ha, hb]
          exact .insert (twins_of_new (closed_of_twins h) hnew) ..

theorem Sides.handle (h : Sides m name a b) (request : Engine.Request) :
    let c := Command.engine name request
    (∃ err, (a.step c).1 = .engine (.error err) ∧ m.Excused err)
      ∨ ((b.step c).1 = (a.step c).1 ∧ Sides m name (a.step c).2 (b.step c).2) := by
  simp only [Application.step]
  cases h with
  | absent ha hb h =>
      simp only [ha, hb]
      exact .inr ⟨trivial, .absent ha hb h⟩
  | @present e e' ha hb h =>
      have hagree := Mirror.handle h request
      simp only [ha, hb]
      generalize e.handle request a.pool = out at hagree ⊢
      generalize e'.handle request b.pool = out' at hagree ⊢
      cases hagree with
      | excused herr => exact .inl ⟨_, rfl, herr⟩
      | same htwins => exact .inr ⟨rfl, .insert htwins ..⟩

theorem Sides.dropEngine (h : Sides m name a b) :
    let c := Command.dropEngine name
    (b.step c).1 = (a.step c).1 ∧ Sides m name (a.step c).2 (b.step c).2 := by
  simp only [Application.step]
  cases h with
  | absent ha hb h =>
      simp only [ha, hb]
      exact ⟨trivial, .absent ha hb h⟩
  | present ha hb h =>
      simp only [ha, hb]
      exact ⟨trivial, .absent (Table.get?_erase_self ..) (Table.get?_erase_self ..)
        (.none (closed_of_twins h))⟩

/-- **A command about the engine comes to the same in both runs**, or it fails in the first in a way
    that is excused. -/
theorem Sides.step (h : Sides m name a b) (hname : c.engine? = some name) :
    (∃ err, (a.step c).1 = .engine (.error err) ∧ m.Excused err)
      ∨ ((b.step c).1 = (a.step c).1 ∧ Sides m name (a.step c).2 (b.step c).2) := by
  cases c with
  | newEngine name' algorithm mechanism =>
      obtain rfl := Option.some.inj hname
      exact .inr (h.newEngine algorithm mechanism)
  | engine name' request =>
      obtain rfl := Option.some.inj hname
      exact h.handle request
  | dropEngine name' =>
      obtain rfl := Option.some.inj hname
      exact .inr h.dropEngine
  | acquire | lease | closeLease | discardLease | token => cases hname

end

/-! ## Commands that are not about it -/

variable {t : Logged (Software ops)} {a b : Application (Logged (Software ops))} {name : String}
  {e : Engine} {c : Command}

/-- The pool is tidy for an engine and for all others beside it. -/
theorem Agrees.tidyFor (h : Agrees t a) (hget : a.engines.get? name = some e) :
    a.pool.TidyFor (tenantsOf (a.engines.erase name) a.leases) e.lease := by
  have htidy := h.tidy.perm (tenantsOf_perm_engine hget)
  unfold Engine.tenants at htidy
  cases hlease : e.lease with
  | none =>
      rw [hlease] at htidy
      exact ⟨t, htidy⟩
  | some lease =>
      rw [hlease] at htidy
      exact ⟨t, htidy.forget⟩

/-- **What is done elsewhere leaves the sides alike.** -/
theorem Sides.elsewhere (h : Sides Mirror.aside name a b) (hagrees : Agrees t a)
    (hother : c.engine? ≠ some name) (hpool : c.ThroughPool) :
    Sides Mirror.aside name (a.step c).2 b := by
  obtain ⟨t', hagrees'⟩ : ∃ t', Agrees t' (a.act (.command c)) := hagrees.act fun c' hc' => by
    obtain rfl := Action.command.inj hc'
    exact hpool
  have hengine := engine_step a hother
  have hfounded : ∀ b : Pool.Basis, a.pool.Founded b → (a.step c).2.pool.Founded b := by
    intro b hfounded
    refine step_pool_keeps (Pool.keeps_founded b) hfounded ?_
    rintro call rfl
    obtain ⟨mechanism, rfl⟩ := hpool
    exact hfounded
  cases h with
  | absent ha hb h =>
      refine .absent (hengine.trans ha) hb ?_
      cases h with
      | none h =>
          obtain ⟨basis, ⟨_, hshared⟩, halone⟩ := h
          exact .none ⟨basis, ⟨⟨_, _, hagrees'.tidy⟩, hfounded basis hshared⟩, halone⟩
  | present ha hb h =>
      refine .present (hengine.trans ha) hb ?_
      cases h with
      | mk hleases =>
          have htidy := hagrees'.tidyFor (hengine.trans ha)
          refine .mk ?_
          cases hleases with
          | none h =>
              obtain ⟨basis, ⟨_, hshared⟩, halone⟩ := h
              exact .none ⟨basis, ⟨⟨_, htidy⟩, hfounded basis hshared⟩, halone⟩
          | some h =>
              -- the users beside the engine are others now, and its slot is as it was
              obtain ⟨⟨basis, ⟨⟨others, htidyFor⟩, hshared⟩, halone⟩, hactive, hslot⟩ := h
              obtain ⟨op, hop, _⟩ := htidyFor.slot?
              refine .some ⟨⟨basis, ⟨⟨_, htidy⟩, hfounded basis hshared⟩, halone⟩, hactive, ?_⟩
              rw [hslot, hop]
              exact (hagrees.slot?_step ha rfl hop hother hpool).symm

/-- Storing a key pair on both sides leaves them alike, too. -/
theorem Sides.withPair (h : Sides Mirror.aside name a b) (secret : KeySecret) :
    Sides Mirror.aside name (a.addPair secret).2 (b.addPair secret).2 := by
  cases h with
  | absent ha hb h => exact .absent ha hb (h.withPair secret)
  | present ha hb h =>
      cases h with
      | mk hleases => exact .present ha hb (.mk (hleases.withPair secret))

/-! ## Runs -/

/-- Where the sides are alike, so are the histories that follow. -/
theorem Sides.history_eq (h : Sides Mirror.aside name a b) (hagrees : Agrees t a)
    {actions : List Action} (hpool : ∀ c, .command c ∈ actions → c.ThroughPool)
    (hfed : ∀ entry ∈ history name a actions, entry.1.exhausted = false) :
    history name a actions = history name b (actions.filter (Action.concerns name)) := by
  induction actions generalizing a b t with
  | nil => rfl
  | cons action actions ih =>
      obtain ⟨t', hagrees'⟩ := hagrees.act fun c hc => hpool c (hc ▸ List.mem_cons_self)
      have hpool' : ∀ c, .command c ∈ actions → c.ThroughPool :=
        fun c hc => hpool c (List.mem_cons_of_mem action hc)
      cases action with
      | importRsa k => exact ih (h.withPair (.rsa k)) hagrees' hpool' hfed
      | importEc k => exact ih (h.withPair (.ec k)) hagrees' hpool' hfed
      | command c =>
          by_cases hname : c.engine? = some name
          · have hconcerns : Action.concerns name (.command c) = true := by
              simpa [Action.concerns] using hname
            rw [List.filter_cons_of_pos hconcerns]
            simp only [history, if_pos hname] at hfed ⊢
            rcases h.step hname with ⟨err, hreply, herr⟩ | ⟨hreply, hsides⟩
            · -- what is excused is a failure for want of a session, and there was none
              have hpasses := hfed _ List.mem_cons_self
              rw [hreply] at hpasses
              cases herr.symm.trans hpasses
            · rw [hreply, hsides.seen_eq, ih hsides hagrees' hpool'
                fun entry hentry => hfed entry (List.mem_cons_of_mem _ hentry)]
          · have hconcerns : ¬ Action.concerns name (.command c) = true := by
              simpa [Action.concerns] using hname
            -- only the run among others goes on
            rw [List.filter_cons_of_neg hconcerns]
            simp only [history, if_neg hname] at hfed ⊢
            exact ih (h.elsewhere hagrees hname (hpool c List.mem_cons_self)) hagrees' hpool' hfed

theorem start_sides (limit : Option Nat) (sessionObjects : Bool) (config : PoolConfig)
    (name : String) :
    let a := start (.empty (Logged.start (.empty limit sessionObjects : Software ops)) config)
    Sides Mirror.aside name a a := by
  intro a
  have hfounded : a.pool.Founded a.pool.basis := ⟨rfl, fun h => absurd rfl h⟩
  have htidy := (@start_agrees ops limit sessionObjects config).tidy
  exact .absent rfl rfl (.none ⟨_, ⟨⟨[], _, htidy⟩, hfounded⟩, ⟨_, htidy⟩, rfl, hfounded⟩)

/-- **Engines that share a pool do not notice each other.** Of whatever is asked of engines and leases
    over one pool, in any order and with keys stored meanwhile, let no command about one engine fail
    for want of a session. Then these commands have the replies, and leave the engine in the states
    and bound to the modes and keys, that they would if there were no others at all: over a pool of
    its own, that is set up in the same way, and a token with the same settings and keys. -/
theorem undisturbed (limit : Option Nat) (sessionObjects : Bool) (config : PoolConfig)
    (actions : List Action) (name : String)
    (hpool : ∀ c, .command c ∈ actions → c.ThroughPool)
    (hfed : ∀ entry ∈ history name (start
        (.empty (Logged.start (.empty limit sessionObjects : Software ops)) config)) actions,
      entry.1.exhausted = false) :
    let a := start (.empty (Logged.start (.empty limit sessionObjects : Software ops)) config)
    history name a actions = history name a (actions.filter (Action.concerns name)) :=
  (start_sides limit sessionObjects config name).history_eq
    (start_agrees limit sessionObjects config) hpool hfed

/-- Two engines in a pool that has room for no more. The one that signs starts again with the session
    that the other has used for its verdict. -/
def crowded : List Action :=
  [.importEc ⟨1, Nat.one_pos, Secp256k1.one_lt_order⟩,
    .command (.newEngine "signer" "SHA1withECDSA" .ecdsaSha1),
    .command (.newEngine "verifier" "NONEwithECDSA" .ecdsa),
    .command (.engine "verifier" (.init ⟨⟨2⟩, .publicKey, .ec 256⟩ .verify)),
    .command (.engine "signer" (.init ⟨⟨1⟩, .privateKey, .ec 256⟩ .sign)),
    .command (.engine "verifier" (.update [1])),
    .command (.engine "signer" (.update [2])),
    .command (.engine "verifier" (.verify [0x30, 6, 2, 1, 0, 2, 1, 0])),
    .command (.engine "signer" .cancel),
    .command (.engine "signer" (.update [3]))]

/-- Alone the engine that signs has another session, and the same history. -/
theorem undisturbed_of_crowded :
    let a := start
      (.empty (Logged.start (.empty none false : Software .standard)) { maxSessions := 2 })
    let alone := crowded.filter (Action.concerns "signer")
    (∀ c, .command c ∈ crowded → c.ThroughPool)
      ∧ (∀ entry ∈ history "signer" a crowded, entry.1.exhausted = false)
      ∧ history "signer" a crowded = history "signer" a alone
      ∧ ((a.after crowded).engines.get? "signer").map (·.lease) = some (some ⟨⟨1⟩, true⟩)
      ∧ ((a.after alone).engines.get? "signer").map (·.lease) = some (some ⟨⟨2⟩, true⟩) := by
  intro a alone
  have hpool : ∀ c, .command c ∈ crowded → c.ThroughPool := by
    simp [crowded, Command.ThroughPool]
  have hfed : ∀ entry ∈ history "signer" a crowded, entry.1.exhausted = false := by
    decide +kernel
  exact ⟨hpool, hfed, undisturbed none false { maxSessions := 2 } crowded "signer" hpool hfed,
    by decide +kernel, by decide +kernel⟩

end Cryptoki.Application
