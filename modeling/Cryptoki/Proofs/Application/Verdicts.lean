import Cryptoki.Proofs.Application.Frame
import Cryptoki.Proofs.Application.Messages
import Cryptoki.Proofs.Engine.Course

/-!
# `Cryptoki.Proofs.Application.Verdicts` — asking for a verdict does not fail

A diary is kept of an application: which key pairs were returned, and what each engine has taken in
since its message began. As long as sessions are used through the pool only, and engines with keys of
returned pairs only, an engine that is initialized is in the middle of exactly that message, whatever
else is going on: its own calls are followed one by one, and nobody else touches its session or its
key. So nothing that the bytes given as a signature can be makes the call for a verdict fail, if the
message has a length that its algorithm allows.

## Contents
- `Diary`, `Diary.act`, `Diary.Allows`, `Diary.Reached` — the diary, and how it is led.
- `Diary.Sound` — what holds of every page.
- `Diary.Sound.act`, `Diary.Reached.sound` — it is kept by every action.
- `Diary.verdicts` — what comes of asking for a verdict, for any bytes.
-/

namespace Cryptoki

open Application (Agrees Action Command)

/-! ## The diary -/

/-- An application, with what has come of it so far. -/
structure Diary (ops : KeyOperations) where
  app : Application (Logged (Software ops))
  /-- The key pairs that were returned when they were stored. -/
  pairs : List KeyPair
  /-- The data that each engine has taken in since its message began. -/
  absorbed : String → Bytes

namespace Diary

variable {ops : KeyOperations}

/-- A new pool over a new token. -/
def start (limit : Option Nat) (sessionObjects : Bool) (config : PoolConfig) : Diary ops :=
  ⟨Application.start (.empty (Logged.start (.empty limit sessionObjects)) config), [], fun _ => []⟩

/-- The pair that comes of an action. -/
def returned (d : Diary ops) : Action → List KeyPair
  | .command _ => []
  | .importRsa k => [(d.app.pool.token.token.addRsa k).1]
  | .importEc k => [(d.app.pool.token.token.addEc k).1]

/-- The data that an engine has taken in after an action. -/
def absorb (d : Diary ops) : Action → String → Bytes
  | .command (.engine called request), name =>
    match d.app.engines.get? called with
    | some e =>
      if name = called then
        e.messageAfter (d.absorbed name) request (e.handle request d.app.pool).1
      else d.absorbed name
    | none => d.absorbed name
  | _, name => d.absorbed name

/-- The diary after an action. -/
def act (d : Diary ops) (action : Action) : Diary ops :=
  ⟨d.app.act action, d.returned action ++ d.pairs, d.absorb action⟩

/-- The key is one of a pair that was returned. -/
def Returned (d : Diary ops) (key : Key) : Prop := ∃ pair ∈ d.pairs, pair.Has key

/-- The action uses sessions through the pool only, and the keys of returned pairs. -/
def Allows (d : Diary ops) : Action → Prop
  | .command (.engine _ (.init key _)) => d.Returned key
  | .command c => c.ThroughPool
  | .importRsa _ | .importEc _ => True

/-- The diaries that allowed actions lead to. -/
inductive Reached : Diary ops → Prop
  | start (limit : Option Nat) (sessionObjects : Bool) (config : PoolConfig) :
      Reached (start limit sessionObjects config)
  | act {d : Diary ops} (h : Reached d) {action : Action} (hallowed : d.Allows action) :
      Reached (d.act action)

/-! ## What holds -/

/-- Engines and token agree; the pairs that were returned are on the token, and engines are bound to
    their keys only; and each engine that is initialized is in the middle of its message. -/
structure Sound (d : Diary ops) : Prop where
  agrees : ∃ t, Agrees t d.app
  ready : d.app.Ready
  held : ∀ pair ∈ d.pairs, ∃ secret, d.app.Holds secret pair
  bound : ∀ name e key, d.app.engines.get? name = some e → e.key = some key → d.Returned key
  serves : ∀ name e, d.app.engines.get? name = some e → e.state = .initialized →
    ∃ key mode, e.Serves e.scheme key mode (d.absorbed name) d.app.pool

variable {d : Diary ops} {c : Command} {key : Key} {name : String} {e : Engine}

theorem start_sound (limit : Option Nat) (sessionObjects : Bool) (config : PoolConfig) :
    (start limit sessionObjects config : Diary ops).Sound where
  agrees := ⟨_, Application.start_agrees limit sessionObjects config⟩
  ready := Application.ready_start _
  held := by
    intro pair hpair
    cases hpair
  bound := by
    intro name e key hget
    cases hget
  serves := by
    intro name e hget
    cases hget

theorem Allows.throughPool (h : d.Allows (.command c)) : c.ThroughPool := by
  cases c with
  | token call => exact h
  | _ => trivial

/-- Keys of returned pairs are on the token. -/
theorem Sound.knows (h : d.Sound) (hreturned : d.Returned key) : d.app.pool.Knows key := by
  obtain ⟨pair, hpair, hhas⟩ := hreturned
  obtain ⟨secret, hholds⟩ := h.held pair hpair
  exact ⟨secret, pair, hholds, hhas⟩

/-! ## Storing keys -/

theorem Sound.addPair (h : d.Sound) (secret : KeySecret) :
    Sound ⟨(d.app.addPair secret).2, (d.app.addPair secret).1 :: d.pairs, d.absorbed⟩ where
  agrees := by
    obtain ⟨t, hagrees⟩ := h.agrees
    exact ⟨t, hagrees.withToken (by cases secret <;> rfl)⟩
  ready := h.ready
  held := by
    intro pair hpair
    rcases List.mem_cons.mp hpair with rfl | hpair
    · exact ⟨secret, Software.addPair_holds _ secret⟩
    · obtain ⟨other, hholds⟩ := h.held pair hpair
      exact ⟨other, Software.Holds.addPair hholds secret⟩
  bound := by
    intro name e key hget hkey
    obtain ⟨pair, hpair, hhas⟩ := h.bound name e key hget hkey
    exact ⟨pair, List.mem_cons_of_mem _ hpair, hhas⟩
  serves := by
    intro name e hget hstate
    obtain ⟨key, mode, hserves⟩ := h.serves name e hget hstate
    exact ⟨key, mode, hserves.of_slots fun session => by cases secret <;> rfl⟩

/-! ## Commands -/

/-- A command that binds a key binds that of a returned pair. -/
theorem Sound.bound_step (h : d.Sound) (hallowed : d.Allows (.command c))
    (hget : (d.app.step c).2.engines.get? name = some e) (hkey : e.key = some key) :
    d.Returned key := by
  rcases Application.engine_of_step hget with
    hkept | ⟨algorithm, mechanism, hnew⟩ | ⟨e₀, request, rfl, hcalled, rfl⟩
  · exact h.bound name e key hkept hkey
  · obtain ⟨scheme, _, rfl⟩ := Engine.new_ok hnew
    cases hkey
  · rcases Engine.handle_key (h.ready name e₀ hcalled).coherent request d.app.pool with
      hnone | hsame | ⟨key', mode, rfl, hbound⟩
    · cases hnone.symm.trans hkey
    · exact h.bound name e₀ key hcalled (hsame.symm.trans hkey)
    · -- only a start binds a key, and this one was allowed
      obtain rfl := Option.some.inj (hbound.symm.trans hkey)
      exact hallowed

/-- An engine that a command is not about goes on with its message. -/
theorem Sound.serves_elsewhere (h : d.Sound) (hpool : c.ThroughPool)
    (hother : c.engine? ≠ some name) (hget : (d.app.step c).2.engines.get? name = some e)
    (hstate : e.state = .initialized) :
    ∃ key mode, e.Serves e.scheme key mode (d.absorb (.command c) name) (d.app.step c).2.pool := by
  rw [Application.engine_step d.app hother] at hget
  obtain ⟨t, hagrees⟩ := h.agrees
  obtain ⟨key, mode, session, parts, hengine, hmessage, hslot⟩ := h.serves name e hget hstate
  have habsorbed : d.absorb (.command c) name = d.absorbed name := by
    cases c with
    | engine called request =>
        have hne : name ≠ called := fun heq => hother (congrArg some heq.symm)
        simp only [absorb, if_neg hne]
        split <;> rfl
    | _ => rfl
  have hlease : e.lease = some ⟨session, true⟩ := by
    rw [hengine]
    rfl
  exact ⟨key, mode, session, parts, hengine, hmessage.trans habsorbed.symm,
    hagrees.slot?_step hget hlease hslot hother hpool⟩

/-- An engine that a command is about goes on with its message, or begins one. -/
theorem Sound.serves_here (h : d.Sound) (hallowed : d.Allows (.command c))
    (hname : c.engine? = some name) (hget : (d.app.step c).2.engines.get? name = some e)
    (hstate : e.state = .initialized) :
    ∃ key mode, e.Serves e.scheme key mode (d.absorb (.command c) name) (d.app.step c).2.pool := by
  cases c with
  | newEngine called algorithm mechanism =>
      obtain rfl := Option.some.inj hname
      simp only [Application.step] at hget ⊢
      cases hnew : Engine.new algorithm mechanism with
      | error err =>
          rw [hnew] at hget
          exact h.serves called e hget hstate
      | ok new =>
          obtain ⟨scheme, _, rfl⟩ := Engine.new_ok hnew
          rw [hnew] at hget
          -- the engine that is found is the new one, which is at rest
          obtain rfl := Option.some.inj ((Table.get?_insert_self ..).symm.trans hget)
          cases hstate
  | engine called request =>
      obtain rfl := Option.some.inj hname
      cases hcalled : d.app.engines.get? called with
      | none =>
          simp only [Application.step, hcalled] at hget
          cases hget
      | some e₀ =>
          have hready := h.ready called e₀ hcalled
          rw [Application.step_engine hcalled] at hget ⊢
          obtain rfl := Option.some.inj ((Table.get?_insert_self ..).symm.trans hget)
          obtain ⟨key, mode, hserves⟩ := hready.handle_serves
            (fun key hkey => h.knows (h.bound called e₀ key hcalled hkey))
            (h.serves called e₀ hcalled) request
            (fun key mode heq => by subst heq; exact h.knows hallowed) hstate
          refine ⟨key, mode, ?_⟩
          rw [(hready.handle request d.app.pool).2]
          simp only [absorb, hcalled, if_true]
          exact hserves
  | dropEngine called =>
      obtain rfl := Option.some.inj hname
      simp only [Application.step] at hget
      split at hget
      · next hnone => cases hnone.symm.trans hget
      · cases (Table.get?_erase_self ..).symm.trans hget
  | acquire | lease | closeLease | discardLease | token => cases hname

/-! ## Every page -/

theorem Sound.step (h : d.Sound) (hallowed : d.Allows (.command c)) :
    (d.act (.command c)).Sound where
  agrees := by
    obtain ⟨t, hagrees⟩ := h.agrees
    have hafter : ∃ t', Agrees t' (d.app.act (.command c)) := hagrees.act fun c' hc' => by
      obtain rfl := Action.command.inj hc'
      exact hallowed.throughPool
    exact hafter
  ready := h.ready.act (.command c)
  held := by
    intro pair hpair
    obtain ⟨secret, hholds⟩ := h.held pair hpair
    exact ⟨secret, hholds.act (.command c)⟩
  bound := by
    intro name e key hget hkey
    exact h.bound_step hallowed hget hkey
  serves := by
    intro name e hget hstate
    by_cases hname : c.engine? = some name
    · exact h.serves_here hallowed hname hget hstate
    · exact h.serves_elsewhere hallowed.throughPool hname hget hstate

/-- **Every allowed action keeps the diary sound.** -/
theorem Sound.act (h : d.Sound) {action : Action} (hallowed : d.Allows action) :
    (d.act action).Sound := by
  cases action with
  | command c => exact h.step hallowed
  | importRsa k => exact h.addPair (.rsa k)
  | importEc k => exact h.addPair (.ec k)

theorem Reached.sound (h : d.Reached) : d.Sound := by
  induction h with
  | start limit sessionObjects config => exact start_sound limit sessionObjects config
  | act _ hallowed ih => exact ih.act hallowed

/-! ## Verdicts -/

/-- **Asking for a verdict does not fail because of the signature.** Wherever sessions were used
    through the pool only, and engines with keys of returned pairs only, an engine that is initialized
    to verify is bound to the public half of a pair on the token. Whatever bytes it is given as a
    signature, it answers with a verdict, that of the pair for the payload of all data that it has
    taken in; except that on `NONEwithECDSA`, with more than 128 bytes taken in and a signature that
    is read as two numbers, it says that the data has the wrong length. -/
theorem verdicts (h : d.Reached) (hget : d.app.engines.get? name = some e)
    (hstate : e.state = .initialized) (hmode : e.mode = some .verify) :
    ∃ secret pair, d.app.Holds secret pair ∧ e.key = some pair.publicKey ∧
      ∀ signature,
        let overlong := e.scheme.algorithm = .noneWithEcdsa ∧ 128 < (d.absorbed name).length
          ∧ ∃ v, SignatureValue.decode signature = .ok v
        let reply := (d.app.step (.engine name (.verify signature))).1
        (overlong → reply = .engine (.error (.wrongLength (.atMost 128))))
          ∧ (¬ overlong → reply = .engine (.ok (.verdict (secret.accepts ops
              (e.scheme.algorithm.payload (d.absorbed name)) signature)))) := by
  have hsound := h.sound
  have hready := hsound.ready name e hget
  obtain ⟨key, mode, hserves⟩ := hsound.serves name e hget hstate
  have hkey := hserves.key_eq
  have hmode' : e.mode = some mode := by
    obtain ⟨session, parts, hengine, _⟩ := hserves
    rw [hengine]
    rfl
  obtain rfl := Option.some.inj (hmode'.symm.trans hmode)
  obtain ⟨secret, pair, hholds, hhas⟩ := hsound.knows (hsound.bound name e key hget hkey)
  obtain ⟨mode, hmode, haccept⟩ := hready.coherent.accepted key hkey
  obtain rfl := Option.some.inj (hmode'.symm.trans hmode)
  -- of the two halves of the pair only the public one is accepted for verifying
  obtain rfl := Engine.keyFor_of_accept hholds hhas haccept
  refine ⟨secret, pair, hholds, hkey, ?_⟩
  intro signature overlong reply
  have hreply : reply = .engine (e.handle (.verify signature) d.app.pool).1 :=
    congrArg Prod.fst (Application.step_engine hget (.verify signature))
  rw [hreply]
  have hsuits := hready.suits hkey
  exact ⟨fun hlong => congrArg _ (hserves.verify_overlong hsuits hlong),
    fun hfine => congrArg _ (hserves.verify_total hsuits hholds hfine)⟩

/-- An engine for `NONEwithECDSA` has taken in one byte more than it may. -/
def overfed : Diary .standard :=
  ((((start none false {}).act (.importEc ⟨1, Nat.one_pos, Secp256k1.one_lt_order⟩)).act
    (.command (.newEngine "verifier" "NONEwithECDSA" .ecdsa))).act
    (.command (.engine "verifier" (.init ⟨⟨2⟩, .publicKey, .ec 256⟩ .verify)))).act
    (.command (.engine "verifier" (.update (List.replicate 129 0))))

/-- There it answers with an error if the signature is read as two numbers, and with a verdict if it
    is not. -/
theorem verdicts_of_overfed :
    overfed.Reached ∧ ∃ e, overfed.app.engines.get? "verifier" = some e ∧ e.state = .initialized
      ∧ e.mode = some .verify
      ∧ (overfed.app.step (.engine "verifier" (.verify [0x30, 6, 2, 1, 0, 2, 1, 0]))).1
        = .engine (.error (.wrongLength (.atMost 128)))
      ∧ ∃ valid, (overfed.app.step (.engine "verifier" (.verify []))).1
        = .engine (.ok (.verdict valid)) := by
  have hreached : overfed.Reached := by
    refine .act (.act (.act (.act (.start none false {}) ?_) ?_) ?_) ?_
    · trivial
    · trivial
    · exact ⟨⟨⟨⟨1⟩, .privateKey, .ec 256⟩, ⟨⟨2⟩, .publicKey, .ec 256⟩⟩, by decide +kernel, .inr rfl⟩
    · trivial
  have hseen : (overfed.app.engines.get? "verifier").map
      (fun e => (e.state, e.mode, e.scheme.algorithm))
      = some (.initialized, some .verify, .noneWithEcdsa) := by decide +kernel
  obtain ⟨e, hget, hparts⟩ := Option.map_eq_some_iff.mp hseen
  obtain ⟨hstate, hmode, halgorithm⟩ : e.state = .initialized ∧ e.mode = some .verify
      ∧ e.scheme.algorithm = .noneWithEcdsa := by simpa using hparts
  obtain ⟨secret, pair, _, _, hverdicts⟩ := verdicts hreached hget hstate hmode
  have hlong : 128 < (overfed.absorbed "verifier").length := by decide +kernel
  refine ⟨hreached, e, hget, hstate, hmode, ?_, _, (hverdicts []).2 ?_⟩
  · exact (hverdicts [0x30, 6, 2, 1, 0, 2, 1, 0]).1 ⟨halgorithm, hlong, ⟨[0], [0]⟩, by decide +kernel⟩
  · rintro ⟨_, _, v, hv⟩
    have hempty : SignatureValue.decode [] = .error .malformed := by decide +kernel
    cases hempty.symm.trans hv

end Diary

end Cryptoki
