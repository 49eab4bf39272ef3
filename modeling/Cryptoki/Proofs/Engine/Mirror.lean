import Cryptoki.Proofs.Engine.Outcomes

/-!
# `Cryptoki.Proofs.Engine.Mirror` — what an engine cannot see

An engine sees of a pool what its own leases show: whether there is a session for it, what the token
answers on it, whether it owns objects, and the key sizes of the mechanism. So two pools in which all
this is the same cannot be told apart by it, whatever else is different, be it the numbers of the
sessions, the log of the token or the users beside it.

A mirror says when two pools are alike, while no session is held and while one of each is, and has
the law that every use of a lease leads from alike to alike. Each function of the engine is followed
once, here. What is the same for an engine in two worlds, and what every use of a lease keeps, are
read off this for many mirrors.

## Contents
- `Mirror`, `Mirror.Leases` — when two pools are alike for the holder of a lease.
- `Mirror.Twins`, `Mirror.Agree` — engines that differ in their lease only, and calls with one result.
- `Mirror.start`, `Mirror.abandon`, `Mirror.update`, `Mirror.sign`, `Mirror.verify` — the parts.
- `Mirror.handle`, `Mirror.closed` — every call of an engine.
-/

namespace Cryptoki

/-! ## Mirrors -/

/-- What comes of acquiring a lease, side by side. -/
inductive Obtained {τ τ' : Type} (idle : Pool τ → Pool τ' → Prop)
    (held : Lease → Pool τ → Lease → Pool τ' → Prop) (Excused : EngineError → Prop) :
    Except EngineError Lease × Pool τ → Except EngineError Lease × Pool τ' → Prop
  /-- The first fails in a way that is excused; nothing is said of the other. -/
  | excused {err : EngineError} {q : Pool τ} {out : Except EngineError Lease × Pool τ'}
      (herr : Excused err) : Obtained idle held Excused (.error err, q) out
  /-- Both fail in the same way. -/
  | failed {err : EngineError} {q : Pool τ} {q' : Pool τ'} (h : idle q q') :
      Obtained idle held Excused (.error err, q) (.error err, q')
  | obtained {lease lease' : Lease} {q : Pool τ} {q' : Pool τ'} (h : held lease q lease' q') :
      Obtained idle held Excused (.ok lease, q) (.ok lease', q')

/-- A likeness of pools that the use of leases keeps. -/
structure Mirror (τ τ' : Type) [Token τ] [Token τ'] where
  /-- The pools are alike for who holds no session. -/
  idle : Pool τ → Pool τ' → Prop
  /-- The pools are alike for who holds a session of each. -/
  held : Lease → Pool τ → Lease → Pool τ' → Prop
  /-- Failures to acquire a lease that need not happen on the other side. -/
  Excused : EngineError → Prop
  active {lease p lease' p'} : held lease p lease' p' → lease'.active = lease.active
  ends {lease p lease' p'} : held lease p lease' p' →
    (p'.config.explicitCancel && lease'.ownsObjects p')
      = (p.config.explicitCancel && lease.ownsObjects p)
  acquire {p p'} : idle p p' → Obtained idle held Excused p.acquire p'.acquire
  operate {lease p lease' p'} (primitive : Primitive) : held lease p lease' p' →
    (lease'.operate primitive p').1 = (lease.operate primitive p).1
      ∧ held (lease.operate primitive p).2.1 (lease.operate primitive p).2.2
        (lease'.operate primitive p').2.1 (lease'.operate primitive p').2.2
  close {lease p lease' p'} : held lease p lease' p' → idle (lease.close p) (lease'.close p')
  discard {lease p lease' p'} : held lease p lease' p' → idle (lease.discard p) (lease'.discard p')
  asked {p p'} (mechanism : Mechanism) : idle p p' →
    (p'.call (.mechanismInfo mechanism)).1 = (p.call (.mechanismInfo mechanism)).1
      ∧ idle (p.call (.mechanismInfo mechanism)).2 (p'.call (.mechanismInfo mechanism)).2
  askedHeld {lease p lease' p'} (mechanism : Mechanism) : held lease p lease' p' →
    (p'.call (.mechanismInfo mechanism)).1 = (p.call (.mechanismInfo mechanism)).1
      ∧ held lease (p.call (.mechanismInfo mechanism)).2 lease'
        (p'.call (.mechanismInfo mechanism)).2

namespace Mirror

variable {τ τ' : Type} [Token τ] [Token τ'] (m : Mirror τ τ')

/-- The pools are alike for who holds these sessions, if any. -/
inductive Leases : Option Lease → Pool τ → Option Lease → Pool τ' → Prop
  | none {p : Pool τ} {p' : Pool τ'} (h : m.idle p p') : Leases none p none p'
  | some {lease lease' : Lease} {p : Pool τ} {p' : Pool τ'} (h : m.held lease p lease' p') :
      Leases (some lease) p (some lease') p'

/-- Two engines that differ in their leases only, each with a pool that is like the other's. -/
inductive Twins : Engine → Pool τ → Engine → Pool τ' → Prop
  | mk {scheme : Scheme} {key : Option Key} {mode : Option OperationMode} {l l' : Option Lease}
      {pending : PendingInput} {state : EngineState} {p : Pool τ} {p' : Pool τ'}
      (h : m.Leases l p l' p') :
      Twins ⟨scheme, key, mode, l, pending, state⟩ p ⟨scheme, key, mode, l', pending, state⟩ p'

/-- Two calls have the same result and leave twins, or the first failed in a way that is excused. -/
inductive Agree {α : Type} :
    Except EngineError α × Engine × Pool τ → Except EngineError α × Engine × Pool τ' → Prop
  | excused {err : EngineError} {e : Engine} {p : Pool τ} {out : Except EngineError α × Engine × Pool τ'}
      (herr : m.Excused err) : Agree (.error err, e, p) out
  | same {result : Except EngineError α} {e e' : Engine} {p : Pool τ} {p' : Pool τ'}
      (h : m.Twins e p e' p') : Agree (result, e, p) (result, e', p')

variable {m} {p q : Pool τ} {p' q' : Pool τ'} {e e' : Engine} {lease lease' : Lease}

/-- Results that are read differently still agree. -/
theorem Agree.map {α β : Type} (f : α → β) {out : Except EngineError α × Engine × Pool τ}
    {out' : Except EngineError α × Engine × Pool τ'} (h : m.Agree out out') :
    m.Agree (out.1.map f, out.2) (out'.1.map f, out'.2) := by
  cases h with
  | excused herr => exact .excused herr
  | same h => exact .same h

/-- A primitive on the sessions of both has one answer. -/
theorem operated (h : m.held lease p lease' p') (primitive : Primitive) :
    ∃ result held q held' q', lease.operate primitive p = (result, held, q)
      ∧ lease'.operate primitive p' = (result, held', q') ∧ m.held held q held' q' := by
  obtain ⟨hresult, hheld⟩ := m.operate primitive h
  exact ⟨_, _, _, _, _, rfl, Prod.ext hresult rfl, hheld⟩

/-! ## Starting -/

/-- Starting without a session is acquiring one and starting with it. -/
theorem start_of_acquired {τ : Type} [Token τ] {p q : Pool τ} {lease : Lease} {scheme : Scheme}
    {key : Key} {mode : OperationMode} {pending : PendingInput} {state : EngineState}
    (h : p.acquire = (.ok lease, q)) :
    Engine.start ⟨scheme, some key, some mode, none, pending, state⟩ p
      = Engine.start ⟨scheme, some key, some mode, some lease, pending, state⟩ q := by
  simp only [Engine.start, Engine.obtainLease, h, Engine.afterRefusal]
  rcases lease.operate (.init mode scheme.mechanism key.handle) q with ⟨code | u, held, r⟩ <;> rfl

/-- With a session each, both operations start, or neither does. -/
theorem start_held {scheme : Scheme} {key : Key} {mode : OperationMode} {pending : PendingInput}
    {state : EngineState} (h : m.held lease p lease' p') :
    m.Agree (Engine.start ⟨scheme, some key, some mode, some lease, pending, state⟩ p)
      (Engine.start ⟨scheme, some key, some mode, some lease', pending, state⟩ p') := by
  obtain ⟨result, held, q, held', q', hop, hop', hheld⟩ :=
    operated h (.init mode scheme.mechanism key.handle)
  simp only [Engine.start, Engine.obtainLease, hop, hop', Engine.afterRefusal]
  cases result with
  | error code =>
      dsimp only
      split <;> exact .same (.mk (.none (m.close hheld)))
  | ok u => exact .same (.mk (.some hheld))

theorem start (h : m.Twins e p e' p') : m.Agree (e.start p) (e'.start p') := by
  cases h with
  | @mk scheme key mode l l' pending state _ _ hleases =>
      cases key with
      | none => exact .same (.mk hleases)
      | some key =>
          cases mode with
          | none => exact .same (.mk hleases)
          | some mode =>
              cases hleases with
              | some hheld => exact start_held hheld
              | none hidle =>
                  -- this is where the first may fail alone
                  have hobtained := m.acquire hidle
                  generalize hacq : p.acquire = out at hobtained
                  generalize hacq' : p'.acquire = out' at hobtained
                  cases hobtained with
                  | excused herr =>
                      simp only [Engine.start, Engine.obtainLease, hacq]
                      exact .excused herr
                  | failed hidle =>
                      simp only [Engine.start, Engine.obtainLease, hacq, hacq']
                      exact .same (.mk (.none hidle))
                  | obtained hheld =>
                      rw [start_of_acquired hacq, start_of_acquired hacq']
                      exact start_held hheld

theorem ensureStarted (h : m.Twins e p e' p') :
    m.Agree (e.ensureStarted p) (e'.ensureStarted p') := by
  have hstart := start h
  cases h with
  | @mk scheme key mode l l' pending state _ _ hleases =>
      cases state with
      | initialized => exact .same (.mk hleases)
      | uninitialized => exact hstart

theorem giveBack (h : m.Twins e p e' p') :
    m.Twins (e.giveBack p).1 (e.giveBack p).2 (e'.giveBack p').1 (e'.giveBack p').2 := by
  cases h with
  | mk hleases =>
      cases hleases with
      | none hidle => exact .mk (.none hidle)
      | some hheld => exact .mk (.none (m.close hheld))

/-! ## Giving up -/

/-- An operation is wound up in the same way in both pools. -/
theorem windUp (h : m.held lease p lease' p') (e : Engine) :
    (e.windUp lease' p').1 = (e.windUp lease p).1
      ∧ (e.windUp lease' p').2.1 = (e.windUp lease p).2.1
      ∧ m.held (e.windUp lease p).2.2.1 (e.windUp lease p).2.2.2
        (e.windUp lease' p').2.2.1 (e.windUp lease' p').2.2.2 := by
  unfold Engine.windUp
  split
  · exact ⟨rfl, rfl, h⟩
  · next mode hmode =>
      split
      · exact ⟨rfl, rfl, h⟩
      · next input e' hinput =>
          obtain ⟨result, held, q, held', q', hop, hop', hheld⟩ :=
            operated h (e'.windUpPrimitive mode input)
          rw [hop, hop']
          exact ⟨rfl, rfl, hheld⟩

/-- Winding up does not touch the engine's lease. -/
theorem windUp_lease {τ : Type} [Token τ] (e : Engine) (lease : Lease) (p : Pool τ) :
    (e.windUp lease p).2.1.lease = e.lease := by
  have hwoundUp := e.woundUp lease p
  generalize e.windUp lease p = out at hwoundUp ⊢
  cases hwoundUp <;> rfl

theorem abandon (h : m.Twins e p e' p') :
    m.Twins (e.abandon p).1 (e.abandon p).2 (e'.abandon p').1 (e'.abandon p').2 := by
  cases h with
  | @mk scheme key mode l l' pending state _ _ hleases =>
      cases state with
      | uninitialized => exact .mk hleases
      | initialized =>
          cases hleases with
          | none hidle => exact .mk (.none hidle)
          | @some lease lease' _ _ hheld =>
              -- whether the session is at rest, and whether its operation is to be ended on the token
              simp only [Engine.abandon, m.active hheld, m.ends hheld]
              split
              · split
                · have hlease := windUp_lease ⟨scheme, key, mode, none, pending, .uninitialized⟩
                    lease p
                  obtain ⟨hresult, hengine, hheld'⟩ :=
                    windUp hheld ⟨scheme, key, mode, none, pending, .uninitialized⟩
                  generalize Engine.windUp _ lease p = out at hlease hresult hengine hheld' ⊢
                  generalize Engine.windUp _ lease' p' = out' at hresult hengine hheld' ⊢
                  obtain ⟨result, e₁, held, q⟩ := out
                  obtain ⟨result', e₁', held', q'⟩ := out'
                  dsimp only at hlease hresult hengine hheld'
                  subst hresult hengine
                  cases result' with
                  | ok u => exact .mk (.some hheld')
                  | error err =>
                      obtain ⟨_, _, _, _, _, _⟩ := e₁'
                      subst hlease
                      exact .mk (.none (m.discard hheld'))
                · exact .mk (.none (m.discard hheld))
              · exact .mk (.some hheld)

theorem cancel (h : m.Twins e p e' p') :
    m.Twins (e.cancel p).1 (e.cancel p).2 (e'.cancel p').1 (e'.cancel p').2 := giveBack (abandon h)

/-! ## Starting anew -/

/-- The token says the same about key sizes. -/
theorem Leases.asked {l l' : Option Lease} (h : m.Leases l p l' p') (mechanism : Mechanism) :
    (p'.call (.mechanismInfo mechanism)).1 = (p.call (.mechanismInfo mechanism)).1
      ∧ m.Leases l (p.call (.mechanismInfo mechanism)).2 l'
        (p'.call (.mechanismInfo mechanism)).2 := by
  cases h with
  | none hidle =>
      obtain ⟨hresult, hidle'⟩ := m.asked mechanism hidle
      exact ⟨hresult, .none hidle'⟩
  | some hheld =>
      obtain ⟨hresult, hheld'⟩ := m.askedHeld mechanism hheld
      exact ⟨hresult, .some hheld'⟩

theorem accept (h : m.Twins e p e' p') (key : Key) (mode : OperationMode) :
    (e'.accept key mode p').1 = (e.accept key mode p).1
      ∧ m.Twins e (e.accept key mode p).2 e' (e'.accept key mode p').2 := by
  cases h with
  | @mk scheme bound _ l l' pending state _ _ hleases =>
      unfold Engine.accept
      dsimp only
      split
      · exact ⟨rfl, .mk hleases⟩
      · split
        · exact ⟨rfl, .mk hleases⟩
        · obtain ⟨hresult, hleases'⟩ := hleases.asked scheme.mechanism
          unfold Engine.acceptSize
          dsimp only
          generalize p.call (.mechanismInfo scheme.mechanism) = out at hresult hleases' ⊢
          generalize p'.call (.mechanismInfo scheme.mechanism) = out' at hresult hleases' ⊢
          obtain ⟨result, q⟩ := out
          obtain ⟨result', q'⟩ := out'
          dsimp only at hresult hleases'
          subst hresult
          cases result' <;> exact ⟨rfl, .mk hleases'⟩

/-- Twins that are bound to one key and mode are twins. -/
theorem Twins.rebind (h : m.Twins e p e' p') (key : Option Key) (mode : Option OperationMode) :
    m.Twins { e with key, mode } p { e' with key, mode } p' := by
  cases h with
  | mk hleases => exact .mk hleases

theorem startWith (h : m.Twins e p e' p') (key : Key) (mode : OperationMode) :
    m.Agree (e.startWith key mode p) (e'.startWith key mode p') := by
  obtain ⟨hcheck, haccepted⟩ := accept h key mode
  have habandoned := abandon haccepted
  unfold Engine.startWith
  generalize e.accept key mode p = out at hcheck habandoned ⊢
  generalize e'.accept key mode p' = out' at hcheck habandoned ⊢
  obtain ⟨check, q⟩ := out
  obtain ⟨check', q'⟩ := out'
  dsimp only at hcheck habandoned ⊢
  subst hcheck
  -- what is under way is given up, be the key accepted or not
  generalize e.abandon q = out at habandoned ⊢
  generalize e'.abandon q' = out' at habandoned ⊢
  obtain ⟨e₁, r⟩ := out
  obtain ⟨e₁', r'⟩ := out'
  dsimp only at habandoned ⊢
  cases check' with
  | ok u => exact start (habandoned.rebind _ _)
  | error fault =>
      cases habandoned with
      | mk hleases => exact .same (giveBack (.mk hleases))

/-! ## Parts of the message -/

theorem forward (h : m.Twins e p e' p') (data : Bytes) :
    m.Agree (e.forward data p) (e'.forward data p') := by
  cases h with
  | @mk scheme key mode l l' pending state _ _ hleases =>
      cases mode with
      | none => exact .same (.mk hleases)
      | some mode =>
          cases hleases with
          | none hidle => exact .same (.mk (.none hidle))
          | some hheld =>
              obtain ⟨result, held, q, held', q', hop, hop', hheld'⟩ :=
                operated hheld (.update mode data)
              simp only [Engine.forward, hop, hop']
              cases result with
              | ok u => exact .same (.mk (.some hheld'))
              | error code => exact .same (giveBack (.mk (.some hheld')))

theorem takeIn (h : m.Twins e p e' p') (data : Bytes) :
    m.Agree (e.takeIn data p) (e'.takeIn data p') := by
  have hforward := forward h data
  have hscheme : e'.scheme = e.scheme := by
    cases h
    rfl
  -- what is not streamed stays in the engine until the end
  by_cases hproc : e.scheme.processing = .stream
  · simp only [Engine.takeIn, hscheme, if_pos hproc]
    generalize e.forward data p = out at hforward ⊢
    generalize e'.forward data p' = out' at hforward ⊢
    cases hforward with
    | excused herr => exact .excused herr
    | @same result _ _ _ _ htwins =>
        cases result with
        | error err => exact .same htwins
        | ok u =>
            cases htwins with
            | mk hleases => exact .same (.mk hleases)
  · simp only [Engine.takeIn, hscheme, if_neg hproc]
    cases h with
    | mk hleases => exact .same (.mk hleases)

theorem update (h : m.Twins e p e' p') (data : Bytes) :
    m.Agree (e.update data p) (e'.update data p') := by
  have hstart := ensureStarted h
  unfold Engine.update
  generalize e.ensureStarted p = out at hstart ⊢
  generalize e'.ensureStarted p' = out' at hstart ⊢
  cases hstart with
  | excused herr => exact .excused herr
  | @same result _ _ _ _ htwins =>
      cases result with
      | error err => exact .same htwins
      | ok u =>
          dsimp only
          split
          · exact .same htwins
          · exact takeIn htwins data

/-! ## Ending with a signature or a verdict -/

/-- Both get the session for the last call, or neither does. -/
inductive Taken (m : Mirror τ τ') : Except EngineError Lease × Engine × Pool τ →
    Except EngineError Lease × Engine × Pool τ' → Prop
  | excused {err : EngineError} {e : Engine} {p : Pool τ}
      {out : Except EngineError Lease × Engine × Pool τ'} (herr : m.Excused err) :
      Taken m (.error err, e, p) out
  | failed {err : EngineError} {e e' : Engine} {p : Pool τ} {p' : Pool τ'}
      (h : m.Twins e p e' p') : Taken m (.error err, e, p) (.error err, e', p')
  | taken {lease lease' : Lease} {e : Engine} {p : Pool τ} {p' : Pool τ'} (hlease : e.lease = none)
      (h : m.held lease p lease' p') : Taken m (.ok lease, e, p) (.ok lease', e, p')

theorem takeLease (h : m.Twins e p e' p') (mode : OperationMode) :
    Taken m (e.takeLease mode p) (e'.takeLease mode p') := by
  have hstart := ensureStarted h
  have hmode : e'.expectMode mode = e.expectMode mode := by
    cases h
    rfl
  unfold Engine.takeLease
  rw [hmode]
  split
  · exact .failed h
  · generalize e.ensureStarted p = out at hstart ⊢
    generalize e'.ensureStarted p' = out' at hstart ⊢
    cases hstart with
    | excused herr => exact .excused herr
    | @same result _ _ _ _ htwins =>
        cases result with
        | error err => exact .failed htwins
        | ok u =>
            cases htwins with
            | mk hleases =>
                cases hleases with
                | none hidle => exact .failed (.mk (.none hidle))
                | some hheld => exact .taken rfl hheld

/-- A last call has one answer, and changes the engine without regard to the pool. -/
def Closing (m : Mirror τ τ') {α : Type} (out : Except EngineError α × Engine × Lease × Pool τ)
    (out' : Except EngineError α × Engine × Lease × Pool τ') : Prop :=
  out'.1 = out.1 ∧ out'.2.1 = out.2.1
    ∧ m.held out.2.2.1 out.2.2.2 out'.2.2.1 out'.2.2.2

/-- The session is given back in the end. -/
theorem Closing.agree {α : Type} {out : Except EngineError α × Engine × Lease × Pool τ}
    {out' : Except EngineError α × Engine × Lease × Pool τ'} (h : Closing m out out')
    (hlease : out.2.1.lease = none) :
    m.Agree (out.1, out.2.1, out.2.2.1.close out.2.2.2)
      (out'.1, out'.2.1, out'.2.2.1.close out'.2.2.2) := by
  obtain ⟨hresult, hengine, hheld⟩ := h
  rw [hresult, hengine]
  generalize out.2.1 = e at hlease ⊢
  obtain ⟨_, _, _, _, _, _⟩ := e
  subst hlease
  exact .same (.mk (.none (m.close hheld)))

theorem signOn (h : m.held lease p lease' p') (e : Engine) :
    Closing m (e.signOn lease p) (e.signOn lease' p') := by
  have hblock : Closing m (e.signBlock lease p) (e.signBlock lease' p') := by
    unfold Engine.signBlock
    split
    · obtain ⟨result, held, q, held', q', hop, hop', hheld⟩ :=
        operated h (.signFinal e.scheme.expectedLength)
      rw [hop, hop']
      exact ⟨rfl, rfl, hheld⟩
    · split
      · exact ⟨rfl, rfl, h⟩
      · next input e' hinput =>
          obtain ⟨result, held, q, held', q', hop, hop', hheld⟩ := operated h (.sign input)
          rw [hop, hop']
          exact ⟨rfl, rfl, hheld⟩
  obtain ⟨hresult, hengine, hheld⟩ := hblock
  unfold Engine.signOn
  generalize e.signBlock lease p = out at hresult hengine hheld ⊢
  generalize e.signBlock lease' p' = out' at hresult hengine hheld ⊢
  obtain ⟨result, e₁, held, q⟩ := out
  obtain ⟨result', e₁', held', q'⟩ := out'
  dsimp only at hresult hengine hheld
  subst hresult hengine
  cases result' <;> exact ⟨rfl, rfl, hheld⟩

theorem verifyOn (h : m.held lease p lease' p') (e : Engine) (signature : Bytes) :
    Closing m (e.verifyOn lease signature p) (e.verifyOn lease' signature p') := by
  unfold Engine.verifyOn
  split
  · exact ⟨rfl, rfl, h⟩
  · next block hblock =>
      unfold Engine.verifyBlock
      split
      · obtain ⟨result, held, q, held', q', hop, hop', hheld⟩ := operated h (.verifyFinal block)
        rw [hop, hop']
        exact ⟨rfl, rfl, hheld⟩
      · split
        · exact ⟨rfl, rfl, h⟩
        · next input e' hinput =>
            obtain ⟨result, held, q, held', q', hop, hop', hheld⟩ :=
              operated h (.verify input block)
            rw [hop, hop']
            exact ⟨rfl, rfl, hheld⟩

theorem sign (h : m.Twins e p e' p') : m.Agree (e.sign p) (e'.sign p') := by
  have htaken := takeLease h .sign
  unfold Engine.sign
  generalize e.takeLease .sign p = out at htaken ⊢
  generalize e'.takeLease .sign p' = out' at htaken ⊢
  cases htaken with
  | excused herr => exact .excused herr
  | failed htwins => exact .same htwins
  | @taken lease lease' e q q' hlease hheld =>
      obtain ⟨pending, hengine, _⟩ := e.signOn_ended lease q
      refine (signOn hheld e).agree ?_
      rw [hengine]
      exact hlease

theorem verify (h : m.Twins e p e' p') (signature : Bytes) :
    m.Agree (e.verify signature p) (e'.verify signature p') := by
  have htaken := takeLease h .verify
  unfold Engine.verify
  generalize e.takeLease .verify p = out at htaken ⊢
  generalize e'.takeLease .verify p' = out' at htaken ⊢
  cases htaken with
  | excused herr => exact .excused herr
  | failed htwins => exact .same htwins
  | @taken lease lease' e q q' hlease hheld =>
      obtain ⟨pending, hengine, _⟩ := e.verifyOn_ended lease signature q
      refine (verifyOn hheld e signature).agree ?_
      rw [hengine]
      exact hlease

/-! ## Every call -/

/-- **An engine cannot tell pools apart that are alike**: whatever it is asked for, it answers the
    same over both and leaves them alike, unless the first failed in a way that is excused. -/
theorem handle (h : m.Twins e p e' p') (request : Engine.Request) :
    m.Agree (e.handle request p) (e'.handle request p') := by
  cases request with
  | init key mode => exact (startWith h key mode).map _
  | update data => exact (update h data).map _
  | sign => exact (sign h).map _
  | verify signature => exact (verify h signature).map _
  | cancel => exact .same (cancel h)

/-- Its end leaves them alike, too. -/
theorem closed (h : m.Leases e.lease p e'.lease p') :
    m.idle (e.close p) (e'.close p') := by
  unfold Engine.close
  generalize e.lease = l at h ⊢
  generalize e'.lease = l' at h ⊢
  cases h with
  | none hidle => exact hidle
  | some hheld => exact m.close hheld

end Mirror

end Cryptoki
