import Cryptoki.Token.Software
import Cryptoki.Proofs.Lease
import Cryptoki.Proofs.Token.Logged

/-!
# `Cryptoki.Proofs.Token.Software` — what the token in memory does to its sessions

A primitive works on one slot, and what becomes of the slot depends on what was in it, on the
primitive and on whether it succeeds. Nothing else of the sessions changes. A call that comes when
it should gets no answer that says otherwise: this needs a look at every code that the key
operations fail with.

## Contents
- `ReturnCode.Misplaced`, `Timely` — the codes of calls that come at the wrong time.
- `Software.SlotAfter` — what becomes of a slot.
- `Software.Writes`, `Software.operated` — a primitive writes its slot and no other.
- `Software.operate_init_ok`, `Software.operate_init_error`, `Software.update_eq`,
  `Software.complete_eq`, `Software.slot?_operate_of_ends` — how an operation starts, goes on and ends.
- `Software.operate_closed`, `Software.operate_open` — sessions that are not open, and those that are.
- `Software.answer_open_ok`, `Software.answer_open_isOk`, `Software.answer_close` — opening and
  closing.
- `Software.noReuse` — no number is given to two sessions.
-/

namespace Cryptoki

/-! ## Calls at the wrong time -/

/-- The codes of a call for which the session has the wrong operation, or is not open. -/
def ReturnCode.Misplaced (code : ReturnCode) : Prop :=
  code = .operationActive ∨ code = .operationNotInitialized ∨ code = .sessionHandleInvalid

instance (code : ReturnCode) : Decidable code.Misplaced := by
  unfold ReturnCode.Misplaced
  infer_instance

/-- A result that is no such code. -/
def Timely {α : Type} (result : Except ReturnCode α) : Prop :=
  ∀ code, result = .error code → ¬ code.Misplaced

namespace Timely

variable {α β : Type}

theorem ok (a : α) : Timely (.ok a : Except ReturnCode α) := by
  intro code h
  cases h

theorem error {code : ReturnCode} (h : ¬ code.Misplaced) :
    Timely (.error code : Except ReturnCode α) := by
  intro code' hcode
  cases hcode
  exact h

theorem bind {x : Except ReturnCode α} {f : α → Except ReturnCode β} (hx : Timely x)
    (hf : ∀ a, Timely (f a)) : Timely (x >>= f) := by
  cases x with
  | error code => exact error (hx code rfl)
  | ok a => exact hf a

theorem mapError {ε : Type} {code : ReturnCode} (x : Except ε α) (h : ¬ code.Misplaced) :
    Timely (x.mapError fun _ => code) := by
  cases x with
  | error err => exact error h
  | ok a => exact ok a

end Timely

theorem Mechanism.rsaPayload_timely (mechanism : Mechanism) (size : Nat) (input : Bytes) :
    Timely (mechanism.rsaPayload size input) := by
  unfold rsaPayload
  refine .bind (.mapError _ (by decide)) ?_
  intro padding
  have hfits : ∀ payload : Bytes,
      Timely (if payload.length ≤ padding.capacity then .ok payload
        else .error .dataLenRange : Except ReturnCode Bytes) := by
    intro payload
    split
    · exact .ok payload
    · exact .error (by decide)
  dsimp only
  split
  · exact .bind (.mapError _ (by decide)) hfits
  · split
    · exact .bind (.mapError _ (by decide)) hfits
    · exact .bind (.ok input) hfits

theorem verdict_timely (success : Bool) : Timely (verdict .signatureInvalid success) := by
  unfold verdict
  split
  · exact .ok ()
  · exact .error (by decide)

theorem StoredKey.sign_timely (ops : KeyOperations) (mechanism : Mechanism) (input : Bytes)
    (key : StoredKey) : Timely (key.sign ops mechanism input) := by
  cases key with
  | rsaPrivate k =>
      refine .bind (mechanism.rsaPayload_timely k.size input) ?_
      intro payload
      split
      · exact .ok _
      · exact .error (by decide)
  | ecPrivate k =>
      simp only [sign]
      split
      · exact .ok _
      · exact .error (by decide)
  | rsaPublic k => exact .error (by decide)
  | ecPublic k => exact .error (by decide)

theorem StoredKey.verify_timely (ops : KeyOperations) (mechanism : Mechanism)
    (input signature : Bytes) (key : StoredKey) :
    Timely (key.verify ops mechanism input signature) := by
  cases key with
  | rsaPublic k =>
      simp only [verify]
      split
      · exact .bind (mechanism.rsaPayload_timely k.size input) fun _ => verdict_timely _
      · exact .error (by decide)
  | ecPublic k =>
      simp only [verify]
      split
      · exact verdict_timely _
      · exact .error (by decide)
  | rsaPrivate k => exact .error (by decide)
  | ecPrivate k => exact .error (by decide)

/-! ## Slots -/

namespace Software

variable {ops : KeyOperations} {t u : Software ops} {session : SessionId}

/-- What becomes of a slot, by what was in it. A code that a call came at the wrong time means that
    it did. -/
inductive SlotAfter (op : Option SoftwareOperation) :
    (primitive : Primitive) → Except ReturnCode primitive.Result → Option SoftwareOperation → Prop
  | started {mode : OperationMode} {mechanism : Mechanism} {key : ObjectHandle}
      {digest : Option DigestStream} (hfree : op = none) :
      SlotAfter op (.init mode mechanism key) (.ok ()) (some ⟨mode, mechanism, key, digest⟩)
  | notStarted {mode : OperationMode} {mechanism : Mechanism} {key : ObjectHandle}
      {code : ReturnCode} (hcode : op = none → ¬ code.Misplaced) :
      SlotAfter op (.init mode mechanism key) (.error code) op
  | fed {o : SoftwareOperation} {data : Bytes} {digest : Option DigestStream}
      (hop : op = some o) :
      SlotAfter op (.update o.mode data) (.ok ()) (some { o with digest })
  | notFed {mode : OperationMode} {data : Bytes} {code : ReturnCode}
      (hcode : ∀ o, op = some o → o.mode = mode → ¬ code.Misplaced) :
      SlotAfter op (.update mode data) (.error code) none
  | ended {mode : OperationMode} {primitive : Primitive}
      {result : Except ReturnCode primitive.Result} (hends : primitive.Ends mode)
      (hcode : ∀ o, op = some o → o.mode = mode → Timely result) :
      SlotAfter op primitive result none

/-- Of all sessions, one slot is written. -/
structure Writes (t : Software ops) (session : SessionId) (op : Option SoftwareOperation)
    (u : Software ops) : Prop where
  slot? : ∀ s, u.sessions.slot? s = if s = session then some op else t.sessions.slot? s
  last : u.sessions.last = t.sessions.last
  size : u.sessions.size = t.sessions.size

theorem slot?_setOperation (t : Software ops) (session : SessionId)
    (op : Option SoftwareOperation) :
    (t.setOperation session op).sessions.slot? session = some op :=
  (Sessions.slot?_setSlot _ session session op).trans (if_pos rfl)

theorem writes_setOperation {op : Option SoftwareOperation} (h : t.sessions.slot? session ≠ none)
    (op' : Option SoftwareOperation) (hop : op' = op) :
    t.Writes session op (t.setOperation session op') := by
  subst hop
  exact ⟨fun s => Sessions.slot?_setSlot _ session s op', rfl, Sessions.size_setSlot op' h⟩

theorem writes_self {op : Option SoftwareOperation} (h : t.sessions.slot? session = some op) :
    t.Writes session op t := by
  refine ⟨?_, rfl, rfl⟩
  intro s
  split
  · next heq => rw [heq, h]
  · rfl

/-- An operation is started in an empty slot only, with a key that suits it, and as it was asked. -/
theorem startOperation_ok {mode : OperationMode} {mechanism : Mechanism} {handle : ObjectHandle}
    {o : SoftwareOperation} (h : t.startOperation session mode mechanism handle = .ok o) :
    t.sessions.slot? session = some none
      ∧ o = ⟨mode, mechanism, handle, mechanism.digest?.map .new⟩
      ∧ ∃ key, t.keys.get? handle = some key ∧ mechanism.family? = some key.family
        ∧ key.half = mode.half := by
  unfold startOperation at h
  split at h
  · cases h
  · next family hmechanism =>
      split at h
      · cases h
      · cases h
      · next hslot =>
          split at h
          · cases h
          · next key hkey =>
              split at h
              · cases h
              · next hfamily =>
                  split at h
                  · cases h
                  · next hhalf =>
                      refine ⟨hslot, (Except.ok.inj h).symm, key, hkey, ?_,
                        Decidable.of_not_not hhalf⟩
                      rw [hmechanism, Decidable.of_not_not hfamily]

theorem startOperation_timely {mode : OperationMode} {mechanism : Mechanism}
    {handle : ObjectHandle} (h : t.sessions.slot? session = some none) :
    Timely (t.startOperation session mode mechanism handle) := by
  unfold startOperation
  split
  · exact .error (by decide)
  · rw [h]
    dsimp only
    split
    · exact .error (by decide)
    · split
      · exact .error (by decide)
      · split
        · exact .error (by decide)
        · exact .ok _

/-- An operation is fed in its own mode only, and stays for what it was started. -/
theorem feed_ok {mode : OperationMode} {data : Bytes} {op : Option SoftwareOperation}
    {o : SoftwareOperation} (h : feed mode data op = .ok o) :
    ∃ old digest, op = some old ∧ old.mode = mode ∧ o = { old with digest } := by
  unfold feed at h
  split at h
  · cases h
  · next old =>
      split at h
      · cases h
      · next hmode =>
          split at h
          · exact ⟨old, _, rfl, Decidable.of_not_not hmode, (Except.ok.inj h).symm⟩
          · cases h

theorem feed_timely {mode : OperationMode} (data : Bytes) {o : SoftwareOperation}
    (h : o.mode = mode) : Timely (feed mode data (some o)) := by
  simp only [feed, ne_eq, h, not_true_eq_false, if_false]
  split
  · exact .ok _
  · exact .error (by decide)

theorem keyInput_timely {mode : OperationMode} (data : Option Bytes) {o : SoftwareOperation}
    (h : o.mode = mode) : Timely (keyInput mode data (some o)) := by
  simp only [keyInput, ne_eq, h, not_true_eq_false, if_false]
  split
  · exact .ok _
  · exact .ok _
  · exact .ok _
  · exact .error (by decide)

/-- Ending an operation empties its slot, and a fitting operation is ended without complaint. -/
theorem completed {α : Type} (mode : OperationMode) (data : Option Bytes)
    {keyOperation : Mechanism → Bytes → StoredKey → Except ReturnCode α}
    {op : Option SoftwareOperation} (h : t.sessions.slot? session = some op)
    (hkey : ∀ mechanism input key, Timely (keyOperation mechanism input key)) :
    (∀ o, op = some o → o.mode = mode → Timely (t.complete session mode data keyOperation).1)
      ∧ t.Writes session none (t.complete session mode data keyOperation).2 := by
  unfold complete
  rw [h]
  refine ⟨?_, writes_setOperation (by simp [h]) none rfl⟩
  intro o hop hmode
  subst hop
  have hinput := keyInput_timely data hmode
  dsimp only
  split
  · next code hcode => exact .error (hinput code hcode)
  · split
    · exact .error (by decide)
    · exact hkey _ _ _

/-- **A primitive writes the slot of its session**, as the operation in it asks. -/
theorem operated {op : Option SoftwareOperation} (h : t.sessions.slot? session = some op)
    (primitive : Primitive) :
    ∃ op', SlotAfter op primitive (t.operate session primitive).1 op'
      ∧ t.Writes session op' (t.operate session primitive).2 := by
  have hopen : t.sessions.slot? session ≠ none := by simp [h]
  cases primitive with
  | init mode mechanism key =>
      simp only [operate, Software.init]
      split
      · next o hstart =>
          obtain ⟨hslot, rfl, _⟩ := startOperation_ok hstart
          rw [h] at hslot
          exact ⟨_, .started (Option.some.inj hslot), writes_setOperation hopen _ rfl⟩
      · next code hstart =>
          refine ⟨op, .notStarted ?_, writes_self h⟩
          intro hfree
          rw [hfree] at h
          exact startOperation_timely h code hstart
  | update mode data =>
      simp only [operate, Software.update, h]
      split
      · next o hfeed =>
          obtain ⟨old, digest, rfl, rfl, rfl⟩ := feed_ok hfeed
          exact ⟨_, .fed rfl, writes_setOperation hopen _ rfl⟩
      · next code hfeed =>
          refine ⟨none, .notFed ?_, writes_setOperation hopen none rfl⟩
          intro o hop hmode
          subst hop
          exact feed_timely data hmode code hfeed
  | signFinal expectedLength =>
      obtain ⟨htimely, hwrites⟩ := completed .sign none h
        fun mechanism input key => key.sign_timely ops mechanism input
      exact ⟨none, .ended rfl htimely, hwrites⟩
  | sign data =>
      obtain ⟨htimely, hwrites⟩ := completed .sign (some data) h
        fun mechanism input key => key.sign_timely ops mechanism input
      exact ⟨none, .ended rfl htimely, hwrites⟩
  | verifyFinal signature =>
      obtain ⟨htimely, hwrites⟩ := completed .verify none h
        fun mechanism input key => key.verify_timely ops mechanism input signature
      exact ⟨none, .ended rfl htimely, hwrites⟩
  | verify data signature =>
      obtain ⟨htimely, hwrites⟩ := completed .verify (some data) h
        fun mechanism input key => key.verify_timely ops mechanism input signature
      exact ⟨none, .ended rfl htimely, hwrites⟩

/-- A start that succeeds puts the operation into the slot, and found a key for it. -/
theorem operate_init_ok {mode : OperationMode} {mechanism : Mechanism} {handle : ObjectHandle}
    (h : t.operate session (.init mode mechanism handle) = (.ok (), u)) :
    t.sessions.slot? session = some none
      ∧ u = t.setOperation session (some ⟨mode, mechanism, handle, mechanism.digest?.map .new⟩)
      ∧ ∃ key, t.keys.get? handle = some key ∧ mechanism.family? = some key.family
        ∧ key.half = mode.half := by
  simp only [operate, Software.init] at h
  split at h
  · next o hstart =>
      obtain ⟨hslot, rfl, hkey⟩ := startOperation_ok hstart
      exact ⟨hslot, (Prod.mk.inj h).2.symm, hkey⟩
  · cases h

/-- An operation that is started is in its slot, without input. -/
theorem slot?_of_init {mode : OperationMode} {mechanism : Mechanism} {handle : ObjectHandle}
    (h : t.operate session (.init mode mechanism handle) = (.ok (), u)) :
    u.sessions.slot? session
      = some (some ⟨mode, mechanism, handle, mechanism.digest?.map .new⟩) := by
  obtain ⟨_, rfl, _⟩ := operate_init_ok h
  exact slot?_setOperation ..

/-- A start that fails changes nothing. -/
theorem operate_init_error {mode : OperationMode} {mechanism : Mechanism} {handle : ObjectHandle}
    {code : ReturnCode} (h : t.operate session (.init mode mechanism handle) = (.error code, u)) :
    u = t := by
  simp only [operate, Software.init] at h
  split at h
  · cases h
  · exact (Prod.mk.inj h).2.symm

/-- An operation that can be fed is fed, in its slot. -/
theorem update_eq {mode : OperationMode} {data : Bytes} {o o' : SoftwareOperation}
    (hslot : t.sessions.slot? session = some (some o)) (hfeed : feed mode data (some o) = .ok o') :
    t.operate session (.update mode data) = (.ok (), t.setOperation session (some o')) := by
  simp only [operate, Software.update, hslot, hfeed]

/-- An operation is ended by the key operation on its input. -/
theorem complete_eq {α : Type} {mode : OperationMode} {data : Option Bytes}
    {o : SoftwareOperation} {input : Bytes} {stored : StoredKey}
    (hslot : t.sessions.slot? session = some (some o))
    (hinput : keyInput mode data (some o) = .ok (o, input))
    (hkey : t.keys.get? o.key = some stored)
    (keyOperation : Mechanism → Bytes → StoredKey → Except ReturnCode α) :
    (t.complete session mode data keyOperation).1 = keyOperation o.mechanism input stored := by
  simp only [complete, hslot, hinput, hkey]

/-- The last primitive of an operation empties the slot of an open session. -/
theorem slot?_operate_of_ends {mode : OperationMode} {primitive : Primitive}
    (h : t.sessions.slot? session ≠ none) (hends : primitive.Ends mode) :
    (t.operate session primitive).2.sessions.slot? session = some none := by
  obtain ⟨op, hslot⟩ := Option.ne_none_iff_exists'.mp h
  obtain ⟨op', hafter, hwrites⟩ := operated hslot primitive
  have hwritten := (hwrites.slot? session).trans (if_pos rfl)
  generalize (t.operate session primitive).1 = result at hafter
  cases hafter with
  | ended => exact hwritten
  | started => exact hends.elim
  | notStarted => exact hends.elim
  | fed => exact hends.elim
  | notFed => exact hends.elim

/-- A session that is not open has nothing to be written. -/
theorem operate_closed (h : t.sessions.slot? session = none) (primitive : Primitive) :
    (t.operate session primitive).2 = t := by
  cases primitive with
  | init mode mechanism key =>
      simp only [operate, Software.init]
      split
      · next o hstart =>
          cases h.symm.trans (startOperation_ok hstart).1
      · rfl
  | update mode data => simp only [operate, Software.update, h]
  | signFinal expectedLength => simp only [operate, Software.sign, complete, h]
  | sign data => simp only [operate, Software.sign, complete, h]
  | verifyFinal signature => simp only [operate, Software.verify, complete, h]
  | verify data signature => simp only [operate, Software.verify, complete, h]

/-- A call that ends an operation is told so. -/
theorem operate_closed_ends {mode : OperationMode} {primitive : Primitive}
    (h : t.sessions.slot? session = none) (hends : primitive.Ends mode) :
    (t.operate session primitive).1 = .error .sessionHandleInvalid := by
  cases primitive with
  | init => exact hends.elim
  | update => exact hends.elim
  | signFinal expectedLength => simp only [operate, Software.sign, complete, h]
  | sign data => simp only [operate, Software.sign, complete, h]
  | verifyFinal signature => simp only [operate, Software.verify, complete, h]
  | verify data signature => simp only [operate, Software.verify, complete, h]

theorem startOperation_open {mode : OperationMode} {mechanism : Mechanism} {handle : ObjectHandle}
    (h : t.sessions.slot? session ≠ none) :
    t.startOperation session mode mechanism handle ≠ .error .sessionHandleInvalid := by
  unfold startOperation
  split
  · nofun
  · split
    · next hnone => exact absurd hnone h
    · nofun
    · split
      · nofun
      · split
        · nofun
        · split <;> nofun

theorem feed_ne (mode : OperationMode) (data : Bytes) (op : Option SoftwareOperation) :
    feed mode data op ≠ .error .sessionHandleInvalid := by
  unfold feed
  split
  · nofun
  · split
    · nofun
    · split <;> nofun

theorem keyInput_ne (mode : OperationMode) (data : Option Bytes) (op : Option SoftwareOperation) :
    keyInput mode data op ≠ .error .sessionHandleInvalid := by
  unfold keyInput
  split
  · nofun
  · split
    · nofun
    · split <;> nofun

theorem complete_open {α : Type} {mode : OperationMode} {data : Option Bytes}
    {keyOperation : Mechanism → Bytes → StoredKey → Except ReturnCode α}
    (h : t.sessions.slot? session ≠ none)
    (hkey : ∀ mechanism input key, Timely (keyOperation mechanism input key)) :
    (t.complete session mode data keyOperation).1 ≠ .error .sessionHandleInvalid := by
  unfold complete
  split
  · next hnone => exact absurd hnone h
  · next op _ =>
      dsimp only
      split
      · next code hinput =>
          intro hcode
          rw [Except.error.inj hcode] at hinput
          exact keyInput_ne mode data op hinput
      · split
        · nofun
        · intro hcode
          exact hkey _ _ _ _ hcode (.inr (.inr rfl))

/-- **No call on an open session is told that it is not open.** -/
theorem operate_open (h : t.sessions.slot? session ≠ none) (primitive : Primitive) :
    (t.operate session primitive).1 ≠ .error .sessionHandleInvalid := by
  cases primitive with
  | init mode mechanism key =>
      simp only [operate, Software.init]
      split
      · nofun
      · next code hstart =>
          intro hcode
          rw [Except.error.inj hcode] at hstart
          exact startOperation_open h hstart
  | update mode data =>
      simp only [operate, Software.update]
      split
      · next hnone => exact absurd hnone h
      · next op _ =>
          split
          · nofun
          · next code hfeed =>
              intro hcode
              rw [Except.error.inj hcode] at hfeed
              exact feed_ne mode data op hfeed
  | signFinal expectedLength =>
      exact complete_open h fun mechanism input key => key.sign_timely ops mechanism input
  | sign data =>
      exact complete_open h fun mechanism input key => key.sign_timely ops mechanism input
  | verifyFinal signature =>
      exact complete_open h fun mechanism input key =>
        key.verify_timely ops mechanism input signature
  | verify data signature =>
      exact complete_open h fun mechanism input key =>
        key.verify_timely ops mechanism input signature

/-- A primitive leaves other slots alone. -/
theorem slot?_operate {other : SessionId} (hne : session ≠ other)
    (primitive : Primitive) :
    (t.operate other primitive).2.sessions.slot? session = t.sessions.slot? session := by
  cases h : t.sessions.slot? other with
  | none => rw [operate_closed h]
  | some op =>
      obtain ⟨_, _, hwrites⟩ := operated h primitive
      exact (hwrites.slot? session).trans (if_neg hne)

theorem operate_last (primitive : Primitive) :
    (t.operate session primitive).2.sessions.last = t.sessions.last := by
  cases h : t.sessions.slot? session with
  | none => rw [operate_closed h]
  | some op =>
      obtain ⟨_, _, hwrites⟩ := operated h primitive
      exact hwrites.last

/-- A primitive opens no session and closes none. -/
theorem slot?_operate_eq_none (t : Software ops) (session s : SessionId) (primitive : Primitive) :
    (t.operate session primitive).2.sessions.slot? s = none ↔ t.sessions.slot? s = none := by
  cases hslot : t.sessions.slot? session with
  | none => rw [operate_closed hslot]
  | some op =>
      obtain ⟨op', _, hwrites⟩ := operated hslot primitive
      rw [hwrites.slot? s]
      split
      · next heq =>
          rw [heq, hslot]
          exact iff_of_false nofun nofun
      · rfl

/-! ## Opening and closing -/

/-- A session is opened under the next number, with an empty slot. -/
theorem answer_open_ok (h : Token.answer .openSession t = (.ok session, u)) :
    session = ⟨t.sessions.last + 1⟩
      ∧ u.sessions = { t.sessions.setSlot session none with last := t.sessions.last + 1 } := by
  simp only [Token.answer, Sessions.openNext] at h
  split at h
  · cases h
  · obtain ⟨hsession, rfl⟩ := Prod.mk.inj h
    obtain rfl := Except.ok.inj hsession
    exact ⟨rfl, rfl⟩

theorem answer_open_error {code : ReturnCode}
    (h : Token.answer .openSession t = (.error code, u)) : u = t ∧ code = .sessionCount := by
  simp only [Token.answer, Sessions.openNext] at h
  split at h
  · obtain ⟨hcode, rfl⟩ := Prod.mk.inj h
    exact ⟨rfl, (Except.error.inj hcode).symm⟩
  · cases h

/-- A session is opened as long as fewer are open than may be. -/
theorem answer_open_isOk (t : Software ops) :
    (Token.answer .openSession t).1.isOk = true
      ↔ ∀ limit, t.sessions.limit = some limit → t.openSessions < limit := by
  simp only [Token.answer, Sessions.openNext, openSessions]
  cases t.sessions.limit with
  | none => simp [Except.isOk, Except.toBool]
  | some limit =>
      by_cases hfull : limit ≤ t.sessions.size
      · simp [hfull, Except.isOk, Except.toBool]
      · simp [hfull, Nat.lt_of_not_le hfull, Except.isOk, Except.toBool]

/-- A session that is opened has an empty slot, and no other slot is written. -/
theorem slot?_answer_open (h : Token.answer .openSession t = (.ok session, u)) (s : SessionId) :
    u.sessions.slot? s = if s = session then some none else t.sessions.slot? s := by
  rw [(answer_open_ok h).2]
  exact Sessions.slot?_setSlot _ session s none

/-- Its number comes after all that were given before. -/
theorem ne_of_answer_open (h : Token.answer .openSession t = (.ok session, u))
    (hnumber : s.value ≤ t.sessions.last) : s ≠ session := by
  rintro rfl
  rw [(answer_open_ok h).1] at hnumber
  exact absurd hnumber (Nat.not_succ_le_self _)

/-- An open session is closed, and no other. -/
theorem answer_close {op : Option SoftwareOperation} (hopen : t.sessions.slot? session = some op) :
    Token.answer (.closeSession session) t
      = (.ok (), { t with sessions := (t.sessions.close session).2 }) := by
  simp only [Token.answer, Sessions.close, hopen]

theorem slot?_answer_close (t : Software ops) (session s : SessionId) :
    (Token.answer (.closeSession session) t).2.sessions.slot? s
      = if s = session then none else t.sessions.slot? s :=
  Sessions.slot?_close t.sessions session s

theorem last_le_answer (t : Software ops) (call : Call) :
    t.sessions.last ≤ (Token.answer call t).2.sessions.last := by
  cases call with
  | openSession =>
      simp only [Token.answer, Sessions.openNext]
      split
      · exact Nat.le_refl _
      · exact Nat.le_succ _
  | closeSession session =>
      simp only [Token.answer, Sessions.close]
      split <;> exact Nat.le_refl _
  | mechanismInfo mechanism => exact Nat.le_refl _
  | operate session primitive => exact Nat.le_of_eq (operate_last primitive).symm

/-- The sessions that are still open have numbers up to the last. -/
theorem le_last_of_stillOpen {u : Logged (Software ops)} (h : Token.Reached (Logged.start t) u) :
    ∀ s ∈ Token.stillOpen u.log, s.value ≤ u.token.sessions.last := by
  induction h with
  | start => exact fun s hs => nomatch hs
  | @call u hu call ih =>
      cases hanswer : Token.answer call u with
      | mk result v =>
          obtain ⟨htoken, hlog⟩ := Logged.answer_eq hanswer
          have hlast := u.token.last_le_answer call
          rw [htoken] at hlast
          intro s hs
          rw [hlog] at hs
          rcases Token.mem_of_mem_stillOpen_cons hs with hs | hevent
          · exact Nat.le_trans (ih s hs) hlast
          · -- the session was opened just now, so it has the last number
            obtain ⟨rfl, hresult⟩ := Token.Event.mk.inj hevent
            rw [eq_of_heq hresult] at htoken
            obtain ⟨rfl, hsessions⟩ := answer_open_ok htoken
            exact Nat.le_of_eq (congrArg Sessions.last hsessions).symm

/-- No number is given to two sessions. -/
theorem noReuse (t : Software ops) : Token.NoReuse t := by
  intro u hu session v hopen hstill
  obtain ⟨htoken, _⟩ := Logged.answer_eq hopen
  obtain ⟨rfl, _⟩ := answer_open_ok htoken
  exact absurd (le_last_of_stillOpen hu _ hstill) (Nat.not_succ_le_self _)

end Software

end Cryptoki
