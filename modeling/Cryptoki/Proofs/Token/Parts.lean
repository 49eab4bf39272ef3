import Cryptoki.Proofs.Digest.Streaming
import Cryptoki.Proofs.Token.Discipline

/-!
# `Cryptoki.Proofs.Token.Parts` — data in parts, with the token in use by others

An operation of a mechanism that digests takes its data in as many parts as the caller likes, and the
last call may bring some of it, all of it or none. The answer is that of a single call with all the
data. Between the parts the token may be used in any way that leaves the session alone.

From the start of the operation to its last call the session holds a digest in progress that stands
for the parts so far, and the key stays stored. This is what each action keeps.

## Contents
- `Software.Feeds` — actions that feed a session, and what they feed it.
- `Event.Accepted` — an update that did not fail.
- `Software.Taking` — the session has taken in some message.
- `Software.Taking.update`, `Software.Taking.spares`, `Software.Taking.run` — parts, actions of
  others, and all of them together.
- `Software.Taking.sign`, `Software.Taking.verify` — the answer to the last call.
- `Software.SameEnd`, `Software.parts_agree` — it does not depend on the parts.
-/

namespace Cryptoki

namespace Software

variable {ops : KeyOperations} {t u : Software ops} {session : SessionId} {op : SoftwareOperation}
  {a : DigestAlgorithm} {key : StoredKey} {message fed : Bytes} {mode : OperationMode}
  {action : Action} {actions : List Action}

/-! ## Feeding a session -/

/-- The actions feed the session some data, in parts, and use it for nothing else. -/
inductive Feeds (session : SessionId) (mode : OperationMode) : List Action → Bytes → Prop
  | done : Feeds session mode [] []
  | part {actions : List Action} {fed : Bytes} (data : Bytes) (h : Feeds session mode actions fed) :
      Feeds session mode (.call (.operate session (.update mode data)) :: actions) (data ++ fed)
  | elsewhere {action : Action} {actions : List Action} {fed : Bytes}
      (hspares : action.Spares session) (h : Feeds session mode actions fed) :
      Feeds session mode (action :: actions) fed

/-- If the event is an update of the session, it succeeded. -/
def Event.Accepted (session : SessionId) : Event → Prop
  | answered ⟨.operate other (.update _ _), result⟩ => other = session → result = .ok ()
  | _ => True

/-- Of an action that spares the session there is nothing to accept. -/
theorem accepted_of_spares (t : Software ops) (h : action.Spares session) :
    (t.act action).1.Accepted session := by
  cases action with
  | store secret => trivial
  | call call =>
      cases call with
      | openSession => trivial
      | closeSession other => trivial
      | mechanismInfo mechanism => trivial
      | operate other primitive =>
          cases primitive with
          | update mode data => exact fun heq => absurd heq h
          | init mode mechanism handle => trivial
          | signFinal expectedLength => trivial
          | sign data => trivial
          | verifyFinal signature => trivial
          | verify data signature => trivial

/-! ## What the session has taken in -/

/-- The session has the operation, whose digest in progress stands for the message, and the key of
    the operation is stored. -/
structure Taking (t : Software ops) (session : SessionId) (op : SoftwareOperation)
    (a : DigestAlgorithm) (key : StoredKey) (message : Bytes) : Prop where
  numbered : t.Numbered
  slot : ∃ md : DigestStream, md.StandsFor a message
    ∧ t.sessions.slot? session = some (some { op with digest := some md })
  stored : t.keys.get? op.key = some key

namespace Taking

/-- An operation starts with nothing taken in. -/
theorem of_init {mechanism : Mechanism} {handle : ObjectHandle} (h : t.Numbered)
    (hdigest : mechanism.digest? = some a)
    (hinit : Token.answer (.operate session (.init mode mechanism handle)) t = (.ok (), u)) :
    ∃ key, t.keys.get? handle = some key
      ∧ u.Taking session ⟨mode, mechanism, handle, none⟩ a key [] := by
  obtain ⟨_, rfl, key, hkey, _⟩ := operate_init_ok hinit
  have hnumbered := h.answer (.operate session (.init mode mechanism handle))
  rw [hinit] at hnumbered
  refine ⟨key, hkey, hnumbered, ⟨.new a, DigestStream.standsFor_new a, ?_⟩, hkey⟩
  rw [slot?_setOperation, hdigest]
  rfl

/-- A part is accepted, and taken in after all that came before. -/
theorem update (h : t.Taking session op a key message) (data : Bytes) :
    (t.operate session (.update op.mode data)).1 = .ok ()
      ∧ (t.operate session (.update op.mode data)).2.Taking session op a key (message ++ data) := by
  obtain ⟨hnumbered, ⟨md, hmd, hslot⟩, hkey⟩ := h
  have hfeed : feed op.mode data (some { op with digest := some md })
      = .ok { op with digest := some (md.update data) } := by
    simp only [feed, ne_eq, not_true_eq_false, if_false]
  have hupdate := update_eq hslot hfeed
  refine ⟨congrArg Prod.fst hupdate, hnumbered.answer (.operate session (.update op.mode data)),
    ⟨md.update data, hmd.update data, ?_⟩, ?_⟩
  · rw [hupdate]
    exact slot?_setOperation ..
  · rw [hupdate]
    exact hkey

/-- What spares the session changes none of this. -/
theorem spares (h : t.Taking session op a key message) (hspares : action.Spares session) :
    (t.act action).2.Taking session op a key message := by
  obtain ⟨hnumbered, ⟨md, hmd, hslot⟩, hkey⟩ := h
  have hopen : t.sessions.slot? session ≠ none := by
    rw [hslot]
    exact nofun
  exact ⟨hnumbered.act action, ⟨md, hmd, (hnumbered.slot?_act hopen hspares).trans hslot⟩,
    hnumbered.get?_act hkey action⟩

/-- **The parts are accepted, and taken in one after the other**, whatever is done in between. The
    induction is over the actions, with any message already taken in. -/
theorem run (h : t.Taking session op a key message) (hfeeds : Feeds session op.mode actions fed) :
    (∀ event ∈ (t.run actions).1, event.Accepted session)
      ∧ (t.run actions).2.Taking session op a key (message ++ fed) := by
  induction hfeeds generalizing t message with
  | done =>
      rw [List.append_nil]
      exact ⟨fun _ hmem => absurd hmem List.not_mem_nil, h⟩
  | part data _ ih =>
      obtain ⟨hok, hnext⟩ := h.update data
      obtain ⟨haccepted, htaking⟩ := ih hnext
      rw [← List.append_assoc]
      exact ⟨List.forall_mem_cons.mpr ⟨fun _ => hok, haccepted⟩, htaking⟩
  | elsewhere hspares _ ih =>
      obtain ⟨haccepted, htaking⟩ := ih (h.spares hspares)
      exact ⟨List.forall_mem_cons.mpr ⟨t.accepted_of_spares hspares, haccepted⟩, htaking⟩

/-- **The last call answers for the message and the data that it brings.** The key operation gets
    the digest of both together; a call in the other mode is refused. -/
theorem complete {α : Type} (h : t.Taking session op a key message) (mode : OperationMode)
    (data : Option Bytes)
    (keyOperation : Mechanism → Bytes → StoredKey → Except ReturnCode α) :
    (t.complete session mode data keyOperation).1
      = if op.mode = mode then keyOperation op.mechanism (a.digest (message ++ data.getD [])) key
        else .error .operationNotInitialized := by
  obtain ⟨_, ⟨md, hmd, hslot⟩, hkey⟩ := h
  by_cases hmode : op.mode = mode
  · have hinput : keyInput mode data (some { op with digest := some md })
        = .ok ({ op with digest := some md }, a.digest (message ++ data.getD [])) := by
      cases data with
      | none => simp [keyInput, hmode, hmd.finish_eq]
      | some data => simp [keyInput, hmode, (hmd.update data).finish_eq]
    rw [if_pos hmode]
    exact complete_eq hslot hinput hkey keyOperation
  · simp [Software.complete, hslot, keyInput, hmode]

theorem sign (h : t.Taking session op a key message) (data : Option Bytes) :
    (t.sign session data).1
      = if op.mode = .sign then key.sign ops op.mechanism (a.digest (message ++ data.getD []))
        else .error .operationNotInitialized :=
  h.complete .sign data fun mechanism input key => key.sign ops mechanism input

theorem verify (h : t.Taking session op a key message) (data : Option Bytes) (signature : Bytes) :
    (t.verify session data signature).1
      = if op.mode = .verify then
          key.verify ops op.mechanism (a.digest (message ++ data.getD [])) signature
        else .error .operationNotInitialized :=
  h.complete .verify data fun mechanism input key => key.verify ops mechanism input signature

end Taking

/-! ## Parts or a single call -/

/-- The last call of an operation is answered alike: by `u`, when it brings all the data, and by `v`,
    which was fed some of it, when it brings the rest or when there is none. -/
structure SameEnd (session : SessionId) (fed : Bytes) (u v : Software ops) : Prop where
  sign : ∀ rest, (Token.answer (.operate session (.sign rest)) v).1
    = (Token.answer (.operate session (.sign (fed ++ rest))) u).1
  signFinal : ∀ expectedLength, (Token.answer (.operate session (.signFinal expectedLength)) v).1
    = (Token.answer (.operate session (.sign fed)) u).1
  verify : ∀ rest signature, (Token.answer (.operate session (.verify rest signature)) v).1
    = (Token.answer (.operate session (.verify (fed ++ rest) signature)) u).1
  verifyFinal : ∀ signature, (Token.answer (.operate session (.verifyFinal signature)) v).1
    = (Token.answer (.operate session (.verify fed signature)) u).1

theorem Taking.sameEnd {v : Software ops} (hu : u.Taking session op a key [])
    (hv : v.Taking session op a key fed) : SameEnd session fed u v where
  sign rest := (hv.sign (some rest)).trans (hu.sign (some (fed ++ rest))).symm
  signFinal _ := by
    have hnone := hv.sign none
    rw [Option.getD_none, List.append_nil] at hnone
    exact hnone.trans (hu.sign (some fed)).symm
  verify rest signature :=
    (hv.verify (some rest) signature).trans (hu.verify (some (fed ++ rest)) signature).symm
  verifyFinal signature := by
    have hnone := hv.verify none signature
    rw [Option.getD_none, List.append_nil] at hnone
    exact hnone.trans (hu.verify (some fed) signature).symm

/-- **Data in parts has the answer of data given at once.** Whatever was done to the token before, an
    operation of a mechanism that digests was started; then its session was fed some data in any
    parts, with anything done elsewhere in between. No part is refused, and the last call answers
    what it would without the parts and with all the data: what the key makes of its digest. -/
theorem parts_agree (limit : Option Nat) (sessionObjects : Bool) (before actions : List Action)
    {mechanism : Mechanism} {handle : ObjectHandle}
    (hdigest : mechanism.digest? = some a)
    (hinit : Token.answer (.operate session (.init mode mechanism handle))
      ((empty limit sessionObjects : Software ops).run before).2 = (.ok (), u))
    (hfeeds : Feeds session mode actions fed) :
    (∀ event ∈ (u.run actions).1, event.Accepted session)
      ∧ SameEnd session fed u (u.run actions).2
      ∧ ∃ key, u.keys.get? handle = some key ∧ ∀ data,
        (mode = .sign → (Token.answer (.operate session (.sign data)) u).1
          = key.sign ops mechanism (a.digest data))
        ∧ (mode = .verify → ∀ signature,
          (Token.answer (.operate session (.verify data signature)) u).1
            = key.verify ops mechanism (a.digest data) signature) := by
  have hnumbered : ((empty limit sessionObjects : Software ops).run before).2.Numbered :=
    run_keeps (fun action _ h => h.act action) (.of_empty limit sessionObjects) before
  obtain ⟨key, _, htaking⟩ := Taking.of_init hnumbered hdigest hinit
  obtain ⟨haccepted, hfed⟩ := htaking.run hfeeds
  refine ⟨haccepted, htaking.sameEnd hfed, key, htaking.stored, fun data => ⟨?_, ?_⟩⟩
  · intro hmode
    exact (htaking.sign (some data)).trans (if_pos hmode)
  · intro hmode signature
    exact (htaking.verify (some data) signature).trans (if_pos hmode)

/-- Of two sessions that sign by turns with one key, the first has signed before. Its parts are more
    than a block together, and one of them is empty. -/
theorem parts_agree_of_turns :
    let key : Ecdsa.SecretKey := ⟨1, Nat.one_pos, Secp256k1.one_lt_order⟩
    let start (session : SessionId) : Call := .operate session (.init .sign .ecdsaSha1 ⟨1⟩)
    let part (session : SessionId) (data : Bytes) : Action :=
      .call (.operate session (.update .sign data))
    let before : List Action := [.store (.ec key), .call .openSession, .call .openSession,
      .call (start ⟨1⟩), part ⟨1⟩ [7], .call (.operate ⟨1⟩ (.signFinal 72))]
    let started := Token.answer (start ⟨1⟩) ((empty none false : Software .standard).run before).2
    let actions : List Action := [part ⟨1⟩ (.replicate 60 0), .call (start ⟨2⟩), part ⟨1⟩ [],
      part ⟨2⟩ [9], part ⟨1⟩ (.replicate 10 1), .call (.closeSession ⟨2⟩)]
    let data : Bytes := .replicate 60 0 ++ .replicate 10 1
    started.1 = .ok ()
      ∧ Feeds ⟨1⟩ .sign actions data
      ∧ (Token.answer (.operate ⟨1⟩ (.signFinal 72)) (started.2.run actions).2).1
        = (Token.answer (.operate ⟨1⟩ (.sign data)) started.2).1
      ∧ (Token.answer (.operate ⟨1⟩ (.sign [5])) (started.2.run actions).2).1
        = (StoredKey.ecPrivate key).sign .standard .ecdsaSha1 (DigestAlgorithm.sha1.digest
            (data ++ [5])) := by
  intro key start part before started actions data
  have hok : started.1 = .ok () := rfl
  have hother : (⟨2⟩ : SessionId) ≠ ⟨1⟩ := by decide
  have hfeeds : Feeds ⟨1⟩ .sign actions data :=
    .part _ (.elsewhere hother (.part _ (.elsewhere hother (.part _ (.elsewhere hother .done)))))
  obtain ⟨_, hsame, stored, hstored, hanswer⟩ := parts_agree none false before actions rfl
    (show started = (.ok (), started.2) from Prod.ext hok rfl) hfeeds
  have hkey : started.2.keys.get? ⟨1⟩ = some (.ecPrivate key) := rfl
  obtain rfl := Option.some.inj (hkey.symm.trans hstored)
  exact ⟨hok, hfeeds, hsame.signFinal 72, (hsame.sign [5]).trans ((hanswer _).1 rfl)⟩

end Software

end Cryptoki
