import Cryptoki.Proofs.Engine.Reach
import Cryptoki.Proofs.Engine.UnderWay
import Cryptoki.Proofs.Pool.Tidy
import Cryptoki.Proofs.Token.Signing

/-!
# `Cryptoki.Proofs.Engine.Serving` — an engine over the token in memory, from start to end

A start either finds fault with the key, or finds no session that can be used, or it leaves engine
and token with the same operation, that nobody has fed yet. From then on both hold the same message:
what the engine does not pass on it keeps, and what it passes on the token digests. So in the end
signature and verdict are those of the pair, for the payload of the message.

## Contents
- `EngineError.Unavailable` — failures for want of a session.
- `Engine.Serves` — engine and token are in the middle of a message.
- `Engine.Ready` — what holds of engines between calls.
- `Engine.Opened`, `Engine.Ready.opened` — what comes of a start.
- `Engine.Serves.update` — a part of the message.
- `Engine.Serves.sign`, `Engine.Serves.verify` — its end.
-/

namespace Cryptoki

/-- There was no session to be had, or the one there was is closed or in use. Sessions of a pool are
    neither of these, unless somebody calls the token past it. -/
def EngineError.Unavailable : EngineError → Prop
  | .noSession _ => True
  | .tokenFailure _ code => code.Misplaced
  | _ => False

/-- The operation of a session on a message, of which some parts have been passed on. -/
def Scheme.operation (scheme : Scheme) (key : Key) (mode : OperationMode) (parts : List Bytes) :
    SoftwareOperation where
  mode := mode
  mechanism := scheme.mechanism
  key := key.handle
  digest := scheme.mechanism.digest?.map fun a => parts.foldl DigestStream.update (.new a)

variable {ops : KeyOperations} {scheme : Scheme} {key : Key} {mode : OperationMode}
  {parts : List Bytes} {session : SessionId}

/-! ## The token's side -/

namespace Software

variable {t : Software ops} {mechanism : Mechanism} {handle : ObjectHandle} {stored : StoredKey}

/-- With a key that suits mechanism and mode, only the session can be at fault. -/
theorem misplaced_of_init {u : Software ops} {code : ReturnCode}
    (hmechanism : mechanism.family? = some stored.family) (hkey : t.keys.get? handle = some stored)
    (hhalf : stored.half = mode.half)
    (h : t.operate session (.init mode mechanism handle) = (.error code, u)) : code.Misplaced := by
  simp only [operate, Software.init] at h
  split at h
  · cases h
  · next code' hstart =>
      obtain rfl := Except.error.inj (Prod.mk.inj h).1
      simp only [startOperation, hmechanism, hkey, hhalf, ne_eq, not_true_eq_false, if_false]
        at hstart
      split at hstart
      · exact .inr (.inr (Except.error.inj hstart).symm)
      · exact .inl (Except.error.inj hstart).symm
      · cases hstart

/-- Where the message was passed on, its digest is the input. -/
theorem keyInput_streamed (h : scheme.Resolved) (hdsa : scheme.family ≠ .dsa)
    (hproc : scheme.processing = .stream) (key : Key) (mode : OperationMode)
    (parts : List Bytes) :
    keyInput mode none (some (scheme.operation key mode parts))
      = .ok (scheme.operation key mode parts, scheme.keyInput key parts.flatten) := by
  obtain ⟨a, _, hmechanism⟩ := h.digests hdsa hproc
  simp only [keyInput, Scheme.operation, Scheme.keyInput, hmechanism, Option.map_some, ne_eq,
    not_true_eq_false, if_false, DigestStream.finish_foldl_update]

/-- Where it was not, the input is what the token is given. -/
theorem keyInput_gathered (h : scheme.Resolved) (hdsa : scheme.family ≠ .dsa)
    (hproc : scheme.processing ≠ .stream) (key : Key) (mode : OperationMode)
    (parts : List Bytes) :
    keyInput mode (some (scheme.presented key parts.flatten)) (some (scheme.operation key mode parts))
      = .ok (scheme.operation key mode parts, scheme.keyInput key parts.flatten) := by
  simp only [keyInput, Scheme.operation, Scheme.keyInput, h.gathers hdsa hproc, Option.map_none,
    ne_eq, not_true_eq_false, if_false]

/-- Where the message is passed on, the operation is fed. -/
theorem feed_operation (h : scheme.Resolved) (hdsa : scheme.family ≠ .dsa)
    (hproc : scheme.processing = .stream) (key : Key) (mode : OperationMode) (parts : List Bytes)
    (data : Bytes) :
    feed mode data (some (scheme.operation key mode parts))
      = .ok (scheme.operation key mode (parts ++ [data])) := by
  obtain ⟨a, _, hmechanism⟩ := h.digests hdsa hproc
  simp only [feed, Scheme.operation, hmechanism, Option.map_some, ne_eq, not_true_eq_false,
    if_false, List.foldl_append, List.foldl_cons, List.foldl_nil]

end Software

/-- Where the message is not passed on, the operation does not know of its parts. -/
theorem Scheme.operation_gathered (h : scheme.Resolved) (hdsa : scheme.family ≠ .dsa)
    (hproc : scheme.processing ≠ .stream) (key : Key) (mode : OperationMode)
    (parts parts' : List Bytes) :
    scheme.operation key mode parts = scheme.operation key mode parts' := by
  simp only [operation, h.gathers hdsa hproc, Option.map_none]

/-- **Only data signed as given can be too long**, which is that of one algorithm, DSA apart. -/
theorem Scheme.Resolved.lengthFault?_eq (h : scheme.Resolved) (hdsa : scheme.family ≠ .dsa)
    (n : Nat) :
    scheme.lengthFault? n =
      if scheme.algorithm = .noneWithEcdsa ∧ rawEcdsaMax < n then some (.atMost rawEcdsaMax)
      else none := by
  have hdigest : scheme.algorithm = .noneWithEcdsa ↔ scheme.algorithm.digest = none := by
    obtain ⟨algorithm, mechanism, processing⟩ := scheme
    cases algorithm with
    | noneWithDsa => exact absurd rfl hdsa
    | _ => simp [SignatureAlgorithm.digest]
  by_cases hnone : scheme.algorithm.digest = none
  · obtain ⟨rule, hproc⟩ := h.raw_of_digest hdsa hnone
    rw [(h.raw hproc).2.2 hdsa] at hproc
    have halgorithm := hdigest.mpr hnone
    simp only [lengthFault?, hproc]
    by_cases hlong : rawEcdsaMax < n
    · have hfault : ¬ (LengthRule.atMost rawEcdsaMax).Allows n := Nat.not_le.mpr hlong
      rw [if_neg hfault, if_pos ⟨halgorithm, hlong⟩]
    · have hallows : (LengthRule.atMost rawEcdsaMax).Allows n := Nat.not_lt.mp hlong
      rw [if_pos hallows, if_neg fun hboth => hlong hboth.2]
  · rw [if_neg fun hboth => hnone (hdigest.mp hboth.1)]
    unfold lengthFault?
    split
    · next hproc => exact absurd (h.raw hproc).1 hnone
    · rfl

theorem Scheme.Resolved.lengthFault?_eq_none {n : Nat} (h : scheme.Resolved)
    (hdsa : scheme.family ≠ .dsa) (hlength : scheme.algorithm.digest = none → n ≤ rawEcdsaMax) :
    scheme.lengthFault? n = none := by
  rw [h.lengthFault?_eq hdsa]
  apply if_neg
  rintro ⟨halgorithm, hlong⟩
  exact absurd (hlength (by rw [halgorithm]; rfl)) (Nat.not_le.mpr hlong)

/-! ## In the middle of a message -/

namespace Engine

variable {secret : KeySecret} {pair : KeyPair} {message : Bytes}
  {e e' : Engine} {p q : Pool (Logged (Software ops))}

/-- Engine and token have the same operation, and together they have the message so far. -/
def Serves (scheme : Scheme) (key : Key) (mode : OperationMode) (message : Bytes) (e : Engine)
    (p : Pool (Logged (Software ops))) : Prop :=
  ∃ session parts, e = underWay scheme key mode session parts ∧ parts.flatten = message
    ∧ p.slot? session = some (some (scheme.operation key mode parts))

/-- A message goes on over another state of the token, if the slots are the same. -/
theorem Serves.of_slots (h : Serves scheme key mode message e p)
    (hslot : ∀ session, q.slot? session = p.slot? session) :
    Serves scheme key mode message e q := by
  obtain ⟨session, parts, hengine, hmessage, hop⟩ := h
  exact ⟨session, parts, hengine, hmessage, (hslot session).trans hop⟩

/-! ## Starting -/

theorem announced_eq (e : Engine) (p : Pool (Logged (Software ops))) :
    e.announced p = e.scheme.mechanism.announcedSizes := by
  have hanswer : (p.call (.mechanismInfo e.scheme.mechanism)).1
      = e.scheme.mechanism.softwareKeySizes := rfl
  unfold announced Mechanism.announcedSizes
  rw [hanswer]
  cases e.scheme.mechanism.softwareKeySizes <;> rfl

/-- The keys that have an accepted size on this token. -/
def Sized (scheme : Scheme) (key : Key) : Prop :=
  scheme.acceptSize key scheme.mechanism.announcedSizes = .ok ()

/-- What holds of an engine on this token between calls. -/
structure Ready (e : Engine) : Prop where
  coherent : e.Coherent e.scheme
  resolved : e.scheme.Resolved
  sized : e.Binds (Sized e.scheme)

theorem ready_of_new {name : String} {mechanism : Mechanism} (h : new name mechanism = .ok e) :
    e.Ready := by
  obtain ⟨scheme, hresolve, rfl⟩ := new_ok h
  refine ⟨ofScheme_coherent scheme, Scheme.resolved_of_resolve hresolve, ?_⟩
  intro key hkey
  cases hkey

/-- A call keeps the scheme, and what holds between calls. -/
theorem Ready.handle (h : e.Ready) (request : Request) (p : Pool (Logged (Software ops))) :
    (e.handle request p).2.1.Ready ∧ (e.handle request p).2.1.scheme = e.scheme := by
  have hcoherent := handle_coherent h.coherent request p
  have hbinds := handle_binds h.coherent h.sized request p fun key hkey => by
    rw [announced_eq] at hkey
    exact hkey
  have hscheme := hcoherent.scheme_eq
  refine ⟨⟨hscheme.symm ▸ hcoherent, hscheme.symm ▸ h.resolved, hscheme.symm ▸ hbinds⟩, hscheme⟩

/-- Checking a key comes to the same whether it is bound already or not. -/
theorem Ready.accept_eq_check (h : e.Ready) (key : Key) (mode : OperationMode)
    (p : Pool (Logged (Software ops))) :
    (e.accept key mode p).1 = e.scheme.check key mode := by
  unfold accept Scheme.check
  cases e.scheme.acceptKey key mode with
  | error fault => rfl
  | ok u =>
      dsimp only
      by_cases hbound : e.key = some key
      · rw [if_pos hbound]
        exact (h.sized key hbound).symm
      · rw [if_neg hbound, acceptSize_eq, announced_eq]

/-- The ways that starting with a key can go, from some state of the token. -/
inductive Opened (scheme : Scheme) (key : Key) (mode : OperationMode) (t : Logged (Software ops)) :
    Except EngineError Answer × Engine × Pool (Logged (Software ops)) → Prop
  /-- The key is not accepted. -/
  | rejected {fault : KeyFault} {e : Engine} {p : Pool (Logged (Software ops))}
      (hcheck : scheme.check key mode = .error fault) :
      Opened scheme key mode t (.error (.unacceptableKey fault), e, p)
  /-- There is no session that can be used: none to be had at all, if no call was untimely. -/
  | unavailable {err : EngineError} {e : Engine} {p : Pool (Logged (Software ops))}
      (herr : err.Unavailable) (hquiet : Quiet t p.token → err.mayPass = true) :
      Opened scheme key mode t (.error err, e, p)
  /-- The operation is under way. -/
  | serving {e : Engine} {p : Pool (Logged (Software ops))}
      (hcheck : scheme.check key mode = .ok ()) (hserves : Serves scheme key mode [] e p) :
      Opened scheme key mode t (.ok .done, e, p)

/-- A key that passes the check suits the scheme. -/
theorem suits_of_check (hresolved : scheme.Resolved) (hcheck : scheme.check key mode = .ok ()) :
    scheme.Suits key := by
  unfold Scheme.check at hcheck
  split at hcheck
  · cases hcheck
  · next haccept =>
      exact ⟨hresolved, (Scheme.family_of_acceptKey haccept).1, Scheme.roomy_of_acceptSize hcheck⟩

theorem acquire_noSession {err : EngineError} (h : p.acquire = (.error err, q)) :
    ∃ shortage, err = .noSession shortage := by
  have hacquired := p.acquired
  rw [h] at hacquired
  cases hacquired with
  | full => exact ⟨_, rfl⟩
  | refused _ _ hopen =>
      obtain ⟨htoken, _⟩ := Logged.answer_eq hopen
      obtain ⟨_, rfl⟩ := Software.answer_open_error htoken
      exact ⟨_, rfl⟩

/-- If the token refuses a key that suits the scheme, the session is at fault. -/
theorem misplaced_of_refusal {lease lease' : Lease} {code : ReturnCode}
    (hsuits : scheme.Suits (pair.keyFor mode)) (hholds : p.token.token.Holds secret pair)
    (hinit : lease.operate (.init mode scheme.mechanism (pair.keyFor mode).handle) p
      = (.error code, lease', q)) : code.Misplaced := by
  have hparams := hholds.params mode
  have hmechanism : scheme.mechanism.family? = some (secret.stored mode.half).family := by
    rw [hsuits.resolved.family_eq (hsuits.family_ne_dsa hparams), hsuits.family_secret hparams,
      secret.family_stored]
  obtain ⟨_, _, hanswer⟩ := Lease.operate_cases hinit
  obtain ⟨htoken, _⟩ := Logged.answer_eq hanswer
  exact Software.misplaced_of_init hmechanism (hholds.stored mode) (secret.half_stored mode.half)
    htoken

/-- A start with a key that suits the scheme can lack a session, and nothing else. -/
theorem start_serves {t : Logged (Software ops)} {result : Except EngineError Unit}
    (hreached : Token.Reached t p.token) (hsuits : scheme.Suits (pair.keyFor mode))
    (hholds : p.token.token.Holds secret pair) (hbound : e.Bound scheme)
    (hkey : e.key = some (pair.keyFor mode)) (hmode : e.mode = some mode)
    (hstart : e.start p = (result, e', q)) :
    (∃ err, result = .error err ∧ err.Unavailable ∧ (Quiet t q.token → err.mayPass = true))
      ∨ (result = .ok () ∧ Serves scheme (pair.keyFor mode) mode [] e' q) := by
  have hstarted := e.started p
  rw [hstart] at hstarted
  cases hstarted with
  | unbound hnone =>
      rcases hnone with hnone | hnone
      · cases hnone.symm.trans hkey
      · cases hnone.symm.trans hmode
  | starved _ hacq =>
      obtain ⟨shortage, rfl⟩ := acquire_noSession hacq
      exact .inl ⟨_, rfl, trivial, fun _ => rfl⟩
  | @refused key' mode' lease lease' q r code hkey' hmode' hobtained hinit =>
      obtain rfl := Option.some.inj (hkey'.symm.trans hkey)
      obtain rfl := Option.some.inj (hmode'.symm.trans hmode)
      have hbefore := obtainLease_reached hobtained
      have hmisplaced : code.Misplaced :=
        misplaced_of_refusal hsuits (hholds.reached hbefore) (hbound.scheme_eq ▸ hinit)
      refine .inl ⟨_, rfl, ?_, ?_⟩
      · have hkeeps : code.rejectsKey = false := by
          rcases hmisplaced with rfl | rfl | rfl <;> rfl
        simp only [afterRefusal, hkeeps]
        exact hmisplaced
      · -- the call that was refused is in the log, and it was untimely
        intro hquiet
        obtain ⟨_, _, hanswer⟩ := Lease.operate_cases hinit
        have htimely := (hreached.trans hbefore).event hanswer (lease'.close_reached r) hquiet
        exact absurd hmisplaced (htimely code rfl)
  | @begun key' mode' lease lease' q r hkey' hmode' hobtained hinit =>
      obtain rfl := Option.some.inj (hkey'.symm.trans hkey)
      obtain rfl := Option.some.inj (hmode'.symm.trans hmode)
      obtain ⟨rfl, _, hanswer⟩ := Lease.operate_cases hinit
      obtain ⟨htoken, _⟩ := Logged.answer_eq hanswer
      refine .inr ⟨rfl, lease.session, [], ?_, rfl, ?_⟩
      · rw [hbound.fits.reset_eq_new, hkey, hmode, hbound.scheme_eq]
        rfl
      · rw [hbound.scheme_eq] at htoken
        exact Software.slot?_of_init htoken

/-- **Starting with a key goes one of three ways**: the key is at fault, or a session is lacking, or
    engine and token have an operation without input. -/
theorem Ready.opened (h : e.Ready) (hholds : p.token.token.Holds secret pair)
    (mode : OperationMode) :
    Opened e.scheme (pair.keyFor mode) mode p.token
      (e.handle (.init (pair.keyFor mode) mode) p) := by
  have hcheck := h.accept_eq_check (pair.keyFor mode) mode p
  have haccepted := e.accept_reached (pair.keyFor mode) mode p
  simp only [Engine.handle]
  rcases haccept : e.accept (pair.keyFor mode) mode p with ⟨fault | u, q⟩
  · rw [haccept] at hcheck
    rw [startWith_of_rejected haccept]
    exact .rejected hcheck.symm
  · rw [haccept] at hcheck haccepted
    rw [startWith_of_accepted haccept]
    obtain ⟨hbound, _⟩ := abandon_bound q h.coherent.toBound
    have habandoned := haccepted.trans (e.abandon_reached q)
    have hsuits := suits_of_check h.resolved hcheck.symm
    have hkey : e.scheme.acceptKey (pair.keyFor mode) mode = .ok () := by
      unfold Scheme.check at hcheck
      split at hcheck
      · cases hcheck
      · next haccept => exact haccept
    generalize hstart : ({ (e.abandon q).1 with
      key := some (pair.keyFor mode), mode := some mode } : Engine).start (e.abandon q).2 = out
    obtain ⟨result, e', r⟩ := out
    rcases start_serves habandoned hsuits (hholds.reached habandoned) (hbound.bind hkey) rfl rfl
      hstart with ⟨err, rfl, herr, hquiet⟩ | ⟨rfl, hserves⟩
    · exact .unavailable herr hquiet
    · exact .serving hcheck.symm hserves

/-! ## A part of the message -/

/-- The token takes in a part that is passed on. -/
theorem operate_update (hresolved : scheme.Resolved) (hdsa : scheme.family ≠ .dsa)
    (hproc : scheme.processing = .stream)
    (hslot : p.slot? session = some (some (scheme.operation key mode parts))) (data : Bytes) :
    ∃ q, (⟨session, true⟩ : Lease).operate (.update mode data) p = (.ok (), ⟨session, true⟩, q)
      ∧ q.slot? session = some (some (scheme.operation key mode (parts ++ [data]))) := by
  have hanswer : Token.answer (.operate session (.update mode data)) p.token.token
      = (.ok (), p.token.token.setOperation session
        (some (scheme.operation key mode (parts ++ [data])))) :=
    Software.update_eq hslot (Software.feed_operation hresolved hdsa hproc key mode parts data)
  have hpool := Logged.answer_of hanswer
  refine ⟨(p.call (.operate session (.update mode data))).2, ?_, ?_⟩
  · simp only [Lease.operate, Pool.call, hpool]
    rfl
  · simp only [Pool.call, hpool]
    exact Software.slot?_setOperation ..

/-- **A part of the message is taken in**, and both sides know of it. -/
theorem Serves.update (h : Serves scheme key mode message e p) (hresolved : scheme.Resolved)
    (hdsa : scheme.family ≠ .dsa) (data : Bytes) :
    ∃ e' q, e.handle (.update data) p = (.ok .done, e', q)
      ∧ Serves scheme key mode (message ++ data) e' q := by
  obtain ⟨session, parts, rfl, rfl, hslot⟩ := h
  have hflatten : (parts ++ [data]).flatten = parts.flatten ++ data := by simp
  by_cases hdata : data = []
  · subst hdata
    exact ⟨_, _, handle_update_empty, session, parts, rfl, (List.append_nil _).symm, hslot⟩
  · by_cases hproc : scheme.processing = .stream
    · obtain ⟨q, hop, hslot'⟩ := operate_update hresolved hdsa hproc hslot data
      exact ⟨_, _, handle_update_streamed hdata hproc hop, session, _, rfl, hflatten, hslot'⟩
    · rw [Scheme.operation_gathered hresolved hdsa hproc key mode parts (parts ++ [data])] at hslot
      exact ⟨_, _, handle_update_gathered hdata hproc, session, _, rfl, hflatten, hslot⟩

/-! ## The end of the message -/

/-- A primitive with a known answer. -/
theorem operate_of_fst {lease : Lease} {primitive : Primitive}
    {result : Except ReturnCode primitive.Result} (h : (lease.operate primitive p).1 = result) :
    ∃ lease' q, lease.operate primitive p = (result, lease', q) :=
  ⟨_, _, Prod.ext h rfl⟩

/-- **The signature of a message is that of its payload.** -/
theorem Serves.sign (h : Serves scheme (pair.keyFor .sign) .sign message e p)
    (hsuits : scheme.Suits (pair.keyFor .sign)) (hholds : p.token.token.Holds secret pair)
    (hfault : scheme.lengthFault? message.length = none) :
    (e.handle .sign p).1.toOption
      = (secret.signature? ops (scheme.algorithm.payload message)).map .signature := by
  have hparams := hholds.params .sign
  have hdsa := hsuits.family_ne_dsa hparams
  obtain ⟨session, parts, rfl, rfl, hslot⟩ := h
  -- whatever the last call is called, the token signs the same
  have hreport : ∀ operation,
      ((signReport scheme operation ((secret.stored .privateKey).sign ops scheme.mechanism
        (scheme.keyInput (pair.keyFor .sign) parts.flatten))).map Answer.signature).toOption
          = (secret.signature? ops (scheme.algorithm.payload parts.flatten)).map .signature := by
    intro operation
    rw [← hsuits.signReport_eq hparams operation]
    cases signReport scheme operation _ <;> rfl
  by_cases hproc : scheme.processing = .stream
  · have hresult : ((⟨session, true⟩ : Lease).operate (.signFinal scheme.expectedLength) p).1
        = (secret.stored .privateKey).sign ops scheme.mechanism
          (scheme.keyInput (pair.keyFor .sign) parts.flatten) :=
      Software.complete_eq hslot (Software.keyInput_streamed hsuits.resolved hdsa hproc _ _ _)
        (hholds.stored .sign) _
    obtain ⟨lease', q, hop⟩ := operate_of_fst hresult
    obtain ⟨e', hsign⟩ := sign_streamed (pair.keyFor .sign) parts hproc hop
    rw [hsign]
    exact hreport .signFinal
  · have hresult : ((⟨session, true⟩ : Lease).operate
          (.sign (scheme.presented (pair.keyFor .sign) parts.flatten)) p).1
        = (secret.stored .privateKey).sign ops scheme.mechanism
          (scheme.keyInput (pair.keyFor .sign) parts.flatten) :=
      Software.complete_eq hslot (Software.keyInput_gathered hsuits.resolved hdsa hproc _ _ _)
        (hholds.stored .sign) _
    obtain ⟨lease', q, hop⟩ := operate_of_fst hresult
    obtain ⟨e', hsign⟩ := sign_gathered hsuits hproc hfault hop
    rw [hsign]
    exact hreport .sign

/-- **The verdict on a signature of a message is that for its payload**, and never a failure. -/
theorem Serves.verify (h : Serves scheme (pair.keyFor .verify) .verify message e p)
    (hsuits : scheme.Suits (pair.keyFor .verify)) (hholds : p.token.token.Holds secret pair)
    (hfault : scheme.lengthFault? message.length = none) (signature : Bytes) :
    (e.handle (.verify signature) p).1
      = .ok (.verdict (secret.accepts ops (scheme.algorithm.payload message) signature)) := by
  have hparams := hholds.params .verify
  have hdsa := hsuits.family_ne_dsa hparams
  obtain ⟨session, parts, rfl, rfl, hslot⟩ := h
  cases hdecode : decodeSignature scheme signature with
  | error cause =>
      obtain ⟨e', hverify⟩ := verify_unread hdecode (pair.keyFor .verify) session parts p
      rw [hverify, hsuits.accepts_unread hparams hdecode]
  | ok block =>
      have hverdict := @Scheme.Suits.verdictOf_eq _ _ ops _ _ _ hsuits hparams hdecode
      by_cases hproc : scheme.processing = .stream
      · have hresult : ((⟨session, true⟩ : Lease).operate (.verifyFinal block) p).1
            = (secret.stored .publicKey).verify ops scheme.mechanism
              (scheme.keyInput (pair.keyFor .verify) parts.flatten) block :=
          Software.complete_eq hslot (Software.keyInput_streamed hsuits.resolved hdsa hproc _ _ _)
            (hholds.stored .verify) fun mechanism input key => key.verify ops mechanism input block
        obtain ⟨lease', q, hop⟩ := operate_of_fst hresult
        obtain ⟨e', hverify⟩ := verify_streamed (pair.keyFor .verify) parts hdecode hproc hop
        rw [hverify, hverdict]
        rfl
      · have hresult : ((⟨session, true⟩ : Lease).operate
              (.verify (scheme.presented (pair.keyFor .verify) parts.flatten) block) p).1
            = (secret.stored .publicKey).verify ops scheme.mechanism
              (scheme.keyInput (pair.keyFor .verify) parts.flatten) block :=
          Software.complete_eq hslot (Software.keyInput_gathered hsuits.resolved hdsa hproc _ _ _)
            (hholds.stored .verify) fun mechanism input key => key.verify ops mechanism input block
        obtain ⟨lease', q, hop⟩ := operate_of_fst hresult
        obtain ⟨e', hverify⟩ := verify_gathered hsuits hdecode hproc hfault hop
        rw [hverify, hverdict]
        rfl

end Engine

end Cryptoki
