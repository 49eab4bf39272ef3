import Cryptoki.Proofs.Engine.Report
import Cryptoki.Proofs.SignatureValue.Block

/-!
# `Cryptoki.Proofs.Engine.DsaBlocks` — a DSA signature goes back to the token as the block it was

A signature that an engine hands out is the encoding of the one block that the token made. An engine
that is asked to verify it reads it and shows the token a block of forty bytes, whatever the width of
the first one was: what goes out has any width, what comes in has one. So a token whose blocks have
the width of a DSA block is shown its own blocks. Another token is shown the same numbers in the other
width, or nothing if one of them does not fit.

## Contents
- `Token.Event.made?`, `Token.Event.shown?` — blocks that a token made, and that it was shown.
- `Engine.handle_sign_ok` — the block of a signature that was handed out.
- `Engine.Shown`, `Engine.handle_verify_shown` — what a token is shown of a signature.
- `SignatureValue.Reread`, `SignatureValue.reread` — a block, encoded and read as a DSA block.
- `Engine.Cycle.Hands`, `Engine.Cycle.Withholds` — a token is shown a block, or none.
- `Engine.Cycle.dsa_handed_back` — signatures of DSA engines, from one engine to another.
-/

namespace Cryptoki

namespace Token.Event

/-- The block that the call has made. -/
def made? : Event → Option Bytes
  | ⟨.operate _ (.sign _), .ok block⟩ => some block
  | ⟨.operate _ (.signFinal _), .ok block⟩ => some block
  | _ => none

/-- The block that the call has shown the token as a signature. -/
def shown? : Event → Option Bytes
  | ⟨.operate _ (.verify _ block), _⟩ => some block
  | ⟨.operate _ (.verifyFinal block), _⟩ => some block
  | _ => none

/-- A call without input neither makes a block nor shows one. -/
theorem Bare.made?_shown? {event : Event} (h : event.Bare) :
    event.made? = none ∧ event.shown? = none := by
  obtain ⟨call, result⟩ := event
  cases call with
  | openSession => exact ⟨rfl, rfl⟩
  | closeSession session => exact ⟨rfl, rfl⟩
  | mechanismInfo mechanism => exact ⟨rfl, rfl⟩
  | operate session primitive =>
      obtain ⟨mode, mechanism, key, rfl⟩ := h session primitive rfl
      exact ⟨rfl, rfl⟩

end Token.Event

open Token (Event)

variable {τ : Type} [Token τ]

omit [Token τ] in
/-- Calls without input add no block to those that were made and shown. -/
theorem Logged.Bare.filterMap_eq {t u : Logged τ} (h : Logged.Bare t u) :
    u.log.filterMap Event.made? = t.log.filterMap Event.made?
      ∧ u.log.filterMap Event.shown? = t.log.filterMap Event.shown? := by
  obtain ⟨events, hlog, hevents⟩ := h
  have hmade : events.filterMap Event.made? = [] :=
    List.filterMap_eq_nil_iff.mpr fun event hevent => (hevents event hevent).made?_shown?.1
  have hshown : events.filterMap Event.shown? = [] :=
    List.filterMap_eq_nil_iff.mpr fun event hevent => (hevents event hevent).made?_shown?.2
  rw [hlog, List.filterMap_append, List.filterMap_append, hmade, hshown]
  exact ⟨rfl, rfl⟩

namespace Engine

variable {scheme : Scheme} {e : Engine} {lease : Lease} {signature d : Bytes}
  {p q : Pool (Logged τ)}

/-! ## Signatures that are handed out -/

/-- A signature is the token's block, encoded. -/
theorem signReport_eq_ok {operation : Operation} {result : Except ReturnCode Bytes}
    (h : signReport scheme operation result = .ok d) :
    ∃ block, result = .ok block ∧ encodeSignature scheme block = .ok d := by
  cases result with
  | error code => cases h
  | ok block => exact ⟨block, rfl, h⟩

/-- The last call of a signing operation has made the block of the signature. -/
theorem signOn_ok (h : (e.signOn lease p).1 = .ok d) :
    ∃ block, encodeSignature e.scheme block = .ok d
      ∧ ((e.signOn lease p).2.2.1.close (e.signOn lease p).2.2.2).token.log.filterMap Event.made?
        = block :: p.token.log.filterMap Event.made? := by
  by_cases hproc : e.scheme.processing = .stream
  · rcases hop : lease.operate (.signFinal e.scheme.expectedLength) p with ⟨result, lease', q⟩
    obtain ⟨e', hlast⟩ := signOn_streamed hproc hop
    rw [hlast] at h ⊢
    obtain ⟨block, rfl, hencode⟩ := signReport_eq_ok h
    have hends : Primitive.Ends .sign (.signFinal e.scheme.expectedLength) := rfl
    rw [Lease.close_log hends hop]
    exact ⟨block, hencode, rfl⟩
  · cases hinput : e.finalInput.1 with
    | error err =>
        obtain ⟨e', hlast⟩ := signOn_refused hproc hinput lease p
        rw [hlast] at h
        cases h
    | ok input =>
        rcases hop : lease.operate (.sign input) p with ⟨result, lease', q⟩
        obtain ⟨e', hlast⟩ := signOn_gathered hproc hinput hop
        rw [hlast] at h ⊢
        obtain ⟨block, rfl, hencode⟩ := signReport_eq_ok h
        have hends : Primitive.Ends .sign (.sign input) := rfl
        rw [Lease.close_log hends hop]
        exact ⟨block, hencode, rfl⟩

/-- **A signature that is handed out is the encoding of the one block that was made for it**, also if
    the call has started the operation itself. -/
theorem handle_sign_ok (hcoherent : e.Coherent scheme)
    (h : (e.handle .sign p).1 = .ok (.signature d)) :
    ∃ block, encodeSignature scheme block = .ok d
      ∧ (e.handle .sign p).2.2.token.log.filterMap Event.made?
        = block :: p.token.log.filterMap Event.made? := by
  simp only [handle, sign] at h ⊢
  have htaken := e.taken .sign p
  generalize e.takeLease .sign p = out at htaken h ⊢
  cases htaken with
  | wrongMode => cases h
  | notStarted => cases h
  | leaseless => cases h
  | @taken e' q lease _ hstart _ =>
      have hsigned : (signOn { e' with state := .uninitialized, lease := none } lease q).1
          = .ok d := by
        dsimp only at h
        cases hresult : (signOn { e' with state := .uninitialized, lease := none } lease q).1 with
        | error err =>
            rw [hresult] at h
            cases h
        | ok d' =>
            rw [hresult] at h
            exact congrArg _ (Answer.signature.inj (Except.ok.inj h))
      obtain ⟨block, hencode, hmade⟩ := signOn_ok hsigned
      rw [(hcoherent.ensureStarted hstart).1.scheme_eq] at hencode
      rw [← (ensureStarted_bare hstart).filterMap_eq.1]
      exact ⟨block, hencode, hmade⟩

/-! ## Signatures that are shown to the token -/

/-- What a token is shown of a signature, when an engine is asked to verify it. -/
inductive Shown (scheme : Scheme) (signature : Bytes) (t u : Logged τ) :
    Except EngineError Answer → Prop
  /-- It is shown nothing. If there is a verdict, it is that the signature cannot be read. -/
  | nothing {answer : Except EngineError Answer}
      (hshown : u.log.filterMap Event.shown? = t.log.filterMap Event.shown?)
      (hverdict : ∀ v, answer = .ok (.verdict v) →
        v = false ∧ ∃ cause, decodeSignature scheme signature = .error cause) :
      Shown scheme signature t u answer
  /-- It is shown the block that was read from the signature. -/
  | block {answer : Except EngineError Answer} {block : Bytes}
      (hdecode : decodeSignature scheme signature = .ok block)
      (hshown : u.log.filterMap Event.shown? = block :: t.log.filterMap Event.shown?) :
      Shown scheme signature t u answer

omit [Token τ] in
/-- Calls without input may come before. -/
theorem Shown.of_bare {s t u : Logged τ} {answer : Except EngineError Answer}
    (h : Shown scheme signature t u answer) (hbare : Logged.Bare s t) :
    Shown scheme signature s u answer := by
  have hbefore := hbare.filterMap_eq.2
  cases h with
  | nothing hshown hverdict => exact .nothing (hshown.trans hbefore) hverdict
  | block hdecode hshown => exact .block hdecode (hshown.trans (congrArg _ hbefore))

/-- The last call of a verifying operation shows the block that was read. -/
theorem verifyOn_shown (e : Engine) (lease : Lease) (signature : Bytes) (p : Pool (Logged τ)) :
    let out := e.verifyOn lease signature p
    Shown e.scheme signature p.token (out.2.2.1.close out.2.2.2).token (out.1.map .verdict) := by
  have hclosed := (lease.close_bare p).filterMap_eq.2
  intro out
  cases hdecode : decodeSignature e.scheme signature with
  | error cause =>
      have hout : out = (.ok false, e, lease, p) := verifyOn_unread hdecode
      rw [hout]
      refine .nothing hclosed fun v hverdict => ?_
      exact ⟨(Answer.verdict.inj (Except.ok.inj hverdict)).symm, cause, hdecode⟩
  | ok block =>
      by_cases hproc : e.scheme.processing = .stream
      · rcases hop : lease.operate (.verifyFinal block) p with ⟨result, lease', q⟩
        obtain ⟨e', hlast⟩ := verifyOn_streamed hdecode hproc hop
        have hends : Primitive.Ends .verify (.verifyFinal block) := rfl
        have hlog := Lease.close_log hends hop
        rw [show out = _ from hlast]
        exact .block hdecode (by rw [hlog]; rfl)
      · cases hinput : e.finalInput.1 with
        | error err =>
            obtain ⟨e', hlast⟩ := verifyOn_refused hdecode hproc hinput lease p
            rw [show out = _ from hlast]
            exact .nothing hclosed nofun
        | ok input =>
            rcases hop : lease.operate (.verify input block) p with ⟨result, lease', q⟩
            obtain ⟨e', hlast⟩ := verifyOn_gathered hdecode hproc hinput hop
            have hends : Primitive.Ends .verify (.verify input block) := rfl
            have hlog := Lease.close_log hends hop
            rw [show out = _ from hlast]
            exact .block hdecode (by rw [hlog]; rfl)

/-- **A token is shown the block that was read from the signature, or nothing**, also if the call has
    started the operation itself. -/
theorem handle_verify_shown (hcoherent : e.Coherent scheme) (signature : Bytes)
    (p : Pool (Logged τ)) :
    let out := e.handle (.verify signature) p
    Shown scheme signature p.token out.2.2.token out.1 := by
  simp only [handle, verify]
  have htaken := e.taken .verify p
  generalize e.takeLease .verify p = out at htaken ⊢
  cases htaken with
  | wrongMode =>
      refine .nothing rfl ?_
      intro v hverdict
      cases hverdict
  | notStarted _ _ hstart =>
      refine .nothing (start_bare hstart).filterMap_eq.2 ?_
      intro v hverdict
      cases hverdict
  | leaseless _ hstart =>
      refine .nothing (ensureStarted_bare hstart).filterMap_eq.2 ?_
      intro v hverdict
      cases hverdict
  | @taken e' q lease _ hstart _ =>
      obtain rfl : e'.scheme = scheme := (hcoherent.ensureStarted hstart).1.scheme_eq
      exact (verifyOn_shown { e' with state := .uninitialized, lease := none } lease signature
        q).of_bare (ensureStarted_bare hstart)

end Engine

/-! ## Blocks, encoded and read again -/

namespace SignatureValue

/-- What becomes of a block that is encoded and then read as a DSA block. -/
structure Reread (block d : Bytes) : Prop where
  encoded : derOfBlock block = .ok d
  same : dsaBlock d = .ok block ↔ block.length = 2 * dsaHalfWidth
  resized : ∀ out, dsaBlock d = .ok out →
    out = Bytes.ofNatWidth dsaHalfWidth (Bytes.toNat (leftHalf block))
      ++ Bytes.ofNatWidth dsaHalfWidth (Bytes.toNat (rightHalf block))
  refused : (∃ cause, dsaBlock d = .error cause) ↔
    2 ^ 160 ≤ Bytes.toNat (leftHalf block) ∨ 2 ^ 160 ≤ Bytes.toNat (rightHalf block)

theorem reread {block d : Bytes} (h : derOfBlock block = .ok d) : Reread block d := by
  obtain ⟨hfits, hresized⟩ := dsaBlock_derOfBlock h
  refine ⟨h, ⟨?_, dsaBlock_of_length h⟩, hresized, ?_⟩
  · intro hsame
    rw [hresized block hsame, List.length_append, Bytes.length_ofNatWidth, Bytes.length_ofNatWidth]
    rfl
  · rw [← Nat.not_lt, ← Nat.not_lt, ← not_and_or, ← hfits]
    cases dsaBlock d with
    | error cause => exact iff_of_true ⟨cause, rfl⟩ nofun
    | ok out => exact iff_of_false nofun (not_not_intro ⟨out, rfl⟩)

end SignatureValue

/-! ## From one engine to another -/

namespace Engine

/-- A DSA engine encodes blocks. -/
theorem encodeSignature_of_dsa {scheme : Scheme} {block d : Bytes} (hdsa : scheme.family = .dsa)
    (h : encodeSignature scheme block = .ok d) : SignatureValue.derOfBlock block = .ok d := by
  rw [encodeSignature, if_pos (by simp [Scheme.hasPairSignatures, hdsa])] at h
  cases hder : SignatureValue.derOfBlock block with
  | error cause =>
      rw [hder] at h
      cases h
  | ok d' =>
      rw [hder] at h
      exact congrArg _ (Except.ok.inj h)

/-- A DSA engine reads DSA blocks. -/
theorem decodeSignature_of_dsa {scheme : Scheme} (hdsa : scheme.family = .dsa) (d : Bytes) :
    decodeSignature scheme d = SignatureValue.dsaBlock d := by
  simp [decodeSignature, Scheme.hasPairSignatures, hdsa]

namespace Cycle

/-- The blocks that the token makes in a turn. -/
def made (c : Cycle) (turn : Turn τ) : List Bytes := (c.events turn).filterMap Event.made?

/-- The blocks that the token is shown in a turn. -/
def shown (c : Cycle) (turn : Turn τ) : List Bytes := (c.events turn).filterMap Event.shown?

/-- The token is shown this block as the signature and no other, at most once, and certainly if there
    is a verdict, or if the engine verifies a message of an allowed length. -/
structure Hands (c : Cycle) (turn : Turn τ) (block : Bytes) : Prop where
  once : c.shown turn = [] ∨ c.shown turn = [block]
  judged : ∀ v, c.answer turn = .ok (.verdict v) → c.shown turn = [block]
  underWay : c.engine.state = .initialized → c.engine.mode = some .verify →
    c.engine.scheme.lengthFault? c.parts.flatten.length = none → c.shown turn = [block]

/-- The token is shown no block, and the signature does not verify. -/
structure Withholds (c : Cycle) (turn : Turn τ) : Prop where
  never : c.shown turn = []
  denied : ∀ v, c.answer turn = .ok (.verdict v) → v = false
  underWay : c.engine.state = .initialized → c.engine.mode = some .verify →
    c.answer turn = .ok (.verdict false)

variable {scheme : Scheme} {d block : Bytes} {turn : Turn τ}

/-- What the token is shown in a turn, after any calls. -/
theorem run_shown (turns : List (Turn τ)) (hrequest : turn.request = .verify d) :
    let c := (Cycle.start scheme).run turns
    Shown scheme d (.start turn.pool.token) (c.engine.handle turn.request turn.pool.logged).2.2.token
      (c.answer turn) := by
  intro c
  have hcoherent : c.engine.Coherent scheme :=
    (run_follows (ofScheme_coherent scheme) (start_follows scheme) turns).1
  rw [answer_eq, hrequest]
  exact handle_verify_shown hcoherent d turn.pool.logged

/-- What a verifying operation under way comes to, after any calls. -/
theorem run_verifyReport (hresolved : scheme.Resolved) (turns : List (Turn τ))
    (hrequest : turn.request = .verify d) :
    let c := (Cycle.start scheme).run turns
    c.engine.state = .initialized → c.engine.mode = some .verify → c.engine.scheme = scheme
      ∧ ∃ session key,
        VerifyReport scheme key session c.parts.flatten d (c.events turn) (c.answer turn) := by
  intro c hstate hmode
  obtain ⟨session, key, mode, hsuits, hengine⟩ := run_underWay hresolved turns hstate
  rw [hengine] at hmode
  obtain rfl := Option.some.inj hmode
  exact ⟨congrArg (·.scheme) hengine, session, key,
    verifyReport_of_underWay hsuits hengine hrequest⟩

/-- A signature that can be read is handed on as the block that was read. -/
theorem run_hands (hresolved : scheme.Resolved) (turns : List (Turn τ))
    (hrequest : turn.request = .verify d) (hdecode : decodeSignature scheme d = .ok block) :
    ((Cycle.start scheme).run turns).Hands turn block := by
  have hshown := @run_shown _ _ scheme _ _ turns hrequest
  refine ⟨?_, ?_, ?_⟩
  · cases hshown with
    | nothing hnone => exact .inl hnone
    | block hread hone =>
        obtain rfl := Except.ok.inj (hread.symm.trans hdecode)
        exact .inr hone
  · intro v hverdict
    cases hshown with
    | nothing _ hunread =>
        obtain ⟨_, cause, herror⟩ := hunread v hverdict
        cases herror.symm.trans hdecode
    | block hread hone =>
        obtain rfl := Except.ok.inj (hread.symm.trans hdecode)
        exact hone
  · intro hstate hmode hfault
    obtain ⟨hscheme, session, key, hreport⟩ := run_verifyReport hresolved turns hrequest hstate hmode
    rw [hscheme] at hfault
    simp only [VerifyReport, hdecode, hfault] at hreport
    split at hreport
    · obtain ⟨result, hevents, _⟩ := hreport
      rw [shown, hevents]
      rfl
    · obtain ⟨result, hevents, _⟩ := hreport
      rw [shown, hevents]
      rfl

/-- A signature that cannot be read is kept from the token. -/
theorem run_withholds {cause : DecodeError} (hresolved : scheme.Resolved) (turns : List (Turn τ))
    (hrequest : turn.request = .verify d) (hdecode : decodeSignature scheme d = .error cause) :
    ((Cycle.start scheme).run turns).Withholds turn := by
  have hshown := @run_shown _ _ scheme _ _ turns hrequest
  refine ⟨?_, ?_, ?_⟩
  · cases hshown with
    | nothing hnone => exact hnone
    | block hread => cases hread.symm.trans hdecode
  · intro v hverdict
    cases hshown with
    | nothing _ hunread => exact (hunread v hverdict).1
    | block hread => cases hread.symm.trans hdecode
  · intro hstate hmode
    obtain ⟨_, session, key, hreport⟩ := run_verifyReport hresolved turns hrequest hstate hmode
    simp only [VerifyReport, hdecode] at hreport
    exact hreport.2

/-- **A DSA signature goes back to the token as the block it was, if that has the width of a DSA
    block.** After any calls of a DSA engine, over any token and with anything between them, let it
    hand out a signature. Then the token has made one block in that call, and the signature is its
    encoding. After any calls of any DSA engine, over any token, let that one be asked to verify the
    signature. A block of forty bytes is what the token is shown then, and no other. Any other block
    does not come back: the token is shown the same two numbers in twenty bytes each, or nothing, if
    one of the numbers does not fit. -/
theorem dsa_handed_back (hdsa : scheme.family = .dsa) (turns : List (Turn τ)) (turn : Turn τ)
    (hrequest : turn.request = .sign)
    (hanswer : ((Cycle.start scheme).run turns).answer turn = .ok (.signature d)) :
    ∃ block, ((Cycle.start scheme).run turns).made turn = [block]
      ∧ SignatureValue.Reread block d
      ∧ ∀ (υ : Type) [Token υ] (name : String) (mechanism : Mechanism) (scheme' : Scheme),
        Scheme.resolve name mechanism = .ok scheme' → scheme'.family = .dsa →
          ∀ (turns' : List (Turn υ)) (turn' : Turn υ), turn'.request = .verify d →
            (block.length = 2 * dsaHalfWidth →
              ((Cycle.start scheme').run turns').Hands turn' block)
            ∧ (∀ out, SignatureValue.dsaBlock d = .ok out →
              ((Cycle.start scheme').run turns').Hands turn' out)
            ∧ ∀ cause, SignatureValue.dsaBlock d = .error cause →
              ((Cycle.start scheme').run turns').Withholds turn' := by
  have hcoherent := (run_follows (ofScheme_coherent scheme) (start_follows scheme) turns).1
  rw [answer_eq, hrequest] at hanswer
  obtain ⟨block, hencode, hmade⟩ := handle_sign_ok hcoherent hanswer
  have hreread := SignatureValue.reread (encodeSignature_of_dsa hdsa hencode)
  refine ⟨block, ?_, hreread, ?_⟩
  · rw [made, events, hrequest]
    exact hmade
  · intro υ _ name mechanism scheme' hresolve' hdsa' turns' turn' hrequest'
    have hresolved' := Scheme.resolved_of_resolve hresolve'
    have hhands {out : Bytes} (hout : SignatureValue.dsaBlock d = .ok out) :
        ((Cycle.start scheme').run turns').Hands turn' out :=
      run_hands hresolved' turns' hrequest' ((decodeSignature_of_dsa hdsa' d).trans hout)
    refine ⟨fun hlength => hhands (hreread.same.mpr hlength), fun _ => hhands, ?_⟩
    intro cause herror
    exact run_withholds hresolved' turns' hrequest' ((decodeSignature_of_dsa hdsa' d).trans herror)

/-- A DSA engine that was started and given twenty bytes, and the call that asks it for the signature,
    over a token that makes this block next. -/
def askedFor (block : Bytes) : List (Turn Scripted) × Turn Scripted :=
  let key : Key := ⟨⟨2⟩, .privateKey, .dsa [0xff]⟩
  let token := { ((Scripted.empty none false).addPair block.length).2.2 with
    nextSignature := some block }
  let pool := Pool.empty token {}
  let started := (ofScheme ⟨.noneWithDsa, .dsa, .raw (.exact rawDsaLength)⟩).handle (.init key .sign)
    pool
  ([⟨.init key .sign, pool⟩, ⟨.update (List.replicate rawDsaLength 0), started.2.2⟩],
    ⟨.sign, started.2.2⟩)

/-- A block of the width of a DSA block, with zeros in front of both numbers. -/
def narrowBlock : Bytes := List.replicate 19 0 ++ 0x80 :: List.replicate 19 0 ++ [0x01]

/-- The token is shown its block by an engine that was started on another token. -/
theorem dsa_handed_back_of_narrow :
    let scheme : Scheme := ⟨.noneWithDsa, .dsa, .raw (.exact rawDsaLength)⟩
    let c := (Cycle.start scheme).run (askedFor narrowBlock).1
    let d := (SignatureValue.pairIn narrowBlock).encoding
    c.answer (askedFor narrowBlock).2 = .ok (.signature d)
      ∧ c.made (askedFor narrowBlock).2 = [narrowBlock]
      ∧ ∀ pool : Pool Scripted,
        ((Cycle.start scheme).run refusing).shown ⟨.verify d, pool⟩ = [narrowBlock] := by
  intro scheme c d
  have hanswer : c.answer (askedFor narrowBlock).2 = .ok (.signature d) := by decide +kernel
  have hmade : c.made (askedFor narrowBlock).2 = [narrowBlock] := by decide +kernel
  have hresolve : Scheme.resolve "RawDSA" .dsa = .ok scheme := by decide +kernel
  refine ⟨hanswer, hmade, fun pool => ?_⟩
  obtain ⟨block, hblock, _, hverifier⟩ := dsa_handed_back rfl _ _ rfl hanswer
  obtain rfl := List.singleton_inj.mp (hblock.symm.trans hmade)
  have hhands := (hverifier Scripted "RawDSA" .dsa scheme hresolve rfl refusing ⟨.verify d, pool⟩
    rfl).1 (by decide)
  exact hhands.underWay (by decide +kernel) (by decide +kernel) (by decide +kernel)

/-- A block with halves of thirty-two bytes. -/
def wideBlock : Bytes := List.replicate 64 0xff

/-- **A wider block does not come back.** The signature is handed out, and is read by no DSA engine. -/
theorem wide_not_handed_back :
    let scheme : Scheme := ⟨.noneWithDsa, .dsa, .raw (.exact rawDsaLength)⟩
    let c := (Cycle.start scheme).run (askedFor wideBlock).1
    let d := (SignatureValue.pairIn wideBlock).encoding
    Scheme.resolve "RawDSA" .dsa = .ok scheme
      ∧ c.answer (askedFor wideBlock).2 = .ok (.signature d)
      ∧ c.made (askedFor wideBlock).2 = [wideBlock]
      ∧ SignatureValue.dsaBlock d ≠ .ok wideBlock
      ∧ SignatureValue.dsaBlock d = .error (.tooWide 32 20) := by
  decide +kernel

end Cycle

end Engine

end Cryptoki
