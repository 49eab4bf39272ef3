import Cryptoki.Proofs.Engine.Binding
import Cryptoki.Proofs.Engine.Presented

/-!
# `Cryptoki.Proofs.Engine.Finish` — what an operation under way comes to

With a key of its scheme an engine can always bring a digest to the form the token takes, since the
check of the key's size has made sure that it fits. Only raw input can have a length that is not
allowed. So when an operation is ended, one call is made on the message and its answer decides, or
none is made for one of two reasons: the signature cannot be read, or the raw input is too short or
too long.

## Contents
- `Scheme.lengthFault?` — raw input of a length that is not allowed.
- `Engine.finalInput_eq` — what the token gets, in full.
- `Engine.underWay` — an engine between the start and the end of an operation.
- `Engine.sign_streamed`, `Engine.sign_gathered`, `Engine.sign_wrongLength` — ending with a signature.
- `Engine.verify_unread`, `Engine.verify_streamed`, `Engine.verify_gathered`,
  `Engine.verify_wrongLength` — ending with a verdict.
-/

namespace Cryptoki

namespace Scheme

/-- The rule that raw input of `n` bytes breaks, if it does. -/
def lengthFault? (scheme : Scheme) (n : Nat) : Option LengthRule :=
  match scheme.processing with
  | .raw rule => if rule.Allows n then none else some rule
  | _ => none

/-- Input that is digested or passed on may have any length. -/
theorem lengthFault?_of_not_raw {scheme : Scheme} (hraw : ∀ rule, scheme.processing ≠ .raw rule)
    (n : Nat) : scheme.lengthFault? n = none := by
  unfold lengthFault?
  split
  · next rule hproc => exact absurd hproc (hraw rule)
  · rfl

end Scheme

namespace Engine

variable {τ : Type} [Token τ] {scheme : Scheme} {e : Engine} {key : Key} {parts : List Bytes}

/-! ## The last input -/

/-- With a key that suits the scheme, a digest can be brought to its form. -/
theorem tokenForm_isOk {a : DigestAlgorithm} (hsuits : e.scheme.Suits key) (hkey : e.key = some key)
    (hproc : e.scheme.processing = .digestHere a) (message : Bytes) :
    ∃ data, e.tokenForm (a.digest message) = .ok data := by
  by_cases hrsa : e.scheme.family = .rsa
  · simp only [tokenForm, Scheme.wrappedDigest_of_rsa hproc hrsa, DigestInfo.encode_digest]
    split
    · -- the block is padded here: its size was checked with the key
      have hdigest := hsuits.resolved.digest_eq hproc
      have hroom := hsuits.roomy (hsuits.family_eq.trans hrsa)
      obtain ⟨padding, hpadding, hfits⟩ := Scheme.padding_of_headroom hroom hdigest
      rw [← DigestInfo.length_encoding_digest a message] at hfits
      simp only [hkey, hpadding, BlockPadding.pad, if_pos hfits]
      exact ⟨_, rfl⟩
    · exact ⟨_, rfl⟩
  · rw [tokenForm, Scheme.wrappedDigest_of_ne_rsa hrsa]
    exact ⟨_, rfl⟩

theorem finalInput_isOk_of_digest {a : DigestAlgorithm} (hsuits : e.scheme.Suits key)
    (hkey : e.key = some key) (hproc : e.scheme.processing = .digestHere a)
    (hpending : e.pending = .ofParts e.scheme.processing parts) :
    ∃ data, e.finalInput.1 = .ok data := by
  have htake := PendingInput.takeDigest_ofParts a parts
  rw [← hproc, ← hpending] at htake
  obtain ⟨data, hform⟩ := tokenForm_isOk hsuits hkey hproc parts.flatten
  refine ⟨data, ?_⟩
  simp only [finalInput, hproc]
  split
  · next hash pending hout =>
      rw [hout] at htake
      rw [Except.ok.inj htake]
      exact hform
  · next err pending hout =>
      rw [hout] at htake
      cases htake

/-- What the token gets: the message in its form, unless raw input breaks its rule. -/
theorem finalInput_eq (hsuits : e.scheme.Suits key) (hkey : e.key = some key)
    (hproc : e.scheme.processing ≠ .stream)
    (hpending : e.pending = .ofParts e.scheme.processing parts) :
    e.finalInput.1 =
      match e.scheme.lengthFault? parts.flatten.length with
      | none => .ok (e.scheme.presented key parts.flatten)
      | some rule => .error (.wrongLength rule) := by
  cases hcase : e.scheme.processing with
  | stream => exact absurd hcase hproc
  | digestHere a =>
      simp only [Scheme.lengthFault?, hcase]
      obtain ⟨data, hdata⟩ := finalInput_isOk_of_digest hsuits hkey hcase hpending
      rw [hdata, (finalInput_ofParts hkey hpending hdata).1]
  | raw rule =>
      have hgathered := PendingInput.gathered_ofParts rule parts
      rw [← hcase, ← hpending] at hgathered
      simp only [finalInput, Scheme.lengthFault?, hcase, hgathered]
      by_cases hallows : rule.Allows parts.flatten.length
      · simp only [if_pos hallows, tokenForm, Scheme.wrappedDigest_of_raw hcase, Scheme.presented,
          hcase]
      · simp only [if_neg hallows]

/-! ## An operation under way -/

/-- An engine that was started with a key and a mode in a session, and took in some parts since. -/
def underWay (scheme : Scheme) (key : Key) (mode : OperationMode) (session : SessionId)
    (parts : List Bytes) : Engine where
  scheme := scheme
  key := some key
  mode := some mode
  lease := some ⟨session, true⟩
  pending := .ofParts scheme.processing parts
  state := .initialized

variable {mode : OperationMode} {session : SessionId} {p q : Pool τ} {lease' : Lease}

/-- The engine while it makes the last call. -/
def closing (scheme : Scheme) (key : Key) (mode : OperationMode) (session : SessionId)
    (parts : List Bytes) : Engine :=
  { underWay scheme key mode session parts with state := .uninitialized, lease := none }

theorem takeLease_underWay :
    (underWay scheme key mode session parts).takeLease mode p
      = (.ok ⟨session, true⟩, closing scheme key mode session parts, p) := by
  simp only [takeLease, expectMode, underWay, if_true, ensureStarted]
  rfl

/-- The last input of an operation under way. -/
theorem finalInput_closing (mode : OperationMode) (session : SessionId) (parts : List Bytes)
    (hsuits : scheme.Suits key) (hproc : scheme.processing ≠ .stream) :
    (closing scheme key mode session parts).finalInput.1 =
      match scheme.lengthFault? parts.flatten.length with
      | none => .ok (scheme.presented key parts.flatten)
      | some rule => .error (.wrongLength rule) :=
  finalInput_eq (e := closing scheme key mode session parts) hsuits rfl hproc rfl

/-! ## The last call -/

variable {lease : Lease} {input block signature : Bytes}

/-- The last input changes nothing but the pending input. -/
theorem finalInput_eq_mk {out : Except EngineError Bytes} (h : e.finalInput.1 = out) :
    ∃ pending, e.finalInput = (out, { e with pending }) := by
  obtain ⟨pending, hengine, _⟩ := e.finalInput_engine
  exact ⟨pending, Prod.ext h hengine⟩

/-- What callers get for the answer of the token to a request for a signature. -/
def signReport (scheme : Scheme) (operation : Operation) (result : Except ReturnCode Bytes) :
    Except EngineError Bytes :=
  (result.mapError (.tokenFailure operation)).bind (encodeSignature scheme)

/-- Where the token has the message already, it is asked for the signature of that. -/
theorem signOn_streamed {result : Except ReturnCode Bytes} (hproc : e.scheme.processing = .stream)
    (hop : lease.operate (.signFinal e.scheme.expectedLength) p = (result, lease', q)) :
    ∃ e', e.signOn lease p = (signReport e.scheme .signFinal result, e', lease', q) := by
  have hblock : e.signBlock lease p
      = (result.mapError (.tokenFailure .signFinal), e, lease', q) := by
    simp only [signBlock, hproc]
    rw [hop]
  unfold signOn
  rw [hblock]
  cases result <;> exact ⟨_, rfl⟩

/-- Where it has not, it is given the last input. -/
theorem signOn_gathered {result : Except ReturnCode Bytes} (hproc : e.scheme.processing ≠ .stream)
    (hinput : e.finalInput.1 = .ok input)
    (hop : lease.operate (.sign input) p = (result, lease', q)) :
    ∃ e', e.signOn lease p = (signReport e.scheme .sign result, e', lease', q) := by
  obtain ⟨pending, hfinal⟩ := finalInput_eq_mk hinput
  have hblock : e.signBlock lease p
      = (result.mapError (.tokenFailure .sign), { e with pending }, lease', q) := by
    unfold signBlock
    split
    · next hstream => exact absurd hstream hproc
    · rw [hfinal]
      dsimp only
      rw [hop]
  unfold signOn
  rw [hblock]
  cases result <;> exact ⟨_, rfl⟩

/-- Without a last input, no call is made. -/
theorem signOn_refused {err : EngineError} (hproc : e.scheme.processing ≠ .stream)
    (hinput : e.finalInput.1 = .error err) (lease : Lease) (p : Pool τ) :
    ∃ e', e.signOn lease p = (.error err, e', lease, p) := by
  obtain ⟨pending, hfinal⟩ := finalInput_eq_mk hinput
  have hblock : e.signBlock lease p = (.error err, { e with pending }, lease, p) := by
    unfold signBlock
    split
    · next hstream => exact absurd hstream hproc
    · rw [hfinal]
  unfold signOn
  rw [hblock]
  exact ⟨_, rfl⟩

/-- A signature that cannot be read is not shown to the token. -/
theorem verifyOn_unread {cause : DecodeError}
    (hdecode : decodeSignature e.scheme signature = .error cause) :
    e.verifyOn lease signature p = (.ok false, e, lease, p) := by
  simp only [verifyOn, hdecode]

/-- A signature that can be read goes on as the block of it. -/
theorem verifyOn_read (hdecode : decodeSignature e.scheme signature = .ok block) :
    e.verifyOn lease signature p = e.verifyBlock lease block p := by
  simp only [verifyOn, hdecode]

theorem verifyOn_streamed {result : Except ReturnCode Unit}
    (hdecode : decodeSignature e.scheme signature = .ok block)
    (hproc : e.scheme.processing = .stream)
    (hop : lease.operate (.verifyFinal block) p = (result, lease', q)) :
    ∃ e', e.verifyOn lease signature p = (verdictOf .verifyFinal result, e', lease', q) := by
  rw [verifyOn_read hdecode]
  simp only [verifyBlock, hproc]
  rw [hop]
  exact ⟨_, rfl⟩

theorem verifyOn_gathered {result : Except ReturnCode Unit}
    (hdecode : decodeSignature e.scheme signature = .ok block)
    (hproc : e.scheme.processing ≠ .stream) (hinput : e.finalInput.1 = .ok input)
    (hop : lease.operate (.verify input block) p = (result, lease', q)) :
    ∃ e', e.verifyOn lease signature p = (verdictOf .verify result, e', lease', q) := by
  obtain ⟨pending, hfinal⟩ := finalInput_eq_mk hinput
  rw [verifyOn_read hdecode]
  unfold verifyBlock
  split
  · next hstream => exact absurd hstream hproc
  · rw [hfinal]
    dsimp only
    rw [hop]
    exact ⟨_, rfl⟩

theorem verifyOn_refused {err : EngineError}
    (hdecode : decodeSignature e.scheme signature = .ok block)
    (hproc : e.scheme.processing ≠ .stream) (hinput : e.finalInput.1 = .error err) (lease : Lease)
    (p : Pool τ) :
    ∃ e', e.verifyOn lease signature p = (.error err, e', lease, p) := by
  obtain ⟨pending, hfinal⟩ := finalInput_eq_mk hinput
  rw [verifyOn_read hdecode]
  unfold verifyBlock
  split
  · next hstream => exact absurd hstream hproc
  · rw [hfinal]
    exact ⟨_, rfl⟩

/-! ## Ending an operation -/

/-- The answer to a request for a signature, and the pool, come from the last call. -/
theorem handle_sign {out : Except EngineError Bytes} {e' : Engine}
    (h : (closing scheme key .sign session parts).signOn ⟨session, true⟩ p = (out, e', lease', q)) :
    (underWay scheme key .sign session parts).handle .sign p
      = (out.map .signature, e', lease'.close q) := by
  simp only [handle, sign, takeLease_underWay]
  rw [h]

/-- So do the verdict on a signature, and the pool. -/
theorem handle_verify {out : Except EngineError Bool} {e' : Engine}
    (h : (closing scheme key .verify session parts).verifyOn ⟨session, true⟩ signature p
      = (out, e', lease', q)) :
    (underWay scheme key .verify session parts).handle (.verify signature) p
      = (out.map .verdict, e', lease'.close q) := by
  simp only [handle, verify, takeLease_underWay]
  rw [h]

/-- Only raw input can have a length that is not allowed. -/
theorem ne_stream_of_lengthFault? {rule : LengthRule} {n : Nat}
    (h : scheme.lengthFault? n = some rule) : scheme.processing ≠ .stream := by
  intro hstream
  simp only [Scheme.lengthFault?, hstream] at h
  cases h

theorem sign_streamed (key : Key) (parts : List Bytes) {result : Except ReturnCode Bytes}
    (hproc : scheme.processing = .stream)
    (hop : (⟨session, true⟩ : Lease).operate (.signFinal scheme.expectedLength) p
      = (result, lease', q)) :
    ∃ e', (underWay scheme key .sign session parts).handle .sign p
      = ((signReport scheme .signFinal result).map .signature, e', lease'.close q) := by
  obtain ⟨e', hlast⟩ :=
    signOn_streamed (e := closing scheme key .sign session parts) hproc hop
  exact ⟨e', handle_sign hlast⟩

theorem sign_gathered {result : Except ReturnCode Bytes} (hsuits : scheme.Suits key)
    (hproc : scheme.processing ≠ .stream)
    (hfault : scheme.lengthFault? parts.flatten.length = none)
    (hop : (⟨session, true⟩ : Lease).operate (.sign (scheme.presented key parts.flatten)) p
      = (result, lease', q)) :
    ∃ e', (underWay scheme key .sign session parts).handle .sign p
      = ((signReport scheme .sign result).map .signature, e', lease'.close q) := by
  have hinput := finalInput_closing .sign session parts hsuits hproc
  rw [hfault] at hinput
  obtain ⟨e', hlast⟩ :=
    signOn_gathered (e := closing scheme key .sign session parts) hproc hinput hop
  exact ⟨e', handle_sign hlast⟩

theorem sign_wrongLength {rule : LengthRule} (hsuits : scheme.Suits key)
    (hfault : scheme.lengthFault? parts.flatten.length = some rule) (session : SessionId)
    (p : Pool τ) :
    ∃ e', (underWay scheme key .sign session parts).handle .sign p
      = (.error (.wrongLength rule), e', (⟨session, true⟩ : Lease).close p) := by
  have hproc := ne_stream_of_lengthFault? hfault
  have hinput := finalInput_closing .sign session parts hsuits hproc
  rw [hfault] at hinput
  obtain ⟨e', hlast⟩ :=
    signOn_refused (e := closing scheme key .sign session parts) hproc hinput ⟨session, true⟩ p
  exact ⟨e', handle_sign hlast⟩

theorem verify_unread {cause : DecodeError}
    (hdecode : decodeSignature scheme signature = .error cause) (key : Key) (session : SessionId)
    (parts : List Bytes) (p : Pool τ) :
    ∃ e', (underWay scheme key .verify session parts).handle (.verify signature) p
      = (.ok (.verdict false), e', (⟨session, true⟩ : Lease).close p) :=
  ⟨_, handle_verify (verifyOn_unread hdecode)⟩

theorem verify_streamed (key : Key) (parts : List Bytes) {result : Except ReturnCode Unit}
    (hdecode : decodeSignature scheme signature = .ok block)
    (hproc : scheme.processing = .stream)
    (hop : (⟨session, true⟩ : Lease).operate (.verifyFinal block) p = (result, lease', q)) :
    ∃ e', (underWay scheme key .verify session parts).handle (.verify signature) p
      = ((verdictOf .verifyFinal result).map .verdict, e', lease'.close q) := by
  obtain ⟨e', hlast⟩ :=
    verifyOn_streamed (e := closing scheme key .verify session parts) hdecode hproc hop
  exact ⟨e', handle_verify hlast⟩

theorem verify_gathered {result : Except ReturnCode Unit} (hsuits : scheme.Suits key)
    (hdecode : decodeSignature scheme signature = .ok block)
    (hproc : scheme.processing ≠ .stream)
    (hfault : scheme.lengthFault? parts.flatten.length = none)
    (hop : (⟨session, true⟩ : Lease).operate
      (.verify (scheme.presented key parts.flatten) block) p = (result, lease', q)) :
    ∃ e', (underWay scheme key .verify session parts).handle (.verify signature) p
      = ((verdictOf .verify result).map .verdict, e', lease'.close q) := by
  have hinput := finalInput_closing .verify session parts hsuits hproc
  rw [hfault] at hinput
  obtain ⟨e', hlast⟩ :=
    verifyOn_gathered (e := closing scheme key .verify session parts) hdecode hproc hinput hop
  exact ⟨e', handle_verify hlast⟩

theorem verify_wrongLength {rule : LengthRule} (hsuits : scheme.Suits key)
    (hdecode : decodeSignature scheme signature = .ok block)
    (hfault : scheme.lengthFault? parts.flatten.length = some rule) (session : SessionId)
    (p : Pool τ) :
    ∃ e', (underWay scheme key .verify session parts).handle (.verify signature) p
      = (.error (.wrongLength rule), e', (⟨session, true⟩ : Lease).close p) := by
  have hproc := ne_stream_of_lengthFault? hfault
  have hinput := finalInput_closing .verify session parts hsuits hproc
  rw [hfault] at hinput
  obtain ⟨e', hlast⟩ :=
    verifyOn_refused (e := closing scheme key .verify session parts) hdecode hproc hinput
      ⟨session, true⟩ p
  exact ⟨e', handle_verify hlast⟩

end Engine

end Cryptoki
