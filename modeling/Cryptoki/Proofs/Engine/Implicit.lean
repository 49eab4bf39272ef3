import Cryptoki.Proofs.Engine.Lifecycle
import Cryptoki.Proofs.Token.Keys

/-!
# `Cryptoki.Proofs.Engine.Implicit` — a part starts an operation as a start does

A part of a message that finds no operation under way starts one. It skips what an explicit start
does first: checking the key, giving up what is under way, and binding the key. None of this makes a
difference, for any engine that has come about by calls: the bound key passes the check for the mode
that it is bound with, and is not measured again, so the token is not called; nothing is under way;
and the key is bound already.

## Contents
- `Engine.Coherent.accept_bound` — the bound key passes the check, without a call.
- `Engine.Coherent.startWith_bound` — starting anew with the bound key is starting.
- `Engine.startThenUpdate`, `Engine.Coherent.update_eq` — a part, with the start made explicit.
- `Engine.implicit_start` — the two ways cannot be told apart.
-/

namespace Cryptoki.Engine

variable {τ : Type} [Token τ] {scheme : Scheme} {e : Engine} {key : Key} {mode : OperationMode}

/-! ## Starting with what is bound -/

/-- The bound key passes the check for the mode it is bound with, and the token is not asked. -/
theorem Coherent.accept_bound (h : e.Coherent scheme) (hkey : e.key = some key)
    (hmode : e.mode = some mode) (p : Pool τ) : e.accept key mode p = (.ok (), p) := by
  obtain ⟨mode', hmode', haccept⟩ := h.accepted key hkey
  obtain rfl := Option.some.inj (hmode'.symm.trans hmode)
  unfold accept
  rw [haccept]
  -- a key that is bound already is not measured again
  exact if_pos hkey

/-- An engine at rest has nothing to give up. -/
theorem abandon_of_rest (hstate : e.state = .uninitialized) (p : Pool τ) :
    e.abandon p = (e, p) := by
  unfold abandon
  rw [hstate]

/-- Without a session there is nothing to give back. -/
theorem giveBack_of_none (hlease : e.lease = none) (p : Pool τ) :
    e.giveBack p = ({ e with state := .uninitialized }, p) := by
  simp only [giveBack, hlease]

/-- Binding what is bound changes nothing. -/
theorem rebind_eq (hkey : e.key = some key) (hmode : e.mode = some mode) :
    { e with key := some key, mode := some mode } = e := by
  rw [← hkey, ← hmode]

/-- Starting anew with the bound key and mode is starting. -/
theorem Coherent.startWith_bound (h : e.Coherent scheme) (hstate : e.state = .uninitialized)
    (hkey : e.key = some key) (hmode : e.mode = some mode) (p : Pool τ) :
    e.startWith key mode p = e.start p := by
  simp only [startWith, h.accept_bound hkey hmode, abandon_of_rest hstate, rebind_eq hkey hmode]

/-! ## A part of the message -/

/-- A start with a key, and then, if it succeeds, a part of the message. -/
def startThenUpdate (e : Engine) (key : Key) (mode : OperationMode) (data : Bytes) (p : Pool τ) :
    Except EngineError Answer × Engine × Pool τ :=
  match e.handle (.init key mode) p with
  | (.error err, e, p) => (.error err, e, p)
  | (.ok _, e, p) => e.handle (.update data) p

/-- A part that finds an operation under way does not start one. -/
theorem update_of_initialized (hstate : e.state = .initialized) (data : Bytes) (p : Pool τ) :
    e.update data p = if data = [] then (.ok (), e, p) else e.takeIn data p := by
  simp only [update, ensureStarted, hstate]

/-- A part that finds none starts one, and is taken in if that succeeds. -/
theorem update_of_rest (hstate : e.state = .uninitialized) (data : Bytes) (p : Pool τ) :
    e.update data p =
      match e.start p with
      | (.error err, e, p) => (.error err, e, p)
      | (.ok _, e, p) => e.update data p := by
  rw [update, ensureStarted, hstate]
  dsimp only
  rcases hstart : e.start p with ⟨err | u, e', q⟩
  · rfl
  · -- the part finds an operation now, and does not start another
    obtain ⟨_, _, hstate'⟩ := start_ok hstart
    exact (update_of_initialized hstate' data q).symm

/-- So it is with the answers that callers see. -/
theorem handle_update_of_rest (hstate : e.state = .uninitialized) (data : Bytes) (p : Pool τ) :
    e.handle (.update data) p =
      match e.start p with
      | (.error err, e, p) => (.error err, e, p)
      | (.ok _, e, p) => e.handle (.update data) p := by
  simp only [handle, update_of_rest hstate data p]
  rcases e.start p with ⟨err | u, e', q⟩ <;> rfl

/-- **A part starts an operation as a start does**, in an engine that is coherent. -/
theorem Coherent.update_eq (h : e.Coherent scheme) (hstate : e.state = .uninitialized)
    (hkey : e.key = some key) (hmode : e.mode = some mode) (data : Bytes) (p : Pool τ) :
    e.handle (.update data) p = e.startThenUpdate key mode data p := by
  rw [handle_update_of_rest hstate]
  simp only [startThenUpdate, handle, h.startWith_bound hstate hkey hmode]
  rcases e.start p with ⟨err | u, e', q⟩ <;> rfl

/-- **Implicit and explicit starts cannot be told apart.** After any calls, over any token and with
    anything between them, let an engine be at rest with a key and a mode bound. Then a part of the
    message has the same result as an explicit start with the key in the mode and, if that succeeds,
    the part after it; and it leaves the same engine, pool and token. If the token remembers its
    calls, they are the same calls with the same answers in the same order. -/
theorem implicit_start (turns : List (Turn τ))
    (hstate : ((ofScheme scheme).after turns).state = .uninitialized)
    (hkey : ((ofScheme scheme).after turns).key = some key)
    (hmode : ((ofScheme scheme).after turns).mode = some mode) (data : Bytes) :
    let e := (ofScheme scheme).after turns
    (∀ p : Pool τ, e.handle (.update data) p = e.startThenUpdate key mode data p)
      ∧ ∀ p : Pool (Logged τ), e.handle (.update data) p = e.startThenUpdate key mode data p
        ∧ (e.handle (.update data) p).2.2.token.log
          = (e.startThenUpdate key mode data p).2.2.token.log := by
  intro e
  have h : e.Coherent scheme := after_coherent (ofScheme_coherent scheme) turns
  refine ⟨h.update_eq hstate hkey hmode data, ?_⟩
  intro p
  have hsame := h.update_eq hstate hkey hmode data p
  exact ⟨hsame, by rw [hsame]⟩

/-- A token with one key pair, whose private half is the key. -/
def storedKey : Key × Software .standard :=
  let (pair, token) := Software.addEc (.empty none false) ⟨1, Nat.one_pos, Secp256k1.one_lt_order⟩
  (pair.privateKey, token)

/-- An engine that was started with the key and then told to give up. -/
def givenUp : List (Turn (Software .standard)) :=
  let pool := Pool.empty storedKey.2 {}
  let started := (ofScheme ⟨.sha1WithEcdsa, .ecdsaSha1, .stream⟩).handle (.init storedKey.1 .sign) pool
  [⟨.init storedKey.1 .sign, pool⟩, ⟨.cancel, started.2.2⟩]

/-- After an operation was given up, a part starts another, and succeeds. -/
theorem implicit_start_of_givenUp :
    let e := (ofScheme ⟨.sha1WithEcdsa, .ecdsaSha1, .stream⟩).after givenUp
    let p : Pool (Logged (Software .standard)) := .empty (.start storedKey.2) {}
    e.state = .uninitialized ∧ e.key = some storedKey.1 ∧ e.mode = some .sign
      ∧ e.handle (.update [1]) p = e.startThenUpdate storedKey.1 .sign [1] p
      ∧ (e.handle (.update [1]) p).1 = .ok .done := by
  intro e p
  have hstate : e.state = .uninitialized := by decide +kernel
  have hkey : e.key = some storedKey.1 := by decide +kernel
  have hmode : e.mode = some .sign := by decide +kernel
  have hresult : (e.handle (.update [1]) p).1 = .ok .done := by decide +kernel
  exact ⟨hstate, hkey, hmode, ((implicit_start givenUp hstate hkey hmode [1]).2 p).1, hresult⟩

end Cryptoki.Engine
