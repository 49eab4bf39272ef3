import Cryptoki.Proofs.Token.Logged
import Cryptoki.Token.Software

/-!
# `Cryptoki.Proofs.Token.Keys` — key pairs stay as they were stored

A pair is stored under two numbers that were never given before, and no call removes a key or puts
another in its place. So what a pair was stored as is what its handles find from then on.

## Contents
- `KeySecret`, `Software.addPair` — a pair, by its secret half, and storing it.
- `Software.Holds` — the handles of a pair find its halves.
- `Software.settings`, `Software.answer_settings` — what calls leave as it is.
- `Software.addPair_holds`, `Software.Holds.addPair`, `Software.Holds.reached` — from when it is
  stored, and for good.
-/

namespace Cryptoki

/-! ## Pairs -/

/-- A key pair, by its secret half. -/
inductive KeySecret
  | rsa (k : Rsa.PrivateKey)
  | ec (k : Ecdsa.SecretKey)

/-- One is the scalar of a key. -/
theorem Secp256k1.one_lt_order : 1 < order := by decide +kernel

namespace KeySecret

/-- The family of the pair. -/
def family : KeySecret → KeyFamily
  | rsa _ => .rsa
  | ec _ => .ec

/-- The public numbers that the pair is described by. -/
def params : KeySecret → KeyParameters
  | rsa k => .rsa (Bytes.ofNat k.modulus)
  | ec _ => .ec secp256k1Bits

/-- What is stored of each half. -/
def stored : KeySecret → KeyHalf → StoredKey
  | rsa k, .privateKey => .rsaPrivate k
  | rsa k, .publicKey => .rsaPublic k.toPublicKey
  | ec k, .privateKey => .ecPrivate k
  | ec k, .publicKey => .ecPublic k.publicKey

variable (secret : KeySecret) (half : KeyHalf)

theorem family_params : secret.params.family = secret.family := by cases secret <;> rfl

theorem family_ne_dsa : secret.family ≠ .dsa := by cases secret <;> exact nofun

theorem family_stored : (secret.stored half).family = secret.family := by
  cases secret <;> cases half <;> rfl

theorem half_stored : (secret.stored half).half = half := by
  cases secret <;> cases half <;> rfl

end KeySecret

/-- The half of a pair that a mode works with. -/
def KeyPair.keyFor (pair : KeyPair) : OperationMode → Key
  | .sign => pair.privateKey
  | .verify => pair.publicKey

namespace Software

variable {ops : KeyOperations} {t u : Software ops} {secret : KeySecret} {pair : KeyPair}

/-- Stores a key pair. -/
def addPair (t : Software ops) : KeySecret → KeyPair × Software ops
  | .rsa k => t.addRsa k
  | .ec k => t.addEc k

/-- The handles of a pair find its halves, and each is described as it is. -/
structure Holds (t : Software ops) (secret : KeySecret) (pair : KeyPair) : Prop where
  half : ∀ mode, (pair.keyFor mode).half = mode.half
  params : ∀ mode, (pair.keyFor mode).params = secret.params
  stored : ∀ mode, t.keys.get? (pair.keyFor mode).handle = some (secret.stored mode.half)
  numbered : ∀ mode, (pair.keyFor mode).handle.value ≤ t.lastHandle

/-- Of two pairs with one private key on a token, the secrets are one. -/
theorem Holds.secret_eq {secret' : KeySecret} {pair' : KeyPair} (h : t.Holds secret pair)
    (h' : t.Holds secret' pair') (hsame : pair'.privateKey = pair.privateKey) :
    secret' = secret := by
  have hstored : t.keys.get? pair.privateKey.handle = some (secret.stored .privateKey) :=
    h.stored .sign
  have hstored' : t.keys.get? pair'.privateKey.handle = some (secret'.stored .privateKey) :=
    h'.stored .sign
  rw [hsame, hstored] at hstored'
  have heq := Option.some.inj hstored'
  cases secret with
  | rsa k =>
      cases secret' with
      | rsa k' => rw [StoredKey.rsaPrivate.inj heq]
      | ec k' => cases heq
  | ec k =>
      cases secret' with
      | rsa k' => cases heq
      | ec k' => rw [StoredKey.ecPrivate.inj heq]

/-! ## Storing -/

/-- Storing is the same for all kinds of pairs. -/
theorem addPair_eq (t : Software ops) (secret : KeySecret) :
    t.addPair secret
      = t.storePair (secret.stored .privateKey) (secret.stored .publicKey) secret.params := by
  cases secret <;> rfl

/-- The pair has the next two numbers, and other keys are found as before. -/
theorem get?_addPair (t : Software ops) (secret : KeySecret) (handle : ObjectHandle) :
    (t.addPair secret).2.keys.get? handle =
      if handle = ⟨t.lastHandle + 2⟩ then some (secret.stored .publicKey)
      else if handle = ⟨t.lastHandle + 1⟩ then some (secret.stored .privateKey)
      else t.keys.get? handle := by
  rw [addPair_eq]
  simp only [storePair, store, Table.get?_insert]

/-- A key whose number was given before is found as before. -/
theorem get?_addPair_of_le {handle : ObjectHandle} (h : handle.value ≤ t.lastHandle)
    (secret : KeySecret) : (t.addPair secret).2.keys.get? handle = t.keys.get? handle := by
  have hne : ∀ n, t.lastHandle < n → handle ≠ ⟨n⟩ := by
    rintro n hlt rfl
    exact absurd h (Nat.not_le.mpr hlt)
  rw [get?_addPair, if_neg (hne _ (by omega)), if_neg (hne _ (by omega))]

theorem handles_addPair (t : Software ops) (secret : KeySecret) :
    (t.addPair secret).1.privateKey.handle = ⟨t.lastHandle + 1⟩
      ∧ (t.addPair secret).1.publicKey.handle = ⟨t.lastHandle + 2⟩ := by
  rw [addPair_eq]
  exact ⟨rfl, rfl⟩

/-- Storing keys does not touch the sessions. -/
theorem sessions_addPair (t : Software ops) (secret : KeySecret) :
    (t.addPair secret).2.sessions = t.sessions := by
  rw [addPair_eq]
  rfl

theorem lastHandle_addPair (t : Software ops) (secret : KeySecret) :
    (t.addPair secret).2.lastHandle = t.lastHandle + 2 := by
  rw [addPair_eq]
  rfl

theorem addPair_holds (t : Software ops) (secret : KeySecret) :
    (t.addPair secret).2.Holds secret (t.addPair secret).1 := by
  have hpair : (t.addPair secret).1
      = ⟨⟨⟨t.lastHandle + 1⟩, .privateKey, secret.params⟩,
        ⟨⟨t.lastHandle + 2⟩, .publicKey, secret.params⟩⟩ := by
    rw [addPair_eq]
    rfl
  rw [hpair]
  constructor
  · intro mode
    cases mode <;> rfl
  · intro mode
    cases mode <;> rfl
  · intro mode
    rw [get?_addPair]
    cases mode with
    | sign => simp [KeyPair.keyFor, OperationMode.half]
    | verify => simp [KeyPair.keyFor, OperationMode.half]
  · intro mode
    rw [lastHandle_addPair]
    cases mode with
    | sign => exact Nat.le_succ _
    | verify => exact Nat.le_refl _

/-- Another pair is stored under other numbers. -/
theorem Holds.addPair (h : t.Holds secret pair) (other : KeySecret) :
    (t.addPair other).2.Holds secret pair := by
  refine ⟨h.half, h.params, ?_, ?_⟩
  · intro mode
    rw [get?_addPair_of_le (h.numbered mode), h.stored mode]
  · intro mode
    rw [lastHandle_addPair]
    exact Nat.le_succ_of_le (Nat.le_succ_of_le (h.numbered mode))

/-! ## Calls -/

/-- What a token has beside its sessions. -/
structure Settings where
  keys : Table ObjectHandle StoredKey
  lastHandle : Nat
  limit : Option Nat
  sessionObjects : Bool

def settings (t : Software ops) : Settings :=
  ⟨t.keys, t.lastHandle, t.sessions.limit, t.sessionObjects⟩

/-- **A call changes nothing but the sessions.** -/
theorem answer_settings (call : Call) (t : Software ops) :
    (Token.answer call t).2.settings = t.settings := by
  have hcomplete : ∀ {α : Type} session mode data
      (keyOperation : Mechanism → Bytes → StoredKey → Except ReturnCode α),
      (t.complete session mode data keyOperation).2.settings = t.settings := by
    intro α session mode data keyOperation
    unfold complete
    split <;> rfl
  cases call with
  | openSession =>
      simp only [Token.answer, Sessions.openNext]
      split <;> rfl
  | closeSession session =>
      simp only [Token.answer, Sessions.close]
      split <;> rfl
  | mechanismInfo mechanism => rfl
  | operate session primitive =>
      simp only [Token.answer]
      cases primitive with
      | init mode mechanism key =>
          simp only [operate, Software.init]
          split <;> rfl
      | update mode data =>
          simp only [operate, Software.update]
          split
          · rfl
          · split <;> rfl
      | signFinal expectedLength => exact hcomplete _ _ _ _
      | sign data => exact hcomplete _ _ _ _
      | verifyFinal signature => exact hcomplete _ _ _ _
      | verify data signature => exact hcomplete _ _ _ _

/-- So it changes none of the keys. -/
theorem answer_keys (call : Call) (t : Software ops) :
    (Token.answer call t).2.keys = t.keys ∧ (Token.answer call t).2.lastHandle = t.lastHandle :=
  ⟨congrArg Settings.keys (answer_settings call t),
    congrArg Settings.lastHandle (answer_settings call t)⟩

/-- And it changes nothing about how many sessions may be open. -/
theorem limit_answer (call : Call) (t : Software ops) :
    (Token.answer call t).2.sessions.limit = t.sessions.limit :=
  congrArg Settings.limit (answer_settings call t)

/-- What there is after a pair was stored depends on what there was before. -/
theorem settings_addPair (h : u.settings = t.settings) (secret : KeySecret) :
    (u.addPair secret).2.settings = (t.addPair secret).2.settings := by
  obtain ⟨hkeys, hlast, hlimit, hobjects⟩ := Settings.mk.inj h
  simp only [addPair_eq, storePair, store, settings, hkeys, hlast, hlimit, hobjects]

theorem Holds.answer (h : t.Holds secret pair) (call : Call) :
    (Token.answer call t).2.Holds secret pair := by
  obtain ⟨hkeys, hlast⟩ := answer_keys call t
  exact ⟨h.half, h.params, fun mode => hkeys ▸ h.stored mode, fun mode => hlast ▸ h.numbered mode⟩

/-- **A pair is found wherever calls lead.** -/
theorem Holds.reached {t u : Logged (Software ops)} (h : t.token.Holds secret pair)
    (hreached : Token.Reached t u) : u.token.Holds secret pair := by
  apply hreached.keeps (P := fun t => t.token.Holds secret pair) _ h
  intro call t ht
  exact Holds.answer ht call

end Software

end Cryptoki
