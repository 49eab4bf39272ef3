import Cryptoki.Digest.Stream
import Cryptoki.Proofs.Digest.Length

/-!
# `Cryptoki.Proofs.Digest.Hasher` — what is expected of a hash function

States of a hash function are compared by the digests that they lead to, as nothing else is seen of
them. The laws say, up to that, that a piece after another is both in one, that starting over leads
back to the start, and that the pieces come to the digest of the whole message. A block hash keeps
them: blocks are folded in from the front, so what is left of one piece meets the next.

## Contents
- `Hasher.Call`, `Hasher.answers` — any calls on a hash function.
- `Hasher.Alike` — states that no calls tell apart.
- `Hasher.Lawful`, `LawfulHashers` — the laws, for one hash function and for one of each algorithm.
- `BlockHash.absorb_append` — folding in two stretches of bytes, one after the other.
- `BlockHash.lawful_hasher` — a block hash keeps the laws.
- `DigestAlgorithm.digest_published` — the standard algorithms, on two messages.
-/

namespace Cryptoki

/-! ## States that are told apart -/

namespace Hasher

/-- A call on a hash function. -/
inductive Call
  | update (data : Bytes)
  | reset
  | finish

variable (h : Hasher)

/-- The digests that calls answer, in order. -/
def answers (s : h.State) : List Call → List Bytes
  | [] => []
  | .update data :: calls => answers (h.update s data) calls
  | .reset :: calls => answers (h.reset s) calls
  | .finish :: calls => (h.finish s).1 :: answers (h.finish s).2 calls

/-- No calls tell the two states apart. -/
def Alike (s t : h.State) : Prop := ∀ calls, h.answers s calls = h.answers t calls

variable {h} {s t u : h.State}

theorem Alike.refl (s : h.State) : h.Alike s s := fun _ => rfl

theorem Alike.symm (hst : h.Alike s t) : h.Alike t s := fun calls => (hst calls).symm

theorem Alike.trans (hst : h.Alike s t) (htu : h.Alike t u) : h.Alike s u :=
  fun calls => (hst calls).trans (htu calls)

theorem Alike.update (hst : h.Alike s t) (data : Bytes) :
    h.Alike (h.update s data) (h.update t data) := fun calls => hst (.update data :: calls)

theorem Alike.finish_eq (hst : h.Alike s t) : (h.finish s).1 = (h.finish t).1 :=
  List.head_eq_of_cons_eq (hst [.finish])

/-! ## The laws -/

/-- What a hash function with digests of `size` bytes promises. -/
structure Lawful (h : Hasher) (size : Nat) : Prop where
  /-- No bytes make no difference. -/
  update_nil : ∀ s, h.Alike (h.update s []) s
  /-- A piece after another is both in one. -/
  update_append : ∀ s x y, h.Alike (h.update (h.update s x) y) (h.update s (x ++ y))
  /-- Nothing is left of what was forgotten, -/
  reset : ∀ s, h.Alike (h.reset s) h.start
  /-- nor of what was finished. -/
  finish : ∀ s, h.Alike (h.finish s).2 h.start
  /-- A message taken in as a whole has the digest that it has in one step. -/
  finish_update : ∀ message, (h.finish (h.update h.start message)).1 = h.hash message
  length_hash : ∀ message, (h.hash message).length = size

end Hasher

/-- A family of hash functions, one for each algorithm, with digests of the length that it
    announces. -/
class LawfulHashers (hashers : DigestAlgorithm → Hasher) : Prop where
  lawful : ∀ a, (hashers a).Lawful a.outputLength

/-! ## Block hashes -/

namespace BlockHash

variable {H : BlockHash}

/-- Folding in goes from the front, so what is left of the first stretch meets the second. -/
theorem absorb_append (chain : H.Chain) (x y : Bytes) :
    H.absorb chain (x ++ y)
      = H.absorb (H.absorb chain x).1 ((H.absorb chain x).2 ++ y) := by
  induction chain, x using BlockHash.absorb.induct H with
  | case1 chain x hlt =>
      have hx : x.length < H.blockSize := by
        rw [List.length_take] at hlt; omega
      rw [H.absorb_of_lt hx]
  | case2 chain x hle ih =>
      have hx : H.blockSize ≤ x.length := by
        rw [List.length_take] at hle; omega
      have hxy : H.blockSize ≤ (x ++ y).length := by
        rw [List.length_append]; omega
      rw [H.absorb_of_le hx, ← ih, H.absorb_of_le hxy, List.take_append_of_le_length hx,
        List.drop_append_of_le_length hx]

/-- What is left does not fill a block. -/
theorem absorb_absorb (chain : H.Chain) (x : Bytes) :
    H.absorb (H.absorb chain x).1 (H.absorb chain x).2 = H.absorb chain x := by
  simpa using (absorb_append chain x []).symm

namespace Running

variable {r r' : Running H}

/-- All that counts is what folding in the pending bytes gives, and how many bytes there were. -/
theorem alike (habsorb : H.absorb r.chain r.pending = H.absorb r'.chain r'.pending)
    (htotal : r.total = r'.total) : H.hasher.Alike r r' := by
  have hupdate (data : Bytes) : r.update data = r'.update data := by
    simp only [update, absorb_append r.chain, absorb_append r'.chain, habsorb, htotal]
  have hfinish : r.finish = r'.finish := by
    simp only [finish, absorb_append r.chain, absorb_append r'.chain, habsorb, htotal]
  intro calls
  cases calls with
  | nil => rfl
  | cons call calls =>
      cases call with
      | update data => exact congrArg (H.hasher.answers · calls) (hupdate data)
      | reset => rfl
      | finish => exact congrArg (· :: H.hasher.answers empty calls) hfinish

theorem update_update (r : Running H) (x y : Bytes) :
    (r.update x).update y = r.update (x ++ y) := by
  simp only [update, ← absorb_append, List.append_assoc, List.length_append, Nat.add_assoc]

/-- The padding depends on the count of all bytes alone. -/
theorem finish_update_empty (message : Bytes) :
    ((empty : Running H).update message).finish = H.hash message := by
  simp only [finish, update, empty, hash, ← absorb_append, List.nil_append, Nat.zero_add]

end Running

/-- **A block hash keeps the laws**, if it has digests of one length. -/
theorem lawful_hasher {size : Nat} (hlength : ∀ message, (H.hash message).length = size) :
    H.hasher.Lawful size where
  update_nil r := Running.alike (by
    show H.absorb (H.absorb r.chain (r.pending ++ [])).1 (H.absorb r.chain (r.pending ++ [])).2 = _
    rw [List.append_nil, absorb_absorb]) rfl
  update_append r x y calls := congrArg (H.hasher.answers · calls) (Running.update_update r x y)
  reset _ := .refl _
  finish _ := .refl _
  finish_update := Running.finish_update_empty
  length_hash := hlength

end BlockHash

/-! ## The standard algorithms -/

instance : LawfulHashers DigestAlgorithm.hasher where
  lawful a := BlockHash.lawful_hasher a.length_digest

/-- The digests of "abc" and of no bytes, as they are published for each algorithm. -/
def DigestAlgorithm.published : DigestAlgorithm → Bytes × Bytes
  | .md2 =>
    (Bytes.ofNatWidth 16 0xda853b0d3f88d99b30283a69e6ded6bb,
      Bytes.ofNatWidth 16 0x8350e5a3e24c153df2275c9f80692773)
  | .md5 =>
    (Bytes.ofNatWidth 16 0x900150983cd24fb0d6963f7d28e17f72,
      Bytes.ofNatWidth 16 0xd41d8cd98f00b204e9800998ecf8427e)
  | .sha1 =>
    (Bytes.ofNatWidth 20 0xa9993e364706816aba3e25717850c26c9cd0d89d,
      Bytes.ofNatWidth 20 0xda39a3ee5e6b4b0d3255bfef95601890afd80709)
  | .sha224 =>
    (Bytes.ofNatWidth 28 0x23097d223405d8228642a477bda255b32aadbce4bda0b3f7e36c9da7,
      Bytes.ofNatWidth 28 0xd14a028c2a3a2bc9476102bb288234c415a2b01f828ea62ac5b3e42f)
  | .sha256 =>
    (Bytes.ofNatWidth 32 0xba7816bf8f01cfea414140de5dae2223b00361a396177a9cb410ff61f20015ad,
      Bytes.ofNatWidth 32 0xe3b0c44298fc1c149afbf4c8996fb92427ae41e4649b934ca495991b7852b855)
  | .sha384 =>
    (Bytes.ofNatWidth 24 0xcb00753f45a35e8bb5a03d699ac65007272c32ab0eded163
        ++ Bytes.ofNatWidth 24 0x1a8b605a43ff5bed8086072ba1e7cc2358baeca134c825a7,
      Bytes.ofNatWidth 24 0x38b060a751ac96384cd9327eb1b1e36a21fdb71114be0743
        ++ Bytes.ofNatWidth 24 0x4c0cc7bf63f6e1da274edebfe76f65fbd51ad2f14898b95b)
  | .sha512 =>
    (Bytes.ofNatWidth 32 0xddaf35a193617abacc417349ae20413112e6fa4e89a97ea20a9eeee64b55d39a
        ++ Bytes.ofNatWidth 32 0x2192992a274fc1a836ba3c23a3feebbd454d4423643ce80e2a9ac94fa54ca49f,
      Bytes.ofNatWidth 32 0xcf83e1357eefb8bdf1542850d66d8007d620e4050b5715dc83f4a921d36ce9ce
        ++ Bytes.ofNatWidth 32 0x47d0d13c5d85f2b0ff8318d2877eec2f63b931bd47417a81a538327af927da3e)

/-- **The standard algorithms are the published ones**, by these two messages. -/
theorem DigestAlgorithm.digest_published (a : DigestAlgorithm) :
    a.digest [97, 98, 99] = a.published.1 ∧ a.digest [] = a.published.2 := by
  cases a <;> decide +kernel

end Cryptoki
