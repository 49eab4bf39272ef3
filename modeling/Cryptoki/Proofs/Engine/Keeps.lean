import Cryptoki.Proofs.Engine.Mirror

/-!
# `Cryptoki.Proofs.Engine.Keeps` — what every use of a lease keeps

A condition on a pool and on the lease that its user holds, if there is one, is kept by every call of
an engine if it is kept by each use of the lease: acquiring, a primitive, both ways of ending, and
asking for key sizes. The engine is not followed again for that: over one pool with the condition it
is its own twin.

## Contents
- `Keeps` — each use of a lease keeps a condition.
- `Keeps.mirror` — the pool in which the condition holds, as its own likeness.
- `Keeps.start`, `Keeps.abandon`, `Keeps.handle`, `Keeps.closed` — the engine keeps it.
- `Keeps.abandon_cases` — a session is kept, or closed in a pool like that before.
- `keeps_inUse` — sessions in use are accounted for.
-/

namespace Cryptoki

/-- Each use of a lease keeps a condition on the lease that is held, if any, and the pool. -/
structure Keeps {τ : Type} [Token τ] (I : Option Lease → Pool τ → Prop) : Prop where
  acquire {p q : Pool τ} {result : Except EngineError Lease} :
    I none p → p.acquire = (result, q) → I result.toOption q
  operate {lease lease' : Lease} {p q : Pool τ} {primitive : Primitive}
    {result : Except ReturnCode primitive.Result} :
    I (some lease) p → lease.operate primitive p = (result, lease', q) → I (some lease') q
  close {lease : Lease} {p : Pool τ} : I (some lease) p → I none (lease.close p)
  discard {lease : Lease} {p : Pool τ} : I (some lease) p → I none (lease.discard p)
  asked {l : Option Lease} {p : Pool τ} (mechanism : Mechanism) :
    I l p → I l (p.call (.mechanismInfo mechanism)).2

namespace Keeps

variable {τ : Type} [Token τ] {I J : Option Lease → Pool τ → Prop} {e : Engine} {p : Pool τ}

/-! ## Conditions together -/

theorem and (hI : Keeps I) (hJ : Keeps J) : Keeps fun l p => I l p ∧ J l p where
  acquire h hacq := ⟨hI.acquire h.1 hacq, hJ.acquire h.2 hacq⟩
  operate h hop := ⟨hI.operate h.1 hop, hJ.operate h.2 hop⟩
  close h := ⟨hI.close h.1, hJ.close h.2⟩
  discard h := ⟨hI.discard h.1, hJ.discard h.2⟩
  asked mechanism h := ⟨hI.asked mechanism h.1, hJ.asked mechanism h.2⟩

theorem forSome {α : Type} {I : α → Option Lease → Pool τ → Prop} (hI : ∀ a, Keeps (I a)) :
    Keeps fun l p => ∃ a, I a l p where
  acquire := fun ⟨a, h⟩ hacq => ⟨a, (hI a).acquire h hacq⟩
  operate := fun ⟨a, h⟩ hop => ⟨a, (hI a).operate h hop⟩
  close := fun ⟨a, h⟩ => ⟨a, (hI a).close h⟩
  discard := fun ⟨a, h⟩ => ⟨a, (hI a).discard h⟩
  asked := fun mechanism ⟨a, h⟩ => ⟨a, (hI a).asked mechanism h⟩

/-! ## Engines -/

/-- A pool in which the condition holds is like itself. -/
def mirror (hI : Keeps I) : Mirror τ τ where
  idle p p' := p' = p ∧ I none p
  held lease p lease' p' := lease' = lease ∧ p' = p ∧ I (some lease) p
  Excused _ := False
  active := fun ⟨hlease, _, _⟩ => congrArg _ hlease
  ends := by
    rintro lease p _ _ ⟨rfl, rfl, _⟩
    rfl
  acquire := by
    rintro p _ ⟨rfl, h⟩
    -- it is one pool, so both get the same lease
    rcases hacq : Pool.acquire _ with ⟨err | lease, q⟩
    · exact .failed ⟨rfl, hI.acquire h hacq⟩
    · exact .obtained ⟨rfl, rfl, hI.acquire h hacq⟩
  operate := by
    rintro lease p _ _ primitive ⟨rfl, rfl, h⟩
    exact ⟨rfl, rfl, rfl, hI.operate h rfl⟩
  close := by
    rintro lease p _ _ ⟨rfl, rfl, h⟩
    exact ⟨rfl, hI.close h⟩
  discard := by
    rintro lease p _ _ ⟨rfl, rfl, h⟩
    exact ⟨rfl, hI.discard h⟩
  asked := by
    rintro p _ mechanism ⟨rfl, h⟩
    exact ⟨rfl, rfl, hI.asked mechanism h⟩
  askedHeld := by
    rintro lease p _ _ mechanism ⟨rfl, rfl, h⟩
    exact ⟨rfl, rfl, rfl, hI.asked mechanism h⟩

variable (hI : Keeps I)

theorem twins (h : I e.lease p) : hI.mirror.Twins e p e p := by
  obtain ⟨_, _, _, l, _, _⟩ := e
  cases l with
  | none => exact .mk (.none ⟨rfl, h⟩)
  | some lease => exact .mk (.some ⟨rfl, rfl, h⟩)

theorem of_twins {e' : Engine} {p' : Pool τ} (h : hI.mirror.Twins e p e' p') : I e.lease p := by
  cases h with
  | mk hleases =>
      cases hleases with
      | none hidle => exact hidle.2
      | some hheld => exact hheld.2.2

theorem of_agree {α : Type} {out out' : Except EngineError α × Engine × Pool τ}
    (h : hI.mirror.Agree out out') : I out.2.1.lease out.2.2 := by
  cases h with
  | excused herr => exact herr.elim
  | same htwins => exact hI.of_twins htwins

include hI

theorem start (h : I e.lease p) : I (e.start p).2.1.lease (e.start p).2.2 :=
  hI.of_agree (Mirror.start (hI.twins h))

theorem giveBack (h : I e.lease p) : I (e.giveBack p).1.lease (e.giveBack p).2 :=
  hI.of_twins (Mirror.giveBack (hI.twins h))

theorem accept (h : I e.lease p) (key : Key) (mode : OperationMode) :
    I e.lease (e.accept key mode p).2 :=
  hI.of_twins (Mirror.accept (hI.twins h) key mode).2

theorem abandon (h : I e.lease p) : I (e.abandon p).1.lease (e.abandon p).2 :=
  hI.of_twins (Mirror.abandon (hI.twins h))

/-- An engine that gives its operation up keeps its session, or that is closed in the end. -/
theorem abandon_cases {session : SessionId} (hstate : e.state = .initialized)
    (hlease : e.lease = some ⟨session, true⟩) (h : I e.lease p) :
    (e.abandon p).1.lease ≠ none
      ∨ ∃ lease q, lease.session = session ∧ I (some lease) q
        ∧ (e.abandon p).2 = lease.discard q := by
  rw [hlease] at h
  have hparted := Engine.parted hstate hlease p
  generalize e.abandon p = out at hparted ⊢
  cases hparted with
  | kept => exact .inl nofun
  | closed hend =>
      refine .inr ?_
      cases hend with
      | silent => exact ⟨⟨session, true⟩, p, rfl, h, rfl⟩
      | called _ hop =>
          have hcalled := hI.operate h hop
          obtain ⟨rfl, _, _⟩ := Lease.operate_cases hop
          exact ⟨_, _, rfl, hcalled, rfl⟩

/-- What holds once an operation was given up holds after another was started with a key. -/
theorem startWith_of_abandoned {key : Key} {mode : OperationMode}
    (h : I (e.abandon (e.accept key mode p).2).1.lease (e.abandon (e.accept key mode p).2).2) :
    I (e.startWith key mode p).2.1.lease (e.startWith key mode p).2.2 := by
  rcases haccept : e.accept key mode p with ⟨fault | u, q⟩
  · rw [haccept] at h
    rw [Engine.startWith_of_rejected haccept]
    exact hI.giveBack (e := { (e.abandon q).1 with key := none }) h
  · rw [haccept] at h
    rw [Engine.startWith_of_accepted haccept]
    exact hI.start (e := { (e.abandon q).1 with key := some key, mode := some mode }) h

/-- **Every call keeps what every use of a lease keeps.** -/
theorem handle (h : I e.lease p) (request : Engine.Request) :
    I (e.handle request p).2.1.lease (e.handle request p).2.2 :=
  hI.of_agree (Mirror.handle (hI.twins h) request)

theorem closed (h : I e.lease p) : I none (e.close p) := by
  have htwins := hI.twins h
  have hleases : hI.mirror.Leases e.lease p e.lease p := by
    cases htwins with
    | mk hleases => exact hleases
  exact (Mirror.closed hleases).2

end Keeps

/-- The sessions in use are that of the lease that is held, and those of others. -/
theorem keeps_inUse {τ : Type} [Token τ] (n : Nat) :
    Keeps fun l (p : Pool τ) => p.InUse (n + l.toList.length) where
  acquire h hacq := by
    have hafter := h.acquire hacq
    rename_i p q result
    cases result <;> exact hafter
  operate h hop := h.operate hop
  close h := h.close _
  discard h := h.discard _
  asked _ h := h

end Cryptoki
