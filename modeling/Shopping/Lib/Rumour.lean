import Shopping.Lib.Run
import Mathlib.Data.Nat.Notation

/-!
# Rumours

How what one party of a system knows comes to another by messages that may be delayed, lost
and repeated. A channel says which steps let a party keep what it knows, which messages a
party passes it on by and whom they reach. A relay is a chain of such steps in a run
(`Relayed`): a party keeps, or sends a message that reaches the next one at any later time.

`Relayed.spreads`: a property of a party that its keeping steps preserve, that the messages it
passes on carry, and that whoever a carrying message reaches gets (`Rumour`), goes along every
relay. `Arrived.spreads`: so does what a message carries, from whoever it first comes to.
-/

namespace Shopping.Lib

variable {σ α ρ : Type*}

/-- The steps of a system by what they do to what its parties know. Messages have numbers. -/
structure Channel (σ α ρ : Type*) where
  step : σ → α → Option σ
  keeps : ρ → σ → α → Prop
  sends : ρ → ℕ → σ → α → σ → Prop
  delivers : ℕ → ρ → σ → α → Prop

/-- What the party `r` knows in `s` has been kept and passed on to the party `r'` in `s'`. -/
inductive Relayed (C : Channel σ α ρ) (r : ρ) (s : σ) : ρ → σ → Prop
  | here : Relayed C r s r s
  | wait {r' : ρ} {s1 s2 : σ} {a : α} : Relayed C r s r' s1 → C.keeps r' s1 a →
      C.step s1 a = some s2 → Relayed C r s r' s2
  | hop {r1 r2 : ρ} {s1 s2 s3 s4 : σ} {a b : α} {p : ℕ} : Relayed C r s r1 s1 → C.keeps r1 s1 a →
      C.sends r1 p s1 a s2 → C.step s1 a = some s2 → Run C.step (fun _ _ => True) s2 s3 →
      C.delivers p r2 s3 b → C.step s3 b = some s4 → Relayed C r s r2 s4

/-- Message `p`, which is on its way in `s`, has come to a party and been relayed to `r'` in `s'`. -/
def Arrived (C : Channel σ α ρ) (p : ℕ) (s : σ) (r' : ρ) (s' : σ) : Prop :=
  ∃ r s1 s2 b, Run C.step (fun _ _ => True) s s1 ∧ C.delivers p r s1 b ∧ C.step s1 b = some s2 ∧
    Relayed C r s2 r' s'

/-- A property `knows` of parties that goes with messages that have the property `carries`, in
states that meet the invariant `I`. -/
structure Rumour (C : Channel σ α ρ) (I : σ → Prop) (knows : ρ → σ → Prop)
    (carries : ℕ → σ → Prop) : Prop where
  inv : ∀ {s a s'}, I s → C.step s a = some s' → I s'
  kept : ∀ {s a s' r}, I s → knows r s → C.keeps r s a → C.step s a = some s' → knows r s'
  sent : ∀ {s a s' r p}, I s → knows r s → C.keeps r s a → C.sends r p s a s' →
    C.step s a = some s' → carries p s'
  carried : ∀ {s a s' p}, I s → carries p s → C.step s a = some s' → carries p s'
  learned : ∀ {s a s' r p}, I s → carries p s → C.delivers p r s a → C.step s a = some s' →
    knows r s'

variable {C : Channel σ α ρ} {I : σ → Prop} {knows : ρ → σ → Prop} {carries : ℕ → σ → Prop}
  {r r' : ρ} {s s' : σ} {p : ℕ}

/-- A relay takes place in a run. -/
theorem Relayed.run (h : Relayed C r s r' s') : Run C.step (fun _ _ => True) s s' := by
  induction h with
  | here => exact Relation.ReflTransGen.refl
  | wait _ _ hs ih => exact ih.tail ⟨_, trivial, hs⟩
  | hop _ _ _ hs hr _ hs' ih =>
    exact ((ih.tail ⟨_, trivial, hs⟩).trans hr).tail ⟨_, trivial, hs'⟩

/-- A message carries what it carries for good. -/
theorem Rumour.carried_run (hR : Rumour C I knows carries) (hI : I s) (hc : carries p s)
    (hr : Run C.step (fun _ _ => True) s s') : I s' ∧ carries p s' :=
  hr.inv (I := fun s => I s ∧ carries p s) ⟨hI, hc⟩ fun _ _ _ h _ hs =>
    ⟨hR.inv h.1 hs, hR.carried h.1 h.2 hs⟩

/-- **A rumour goes along every relay.** -/
theorem Relayed.spreads (h : Relayed C r s r' s') (hR : Rumour C I knows carries) (hI : I s)
    (hk : knows r s) : I s' ∧ knows r' s' := by
  induction h with
  | here => exact ⟨hI, hk⟩
  | wait _ hkeep hs ih => exact ⟨hR.inv ih.1 hs, hR.kept ih.1 ih.2 hkeep hs⟩
  | hop _ hkeep hp hs hr hd hs' ih =>
    have hsent := hR.sent ih.1 ih.2 hkeep hp hs
    obtain ⟨hI3, hc3⟩ := hR.carried_run (hR.inv ih.1 hs) hsent hr
    exact ⟨hR.inv hI3 hs', hR.learned hI3 hc3 hd hs'⟩

/-- Whoever a carrying message comes to gets what it carries. -/
theorem Arrived.spreads (h : Arrived C p s r' s') (hR : Rumour C I knows carries) (hI : I s)
    (hc : carries p s) : I s' ∧ knows r' s' := by
  obtain ⟨r, s1, s2, b, hrun, hd, hs, hrel⟩ := h
  obtain ⟨hI1, hc1⟩ := hR.carried_run hI hc hrun
  exact hrel.spreads hR (hR.inv hI1 hs) (hR.learned hI1 hc1 hd hs)

end Shopping.Lib
