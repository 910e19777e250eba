import Mathlib.Logic.Relation

/-!
# Runs of a step function

A system is a partial step function `step : σ → α → Option σ`: the action `a` is
possible in `s` iff `step s a` is some state. `Run step P s s'` is a run from `s`
to `s'` all of whose actions meet `P` in the state they are taken in. What one
such step preserves, a run preserves (`Run.inv`); what one step of another system matches, a run
of it matches (`runList_simulates`).

`traced step track` runs a history variable beside the system. Every run has its history
(`Run.exists_trace`).
-/

namespace Shopping.Lib

variable {σ α : Type*} {step : σ → α → Option σ} {P Q : σ → α → Prop} {s s' : σ}

/-- One step by an action that meets `P`. -/
def Move (step : σ → α → Option σ) (P : σ → α → Prop) (s s' : σ) : Prop :=
  ∃ a, P s a ∧ step s a = some s'

/-- A run of any length whose steps all meet `P`. -/
abbrev Run (step : σ → α → Option σ) (P : σ → α → Prop) : σ → σ → Prop :=
  Relation.ReflTransGen (Move step P)

/-- **What a step preserves, a run preserves.** -/
theorem Run.inv {I : σ → Prop} (hr : Run step P s s') (h0 : I s)
    (hstep : ∀ s a s', I s → P s a → step s a = some s' → I s') : I s' := by
  induction hr with
  | refl => exact h0
  | tail _ hm ih =>
    obtain ⟨a, hP, hs⟩ := hm
    exact hstep _ a _ ih hP hs

/-- An invariant whose steps may use what holds of every state reached. -/
theorem Run.inv_over {K I : σ → Prop} (hr : Run step P s s') (hK : ∀ t, Run step P s t → K t)
    (h0 : I s) (hstep : ∀ t a t', K t → I t → P t a → step t a = some t' → I t') : I s' := by
  induction hr with
  | refl => exact h0
  | tail hbefore hm ih =>
    obtain ⟨a, hP, hs⟩ := hm
    exact hstep _ a _ (hK _ hbefore) ih hP hs

theorem Run.mono (hPQ : ∀ s a, P s a → Q s a) (hr : Run step P s s') : Run step Q s s' :=
  Relation.ReflTransGen.mono (fun _ _ ⟨a, hP, hs⟩ => ⟨a, hPQ _ a hP, hs⟩) _ _ hr

/-- The state after a list of actions, if each is possible in its turn. -/
def runList (step : σ → α → Option σ) : σ → List α → Option σ
  | s, [] => some s
  | s, a :: as => (step s a).bind fun s' => runList step s' as

theorem runList_append (step : σ → α → Option σ) (s : σ) (as : List α) (a : α) :
    runList step s (as ++ [a]) = (runList step s as).bind fun s' => step s' a := by
  induction as generalizing s with
  | nil => exact Option.bind_fun_some _
  | cons b as ih =>
    rw [List.cons_append, runList, runList, Option.bind_assoc]
    exact congrArg _ (funext fun s' => ih s')

/-- A list of actions is a run, when each meets `P` where it is taken. -/
theorem Run.of_list {as : List α} (hP : ∀ s, ∀ a ∈ as, P s a)
    (h : runList step s as = some s') : Run step P s s' := by
  induction as generalizing s with
  | nil => cases h; exact Relation.ReflTransGen.refl
  | cons a as ih =>
    rw [runList, Option.bind_eq_some_iff] at h
    obtain ⟨t, ht, hrest⟩ := h
    refine Relation.ReflTransGen.head ⟨a, hP s a List.mem_cons_self, ht⟩ ?_
    exact ih (fun s b hb => hP s b (List.mem_cons_of_mem _ hb)) hrest

/-- **Forward simulation.** If each step whose outcome meets `Q` is matched by a step of another
system, to states that `R` relates again, a list of actions all of whose states meet `Q` is matched
by the list of the matching actions. -/
theorem runList_simulates {τ β : Type*} {step' : τ → β → Option τ} {act : α → β} {R : σ → τ → Prop}
    {Q : σ → Prop} (hstep : ∀ s t a s', R s t → step s a = some s' → Q s' →
      ∃ t', step' t (act a) = some t' ∧ R s' t') : ∀ (as : List α) (s s' : σ) (t : τ), R s t →
      runList step s as = some s' → (∀ n u, runList step s (as.take n) = some u → Q u) →
      ∃ t', runList step' t (as.map act) = some t' ∧ R s' t' := by
  intro as
  induction as with
  | nil => intro s s' t hR h _; cases h; exact ⟨t, rfl, hR⟩
  | cons a as ih =>
    intro s s' t hR h hQ
    rw [runList, Option.bind_eq_some_iff] at h
    obtain ⟨s1, h1, hrest⟩ := h
    obtain ⟨t1, ht1, hR1⟩ := hstep s t a s1 hR h1 (hQ 1 s1 (by simp [runList, h1]))
    obtain ⟨t', ht', hR'⟩ := ih s1 s' t1 hR1 hrest fun n u hu =>
      hQ (n + 1) u (by rw [List.take_succ_cons, runList, h1]; exact hu)
    exact ⟨t', by rw [List.map_cons, runList, ht1]; exact ht', hR'⟩

/-- What can be read off the state after a list of actions. -/
theorem runList_of_any (step : σ → α → Option σ) (s : σ) (as : List α) (p : σ → Bool)
    (h : (runList step s as).any p = true) : ∃ s', runList step s as = some s' ∧ p s' = true := by
  rw [Option.any_eq_true] at h
  obtain ⟨s', hs, hp⟩ := h
  exact ⟨s', hs, hp⟩

/-- The step function on the actions that meet `P` only. -/
def checked (step : σ → α → Option σ) (P : σ → α → Prop) [∀ s a, Decidable (P s a)] (s : σ) (a : α) :
    Option σ := if P s a then step s a else none

/-- A list of actions whose condition is checked on the way is a run. -/
theorem Run.of_checked [∀ s a, Decidable (P s a)] {as : List α}
    (h : runList (checked step P) s as = some s') : Run step P s s' := by
  induction as generalizing s with
  | nil => cases h; exact Relation.ReflTransGen.refl
  | cons a as ih =>
    rw [runList, Option.bind_eq_some_iff] at h
    obtain ⟨t, ht, hrest⟩ := h
    unfold checked at ht
    split at ht
    · rename_i hP
      exact Relation.ReflTransGen.head ⟨a, hP, ht⟩ (ih hrest)
    · cases ht

variable {γ : Type*} {track : σ → α → σ → γ → γ}

/-- The system with a history variable, which each step updates by `track`. -/
def traced (step : σ → α → Option σ) (track : σ → α → σ → γ → γ) (s : σ × γ) (a : α) :
    Option (σ × γ) :=
  (step s.1 a).map fun s' => (s', track s.1 a s' s.2)

theorem traced_eq_some {s s' : σ × γ} {a : α} (h : traced step track s a = some s') :
    step s.1 a = some s'.1 ∧ s'.2 = track s.1 a s'.1 s.2 := by
  simp only [traced, Option.map_eq_some_iff] at h
  obtain ⟨t, ht, rfl⟩ := h
  exact ⟨ht, rfl⟩

/-- Every run of the system has its history. -/
theorem Run.exists_trace (track : σ → α → σ → γ → γ) (hr : Run step P s s') (g : γ) :
    ∃ g', Run (traced step track) (fun s => P s.1) (s, g) (s', g') := by
  induction hr with
  | refl => exact ⟨g, Relation.ReflTransGen.refl⟩
  | @tail t u _ hm ih =>
    obtain ⟨g', hg⟩ := ih
    obtain ⟨a, hP, hs⟩ := hm
    exact ⟨track t a u g', hg.tail ⟨a, hP, by rw [traced, hs]; rfl⟩⟩

end Shopping.Lib
