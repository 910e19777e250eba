import Mathlib.Data.Finset.Lattice.Fold
import Mathlib.Algebra.Order.BigOperators.Group.Finset

/-!
# State-based replication and causal histories

A replicated object is known through its **copies**: the states its replicas
hold and the states in the messages between them. Updates are numbered in the
order they are made and kept in a log. A copy has a **causal history**, the
numbers of the updates it reflects (`Copy`): an untouched state reflects
nothing, the state an update produces reflects that update and what the updated
copy reflected, and a merge reflects what either side does. Copies may be kept,
lost, repeated and merged in any order.

* `Copy.induct`: what holds of untouched states and is kept by updates and
  merges holds of every copy.
* `Copy.eq_sup`: a view of the state that merges as a join and that updates only
  raise is, at every copy, the join over the copy's history.
* `Copy.eq_total`: a count that one writer alone raises, and that merges as a
  maximum, is at every copy the sum of the writer's amounts in the history.
* `Closed.induct`: induction over a set of updates that holds all that its updates reflect.
* `Latest`: what the last write of a history wrote, which is what a register shows
  that is merged into from histories with all its own writes only.
-/

namespace Shopping.Lib

variable {S E : Type*}

/-- A replicated object: its untouched states, what merging a state into another
may give, and its updates, each with the copy it can be made on, the state it
produces and the history of that state. -/
structure Replicated (S E : Type*) where
  blank : S → Prop
  merge : S → S → S → Prop
  update : S → E → Prop
  state : E → S
  hist : E → Finset ℕ

variable {R : Replicated S E} {log log' : List E} {h h' : Finset ℕ} {s a b c : S}

/-- `Copy R log h s`: `s` is a copy with causal history `h`. -/
inductive Copy (R : Replicated S E) (log : List E) : Finset ℕ → S → Prop
  | blank {s : S} : R.blank s → Copy R log ∅ s
  | update {n : ℕ} {e : E} : log[n]? = some e → Copy R log (R.hist e) (R.state e)
  | merge {h h' : Finset ℕ} {a b c : S} : Copy R log h a → Copy R log h' b → R.merge a b c →
      Copy R log (h ∪ h') c

/-- Every update of the log was made on a copy that existed before it. -/
def Logged (R : Replicated S E) (log : List E) : Prop :=
  ∀ n e, log[n]? = some e →
    ∃ h s, Copy R (log.take n) h s ∧ R.hist e = insert n h ∧ R.update s e

theorem Copy.mono (hp : log <+: log') (hc : Copy R log h s) : Copy R log' h s := by
  induction hc with
  | blank hb => exact Copy.blank hb
  | update hn =>
    obtain ⟨t, rfl⟩ := hp
    exact Copy.update (List.getElem?_append_left (List.getElem?_eq_some_iff.1 hn).1 ▸ hn)
  | merge _ _ hm iha ihb => exact Copy.merge iha ihb hm

theorem Logged.nil : Logged R [] := by
  intro n e h; simp at h

/-- What the log holds after one more update. -/
theorem getElem?_concat_eq_some {e e' : E} {n : ℕ} :
    (log ++ [e])[n]? = some e' ↔ log[n]? = some e' ∨ n = log.length ∧ e' = e := by
  rcases Nat.lt_trichotomy n log.length with hlt | rfl | hgt
  · simp [List.getElem?_append_left hlt, hlt.ne]
  · simp [eq_comm]
  · have hout : (log ++ [e]).length ≤ n := by
      rw [List.length_append, List.length_singleton]; exact hgt
    simp [List.getElem?_eq_none hout, List.getElem?_eq_none hgt.le, hgt.ne']

/-- The log grows by an update of one of its copies. -/
theorem Logged.append (hL : Logged R log) {e : E} (hc : Copy R log h s)
    (hh : R.hist e = insert log.length h) (hu : R.update s e) : Logged R (log ++ [e]) := by
  intro n e' hn
  rcases getElem?_concat_eq_some.1 hn with hn | ⟨rfl, rfl⟩
  · rw [List.take_append_of_le_length (List.getElem?_eq_some_iff.1 hn).1.le]
    exact hL n e' hn
  · rw [List.take_left']
    · exact ⟨h, s, hc, hh, hu⟩
    · rfl

/-- **Induction over copies.** The induction is on the number of the latest update,
and inside it on how the copy was put together. -/
theorem Copy.induct (hL : Logged R log) {P : Finset ℕ → S → Prop}
    (blank : ∀ s, R.blank s → P ∅ s)
    (update : ∀ n e h s, log[n]? = some e → Copy R (log.take n) h s → R.hist e = insert n h →
      R.update s e → P h s → P (insert n h) (R.state e))
    (merge : ∀ h h' a b c, P h a → P h' b → R.merge a b c → P (h ∪ h') c)
    (hc : Copy R log h s) : P h s := by
  have key : ∀ N, ∀ h s, Copy R (log.take N) h s → P h s := by
    intro N
    induction N using Nat.strong_induction_on with
    | _ N ih =>
      intro h s hc
      induction hc with
      | blank hb => exact blank _ hb
      | @update n e hn =>
        rw [List.getElem?_take] at hn
        split at hn
        · rename_i hlt
          obtain ⟨h, s, hcs, hh, hu⟩ := hL n e hn
          rw [hh]
          exact update n e h s hn hcs hh hu (ih n hlt h s hcs)
        · cases hn
      | merge _ _ hm iha ihb => exact merge _ _ _ _ _ iha ihb hm
  apply key log.length
  rw [List.take_length]; exact hc

/-- A history holds numbers of logged updates only. -/
theorem Copy.lt_length (hL : Logged R log) (hc : Copy R log h s) : ∀ n ∈ h, n < log.length := by
  refine Copy.induct (P := fun h _ => ∀ n ∈ h, n < log.length) hL ?_ ?_ ?_ hc
  · intro s _ n hn; simp at hn
  · intro n e h s hn _ _ _ ih m hm
    rcases Finset.mem_insert.1 hm with rfl | hm
    · exact (List.getElem?_eq_some_iff.1 hn).1
    · exact ih m hm
  · intro h h' a b c iha ihb _ n hn
    rcases Finset.mem_union.1 hn with hn | hn
    · exact iha n hn
    · exact ihb n hn

theorem Logged.take (hL : Logged R log) (n : ℕ) : Logged R (log.take n) := by
  intro m e hm
  rw [List.getElem?_take] at hm
  split at hm
  · rename_i hlt
    rw [List.take_take, min_eq_left hlt.le]
    exact hL m e hm
  · cases hm

/-- **Histories are causally closed**: with an update they hold its own history. -/
theorem Copy.closed (hL : Logged R log) (hc : Copy R log h s) :
    ∀ n ∈ h, ∀ e, log[n]? = some e → R.hist e ⊆ h := by
  refine Copy.induct (P := fun h _ => ∀ n ∈ h, ∀ e, log[n]? = some e → R.hist e ⊆ h) hL ?_ ?_ ?_ hc
  · intro s _ n hn; simp at hn
  · intro n e h s hn _ hh _ ih m hm e' hm'
    rcases Finset.mem_insert.1 hm with rfl | hm
    · rw [hn, Option.some.injEq] at hm'; subst hm'; rw [hh]
    · exact (ih m hm e' hm').trans (Finset.subset_insert _ _)
  · intro h h' a b c iha ihb _ n hn e he
    rcases Finset.mem_union.1 hn with hn | hn
    · exact (iha n hn e he).trans Finset.subset_union_left
    · exact (ihb n hn e he).trans Finset.subset_union_right

/-- A set of updates that holds with each what the copy it was made on reflected. -/
def Closed (R : Replicated S E) (log : List E) (h : Finset ℕ) : Prop :=
  ∀ n ∈ h, ∀ e ∈ log[n]?, R.hist e ⊆ h

instance (R : Replicated S E) (log : List E) (h : Finset ℕ) : Decidable (Closed R log h) :=
  inferInstanceAs (Decidable (∀ n ∈ h, ∀ e ∈ log[n]?, R.hist e ⊆ h))

theorem Copy.isClosed (hL : Logged R log) (hc : Copy R log h s) : Closed R log h :=
  fun n hn e he => hc.closed hL n hn e he

theorem Closed.take (hS : Closed R log h) (n : ℕ) : Closed R (log.take n) h := by
  intro m hm e he
  rw [Option.mem_def, List.getElem?_take] at he
  split at he
  · exact hS m hm e he
  · cases he

/-- What is left of a closed set when the log is cut is closed. -/
theorem Closed.filter_lt (hL : Logged R log) (hS : Closed R log h) :
    Closed R log (h.filter (· < log.length)) := by
  intro m hm e he
  have hlt := Copy.lt_length hL (Copy.update he)
  intro k hk
  exact Finset.mem_filter.2 ⟨hS m (Finset.mem_filter.1 hm).1 e he hk, hlt k hk⟩

/-- **Induction over a closed set**, in the order in which its updates were made: each is made
on a copy that reflects updates of the set only. -/
theorem Closed.induct (hL : Logged R log) (hS : Closed R log h) {P : ℕ → Prop} (zero : P 0)
    (skip : ∀ n e, log[n]? = some e → n ∉ h → P n → P (n + 1))
    (step : ∀ n e h' s, log[n]? = some e → n ∈ h → Copy R (log.take n) h' s →
      R.hist e = insert n h' → R.update s e → h' ⊆ h → P n → P (n + 1)) : P log.length := by
  have key : ∀ n, n ≤ log.length → P n := by
    intro n
    induction n with
    | zero => intro _; exact zero
    | succ n ih =>
      intro hn
      have he := List.getElem?_eq_getElem (Nat.lt_of_succ_le hn)
      by_cases hmem : n ∈ h
      · obtain ⟨h', s, hc, hh, hu⟩ := hL n _ he
        refine step n _ h' s he hmem hc hh hu ?_ (ih (Nat.le_of_succ_le hn))
        exact (Finset.subset_insert n h').trans (hh ▸ hS n hmem _ he)
      · exact skip n _ he hmem (ih (Nat.le_of_succ_le hn))
  exact key log.length le_rfl

/-- What each logged update gives at most once is given by one update of the log. -/
theorem unique_of_nodup {α : Type*} {f : E → Option α} (hnd : (log.filterMap f).Nodup) {n m : ℕ}
    {e e' : E} (hn : log[n]? = some e) (hm : log[m]? = some e') {x : α} (he : f e = some x)
    (he' : f e' = some x) : n = m := by
  have before : ∀ {n m : ℕ} {e e' : E}, log[n]? = some e → log[m]? = some e' →
      f e = some x → f e' = some x → ¬ m < n := by
    intro n m e e' hn hm he he' hlt
    obtain ⟨hlen, hget⟩ := List.getElem?_eq_some_iff.1 hn
    have hsplit : log = log.take n ++ e :: log.drop (n + 1) := by
      rw [← hget, ← List.drop_eq_getElem_cons hlen, List.take_append_drop]
    rw [hsplit, List.filterMap_append, List.filterMap_cons_some he] at hnd
    have htake : (log.take n)[m]? = some e' := by rw [List.getElem?_take, if_pos hlt, hm]
    exact List.disjoint_of_nodup_append hnd
      (List.mem_filterMap.2 ⟨e', List.mem_of_getElem? htake, he'⟩) List.mem_cons_self
  have h1 := before hn hm he he'
  have h2 := before hm hn he' he
  omega

/-- The view of the state that update `n` produced. -/
def viewAt {L : Type*} [Bot L] (R : Replicated S E) (log : List E) (φ : S → L) (n : ℕ) : L :=
  (log[n]?).elim ⊥ fun e => φ (R.state e)

/-- **A copy is the join of the updates in its history.** -/
theorem Copy.eq_sup {L : Type*} [SemilatticeSup L] [OrderBot L] (hL : Logged R log) (φ : S → L)
    (hblank : ∀ s, R.blank s → φ s = ⊥) (hmerge : ∀ a b c, R.merge a b c → φ c = φ a ⊔ φ b)
    (hup : ∀ n e h s, log[n]? = some e → Copy R (log.take n) h s → R.update s e →
      φ s ≤ φ (R.state e))
    (hc : Copy R log h s) : φ s = h.sup (viewAt R log φ) := by
  refine Copy.induct (P := fun h s => φ s = h.sup (viewAt R log φ)) hL ?_ ?_ ?_ hc
  · intro s hs; rw [hblank s hs, Finset.sup_empty]
  · intro n e h s hn hcs _ hu ih
    have hv : viewAt R log φ n = φ (R.state e) := by rw [viewAt, hn]; rfl
    rw [Finset.sup_insert, ← ih, hv, sup_eq_left.2 (hup n e h s hn hcs hu)]
  · intro h h' a b c iha ihb hm
    rw [hmerge a b c hm, iha, ihb, Finset.sup_union]

/-- A set of numbers that holds, with a number of the writer `w`, every earlier one. -/
def Initial (w : ℕ → Prop) (h : Finset ℕ) : Prop := ∀ n ∈ h, w n → ∀ m < n, w m → m ∈ h

/-- Two such sets hold the writer's numbers one inside the other. -/
theorem Initial.nested {w : ℕ → Prop} [DecidablePred w] (hi : Initial w h) (hi' : Initial w h') :
    h.filter w ⊆ h'.filter w ∨ h'.filter w ⊆ h.filter w := by
  by_contra hne
  simp only [not_or, Finset.not_subset, Finset.mem_filter, not_and] at hne
  obtain ⟨⟨n, ⟨hn, hwn⟩, hn'⟩, m, ⟨hm, hwm⟩, hm'⟩ := hne
  rcases Nat.lt_trichotomy n m with hlt | rfl | hlt
  · exact hn' (hi' m hm hwm n hlt hwn) hwn
  · exact hn' hm hwn
  · exact hm' (hi n hn hwn m hlt hwm) hwm

theorem Initial.union {w : ℕ → Prop} (hi : Initial w h) (hi' : Initial w h') :
    Initial w (h ∪ h') := by
  intro n hn hwn m hm hwm
  rcases Finset.mem_union.1 hn with hn | hn
  · exact Finset.mem_union_left _ (hi n hn hwn m hm hwm)
  · exact Finset.mem_union_right _ (hi' n hn hwn m hm hwm)

/-- The sum over a union of nested sets is the larger of the two sums. -/
theorem sum_union_nested {A B : Finset ℕ} (hAB : A ⊆ B ∨ B ⊆ A) (d : ℕ → ℕ) :
    ∑ n ∈ A ∪ B, d n = max (∑ n ∈ A, d n) (∑ n ∈ B, d n) := by
  rcases hAB with hs | hs
  · rw [Finset.union_eq_right.2 hs, max_eq_right (Finset.sum_le_sum_of_subset hs)]
  · rw [Finset.union_eq_left.2 hs, max_eq_left (Finset.sum_le_sum_of_subset hs)]

/-- A writer that makes its updates on copies with all its earlier ones: its part of
every history is an initial segment of its updates. -/
theorem Copy.initial (hL : Logged R log) {w : ℕ → Prop}
    (horder : ∀ n e, log[n]? = some e → w n → ∀ m < n, w m → m ∈ R.hist e)
    (hc : Copy R log h s) : Initial w h := by
  refine Copy.induct (P := fun h _ => Initial w h) hL ?_ ?_ ?_ hc
  · intro s _ n hn; simp at hn
  · intro n e h s hn _ hh _ ih m hm hwm k hk hwk
    rcases Finset.mem_insert.1 hm with rfl | hm
    · rw [← hh]; exact horder m e hn hwm k hk hwk
    · exact Finset.mem_insert_of_mem (ih m hm hwm k hk hwk)
  · intro h h' a b c iha ihb _; exact iha.union ihb

/-- **A count with a single writer is the sum of the writer's amounts** in the copy's
history, each counted once. -/
theorem Copy.eq_total (hL : Logged R log) {w : ℕ → Prop} [DecidablePred w] (d : ℕ → ℕ) (φ : S → ℕ)
    (horder : ∀ n e, log[n]? = some e → w n → ∀ m < n, w m → m ∈ R.hist e)
    (hblank : ∀ s, R.blank s → φ s = 0) (hmerge : ∀ a b c, R.merge a b c → φ c = max (φ a) (φ b))
    (hup : ∀ n e h s, log[n]? = some e → Copy R (log.take n) h s → R.update s e →
      φ (R.state e) = φ s + if w n then d n else 0)
    (hc : Copy R log h s) : φ s = ∑ n ∈ h.filter w, d n := by
  suffices φ s = ∑ n ∈ h.filter w, d n ∧ Initial w h from this.1
  refine Copy.induct (P := fun h s => φ s = ∑ n ∈ h.filter w, d n ∧ Initial w h) hL ?_ ?_ ?_ hc
  · intro s hs
    refine ⟨by rw [hblank s hs]; rfl, ?_⟩
    intro n hn; simp at hn
  · intro n e h s hn hcs hh hu ih
    have hfresh : n ∉ h := fun hm => by
      have := hcs.lt_length (hL.take n) n hm
      rw [List.length_take] at this; omega
    have hins := Copy.initial hL horder (Copy.update hn)
    rw [hh] at hins
    refine ⟨?_, hins⟩
    rw [hup n e h s hn hcs hu, ih.1]
    by_cases hw : w n
    · rw [Finset.filter_insert, if_pos hw, if_pos hw, Finset.sum_insert (by simp [hfresh]), add_comm]
    · rw [Finset.filter_insert, if_neg hw, if_neg hw, add_zero]
  · intro h h' a b c iha ihb hm
    refine ⟨?_, iha.2.union ihb.2⟩
    rw [hmerge a b c hm, iha.1, ihb.1, Finset.filter_union,
      sum_union_nested (iha.2.nested ihb.2)]

section

variable {α : Type*} {f : ℕ → Option α} {x y : α} {n : ℕ}

/-- The last of the writes in `h` wrote `x`, `f` giving what each update writes. -/
def Latest (f : ℕ → Option α) (h : Finset ℕ) (x : α) : Prop :=
  ∃ n ∈ h, f n = some x ∧ ∀ m ∈ h, (f m).isSome → m ≤ n

theorem Latest.unique (hx : Latest f h x) (hy : Latest f h y) : x = y := by
  obtain ⟨n, hn, hfn, hmax⟩ := hx
  obtain ⟨m, hm, hfm, hmax'⟩ := hy
  obtain rfl : n = m :=
    le_antisymm (hmax' n hn (Option.isSome_of_eq_some hfn)) (hmax m hm (Option.isSome_of_eq_some hfm))
  rw [hfn, Option.some.injEq] at hfm
  exact hfm

theorem Latest.congr {f' : ℕ → Option α} (heq : ∀ n ∈ h, f' n = f n) (hx : Latest f h x) :
    Latest f' h x := by
  obtain ⟨n, hn, hfn, hmax⟩ := hx
  refine ⟨n, hn, (heq n hn).trans hfn, ?_⟩
  intro m hm hs
  rw [heq m hm] at hs
  exact hmax m hm hs

/-- A new write is the last one. -/
theorem Latest.write (hlt : ∀ m ∈ h, m < n) (hfn : f n = some x) : Latest f (insert n h) x := by
  refine ⟨n, Finset.mem_insert_self n h, hfn, ?_⟩
  intro m hm _
  rcases Finset.mem_insert.1 hm with rfl | hm
  · exact le_rfl
  · exact (hlt m hm).le

theorem Latest.insert (hx : Latest f h x) (hfn : f n = none) : Latest f (insert n h) x := by
  obtain ⟨m, hm, hfm, hmax⟩ := hx
  refine ⟨m, Finset.mem_insert_of_mem hm, hfm, ?_⟩
  intro k hk hs
  rcases Finset.mem_insert.1 hk with rfl | hk
  · rw [hfn] at hs; cases hs
  · exact hmax k hk hs

/-- Of two sides that show the same, either has the last write. -/
theorem Latest.union (hx : Latest f h x) (hx' : Latest f h' x) : Latest f (h ∪ h') x := by
  obtain ⟨n, hn, hfn, hmax⟩ := hx
  obtain ⟨m, hm, hfm, hmax'⟩ := hx'
  have hbound : ∀ k ∈ h ∪ h', (f k).isSome → k ≤ max n m := by
    intro k hk hs
    rcases Finset.mem_union.1 hk with hk | hk
    · exact (hmax k hk hs).trans (le_max_left n m)
    · exact (hmax' k hk hs).trans (le_max_right n m)
  rcases max_choice n m with hmx | hmx <;> rw [hmx] at hbound
  · exact ⟨n, Finset.mem_union_left _ hn, hfn, hbound⟩
  · exact ⟨m, Finset.mem_union_right _ hm, hfm, hbound⟩

/-- A side with all the writes has the last one. -/
theorem Latest.union_of_subset (hsub : ∀ n ∈ h, (f n).isSome → n ∈ h') (hx : Latest f h' x) :
    Latest f (h ∪ h') x := by
  obtain ⟨n, hn, hfn, hmax⟩ := hx
  refine ⟨n, Finset.mem_union_right _ hn, hfn, ?_⟩
  intro m hm hs
  rcases Finset.mem_union.1 hm with hm | hm
  · exact hmax m (hsub m hm hs) hs
  · exact hmax m hm hs

end

end Shopping.Lib
