import Shopping.Proof.Consistency
import Shopping.Proof.Setter

/-!
# Quantities below zero

A decrement is computed from the value of one copy, and merges add up decrements that were
computed from the same increments. So a counter stays at zero or above, and within what the
setters can compute with, iff each decrement is one that every version of the counter
affords which it may be merged with (`quantities_real`): a version is what a replica has that
reflects some updates made so far, with each all that its author had seen (`version`).
-/

namespace Shopping

open Lib

namespace PNCounter

variable {c v m : PNCounter} {origin : Str}

/-- The decrements are covered by increments, and what is left fits `int32_t`. -/
def Backed (c : PNCounter) : Prop :=
  c.negTotal ≤ c.posTotal ∧ c.posTotal < c.negTotal + 2 ^ 31

theorem Backed.empty : Backed {} := by unfold Backed; decide

theorem Backed.congr (hc : c.Backed) (hp : ∀ o, m.posOf o = c.posOf o)
    (hn : ∀ o, m.negOf o = c.negOf o) : m.Backed := by
  rwa [Backed, posTotal_congr hp, negTotal_congr hn]

/-- **What the getter shows of such a counter** is its value, and no more than its increments. -/
theorem Backed.shown (hc : c.Backed) : 0 ≤ c.value ∧ ((UInt32.ofInt c.value).toNat : ℤ) = c.value ∧
    (UInt32.ofInt c.value).toNat ≤ c.posTotal := by
  obtain ⟨hle, hlt⟩ := hc
  have hvalue : c.value = c.posTotal - c.negTotal := by
    rw [value_eq_int64]; apply int64_of_range <;> omega
  have hshown : ((UInt32.ofInt c.value).toNat : ℤ) = c.value := by
    rw [UInt32.ofInt, UInt32.toNat_ofNat']; omega
  refine ⟨by omega, hshown, by omega⟩

/-- A total raised at one origin raises the sum by as much. -/
theorem posTotal_raise {t : ℕ}
    (h : ∀ o, m.posOf o = max (v.posOf o) (if o = origin then t else 0)) :
    m.posTotal = v.posTotal + (t - v.posOf origin) := by
  refine @posTotal_of_add v m origin _ fun o => ?_
  rw [h]
  by_cases ho : o = origin
  · subst ho; rw [if_pos rfl, if_pos rfl]; omega
  · rw [if_neg ho, if_neg ho, Nat.max_zero, Nat.add_zero]

theorem negTotal_raise {t : ℕ}
    (h : ∀ o, m.negOf o = max (v.negOf o) (if o = origin then t else 0)) :
    m.negTotal = v.negTotal + (t - v.negOf origin) :=
  posTotal_raise (v := { pos := v.neg }) (m := { pos := m.neg }) h

end PNCounter

namespace ShoppingItem

/-- **The version `v` of a counter affords setting the copy `c` of it**: the decrement is covered by
what `v` has left, and the increment leaves what fits `int32_t`. What the setter adds to `v` is
what the new total of `origin` exceeds its total there by. -/
def Affords (c v : PNCounter) (origin : Str) (quantity : UInt32) : Prop :=
  (0 < negDelta c quantity →
      v.negTotal + (c.negOf origin + negDelta c quantity - v.negOf origin) ≤ v.posTotal) ∧
    (0 < posDelta c quantity →
      v.posTotal + (c.posOf origin + posDelta c quantity - v.posOf origin) < v.negTotal + 2 ^ 31)

instance (c v : PNCounter) (origin : Str) (quantity : UInt32) :
    Decidable (Affords c v origin quantity) := by unfold Affords; infer_instance

/-- A setter records an increment or a decrement. -/
theorem posDelta_eq_zero {c : PNCounter} {quantity : UInt32} (h : 0 < negDelta c quantity) :
    posDelta c quantity = 0 := by
  unfold negDelta at h
  unfold posDelta
  split at h
  · omega
  · cases h

end ShoppingItem

variable {log : List Update} {S h : Finset ℕ} {l : ShoppingList} {q : Quantity} {uid : Str}

/-- What a replica that reflects the updates `S` has of a counter. -/
def version (log : List Update) (S : Finset ℕ) (q : Quantity) (uid : Str) : PNCounter :=
  log.zipIdx.foldl (fun c e => if e.2 ∈ S then c.merge (e.1.state.counter q uid) else c) {}

theorem version_concat (log : List Update) (e : Update) (S : Finset ℕ) (q : Quantity) (uid : Str) :
    version (log ++ [e]) S q uid =
      if log.length ∈ S then (version log S q uid).merge (e.state.counter q uid)
      else version log S q uid := by
  rw [version, List.zipIdx_append, List.foldl_append]
  simp only [List.zipIdx_cons, List.zipIdx_nil, List.foldl_cons, List.foldl_nil, Nat.zero_add]
  rfl

/-- A version after one more update of the log. -/
theorem version_take_succ {n : ℕ} {e : Update} (hn : log[n]? = some e) (S : Finset ℕ)
    (q : Quantity) (uid : Str) :
    version (log.take (n + 1)) S q uid =
      if n ∈ S then (version (log.take n) S q uid).merge (e.state.counter q uid)
      else version (log.take n) S q uid := by
  have hlen := (List.getElem?_eq_some_iff.1 hn).1
  rw [List.take_add_one, hn, Option.toList_some, version_concat, List.length_take, min_eq_left hlen.le]

/-- Updates that are not in the log yet play no part. -/
theorem version_filter_lt (log : List Update) (S : Finset ℕ) (q : Quantity) (uid : Str) :
    version log (S.filter (· < log.length)) q uid = version log S q uid := by
  unfold version
  refine List.foldl_ext _ _ _ fun c e he => ?_
  have hlt := (List.mem_zipIdx' he).1
  simp only [Finset.mem_filter, hlt, and_true]

theorem version_append (rest : List Update) (hlt : ∀ n ∈ S, n < log.length) (q : Quantity)
    (uid : Str) : version (log ++ rest) S q uid = version log S q uid := by
  induction rest using List.reverseRecOn with
  | nil => rw [List.append_nil]
  | append_singleton rest e ih =>
    have hout : (log ++ rest).length ∉ S := by
      intro hmem
      have := hlt _ hmem
      rw [List.length_append] at this
      omega
    rw [← List.append_assoc, version_concat, if_neg hout, ih]

/-- A reading that merges as a maximum is, of a version, the largest over its updates. -/
theorem version_le_iff (f : PNCounter → ℕ) (f0 : f {} = 0)
    (fm : ∀ c d, f (c.merge d) = max (f c) (f d)) (log : List Update) (S : Finset ℕ) (b : ℕ) :
    f (version log S q uid) ≤ b ↔
      ∀ n ∈ S, ∀ e ∈ log[n]?, f (e.state.counter q uid) ≤ b := by
  induction log using List.reverseRecOn with
  | nil =>
    have : version [] S q uid = {} := rfl
    simp [this, f0]
  | append_singleton log e ih =>
    simp only [Option.mem_def, getElem?_concat_eq_some] at ih ⊢
    rw [version_concat]
    split
    · rename_i hmem
      rw [fm, max_le_iff, ih]
      constructor
      · rintro ⟨hold, hnew⟩ n hn e' (he' | ⟨-, rfl⟩)
        · exact hold n hn e' he'
        · exact hnew
      · intro hall
        exact ⟨fun n hn e' he' => hall n hn e' (Or.inl he'), hall _ hmem e (Or.inr ⟨rfl, rfl⟩)⟩
    · rename_i hmem
      rw [ih]
      constructor
      · rintro hold n hn e' (he' | ⟨rfl, -⟩)
        · exact hold n hn e' he'
        · exact absurd hn hmem
      · intro hall n hn e' he'
        exact hall n hn e' (Or.inl he')

/-- **A copy has the counters of the version it reflects.** -/
theorem IsCopy.eq_version (hL : Logged lists log) (hw : NoWraps log) (hu : NewUids log)
    (hc : IsCopy log h l) (q : Quantity) (uid o : Str) :
    (l.counter q uid).posOf o = (version log h q uid).posOf o ∧
      (l.counter q uid).negOf o = (version log h q uid).negOf o := by
  have hjoin := hc.isJoin hL hw hu
  have hstate : ∀ n ∈ h, ∃ e, log[n]? = some e ∧ stateAt log n = e.state := by
    intro n hn
    have he := List.getElem?_eq_getElem (hjoin.known n hn)
    exact ⟨_, he, by rw [stateAt, he]; rfl⟩
  have key : ∀ f : PNCounter → ℕ, f {} = 0 → (∀ c d, f (c.merge d) = max (f c) (f d)) →
      (h.sup fun n => f ((stateAt log n).counter q uid)) = f (version log h q uid) := by
    intro f f0 fm
    refine eq_of_forall_ge_iff fun b => ?_
    rw [version_le_iff f f0 fm, Finset.sup_le_iff]
    refine forall₂_congr fun n hn => ?_
    obtain ⟨e, he, hst⟩ := hstate n hn
    simp [he, hst]
  constructor
  · rw [hjoin.pos]; exact key (fun c => c.posOf o) rfl fun c d => PNCounter.posOf_merge c d o
  · rw [hjoin.neg]; exact key (fun c => c.negOf o) rfl fun c d => PNCounter.negOf_merge c d o

/-- A version has what a smaller one has. -/
theorem version_mono (hs : h ⊆ S) (o : Str) :
    (version log h q uid).posOf o ≤ (version log S q uid).posOf o ∧
      (version log h q uid).negOf o ≤ (version log S q uid).negOf o := by
  have key : ∀ f : PNCounter → ℕ, f {} = 0 → (∀ c d, f (c.merge d) = max (f c) (f d)) →
      f (version log h q uid) ≤ f (version log S q uid) := by
    intro f f0 fm
    rw [version_le_iff f f0 fm]
    intro n hn
    exact (version_le_iff f f0 fm log S _).1 le_rfl n (hs hn)
  exact ⟨key (fun c => c.posOf o) rfl fun c d => PNCounter.posOf_merge c d o,
    key (fun c => c.negOf o) rfl fun c d => PNCounter.negOf_merge c d o⟩

/-- Before an item is added, no version has anything of it. -/
theorem version_fresh (hL : Logged lists log)
    (hnew : ∀ (n : ℕ) (e : Update), log[n]? = some e → e.op.added ≠ some uid) (o : Str) :
    (version log S q uid).posOf o = 0 ∧ (version log S q uid).negOf o = 0 := by
  have hstate : ∀ (n : ℕ) (e : Update), log[n]? = some e → e.state.counter q uid = {} := by
    intro n e he
    refine ShoppingList.counter_of_none ?_ q
    by_contra hne
    have hc : IsCopy log e.hist e.state := Copy.update he
    obtain ⟨m, -, e', he', ha⟩ :=
      hc.added hL (AList.lookup_isSome.1 (Option.ne_none_iff_isSome.1 hne))
    exact hnew m e' he' ha
  have key : ∀ f : PNCounter → ℕ, f {} = 0 → (∀ c d, f (c.merge d) = max (f c) (f d)) →
      f (version log S q uid) = 0 := by
    intro f f0 fm
    refine Nat.le_zero.1 ((version_le_iff f f0 fm log S 0).2 ?_)
    intro n _ e he
    rw [hstate n e he, f0]
  exact ⟨key (fun c => c.posOf o) rfl fun c d => PNCounter.posOf_merge c d o,
    key (fun c => c.negOf o) rfl fun c d => PNCounter.negOf_merge c d o⟩

namespace Op

/-- Both quantities are between 0 and 1000000. -/
def InRange (op : Op) : Prop := ∀ q, (op.quantity q).toNat ≤ 1000000

instance (op : Op) : Decidable op.InRange := inferInstanceAs (Decidable (∀ _, _))

/-- **Every version that the update may meet affords it**: each closed set of the updates made so
far that has those of the copy `base`, which are `h`. -/
def Afforded (op : Op) (log : List Update) (h : Finset ℕ) (origin : Str) (base : ShoppingList) :
    Prop :=
  match op with
  | update uid .. => ∀ S ∈ (Finset.range log.length).powerset, Closed lists log S → h ⊆ S →
      ∀ q, ShoppingItem.Affords (base.counter q uid) (version log S q uid) origin (op.quantity q)
  | _ => True

instance (op : Op) (log : List Update) (h : Finset ℕ) (origin : Str) (base : ShoppingList) :
    Decidable (op.Afforded log h origin base) :=
  match op with
  | add .. => isTrue trivial
  | update .. => inferInstanceAs (Decidable (∀ S ∈ _, _ → _ → ∀ _, _))
  | remove _ => isTrue trivial

end Op

/-- Every update of the log was in range, and afforded when it was made. -/
def AllAfforded (log : List Update) : Prop :=
  ∀ (n : ℕ) (e : Update), log[n]? = some e → e.op.InRange ∧
    e.op.Afforded (log.take n) (e.hist.erase n) e.origin e.base

/-- An update of the log was made on a copy of the log before it. -/
structure Made (log : List Update) (n : ℕ) (e : Update) : Prop where
  copy : IsCopy (log.take n) (e.hist.erase n) e.base
  apply : e.op.apply e.origin e.base = .ok e.state
  wf : e.base.WF
  noWrap : e.op.NoWrap e.origin e.base
  newItem : e.op.NewItem e.base

section

variable (hL : Logged lists log) (hw : NoWraps log) (hu : NewUids log) {n : ℕ} {e : Update}
  (hn : log[n]? = some e)

include hL hw hu hn

theorem made : Made log n e := by
  obtain ⟨h, s, hc, hh, rfl, happ⟩ := hL n e hn
  have hcopy : IsCopy (log.take n) h e.base := hc
  have hfresh : n ∉ h := fun hmem => by
    have hlt := hc.lt_length (hL.take n) n hmem
    rw [List.length_take] at hlt
    omega
  have herase : e.hist.erase n = h := by
    rw [show e.hist = insert n h from hh, Finset.erase_insert hfresh]
  exact ⟨herase ▸ hcopy, happ, hcopy.wf (hL.take n), hw e (List.mem_of_getElem? hn),
    hcopy.newItem hL hu hn⟩

/-- A version with all that the base of an update reflects has what the base has. -/
theorem base_le_version (hsub : e.hist.erase n ⊆ S) (q : Quantity) (uid o : Str) :
    (e.base.counter q uid).posOf o ≤ (version (log.take n) S q uid).posOf o ∧
      (e.base.counter q uid).negOf o ≤ (version (log.take n) S q uid).negOf o := by
  have hw' : NoWraps (log.take n) := fun e' he' => hw e' (List.mem_of_mem_take he')
  have hu' : NewUids (log.take n) := hu.sublist ((List.take_sublist n log).filterMap _)
  obtain ⟨hp, hg⟩ := (made hL hw hu hn).copy.eq_version (hL.take n) hw' hu' q uid o
  rw [hp, hg]
  exact version_mono hsub o

/-- An update leaves the versions of other items as they are. -/
theorem version_update_ne (hmem : n ∈ S) (hsub : e.hist.erase n ⊆ S) (hne : uid ≠ e.op.itemUid)
    (o : Str) :
    (version (log.take (n + 1)) S q uid).posOf o = (version (log.take n) S q uid).posOf o ∧
      (version (log.take (n + 1)) S q uid).negOf o = (version (log.take n) S q uid).negOf o := by
  have hm := made hL hw hu hn
  obtain ⟨hp, hg⟩ := base_le_version hL hw hu hn hsub q uid o
  rw [version_take_succ hn, if_pos hmem, Op.counter_apply_ne hm.wf hm.apply q hne,
    PNCounter.posOf_merge, PNCounter.negOf_merge, max_eq_left hp, max_eq_left hg]
  exact ⟨rfl, rfl⟩

/-- What an update leaves of the version of its item: one total of its origin is raised. -/
theorem version_update (hmem : n ∈ S) (hsub : e.hist.erase n ⊆ S) :
    (version (log.take (n + 1)) S q e.op.itemUid).posTotal =
        (version (log.take n) S q e.op.itemUid).posTotal +
          ((e.base.counter q e.op.itemUid).posOf e.origin + e.op.posDelta e.base q -
            (version (log.take n) S q e.op.itemUid).posOf e.origin) ∧
      (version (log.take (n + 1)) S q e.op.itemUid).negTotal =
        (version (log.take n) S q e.op.itemUid).negTotal +
          ((e.base.counter q e.op.itemUid).negOf e.origin + e.op.negDelta e.base q -
            (version (log.take n) S q e.op.itemUid).negOf e.origin) := by
  have hm := made hL hw hu hn
  have hbase := base_le_version hL hw hu hn hsub q e.op.itemUid
  have hle : ∀ side o, (e.base.counter q e.op.itemUid).totalOf side o ≤
      (version (log.take n) S q e.op.itemUid).totalOf side o := by
    intro side o
    cases side with
    | pos => exact (hbase o).1
    | neg => exact (hbase o).2
  rw [version_take_succ hn, if_pos hmem]
  have htotal : ∀ side o, ((version (log.take n) S q e.op.itemUid).merge
      (e.state.counter q e.op.itemUid)).totalOf side o =
        max ((version (log.take n) S q e.op.itemUid).totalOf side o)
          (if o = e.origin then (e.base.counter q e.op.itemUid).totalOf side e.origin +
            e.op.delta e.base q side else 0) := by
    intro side o
    have hle := hle side o
    rw [PNCounter.totalOf_merge, Op.totalOf_apply hm.wf hm.apply hm.noWrap hm.newItem]
    by_cases ho : o = e.origin
    · subst ho; rw [if_pos ⟨rfl, rfl⟩, if_pos rfl]
    · rw [if_neg (fun hc => ho hc.2), if_neg ho]; omega
  exact ⟨PNCounter.posTotal_raise (htotal .pos), PNCounter.negTotal_raise (htotal .neg)⟩

end

/-- An item is not added twice. -/
theorem NewUids.not_added (hu : NewUids log) {n : ℕ} {e : Update} (hn : log[n]? = some e)
    (ha : e.op.added = some uid) (m : ℕ) (e' : Update) (hm : (log.take n)[m]? = some e') :
    e'.op.added ≠ some uid := by
  intro ha'
  rw [List.getElem?_take] at hm
  split at hm
  · rename_i hlt
    exact absurd (unique_of_nodup hu hm hn ha' ha) hlt.ne
  · cases hm

/-- One update keeps a version of its item backed. -/
theorem version_backed_update (hL : Logged lists log) (hw : NoWraps log) (hu : NewUids log)
    (ha : AllAfforded log) {n : ℕ} {e : Update} (hn : log[n]? = some e) (hmem : n ∈ S)
    (hsub : e.hist.erase n ⊆ S) (hS : Closed lists log S)
    (hb : (version (log.take n) S q e.op.itemUid).Backed) :
    (version (log.take (n + 1)) S q e.op.itemUid).Backed := by
  obtain ⟨hp, hg⟩ := version_update hL hw hu hn (q := q) hmem hsub
  have hle := base_le_version hL hw hu hn hsub q e.op.itemUid e.origin
  obtain ⟨hrange, haff⟩ := ha n e hn
  obtain ⟨hcover, hfit⟩ := hb
  rw [PNCounter.Backed, hp, hg]
  cases hop : e.op with
  | add uid name d c tag =>
    -- the item is new, so its quantity is all there is of it
    have hzero := version_fresh (S := S) (q := q) (hL.take n) (hu.not_added hn (by rw [hop]; rfl))
    have hp0 : (version (log.take n) S q uid).posTotal = 0 :=
      PNCounter.posTotal_congr (d := {}) fun o => (hzero o).1
    have hg0 : (version (log.take n) S q uid).negTotal = 0 :=
      PNCounter.negTotal_congr (d := {}) fun o => (hzero o).2
    have hq := hrange q
    rw [hop] at hle hq
    simp only [Op.posDelta, Op.negDelta, Op.itemUid, hp0, hg0, hzero e.origin] at hle hq ⊢
    omega
  | update uid name d c tag =>
    rw [hop] at haff hle hcover hfit
    have haff := haff (S.filter (· < (log.take n).length)) ?_ ?_ ?_ q
    · rw [version_filter_lt] at haff
      obtain ⟨hneg, hpos⟩ := haff
      have hone := @ShoppingItem.posDelta_eq_zero (e.base.counter q uid)
        (Op.quantity (.update uid name d c tag) q)
      simp only [Op.posDelta, Op.negDelta, Op.itemUid] at hneg hpos hone hle hcover hfit ⊢
      omega
    · rw [Finset.mem_powerset]
      intro m hm
      exact Finset.mem_range.2 (Finset.mem_filter.1 hm).2
    · exact (hS.take n).filter_lt (hL.take n)
    · intro m hm
      exact Finset.mem_filter.2
        ⟨hsub hm, (made hL hw hu hn).copy.lt_length (hL.take n) m hm⟩
  | remove uid =>
    rw [hop] at hle hcover hfit
    simp only [Op.posDelta, Op.negDelta] at hle hcover hfit ⊢
    omega

/-- **Versions stay backed** as long as every update is afforded. The induction is over the
updates of the version, in the order they were made. -/
theorem version_backed (hL : Logged lists log) (hw : NoWraps log) (hu : NewUids log)
    (ha : AllAfforded log) (hS : Closed lists log S) (q : Quantity) (uid : Str) :
    (version log S q uid).Backed := by
  have hwhole := Closed.induct hL hS (P := fun n => (version (log.take n) S q uid).Backed) ?_ ?_ ?_
  · rwa [List.take_length] at hwhole
  · exact PNCounter.Backed.empty
  · intro n e hn hmem ih
    rwa [version_take_succ hn, if_neg hmem]
  · intro n e h s hn hmem _ _ _ _ ih
    have hsub : e.hist.erase n ⊆ S := (Finset.erase_subset n _).trans (hS n hmem e hn)
    by_cases hne : uid = e.op.itemUid
    · subst hne
      exact version_backed_update hL hw hu ha hn hmem hsub hS ih
    · have hsame := version_update_ne hL hw hu hn (q := q) hmem hsub hne
      exact ih.congr (fun o => (hsame o).1) fun o => (hsame o).2

/-- **The condition is exact**: an update that some version does not afford makes a version of
the updates made so far and itself that is not backed. -/
theorem allAfforded_iff (hL : Logged lists log) (hw : NoWraps log) (hu : NewUids log)
    (hrange : ∀ e ∈ log, e.op.InRange) :
    AllAfforded log ↔ ∀ S q uid, Closed lists log S → (version log S q uid).Backed := by
  constructor
  · intro ha S q uid hS; exact version_backed hL hw hu ha hS q uid
  · intro hbacked n e hn
    refine ⟨hrange e (List.mem_of_getElem? hn), ?_⟩
    unfold Op.Afforded
    split
    · rename_i uid name d c tag hop
      intro S hrangeS hS hsub q
      have hlen : (log.take n).length = n := by
        rw [List.length_take, min_eq_left (List.getElem?_eq_some_iff.1 hn).1.le]
      rw [hlen, Finset.mem_powerset] at hrangeS
      have hnS : n ∉ S := fun hmem => by simpa using hrangeS hmem
      -- the version with the update itself
      have hsub' : e.hist.erase n ⊆ insert n S := hsub.trans (Finset.subset_insert n S)
      have hclosed : Closed lists log (insert n S) := by
        intro m hm e' he'
        rcases Finset.mem_insert.1 hm with rfl | hm
        · rw [hn, Option.mem_some_iff] at he'
          subst he'
          exact (Finset.insert_erase_subset m _).trans (Finset.insert_subset_insert m hsub)
        · have htake : e' ∈ (log.take n)[m]? := by
            rw [Option.mem_def, List.getElem?_take, if_pos (Finset.mem_range.1 (hrangeS hm))]
            exact he'
          exact (hS m hm e' htake).trans (Finset.subset_insert n S)
      obtain ⟨hcover, hfit⟩ := hbacked _ q uid hclosed
      have hcut : version (log.take n) (insert n S) q uid = version (log.take n) S q uid := by
        rw [← version_filter_lt (log.take n) (insert n S), hlen, Finset.filter_insert,
          if_neg (lt_irrefl n), Finset.filter_true_of_mem fun m hm => Finset.mem_range.1 (hrangeS hm)]
      have hlast : version log (insert n S) q uid =
          version (log.take (n + 1)) (insert n S) q uid := by
        conv_lhs => rw [← List.take_append_drop (n + 1) log]
        refine version_append _ ?_ q uid
        intro m hm
        rw [List.length_take, lt_min_iff]
        rcases Finset.mem_insert.1 hm with rfl | hm
        · exact ⟨Nat.lt_succ_self m, (List.getElem?_eq_some_iff.1 hn).1⟩
        · have hlt := Finset.mem_range.1 (hrangeS hm)
          exact ⟨by omega, hlt.trans (List.getElem?_eq_some_iff.1 hn).1⟩
      have hitem : e.op.itemUid = uid := by rw [hop]; rfl
      obtain ⟨hp, hg⟩ :=
        version_update hL hw hu hn (q := q) (Finset.mem_insert_self n S) hsub'
      have hle := base_le_version hL hw hu hn hsub q uid e.origin
      have hone := @ShoppingItem.posDelta_eq_zero (e.base.counter q uid)
        (Op.quantity (.update uid name d c tag) q)
      rw [hitem, hcut] at hp hg
      rw [hlast] at hcover hfit
      rw [hop] at hp hg ⊢
      simp only [Op.posDelta, Op.negDelta] at hp hg
      unfold ShoppingItem.Affords
      omega
    · trivial

variable {ι κ : Type*} [DecidableEq ι] [DecidableEq κ] {D : Deployment ι κ}

/-- The update that an action makes: by which client, to which list. -/
def Action.edits : Action ι κ → Option (κ × Str × Op)
  | .addItem k listUid itemName desired current itemUid clock _ _ =>
    some (k, listUid, .add itemUid itemName desired current (ORSet.genTag clock))
  | .updateItem k listUid itemUid itemName desired current clock _ _ =>
    some (k, listUid, .update itemUid itemName desired current (ORSet.genTag clock))
  | .removeItem k listUid itemUid _ _ => some (k, listUid, .remove itemUid)
  | _ => none

/-- `addItem` and `updateItem` are called with quantities between 0 and 1000000. -/
def Action.InRange (a : Action ι κ) : Prop := ∀ e ∈ a.edits, e.2.2.InRange

/-- The update that an action makes is afforded by all versions of the list it may meet. -/
def Afforded (D : Deployment ι κ) (s : Traced ι κ) (a : Action ι κ) : Prop :=
  ∀ e ∈ a.edits, ∀ base ∈ (s.1.client e.1).api.db.read e.2.1 .ok,
    e.2.2.Afforded s.2.log (s.2.client e.1 (cstr e.2.1)) (D.origin e.1) base

instance (a : Action ι κ) : Decidable a.InRange := by unfold Action.InRange; infer_instance

instance (s : Traced ι κ) (a : Action ι κ) : Decidable (Afforded D s a) := by
  unfold Afforded; infer_instance

omit [DecidableEq ι] in
theorem finished_log (g : Trace ι κ) (k : κ) (pending : Pending) (cloud : Option (Finset ℕ)) :
    (g.finished k pending cloud).log = g.log := by
  unfold Trace.finished
  dsimp only
  split <;> rfl

omit [DecidableEq ι] in
theorem edited_log (w w' : World ι κ) (g : Trace ι κ) (k : κ) (listUid : Str) (op : Op) :
    (g.edited D w w' k listUid op).log = g.log ∨
      ∃ base lst, (w.client k).api.db.read listUid .ok = some base ∧
        (g.edited D w w' k listUid op).log = g.log ++
          [⟨D.origin k, op, base, lst, insert g.log.length (g.client k (cstr listUid))⟩] := by
  unfold Trace.edited
  split
  · rename_i base _ lst hb _
    exact Or.inr ⟨base, lst, hb, rfl⟩
  · exact Or.inl rfl

/-- **What a step adds to the log.** -/
theorem track_log (w w' : World ι κ) (a : Action ι κ) (g : Trace ι κ) :
    (Trace.track D w a w' g).log = g.log ∨
      ∃ k listUid op base lst, a.edits = some (k, listUid, op) ∧
        (w.client k).api.db.read listUid .ok = some base ∧
        (Trace.track D w a w' g).log = g.log ++
          [⟨D.origin k, op, base, lst, insert g.log.length (g.client k (cstr listUid))⟩] := by
  have hedit : ∀ k listUid op, a.edits = some (k, listUid, op) →
      Trace.track D w a w' g = g.edited D w w' k listUid op →
      (Trace.track D w a w' g).log = g.log ∨
        ∃ k listUid op base lst, a.edits = some (k, listUid, op) ∧
          (w.client k).api.db.read listUid .ok = some base ∧
          (Trace.track D w a w' g).log = g.log ++
            [⟨D.origin k, op, base, lst, insert g.log.length (g.client k (cstr listUid))⟩] := by
    intro k listUid op ha ht
    rw [ht]
    rcases edited_log (D := D) w w' g k listUid op with h | ⟨base, lst, hb, h⟩
    · exact Or.inl h
    · exact Or.inr ⟨k, listUid, op, base, lst, ha, hb, h⟩
  -- only the three updates log something
  cases a with
  | addItem => exact hedit _ _ _ rfl rfl
  | updateItem => exact hedit _ _ _ rfl rfl
  | removeItem => exact hedit _ _ _ rfl rfl
  | reply k p =>
    refine Or.inl ?_
    simp only [Trace.track]
    split
    · exact finished_log _ _ _ _
    · rfl
  | noReply k =>
    refine Or.inl ?_
    simp only [Trace.track]
    split
    · exact finished_log _ _ _ _
    · rfl
  | _ => exact Or.inl rfl

/-- A step whose update is in range and afforded. -/
theorem AllAfforded.step {s s' : Traced ι κ} {a : Action ι κ} (ha : AllAfforded s.2.log)
    (hr : Reflected IsCopy s.1 s.2) (hrange : a.InRange) (haff : Afforded D s a)
    (hs : Traced.step D s a = some s') : AllAfforded s'.2.log := by
  rw [(traced_eq_some hs).2]
  rcases track_log (D := D) s.1 s'.1 a s.2 with hlog | ⟨k, listUid, op, base, lst, he, hb, hlog⟩
  · rw [hlog]; exact ha
  · rw [hlog]
    intro n e hn
    rcases getElem?_concat_eq_some.1 hn with hn | ⟨rfl, rfl⟩
    · rw [List.take_append_of_le_length (List.getElem?_eq_some_iff.1 hn).1.le]
      exact ha n e hn
    · refine ⟨hrange _ he, ?_⟩
      have hc : IsCopy s.2.log (s.2.client k (cstr listUid)) base := (hr.client k).row _ _ hb
      have hnew : s.2.log.length ∉ s.2.client k (cstr listUid) := fun hmem =>
        absurd (hc.lt_length hr.logged _ hmem) (lt_irrefl _)
      dsimp only
      rw [List.take_left' rfl, Finset.erase_insert hnew]
      exact haff _ he base hb

/-- **Reported quantities are real** as long as every update is one that all versions of its list
afford: at every replica, every counter's value is not negative, is what the getter returns, and
is at most the sum of the increments recorded. -/
theorem quantities_real {s : Traced ι κ}
    (hrun : Run (Traced.step D) (fun s a => a.InRange ∧ Afforded D s a) (Traced.init D) s)
    (hw : NoWraps s.2.log) (hu : NewUids s.2.log) {r : ι ⊕ κ} {key : Str} {l : ShoppingList}
    (hl : s.1.list r key = some l) {uid : Str} {it : ShoppingItem}
    (hit : l.items.elements.lookup uid = some it) (q : Quantity) :
    0 ≤ (it.counter q).value ∧ ((it.getQuantity q).toNat : ℤ) = (it.counter q).value ∧
      (it.getQuantity q).toNat ≤ (it.counter q).posTotal := by
  have hinv : (Matched D s.1 ∧ Reflected IsCopy s.1 s.2) ∧ AllAfforded s.2.log := by
    refine hrun.inv (I := fun s => (Matched D s.1 ∧ Reflected IsCopy s.1 s.2) ∧
      AllAfforded s.2.log) ⟨⟨Matched.init D, Reflected.init IsCopy D⟩, ?_⟩ ?_
    · intro n e hn; simp [Traced.init] at hn
    · intro s a s' hI hP hs
      obtain ⟨h1, h2⟩ := traced_eq_some hs
      exact ⟨⟨hI.1.1.step h1, h2 ▸ hI.1.2.next hI.1.1 h1⟩, hI.2.step hI.1.2 hP.1 hP.2 hs⟩
  obtain ⟨⟨-, hr⟩, ha⟩ := hinv
  have hc := hr.list hl
  have hbacked := version_backed hr.logged hw hu ha (hc.isClosed hr.logged) q uid
  have hsame := hc.eq_version hr.logged hw hu q uid
  have hreal := (hbacked.congr (fun o => (hsame o).1) fun o => (hsame o).2).shown
  rw [ShoppingList.counter_of_some hit] at hreal
  rw [ShoppingItem.getQuantity_eq]
  exact hreal

/-- Two clients have an item of which 10 are desired; both set that quantity, to `a` and to `b`,
before either hears of the other. -/
def loweringRun (a b : Int32) : List (Action (Fin 2) (Fin 2)) :=
  [.start 0 1, .createShoppingList 0 [] (sampleUid 0) 1 0, .clientFrame 0 0 fun _ => 2, .reply 0 4,
    .addItem 0 (sampleUid 0) (str "milk") 10 0 (sampleUid 1) 3 3 0, .clientFrame 0 5 fun _ => 4,
    .reply 0 9, .getShoppingList 1 (sampleUid 0) 5 0, .clientFrame 0 10 fun _ => 6, .reply 1 11,
    .updateItem 0 (sampleUid 0) (sampleUid 1) (str "milk") a 0 7 7 0,
    .updateItem 1 (sampleUid 0) (sampleUid 1) (str "milk") b 0 8 8 0,
    .clientFrame 0 12 fun _ => 9, .clientFrame 0 13 fun _ => 10]

/-- What node 0 stores of the item at the end. -/
def lowered (s : Traced (Fin 2) (Fin 2)) : Option ShoppingItem :=
  (s.1.list (.inl 0) (sampleUid 0)).bind fun l => l.items.elements.lookup (sampleUid 1)

/-- Lowered to 7 and to 6, the item has both decrements taken off. -/
theorem loweringRun_real : ∃ (s : Traced (Fin 2) (Fin 2)) (l : ShoppingList) (it : ShoppingItem),
    Run (Traced.step .sample) (fun s a => a.InRange ∧ Afforded .sample s a) (Traced.init .sample) s ∧
      s.1.list (.inl 0) (sampleUid 0) = some l ∧
      l.items.elements.lookup (sampleUid 1) = some it ∧ it.getDesiredQuantity = 3 ∧
      0 ≤ it.desiredQuantity.value ∧ (it.getDesiredQuantity.toNat : ℤ) = it.desiredQuantity.value ∧
      it.getDesiredQuantity.toNat ≤ it.desiredQuantity.posTotal := by
  obtain ⟨s, hs, hp⟩ := runList_of_any
    (checked (Traced.step Deployment.sample) fun s a => a.InRange ∧ Afforded Deployment.sample s a)
    (Traced.init Deployment.sample) (loweringRun 7 6)
    (fun s => decide (NoWraps s.2.log ∧ NewUids s.2.log) &&
      (lowered s).any fun it : ShoppingItem => decide (it.getDesiredQuantity = 3))
    (by decide +kernel)
  simp only [Bool.and_eq_true, decide_eq_true_eq, Option.any_eq_true] at hp
  obtain ⟨⟨hw, hu⟩, it, hit, hthree⟩ := hp
  obtain ⟨l, hl, hit⟩ := Option.bind_eq_some_iff.1 hit
  have hrun := Run.of_checked hs
  exact ⟨s, l, it, hrun, hl, hit, hthree, quantities_real hrun hw hu hl hit .desired⟩

/-- Lowered to 0 twice, it has ten taken off twice. -/
theorem quantity_below_zero : ∃ (s : Traced (Fin 2) (Fin 2)) (it : ShoppingItem),
    Run (Traced.step .sample) (fun _ a => a.InRange) (Traced.init .sample) s ∧
      NoWraps s.2.log ∧ NewUids s.2.log ∧ lowered s = some it ∧
      it.desiredQuantity.value = -10 ∧ it.getDesiredQuantity = 4294967286 ∧
      it.desiredQuantity.posTotal = 10 := by
  obtain ⟨s, hs, hp⟩ := runList_of_any
    (checked (Traced.step Deployment.sample) fun _ a => a.InRange)
    (Traced.init Deployment.sample) (loweringRun 0 0)
    (fun s => decide (NoWraps s.2.log ∧ NewUids s.2.log) &&
      (lowered s).any fun it : ShoppingItem => decide (it.desiredQuantity.value = -10 ∧
        it.getDesiredQuantity = 4294967286 ∧ it.desiredQuantity.posTotal = 10))
    (by decide +kernel)
  simp only [Bool.and_eq_true, decide_eq_true_eq, Option.any_eq_true] at hp
  obtain ⟨⟨hw, hu⟩, it, hit, hvalue⟩ := hp
  exact ⟨s, it, Run.of_checked hs, hw, hu, hit, hvalue⟩

end Shopping
