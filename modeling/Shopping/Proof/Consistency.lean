import Shopping.Proof.Content
import Shopping.Proof.Copies

/-!
# Strong eventual consistency

A list that any replica stores is exactly the join of the states that the updates in its
causal history produced (`IsCopy.isJoin`), so replicas that reflect the same updates
show the same items and quantities, however the updates reached them.

The two conditions are on the updates of the run: no `uint64_t` total wraps
(`NoWraps`), and no item UID is created twice (`NewUids`).
-/

namespace Shopping

open Lib

/-- No counter wraps in any update. -/
def NoWraps (log : List Update) : Prop := ∀ e ∈ log, e.op.NoWrap e.origin e.base

/-- `createUID` never returned an item UID twice. -/
def NewUids (log : List Update) : Prop := (log.filterMap fun e => e.op.added).Nodup

instance (log : List Update) : Decidable (NoWraps log) :=
  inferInstanceAs (Decidable (∀ e ∈ log, e.op.NoWrap e.origin e.base))

instance (log : List Update) : Decidable (NewUids log) :=
  inferInstanceAs (Decidable (List.Nodup _))

variable {log : List Update} {h : Finset ℕ} {l : ShoppingList}

/-- Every item of a copy, shown or not, was added by an update of its history. -/
theorem IsCopy.added (hL : Logged lists log) (hc : IsCopy log h l) {uid : Str}
    (hm : uid ∈ l.items.elements) : ∃ n ∈ h, ∃ e, log[n]? = some e ∧ e.op.added = some uid := by
  revert uid
  refine (Copy.induct (P := fun h l => l.WF ∧ ∀ {uid : Str}, uid ∈ l.items.elements →
    ∃ n ∈ h, ∃ e, log[n]? = some e ∧ e.op.added = some uid) hL ?_ ?_ ?_ hc).2
  · intro s hs
    have hi : s.items = {} := hs
    refine ⟨by rw [ShoppingList.WF, hi]; exact ORSet.WF.empty, ?_⟩
    intro uid hm
    rw [hi] at hm
    exact absurd hm (AList.notMem_empty uid)
  · rintro n e h s hn - - hu ⟨hw, ih⟩
    refine ⟨Op.apply_wf hw hu.2, ?_⟩
    intro uid hm
    rw [← AList.lookup_isSome, show (lists.state e).items = e.state.items from rfl,
      Op.elements_apply hw hu.2] at hm
    -- the update's own item is new or was in the list it was made on
    have hold : uid ∈ s.items.elements ∨ e.op.added = some uid := by
      rw [← AList.lookup_isSome]
      split at hm
      · rename_i hu'
        subst hu'
        cases hop : e.op with
        | add x name d c tag => exact Or.inr rfl
        | update x name d c tag =>
          rw [hop, Op.item, Option.isSome_map] at hm; exact Or.inl hm
        | remove x => rw [hop, Op.item] at hm; exact Or.inl hm
      · exact Or.inl hm
    rcases hold with hm | ha
    · obtain ⟨m, hmem, e', he'⟩ := ih hm
      exact ⟨m, Finset.mem_insert_of_mem hmem, e', he'⟩
    · exact ⟨n, Finset.mem_insert_self _ _, e, hn, ha⟩
  · rintro h h' a b c ⟨ha, iha⟩ ⟨hb, ihb⟩ hm
    refine ⟨ha.merge hb hm.1, ?_⟩
    intro uid hmem
    rw [ORSet.mem_elements_merge (ShoppingList.merge_eq_ok hm.1).1] at hmem
    rcases hmem with hmem | hmem
    · obtain ⟨m, hin, e, he⟩ := iha hmem
      exact ⟨m, Finset.mem_union_left _ hin, e, he⟩
    · obtain ⟨m, hin, e, he⟩ := ihb hmem
      exact ⟨m, Finset.mem_union_right _ hin, e, he⟩

/-- An added item is new to the copy it is added to. -/
theorem IsCopy.newItem (hL : Logged lists log) (hu : NewUids log) {n : ℕ} {e : Update}
    (hn : log[n]? = some e) (hc : IsCopy (log.take n) h l) : e.op.NewItem l := by
  unfold Op.NewItem
  split
  · rename_i uid name d c tag hop
    have ha : e.op.added = some uid := by rw [hop]; rfl
    by_contra hne
    obtain ⟨m, -, e', hm, ha'⟩ := hc.added (hL.take n)
      (AList.lookup_isSome.1 (Option.ne_none_iff_isSome.1 hne))
    rw [List.getElem?_take] at hm
    split at hm
    · rename_i hlt
      exact absurd (unique_of_nodup hu hm hn ha' ha) hlt.ne
    · cases hm
  · trivial

/-- **A copy's content is the join over its history.** -/
theorem IsCopy.content_eq (hL : Logged lists log) (hw : NoWraps log) (hu : NewUids log)
    (hc : IsCopy log h l) : content l = h.sup (viewAt lists log content) := by
  refine Copy.eq_sup hL content (fun s hs => content_blank hs) (fun a b c hm => content_merge hm.1)
    ?_ hc
  intro n e h' s hn hcs hup
  obtain ⟨rfl, happ⟩ := hup
  exact le_content_apply (IsCopy.wf (hL.take n) hcs) happ (hw e (List.mem_of_getElem? hn))
    (IsCopy.newItem hL hu hn hcs)

/-- The state an update of the log produced. -/
def stateAt (log : List Update) (n : ℕ) : ShoppingList := (log[n]?).elim default Update.state

/-- The list is exactly the join of the states the updates `h` produced: the union of
their tags, and for every counter and origin the largest of their totals. -/
structure IsJoin (log : List Update) (h : Finset ℕ) (l : ShoppingList) : Prop where
  known : ∀ n ∈ h, n < log.length
  adds : ∀ uid, l.items.addTags uid = h.sup fun n => (stateAt log n).items.addTags uid
  removes : ∀ uid, l.items.removeTags uid = h.sup fun n => (stateAt log n).items.removeTags uid
  pos : ∀ q uid o, (l.counter q uid).posOf o = h.sup fun n => ((stateAt log n).counter q uid).posOf o
  neg : ∀ q uid o, (l.counter q uid).negOf o = h.sup fun n => ((stateAt log n).counter q uid).negOf o

theorem viewAt_content (log : List Update) (n : ℕ) :
    viewAt lists log content n = content (stateAt log n) := by
  unfold viewAt stateAt
  cases log[n]? with
  | none => exact (content_blank rfl).symm
  | some e => rfl

/-- **A copy is the join of the states in its history.** -/
theorem IsCopy.isJoin (hL : Logged lists log) (hw : NoWraps log) (hu : NewUids log)
    (hc : IsCopy log h l) : IsJoin log h l := by
  have hcontent := hc.content_eq hL hw hu
  rw [funext (viewAt_content log)] at hcontent
  constructor
  · exact hc.lt_length hL
  · intro uid
    exact (congrFun (congrArg Content.adds hcontent) uid).trans (Content.adds_sup _ _ _)
  · intro uid
    exact (congrFun (congrArg Content.removes hcontent) uid).trans (Content.removes_sup _ _ _)
  · intro q uid o
    have := congrFun (congrFun (congrFun (congrArg Content.pos hcontent) q) uid) o
    exact this.trans (Content.pos_sup _ _ _ _ _)
  · intro q uid o
    have := congrFun (congrFun (congrFun (congrArg Content.neg hcontent) q) uid) o
    exact this.trans (Content.neg_sup _ _ _ _ _)

variable {ι κ : Type*} [DecidableEq ι] [DecidableEq κ] {D : Deployment ι κ}

omit [DecidableEq ι] [DecidableEq κ] in
/-- A replica's list is reflected by the replica's history. -/
theorem Reflected.list {Q : HistProp} {w : World ι κ} {g : Trace ι κ} (hr : Reflected Q w g)
    {r : ι ⊕ κ} {key : Str} (hl : w.list r key = some l) : Q g.log (g.history r key) l := by
  cases r with
  | inl i => exact (hr.node i).row key l hl
  | inr k => exact (hr.client k).row key l hl

/-- **Strong eventual consistency.** After any run, each stored list is the join of the
states produced by the updates in its replica's history, and replicas with the same
history show the same items and quantities. -/
theorem strong_eventual_consistency {s : Traced ι κ}
    (hrun : Run (Traced.step D) (fun _ _ => True) (Traced.init D) s)
    (hw : NoWraps s.2.log) (hu : NewUids s.2.log) :
    (∀ r key l, s.1.list r key = some l → IsJoin s.2.log (s.2.history r key) l) ∧
      ∀ r r' key l l', s.1.list r key = some l → s.1.list r' key = some l' →
        s.2.history r key = s.2.history r' key →
        ∀ uid desired current, l.Shows uid desired current ↔ l'.Shows uid desired current := by
  have hr := (reflected (P := fun _ _ => True) hrun).2
  refine ⟨fun r key l hl => (hr.list hl).isJoin hr.logged hw hu, ?_⟩
  intro r r' key l l' hl hl' heq
  have hc := hr.list hl
  have hc' := hr.list hl'
  refine shows_congr (hc.wf hr.logged) (hc'.wf hr.logged) ?_
  rw [hc.content_eq hr.logged hw hu, hc'.content_eq hr.logged hw hu, heq]

/-- A client creates a list and an item, changes the item, and its node stores the changes. -/
def sampleRun : List (Action (Fin 2) (Fin 2)) :=
  [.start 0 1, .createShoppingList 0 [] (sampleUid 0) 1 0, .clientFrame 0 0 fun _ => 2, .reply 0 4,
    .addItem 0 (sampleUid 0) (str "milk") 1 0 (sampleUid 1) 3 3 0, .clientFrame 0 5 fun _ => 4,
    .reply 0 9, .updateItem 0 (sampleUid 0) (sampleUid 1) (str "soy milk") 3 0 5 5 0,
    .clientFrame 0 10 fun _ => 6, .reply 0 14]

/-- The node and the client of the run show the same. -/
theorem sampleRun_consistent : ∃ (s : Traced (Fin 2) (Fin 2)) (l l' : ShoppingList),
    Run (Traced.step .sample) (fun _ _ => True) (Traced.init .sample) s ∧
      s.1.list (.inl 0) (sampleUid 0) = some l ∧ s.1.list (.inr 0) (sampleUid 0) = some l' ∧
      IsJoin s.2.log (s.2.history (.inl 0) (sampleUid 0)) l ∧
      ∀ uid desired current, l.Shows uid desired current ↔ l'.Shows uid desired current := by
  obtain ⟨s, hs, hp⟩ := runList_of_any (Traced.step Deployment.sample)
    (Traced.init Deployment.sample) sampleRun
    (fun s => decide (NoWraps s.2.log ∧ NewUids s.2.log ∧
        s.2.history (.inl 0) (sampleUid 0) = s.2.history (.inr 0) (sampleUid 0)) &&
      (s.1.list (.inl 0) (sampleUid 0)).isSome && (s.1.list (.inr 0) (sampleUid 0)).isSome)
    (by decide +kernel)
  simp only [Bool.and_eq_true, decide_eq_true_eq, Option.isSome_iff_exists] at hp
  obtain ⟨⟨⟨hw, hu, heq⟩, l, hl⟩, l', hl'⟩ := hp
  have hrun : Run (Traced.step Deployment.sample) (fun _ _ => True) (Traced.init .sample) s :=
    Run.of_list (fun _ _ _ => trivial) hs
  obtain ⟨hjoin, hsame⟩ := strong_eventual_consistency hrun hw hu
  exact ⟨s, l, l', hrun, hl, hl', hjoin _ _ l hl, hsame _ _ _ l l' hl hl' heq⟩

end Shopping
