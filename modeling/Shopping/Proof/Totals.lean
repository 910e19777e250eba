import Shopping.Proof.Consistency

/-!
# No quantity update is lost or counted twice

Without deletions a client makes every update on a copy that has all its earlier ones
(`Ordered`): it is the only writer of its origin's totals. A copy therefore holds an
origin's totals as they were after the origin's latest update in the copy's history
(`IsCopy.latest`), and shows the sum of the deltas recorded there
(`IsCopy.value_eq`).
-/

namespace Shopping

open Lib

variable {log : List Update} {h : Finset ℕ} {l : ShoppingList}

/-- A copy only reflects updates of lists stored under its key. -/
theorem IsCopy.key_eq (hL : Logged lists log) (hc : IsCopy log h l) :
    ∀ n ∈ h, ∀ e, log[n]? = some e → e.base.key = l.key := by
  refine (Copy.induct (P := fun h l => l.WF ∧ ∀ n ∈ h, ∀ e, log[n]? = some e →
    e.base.key = l.key) hL ?_ ?_ ?_ hc).2
  · intro s hs
    have hi : s.items = {} := hs
    refine ⟨by rw [ShoppingList.WF, hi]; exact ORSet.WF.empty, ?_⟩
    intro n hn; cases hn
  · rintro n e h s hn - - ⟨hb, happ⟩ ⟨hw, ih⟩
    have huid := (Op.apply_names happ).1
    have hw' := Op.apply_wf hw happ
    have hkey : e.state.key = s.key := by rw [ShoppingList.key, huid]; rfl
    refine ⟨hw', ?_⟩
    intro m hm e' he'
    rcases Finset.mem_insert.1 hm with rfl | hm
    · rw [hn, Option.some.injEq] at he'
      subst he'
      rw [hb]; exact hkey.symm
    · exact (ih m hm e' he').trans hkey.symm
  · rintro h h' a b c ⟨ha, iha⟩ ⟨hb, ihb⟩ ⟨hm, hk⟩
    have hkey : c.key = a.key := by rw [ShoppingList.key, (ShoppingList.merge_eq_ok hm).2.1]; rfl
    refine ⟨ha.merge hb hm, ?_⟩
    intro n hn e he
    rw [hkey]
    rcases Finset.mem_union.1 hn with hn | hn
    · exact iha n hn e he
    · rw [hk]; exact ihb n hn e he

/-- An update is of an item that was created in the same list. -/
theorem created_in (hL : Logged lists log) {n : ℕ} {e : Update} (hn : log[n]? = some e) :
    ∃ (m : ℕ) (e' : Update), log[m]? = some e' ∧ e'.op.added = some e.op.itemUid ∧
      e'.base.key = e.base.key := by
  obtain ⟨h, s, hc, -, rfl, happ⟩ := hL n e hn
  have hw := IsCopy.wf (hL.take n) hc
  have hold : e.base.items.elements.lookup e.op.itemUid ≠ none →
      ∃ (m : ℕ) (e' : Update), log[m]? = some e' ∧ e'.op.added = some e.op.itemUid ∧
        e'.base.key = e.base.key := by
    intro hne
    obtain ⟨m, hm, e', he', ha⟩ := IsCopy.added (hL.take n) hc
      (AList.lookup_isSome.1 (Option.ne_none_iff_isSome.1 hne))
    have hkey := IsCopy.key_eq (hL.take n) hc m hm e' he'
    rw [List.getElem?_take] at he'
    split at he'
    · exact ⟨m, e', he', ha, hkey⟩
    · cases he'
  cases hop : e.op with
  | add uid name d c tag => exact ⟨n, e, hn, by rw [hop]; rfl, rfl⟩
  | update uid name d c tag =>
    rw [hop] at happ hold
    obtain ⟨it, -, he, -, -⟩ := Op.editItem_eq_ok hw happ
    exact hold (by rw [Op.itemUid, he]; simp)
  | remove uid =>
    rw [hop] at happ hold
    obtain ⟨it, -, he, -, -⟩ := Op.dropItem_eq_ok hw happ
    exact hold (by rw [Op.itemUid, he]; simp)

/-- Updates of one item are updates of one list. -/
theorem item_key (hL : Logged lists log) (hu : NewUids log) {n m : ℕ} {e e' : Update}
    (hn : log[n]? = some e) (hm : log[m]? = some e') (hi : e.op.itemUid = e'.op.itemUid) :
    e.base.key = e'.base.key := by
  obtain ⟨c, ec, hc, ha, hk⟩ := created_in hL hn
  obtain ⟨c', ec', hc', ha', hk'⟩ := created_in hL hm
  rw [← hi] at ha'
  obtain rfl := unique_of_nodup hu hc hc' ha ha'
  rw [hc, Option.some.injEq] at hc'
  subst hc'
  rw [← hk, hk']

/-- An update is made on a copy with all earlier updates of its origin to the list. -/
def ProgramOrder (log : List Update) : Prop :=
  ∀ (n : ℕ) (e : Update), log[n]? = some e → ∀ m < n, ∀ e' : Update, log[m]? = some e' →
    e'.origin = e.origin → e'.base.key = e.base.key → m ∈ e.hist

/-- Update `n` is by the origin `o`, of the item `uid`. -/
def Writes (log : List Update) (o uid : Str) (n : ℕ) : Prop :=
  ∃ e ∈ log[n]?, e.origin = o ∧ e.op.itemUid = uid

instance (log : List Update) (o uid : Str) : DecidablePred (Writes log o uid) := fun n =>
  inferInstanceAs (Decidable (∃ e ∈ log[n]?, e.origin = o ∧ e.op.itemUid = uid))

/-- What update `n` adds to a total of its item. -/
def addedAt (log : List Update) (q : Quantity) (side : PNCounter.Side) (n : ℕ) : ℕ :=
  (log[n]?).elim 0 fun e => e.op.delta e.base q side

variable {q : Quantity} {side : PNCounter.Side} {uid o : Str}

theorem order_of_item (hL : Logged lists log) (hu : NewUids log) (hpo : ProgramOrder log) :
    ∀ n e, log[n]? = some e → Writes log o uid n → ∀ m < n, Writes log o uid m → m ∈ lists.hist e := by
  rintro n e hn ⟨e1, hn1, ho1, hi1⟩ m hlt ⟨e2, hm2, ho2, hi2⟩
  rw [hn, Option.mem_some_iff] at hn1
  subst hn1
  exact hpo n e hn m hlt e2 hm2 (ho2.trans ho1.symm)
    (item_key hL hu hm2 hn (hi2.trans hi1.symm))

/-- **A total is the sum of what its origin's updates in the history added.** -/
theorem IsCopy.totalOf_eq (hL : Logged lists log) (hw : NoWraps log) (hu : NewUids log)
    (hpo : ProgramOrder log) (hc : IsCopy log h l) :
    (l.counter q uid).totalOf side o = ∑ n ∈ h.filter (Writes log o uid), addedAt log q side n := by
  refine Copy.eq_total hL (addedAt log q side) (fun l => (l.counter q uid).totalOf side o)
    (order_of_item hL hu hpo) ?_
    (fun a b c hm => ShoppingList.totalOf_counter_merge hm.1 q uid side o) ?_ hc
  · intro s hs
    have hi : s.items = {} := hs
    rw [ShoppingList.counter_of_none (by rw [hi]; rfl)]
    exact PNCounter.totalOf_empty side o
  · rintro n e h s hn hcs ⟨rfl, happ⟩
    have hiff : (uid = e.op.itemUid ∧ o = e.origin) ↔ Writes log o uid n := by
      constructor
      · rintro ⟨rfl, rfl⟩; exact ⟨e, hn, rfl, rfl⟩
      · rintro ⟨e', he', rfl, rfl⟩
        rw [hn, Option.mem_some_iff] at he'; subst he'; exact ⟨rfl, rfl⟩
    have hadded : addedAt log q side n = e.op.delta e.base q side := by rw [addedAt, hn]; rfl
    rw [hadded, ← if_congr hiff rfl rfl]
    exact Op.totalOf_apply (IsCopy.wf (hL.take n) hcs) happ (hw e (List.mem_of_getElem? hn))
      (IsCopy.newItem hL hu hn hcs) q uid side o

/-- The latest update of an origin in a history has all the origin's updates of the history
in its own. -/
theorem IsCopy.filter_latest (hL : Logged lists log) (hpo : ProgramOrder log)
    (hc : IsCopy log h l) {n : ℕ} {e : Update} (hn : log[n]? = some e) (hmem : n ∈ h)
    (hlast : ∀ m ∈ h, ∀ e' : Update, log[m]? = some e' → e'.origin = e.origin → m ≤ n) (uid : Str) :
    h.filter (Writes log e.origin uid) = e.hist.filter (Writes log e.origin uid) := by
  obtain ⟨h0, s, -, hh, -⟩ := hL n e hn
  have hh' : e.hist = insert n h0 := hh
  ext m
  simp only [Finset.mem_filter, and_congr_left_iff]
  rintro ⟨e', hm, ho, -⟩
  constructor
  · intro hin
    rcases (hlast m hin e' hm ho).lt_or_eq with hlt | rfl
    · refine hpo n e hn m hlt e' hm ho ?_
      rw [hc.key_eq hL m hin e' hm, hc.key_eq hL n hmem e hn]
    · rw [hh']; exact Finset.mem_insert_self _ _
  · intro hin; exact hc.closed hL n hmem e hn hin

/-- **A copy holds an origin's totals as its latest update in the history left them.** -/
theorem IsCopy.latest (hL : Logged lists log) (hw : NoWraps log) (hu : NewUids log)
    (hpo : ProgramOrder log) (hc : IsCopy log h l) {n : ℕ} {e : Update} (hn : log[n]? = some e)
    (hmem : n ∈ h)
    (hlast : ∀ m ∈ h, ∀ e' : Update, log[m]? = some e' → e'.origin = e.origin → m ≤ n) :
    (l.counter q uid).posOf e.origin = (e.state.counter q uid).posOf e.origin ∧
      (l.counter q uid).negOf e.origin = (e.state.counter q uid).negOf e.origin := by
  have hce : IsCopy log e.hist e.state := Copy.update hn
  have hf := hc.filter_latest hL hpo hn hmem hlast uid
  have htotal : ∀ side, (l.counter q uid).totalOf side e.origin =
      (e.state.counter q uid).totalOf side e.origin := fun side => by
    rw [hc.totalOf_eq hL hw hu hpo, hce.totalOf_eq hL hw hu hpo, hf]
  exact ⟨htotal .pos, htotal .neg⟩

/-- An origin without updates in the history has no totals. -/
theorem IsCopy.none (hL : Logged lists log) (hw : NoWraps log) (hu : NewUids log)
    (hpo : ProgramOrder log) (hc : IsCopy log h l)
    (hno : ∀ n ∈ h, ∀ e : Update, log[n]? = some e → e.origin ≠ o) :
    (l.counter q uid).posOf o = 0 ∧ (l.counter q uid).negOf o = 0 := by
  have hf : h.filter (Writes log o uid) = ∅ := by
    rw [Finset.filter_eq_empty_iff]
    rintro n hn ⟨e, he, ho, -⟩
    exact hno n hn e he ho
  have htotal : ∀ side, (l.counter q uid).totalOf side o = 0 := fun side => by
    rw [hc.totalOf_eq hL hw hu hpo, hf]; rfl
  exact ⟨htotal .pos, htotal .neg⟩

/-- The signed delta an update recorded in a counter of the item `uid`. -/
def Update.delta (e : Update) (q : Quantity) (uid : Str) : ℤ :=
  if e.op.itemUid = uid then e.op.posDelta e.base q - e.op.negDelta e.base q else 0

/-- The signed delta that update `n` of the log recorded. -/
def deltaAt (log : List Update) (q : Quantity) (uid : Str) (n : ℕ) : ℤ :=
  (log[n]?).elim 0 fun e => e.delta q uid

/-- The updates of an item, by their origins. -/
theorem sum_origins (f : ℕ → ℕ) {S : Finset Str}
    (hS : ∀ n ∈ h, ∀ e : Update, log[n]? = some e → e.origin ∈ S) :
    ∑ o ∈ S, ∑ n ∈ h.filter (Writes log o uid), f n =
      ∑ n ∈ h, (log[n]?).elim 0 fun e => if e.op.itemUid = uid then f n else 0 := by
  simp only [Finset.sum_filter]
  rw [Finset.sum_comm]
  apply Finset.sum_congr rfl
  intro n hn
  cases he : log[n]? with
  | none =>
    apply Finset.sum_eq_zero
    intro o _
    rw [if_neg]
    rintro ⟨e, hmem, -⟩; rw [he] at hmem; cases hmem
  | some e =>
    have hiff : ∀ o, Writes log o uid n ↔ e.origin = o ∧ e.op.itemUid = uid := by
      intro o
      constructor
      · rintro ⟨e', hmem, hp⟩; rw [he] at hmem; cases hmem; exact hp
      · intro hp; exact ⟨e, he, hp⟩
    simp only [hiff, Option.elim_some]
    by_cases hi : e.op.itemUid = uid
    · simp only [hi, and_true, if_true]
      rw [Finset.sum_ite_eq S e.origin (fun _ => f n), if_pos (hS n hn e he)]
    · simp [hi]

/-- **A copy shows the sum of the deltas in its history**, each counted once. -/
theorem IsCopy.value_eq (hL : Logged lists log) (hw : NoWraps log) (hu : NewUids log)
    (hpo : ProgramOrder log) (hc : IsCopy log h l) (q : Quantity) (uid : Str) :
    (l.counter q uid).value = int64 (∑ n ∈ h, deltaAt log q uid n) := by
  have horigin : ∀ (S : Finset Str) (n : ℕ), n ∈ h → ∀ e : Update, log[n]? = some e →
      e.origin ∈ S ∪ h.image fun n => ((log[n]?).map Update.origin).getD [] := by
    intro S n hn e he
    refine Finset.mem_union_right _ (Finset.mem_image.2 ⟨n, hn, ?_⟩)
    rw [he]; rfl
  -- both totals as sums over the origins of the counter and of the history
  have hpos := PNCounter.posTotal_eq_sum (l.counter q uid)
    (S := (l.counter q uid).pos.keys.toFinset ∪ h.image fun n => ((log[n]?).map Update.origin).getD [])
    (by intro o ho; simp [AList.mem_keys.1 ho])
  have hneg := PNCounter.negTotal_eq_sum (l.counter q uid)
    (S := (l.counter q uid).neg.keys.toFinset ∪ h.image fun n => ((log[n]?).map Update.origin).getD [])
    (by intro o ho; simp [AList.mem_keys.1 ho])
  have htotal : ∀ side o, (l.counter q uid).totalOf side o =
      ∑ n ∈ h.filter (Writes log o uid), addedAt log q side n := fun _ _ =>
    hc.totalOf_eq hL hw hu hpo
  have hposOf : ∀ o, (l.counter q uid).posOf o = _ := htotal .pos
  have hnegOf : ∀ o, (l.counter q uid).negOf o = _ := htotal .neg
  simp only [hposOf, sum_origins _ (horigin _)] at hpos
  simp only [hnegOf, sum_origins _ (horigin _)] at hneg
  rw [PNCounter.value_eq_int64, hpos, hneg]
  push_cast
  rw [← Finset.sum_sub_distrib]
  congr 1
  apply Finset.sum_congr rfl
  intro n _
  unfold deltaAt addedAt Update.delta Op.delta
  cases log[n]? with
  | none => rfl
  | some e =>
    simp only [Option.elim_some]
    split <;> simp

end Shopping
