import Shopping.Proof.Relays
import Shopping.Proof.Quantities

/-!
# Updates arrive

What strong eventual consistency leaves open: when two replicas do have the same updates.

* `content_relayed` (every run): along a relay the content of a list only grows. So a replica
  that does not delete the list never shows less than before, and shows what any replica
  has passed on to it, over any number of others.
* `eventually_consistent` (runs without deletions): a replica reached from every client, each
  since its last change of the list, has all updates of the list, so all such replicas show
  the same.
-/

namespace Shopping

open Lib

variable {ι κ : Type*} [DecidableEq ι] [DecidableEq κ] {D : Deployment ι κ} {s s' : Traced ι κ}
  {key : Str} {r r' : ι ⊕ κ}

/-- The content of a replica's list; none where no list is stored. -/
def World.contentOf (w : World ι κ) (r : ι ⊕ κ) (key : Str) : Content :=
  (w.list r key).elim ⊥ content

/-- The updates of a list. -/
def updatesOf (log : List Update) (key : Str) : Finset ℕ :=
  (Finset.range log.length).filter fun n => ∃ e ∈ log[n]?, e.base.key = key

/-- The updates of a list by one origin. -/
def updatesBy (log : List Update) (origin key : Str) : Finset ℕ :=
  (updatesOf log key).filter fun n => ∃ e ∈ log[n]?, e.origin = origin

omit [DecidableEq ι] [DecidableEq κ] in
/-- A replica without the list has none of its updates. -/
theorem Reflected.absent {w : World ι κ} {g : Trace ι κ} (hr : Reflected IsCopy w g)
    (hl : w.list r key = none) : g.history r key = ∅ := by
  cases r with
  | inl i => exact (hr.node i).absent key hl
  | inr k => exact (hr.client k).absent key hl

/-- The log only grows. -/
theorem log_extends {P : Traced ι κ → Action ι κ → Prop} (h : Run (Traced.step D) P s s') :
    s.2.log <+: s'.2.log := by
  refine h.inv (I := fun t => s.2.log <+: t.2.log) List.prefix_rfl ?_
  intro t a t' hI _ ht
  rw [(traced_eq_some ht).2]
  rcases track_log (D := D) t.1 t'.1 a t.2 with hlog | ⟨k, listUid, op, base, lst, -, -, hlog⟩
  · rw [hlog]; exact hI
  · rw [hlog]; exact hI.trans (List.prefix_append _ _)

omit [DecidableEq ι] [DecidableEq κ] in
/-- What a replica stores is the join of its history, also in the log of a later state. -/
theorem Reflected.contentOf_eq {w : World ι κ} {g : Trace ι κ} (hr : Reflected IsCopy w g)
    {log : List Update} (hp : g.log <+: log) (hL : Logged lists log) (hw : NoWraps log)
    (hu : NewUids log) : w.contentOf r key = (g.history r key).sup (viewAt lists log content) := by
  unfold World.contentOf
  cases hl : w.list r key with
  | none => rw [hr.absent hl]; rfl
  | some l => exact IsCopy.content_eq hL hw hu ((hr.list hl).mono hp)

/-- What is passed on is known. -/
theorem relayed_history (hs : Sound D s) (h : Relayed (listChannel D key) r s r' s') :
    s.2.history r key ⊆ s'.2.history r' key := fun n hn =>
  (h.spreads (update_rumour D key n) hs hn).2

/-- A client creates a list, and adds an item to it while no node answers. -/
def offlineRun : List (Action (Fin 2) (Fin 2)) :=
  [.start 0 1, .start 1 1, .createShoppingList 0 [] (sampleUid 0) 1 0, .clientFrame 0 0 fun _ => 2,
    .reply 0 4, .addItem 0 (sampleUid 0) (str "milk") 1 0 (sampleUid 1) 3 3 0, .noReply 0]

/-- Its next batch comes to one node, and the node's gossip to the other. -/
theorem offlineRun_relayed : ∃ s0 s : Traced (Fin 2) (Fin 2),
    runList (Traced.step .sample) (Traced.init .sample) offlineRun = some s0 ∧
      (s0.1.client 0).call = none ∧ s.2.log = s0.2.log ∧ NoWraps s0.2.log ∧ NewUids s0.2.log ∧
      ((s0.1.contentOf (.inr 0) (sampleUid 0)).adds (sampleUid 1)).Nonempty ∧
      (updatesOf s0.2.log (sampleUid 0)).Nonempty ∧
      updatesBy s0.2.log (Deployment.sample.origin 1) (sampleUid 0) = ∅ ∧
      Run (Traced.step .sample) (fun _ a => ¬ a.IsDelete) s0 s ∧
      Relayed (listChannel .sample (sampleUid 0)) (.inr 0) s0 (.inl 0) s ∧
      Relayed (listChannel .sample (sampleUid 0)) (.inr 0) s0 (.inl 1) s := by
  obtain ⟨s0, hs0, hp⟩ := runList_of_any (Traced.step Deployment.sample)
    (Traced.init Deployment.sample) offlineRun
    (fun s0 => decide ((s0.1.client 0).call.isNone = true ∧ s0.1.net.length ≤ 6 ∧
          NoWraps s0.2.log ∧ NewUids s0.2.log ∧
          ((s0.1.contentOf (.inr 0) (sampleUid 0)).adds (sampleUid 1)).Nonempty ∧
          (updatesOf s0.2.log (sampleUid 0)).Nonempty ∧
          updatesBy s0.2.log (Deployment.sample.origin 1) (sampleUid 0) = ∅) &&
      (Traced.step .sample s0 (.gossipState 0 4 fun _ => 0)).any fun (s1 : Traced (Fin 2) (Fin 2)) =>
        decide ((s1.1.net[6]?).isSome = true ∧ ∃ m ∈ Trace.received Platform.sample s1.1 6,
          (s1.1.node 0).node.Accepts Platform.sample m ∧ m.op = .gossipLists ∧
            ∃ l ∈ m.lists, l.key = sampleUid 0) &&
        (Traced.step .sample s1 (.clientFrame 0 6 fun _ => 5)).any
            fun (s2 : Traced (Fin 2) (Fin 2)) =>
          decide (s2.1.net.length ≤ 11) &&
          (Traced.step .sample s2 (.stateTimer 0 6)).any fun (s3 : Traced (Fin 2) (Fin 2)) =>
            decide ((s3.1.net[11]?).isSome = true ∧
              ∃ m ∈ Trace.received Platform.sample s3.1 11, m.op = .gossipLists ∧
                ∃ l ∈ m.lists, l.key = sampleUid 0) &&
            (Traced.step .sample s3 (.gossipFrame 1 11 fun _ => 7)).any
                fun (s4 : Traced (Fin 2) (Fin 2)) =>
              decide (s4.2.log.length ≤ s0.2.log.length))
    (by decide +kernel)
  simp only [Bool.and_eq_true, decide_eq_true_eq, Option.any_eq_true, Option.isSome_iff_exists] at hp
  obtain ⟨⟨hidle, h6, hw, hu, hadds, hne, hby⟩, s1, h1,
    ⟨⟨pkt6, hpkt6⟩, m6, hm6, hacc6, hop6, hl6⟩, s2, h2, h11, s3, h3,
    ⟨⟨pkt11, hpkt11⟩, m11, hm11, hop11, hl11⟩, s4, h4, hlen⟩ := hp
  -- the batch comes to the first node
  have hnode0 : Relayed (listChannel .sample (sampleUid 0)) (.inr 0) s0 (.inl 0) s2 := by
    refine .hop (a := .gossipState 0 4 fun _ => 0) (b := .clientFrame 0 6 fun _ => 5) .here trivial
      ⟨rfl, h6, pkt6, hpkt6, trivial⟩ h1 Relation.ReflTransGen.refl
      ⟨rfl, m6, ⟨rfl, hm6, hacc6⟩, ?_⟩ h2
    unfold Message.Brings
    rw [hop6]
    exact hl6
  -- and its gossip to the second one
  have hbrings : m11.Brings (sampleUid 0) := by
    unfold Message.Brings
    rw [hop11]
    exact hl11
  have hkeeps : ∀ s a, (∀ m, ¬ Applies Deployment.sample s (0 : Fin 2) a m) →
      KeepsList Deployment.sample (sampleUid 0) (.inl 0 : Fin 2 ⊕ Fin 2) s a :=
    fun s a hno ⟨m, hm, _⟩ => hno m hm
  have hnode1 : Relayed (listChannel .sample (sampleUid 0)) (.inr 0) s0 (.inl 1) s4 :=
    .hop (a := .stateTimer 0 6) (b := .gossipFrame 1 11 fun _ => 7) hnode0
      (hkeeps s2.1 _ fun m hm => hm) ⟨rfl, h11, pkt11, hpkt11, trivial⟩ h3
      Relation.ReflTransGen.refl ⟨rfl, m11, ⟨rfl, hm11, hop11⟩, hbrings⟩ h4
  refine ⟨s0, s4, hs0, Option.isNone_iff_eq_none.1 hidle, ?_, hw, hu, hadds, hne, hby, ?_, ?_,
    hnode1⟩
  · exact ((log_extends hnode1.run).eq_of_length_le hlen).symm
  · exact (((Relation.ReflTransGen.single ⟨_, id, h1⟩).tail ⟨_, id, h2⟩).tail ⟨_, id, h3⟩).tail
      ⟨_, id, h4⟩
  · refine .wait (.wait hnode0 ?_ h3) ?_ h4
    · exact hkeeps s2.1 _ fun m hm => hm
    · exact hkeeps s3.1 _ fun m hm => absurd hm.1 (by decide)

/-- **Along every relay the content of a list only grows**, whatever else happens: other
replicas may delete the list, stop, and lose or repeat messages. -/
theorem content_relayed (h0 : Run (Traced.step D) (fun _ _ => True) (Traced.init D) s)
    (h : Relayed (listChannel D key) r s r' s') (hw : NoWraps s'.2.log) (hu : NewUids s'.2.log) :
    s.1.contentOf r key ≤ s'.1.contentOf r' key := by
  have hs := sound h0
  have hs' := sound (h0.trans h.run)
  have hL := hs'.reflected.logged
  rw [hs.reflected.contentOf_eq (log_extends h.run) hL hw hu,
    hs'.reflected.contentOf_eq List.prefix_rfl hL hw hu]
  exact Finset.sup_mono (relayed_history hs h)

/-- What the client added while no node answered is at the node its batch did not go to. -/
theorem offlineRun_content : ∃ s0 s : Traced (Fin 2) (Fin 2),
    Run (Traced.step .sample) (fun _ _ => True) (Traced.init .sample) s0 ∧
      Relayed (listChannel .sample (sampleUid 0)) (.inr 0) s0 (.inl 1) s ∧
      ((s0.1.contentOf (.inr 0) (sampleUid 0)).adds (sampleUid 1)).Nonempty ∧
      s0.1.contentOf (.inr 0) (sampleUid 0) ≤ s.1.contentOf (.inl 1) (sampleUid 0) := by
  obtain ⟨s0, s, hs0, -, hlog, hw, hu, hadds, -, -, -, -, hrel⟩ := offlineRun_relayed
  have hrun : Run (Traced.step .sample) (fun _ _ => True) (Traced.init .sample) s0 :=
    Run.of_list (fun _ _ _ => trivial) hs0
  exact ⟨s0, s, hrun, hrel, hadds, content_relayed hrun hrel (hlog ▸ hw) (hlog ▸ hu)⟩

theorem mem_updatesOf {log : List Update} {n : ℕ} :
    n ∈ updatesOf log key ↔ ∃ e ∈ log[n]?, e.base.key = key := by
  rw [updatesOf, Finset.mem_filter, Finset.mem_range, and_iff_right_iff_imp]
  rintro ⟨e, he, -⟩
  exact (List.getElem?_eq_some_iff.1 he).1

/-- The changes of the list by every client that made any have come to replica `r`: what the client
stored in a state in which it had no call to finish, and after which it has not changed the list. -/
def Reached (D : Deployment ι κ) (key : Str) (r : ι ⊕ κ) (s : Traced ι κ) : Prop :=
  ∀ k, (updatesBy s.2.log (D.origin k) key).Nonempty →
    ∃ s0, Run (Traced.step D) (fun _ a => ¬ a.IsDelete) (Traced.init D) s0 ∧
    (s0.1.client k).call = none ∧
    updatesBy s.2.log (D.origin k) key = updatesBy s0.2.log (D.origin k) key ∧
    Relayed (listChannel D key) (.inr k) s0 r s

/-- Every update is by a client of the deployment. -/
theorem origin_client {P : Traced ι κ → Action ι κ → Prop}
    (h : Run (Traced.step D) P (Traced.init D) s) : ∀ e ∈ s.2.log, ∃ k, e.origin = D.origin k := by
  refine h.inv (I := fun s => ∀ e ∈ s.2.log, ∃ k, e.origin = D.origin k)
    (by intro e he; cases he) ?_
  intro t a t' hI _ ht
  rw [(traced_eq_some ht).2]
  rcases track_log (D := D) t.1 t'.1 a t.2 with hlog | ⟨k, listUid, op, base, lst, -, -, hlog⟩
  · rw [hlog]; exact hI
  · rw [hlog]
    intro e he
    rcases List.mem_append.1 he with he | he
    · exact hI e he
    · rw [List.mem_singleton.1 he]; exact ⟨k, rfl⟩

omit [DecidableEq ι] [DecidableEq κ] in
/-- A replica has updates of its own list only. -/
theorem Reflected.history_subset {w : World ι κ} {g : Trace ι κ} (hr : Reflected IsCopy w g)
    (hm : Matched D w) : g.history r key ⊆ updatesOf g.log key := by
  intro n hn
  cases hl : w.list r key with
  | none => rw [hr.absent hl] at hn; cases hn
  | some l =>
    have hc := hr.list hl
    have hkey : l.key = key := by
      cases r with
      | inl i => exact hm.nodeKey i key l hl
      | inr k => exact hm.clientKey k key l hl
    have he := List.getElem?_eq_getElem (hc.lt_length hr.logged n hn)
    exact mem_updatesOf.2 ⟨_, he, (hc.key_eq hr.logged n hn _ he).trans hkey⟩

/-- **A replica reached from every client has every update of the list.** -/
theorem Reached.history_eq (hinj : Function.Injective D.origin)
    (hrun : Run (Traced.step D) (fun _ a => ¬ a.IsDelete) (Traced.init D) s)
    (hreach : Reached D key r s) : s.2.history r key = updatesOf s.2.log key := by
  have hs := sound hrun
  refine (hs.reflected.history_subset hs.matched).antisymm ?_
  intro n hn
  obtain ⟨e, he, hk⟩ := mem_updatesOf.1 hn
  obtain ⟨k, ho⟩ := origin_client hrun e (List.mem_of_getElem? he)
  have hby : n ∈ updatesBy s.2.log (D.origin k) key := Finset.mem_filter.2 ⟨hn, e, he, ho⟩
  obtain ⟨s0, hrun0, hidle, hsame, hrel⟩ := hreach k ⟨n, hby⟩
  -- the client that made the update had it already when its store was passed on
  have hn0 : n ∈ updatesBy s0.2.log (D.origin k) key := by rw [← hsame]; exact hby
  obtain ⟨hn0, e0, he0, ho0⟩ := Finset.mem_filter.1 hn0
  obtain ⟨e1, he1, hk1⟩ := mem_updatesOf.1 hn0
  obtain rfl : e0 = e1 := Option.some.inj (he0.symm.trans he1)
  have hkeeps := (ordered hinj hrun0).2.own k n e0 he0 ho0
  rw [hk1] at hkeeps
  rcases hkeeps with hmem | ⟨call, lst, hcall, -⟩
  · exact relayed_history (sound hrun0) hrel hmem
  · rw [hidle] at hcall; cases hcall

/-- **Replicas reached from every client show the same**: all updates of the list. -/
theorem eventually_consistent (hinj : Function.Injective D.origin)
    (hrun : Run (Traced.step D) (fun _ a => ¬ a.IsDelete) (Traced.init D) s)
    (hw : NoWraps s.2.log) (hu : NewUids s.2.log) :
    (∀ r, Reached D key r s →
      ((updatesOf s.2.log key).Nonempty → (s.1.list r key).isSome = true) ∧
        ∀ l, s.1.list r key = some l → IsJoin s.2.log (updatesOf s.2.log key) l) ∧
      ∀ r r' l l', Reached D key r s → Reached D key r' s → s.1.list r key = some l →
        s.1.list r' key = some l' →
        ∀ uid desired current, l.Shows uid desired current ↔ l'.Shows uid desired current := by
  have hr := (sound hrun).reflected
  refine ⟨fun r hreach => ?_, fun r r' l l' hreach hreach' hl hl' => ?_⟩
  · have hall := hreach.history_eq hinj hrun
    refine ⟨fun hne => ?_, fun l hl => ?_⟩
    · rw [Option.isSome_iff_ne_none]
      intro hl
      rw [← hall, hr.absent hl] at hne
      exact Finset.not_nonempty_empty hne
    · rw [← hall]; exact (hr.list hl).isJoin hr.logged hw hu
  · have hc := hr.list hl
    have hc' := hr.list hl'
    refine shows_congr (hc.wf hr.logged) (hc'.wf hr.logged) ?_
    rw [hc.content_eq hr.logged hw hu, hc'.content_eq hr.logged hw hu,
      hreach.history_eq hinj hrun, hreach'.history_eq hinj hrun]

/-- In the run both nodes are reached from the only client that has changed the list. -/
theorem offlineRun_consistent : ∃ (s : Traced (Fin 2) (Fin 2)) (l l' : ShoppingList),
    s.1.list (.inl 0) (sampleUid 0) = some l ∧ s.1.list (.inl 1) (sampleUid 0) = some l' ∧
      ∀ uid desired current, l.Shows uid desired current ↔ l'.Shows uid desired current := by
  obtain ⟨s0, s, hs0, hidle, hlog, hw, hu, -, hne, hby, hrest, hrel, hrel'⟩ := offlineRun_relayed
  have hrun0 : Run (Traced.step .sample) (fun _ a => ¬ a.IsDelete) (Traced.init .sample) s0 :=
    Run.of_list (by simp [offlineRun, Action.IsDelete]) hs0
  have hreach : ∀ i, Relayed (listChannel .sample (sampleUid 0)) (.inr 0) s0 (.inl i) s →
      Reached .sample (sampleUid 0) (.inl i) s := by
    intro i hi k hne
    rw [hlog] at hne ⊢
    have hk : k = 0 ∨ k = 1 := by omega
    rcases hk with rfl | rfl
    · exact ⟨s0, hrun0, hidle, rfl, hi⟩
    · rw [hby] at hne; exact absurd hne Finset.not_nonempty_empty
  have hreach0 := hreach 0 hrel
  have hreach1 := hreach 1 hrel'
  obtain ⟨hall, hsame⟩ := @eventually_consistent _ _ _ _ _ _ (sampleUid 0) (by decide)
    (hrun0.trans hrest) (hlog ▸ hw) (hlog ▸ hu)
  rw [← hlog] at hne
  obtain ⟨l, hl⟩ := Option.isSome_iff_exists.1 ((hall _ hreach0).1 hne)
  obtain ⟨l', hl'⟩ := Option.isSome_iff_exists.1 ((hall _ hreach1).1 hne)
  exact ⟨s, l, l', hl, hl', hsame _ _ l l' hreach0 hreach1 hl hl'⟩

end Shopping
