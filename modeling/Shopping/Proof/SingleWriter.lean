import Shopping.Proof.Totals

/-!
# The single writer of an origin

In a run without deletions a client keeps what it writes: the updates it has made to a
list are in its stored copy, or in the copy its call in progress will store
(`Ordered`). So each of its updates is made on a copy with all the earlier ones.
-/

namespace Shopping

open Lib

variable {ι κ : Type*} [DecidableEq ι] [DecidableEq κ]

/-- Update `n` is in a client's copy under a key, or in the list its edit in progress will
store there. -/
def Keeps (c : ClientState) (H : Histories) (held : Finset ℕ) (key : Str) (n : ℕ) : Prop :=
  n ∈ H key ∨ ∃ call lst, c.call = some (call, .edit lst) ∧ lst.key = key ∧ n ∈ held

/-- The list a call will store has what is stored there now. -/
def Covers (c : ClientState) (H : Histories) (held : Finset ℕ) : Prop :=
  ∀ call pending key, c.call = some (call, pending) → pending.key = some key → H key ⊆ held

/-- Every client keeps its updates, and makes each on all the earlier ones. -/
structure Ordered (D : Deployment ι κ) (w : World ι κ) (g : Trace ι κ) : Prop where
  program : ProgramOrder g.log
  own : ∀ k n (e : Update), g.log[n]? = some e → e.origin = D.origin k →
    Keeps (w.client k) (g.client k) (g.call k) e.base.key n
  covers : ∀ k, Covers (w.client k) (g.client k) (g.call k)

variable {D : Deployment ι κ} {w w' : World ι κ} {g g' : Trace ι κ} {a : Action ι κ}

theorem Covers.idle {c : ClientState} (h : c.call = none) (H : Histories) (held : Finset ℕ) :
    Covers c H held := by
  intro call pending key hc; rw [h] at hc; cases hc

omit [DecidableEq ι] [DecidableEq κ] in
theorem Ordered.init (D : Deployment ι κ) : Ordered D (World.init D) {} where
  program := by intro n e hn; simp at hn
  own := by intro k n e hn; simp at hn
  covers k := Covers.idle rfl _ _

omit [DecidableEq ι] in
/-- A step that makes no update, and after which client `k` keeps what it kept. -/
theorem Ordered.mono (ho : Ordered D w g) (k : κ) (hlog : g'.log = g.log)
    (hother : ∀ j, j ≠ k → w'.client j = w.client j ∧ g'.client j = g.client j ∧
      g'.call j = g.call j)
    (hkeeps : ∀ key n, Keeps (w.client k) (g.client k) (g.call k) key n →
      Keeps (w'.client k) (g'.client k) (g'.call k) key n)
    (hcovers : Covers (w'.client k) (g'.client k) (g'.call k)) : Ordered D w' g' := by
  constructor
  · rw [hlog]; exact ho.program
  · intro j n e hn hj
    rw [hlog] at hn
    have := ho.own j n e hn hj
    by_cases hjk : j = k
    · subst hjk; exact hkeeps _ _ this
    · obtain ⟨h1, h2, h3⟩ := hother j hjk
      rw [h1, h2, h3]; exact this
  · intro j
    by_cases hjk : j = k
    · subst hjk; exact hcovers
    · obtain ⟨h1, h2, h3⟩ := hother j hjk
      rw [h1, h2, h3]; exact ho.covers j

omit [DecidableEq ι] [DecidableEq κ] in
/-- A step of a node. -/
theorem Ordered.node_step (ho : Ordered D w g) (hw : w'.client = w.client) (hlog : g'.log = g.log)
    (hclient : g'.client = g.client) (hcall : g'.call = g.call) : Ordered D w' g' := by
  constructor
  · rw [hlog]; exact ho.program
  · rw [hlog, hw, hclient, hcall]; exact ho.own
  · rw [hw, hclient, hcall]; exact ho.covers

/-- A call without an edit keeps what is stored. -/
theorem Keeps.of_idle {c c' : ClientState} {H : Histories} {held held' : Finset ℕ}
    (h : c.call = none) {key : Str} {n : ℕ} (hk : Keeps c H held key n) : Keeps c' H held' key n := by
  rcases hk with hk | ⟨call, lst, hc, -⟩
  · exact Or.inl hk
  · rw [h] at hc; cases hc

omit [DecidableEq ι] in
theorem Ends.setClient {k : κ} {pending : Pending} {reply : Option Message}
    (h : Ends w k pending reply w') : ∃ c', w' = w.setClient k c' ∧ c'.call = none := by
  cases h with
  | idle => exact ⟨_, rfl, rfl⟩
  | failed => exact ⟨_, rfl, rfl⟩
  | edited => exact ⟨_, rfl, rfl⟩
  | got => exact ⟨_, rfl, rfl⟩

omit [DecidableEq ι] in
/-- The end of a call keeps what was stored and what the call held. -/
theorem Ordered.ends (ho : Ordered D w g) {k : κ} {call : ℕ} {pending : Pending}
    {reply : Option Message} (hc : (w.client k).call = some (call, pending))
    (cloud : Option (Finset ℕ)) (he : Ends w k pending reply w') :
    Ordered D w' (g.finished k pending cloud) := by
  obtain ⟨c', rfl, hc'⟩ := he.setClient
  have hself : (w.setClient k c').client k = c' := Function.update_self _ _ _
  have hother : ∀ j, j ≠ k → (w.setClient k c').client j = w.client j :=
    fun j hj => Function.update_of_ne hj _ _
  -- what the call stores has what was stored under its key and what it held
  have hstore : ∀ key, pending.key = some key → Ordered D (w.setClient k c')
      { g with
        client := Function.update g.client k
          (Function.update (g.client k) key (g.call k ∪ cloud.getD ∅)) } := by
    intro key hkey
    refine ho.mono k rfl (fun j hj => ⟨hother j hj, Function.update_of_ne hj _ _, rfl⟩) ?_ ?_
    · intro key' n hk
      refine Or.inl ?_
      dsimp only
      rw [Function.update_self, Function.update_apply]
      rcases hk with hk | ⟨call', lst, hcall, rfl, hn⟩
      · split
        · rename_i h
          subst h
          exact Finset.mem_union_left _ (ho.covers k call pending _ hc hkey hk)
        · exact hk
      · rw [hc] at hcall
        cases hcall
        cases hkey
        rw [if_pos rfl]
        exact Finset.mem_union_left _ hn
    · rw [hself]; exact Covers.idle hc' _ _
  have hnothing : (∀ lst, pending ≠ .edit lst) → Ordered D (w.setClient k c') g := by
    intro hne
    refine ho.mono k rfl (fun j hj => ⟨hother j hj, rfl, rfl⟩) ?_ ?_
    · intro key n hk
      rcases hk with hk | ⟨call', lst, hcall, -⟩
      · exact Or.inl hk
      · rw [hc] at hcall; cases hcall; exact absurd rfl (hne lst)
    · rw [hself]; exact Covers.idle hc' _ _
  cases pending with
  | create => exact hnothing (by simp)
  | delete => exact hnothing (by simp)
  | edit lst => exact hstore lst.key rfl
  | get listUid found =>
    cases found with
    | some l => exact hstore (cstr listUid) rfl
    | none =>
      cases cloud with
      | none => exact hnothing (by simp)
      | some h => exact hstore (cstr listUid) rfl

omit [DecidableEq ι] in
/-- A step of client `k` that leaves the histories and any call in progress alone. -/
theorem Ordered.same_call (ho : Ordered D w g) {k : κ} {c' : ClientState} {ps : List (Packet κ)}
    (hcall : c'.call = (w.client k).call) (hlog : g'.log = g.log) (hclient : g'.client = g.client)
    (hheld : g'.call = g.call) :
    Ordered D { w with client := Function.update w.client k c', net := w.net ++ ps } g' := by
  refine ho.mono k hlog ?_ ?_ ?_
  · intro j hj
    rw [hclient, hheld]
    exact ⟨Function.update_of_ne hj _ _, rfl, rfl⟩
  · intro key n hk
    dsimp only
    rw [Function.update_self, hclient, hheld, Keeps, hcall]; exact hk
  · dsimp only
    rw [Function.update_self, hclient, hheld, Covers, hcall]; exact ho.covers k

omit [DecidableEq ι] in
/-- A call that begins without an edit. -/
theorem Ordered.new_call (ho : Ordered D w g) {k : κ} {api : API} {ep : Str} {m : Message}
    {pending : Pending} (hc : (w.client k).call = none) (hlog : g'.log = g.log)
    (hclient : g'.client = g.client) (hheld : ∀ j, j ≠ k → g'.call j = g.call j)
    (hcov : ∀ key, pending.key = some key → g.client k key ⊆ g'.call k) :
    Ordered D (w.sendRequest k api ep m pending) g' := by
  refine ho.mono k hlog ?_ ?_ ?_
  · intro j hj
    rw [hclient]
    exact ⟨Function.update_of_ne hj _ _, rfl, hheld j hj⟩
  · intro key n hk
    rw [hclient]; exact hk.of_idle hc
  · intro call p key hcall hkey
    rw [World.sendRequest] at hcall
    dsimp only at hcall
    rw [Function.update_self] at hcall
    cases hcall
    rw [hclient]
    exact hcov key hkey

omit [DecidableEq ι] in
/-- A new update is made on the stored copy, which has all the earlier ones. -/
theorem Ordered.edited (ho : Ordered D w g) (hinj : Function.Injective D.origin)
    (hm : Matched D w) {k : κ} {listUid : Str} {op : Op} {base lst : ShoppingList} {now : UInt64}
    {ep : Str} (hc : (w.client k).call = none)
    (hb : (w.client k).api.db.rows.lookup (cstr listUid) = some base)
    (he : op.apply (w.client k).api.origin base = .ok lst)
    (hw : w' = w.sendRequest k (w.client k).api ep
      (Message.ensureList (w.client k).api.origin now lst) (.edit lst)) :
    Ordered D w' (g.edited D w w' k listUid op) := by
  have hself : (w'.client k).call = some ((w.client k).calls, .edit lst) := by
    rw [hw, World.sendRequest]; dsimp only; rw [Function.update_self]
  have hother : ∀ j, j ≠ k → w'.client j = w.client j := by
    intro j hj; rw [hw]; exact Function.update_of_ne hj _ _
  have hread : (w.client k).api.db.read listUid .ok = some base := hb
  have hbkey : base.key = cstr listUid := hm.clientKey k _ _ hb
  have hlkey : lst.key = cstr listUid := by
    rw [ShoppingList.key, (Op.apply_names he).1]
    exact hbkey
  simp only [Trace.edited, hread, hself]
  constructor
  · intro n e hn m hlt e' hm' ho' hk'
    rcases getElem?_concat_eq_some.1 hn with hn | ⟨rfl, rfl⟩
    · rcases getElem?_concat_eq_some.1 hm' with hm' | ⟨rfl, -⟩
      · exact ho.program n e hn m hlt e' hm' ho' hk'
      · have := (List.getElem?_eq_some_iff.1 hn).1; omega
    · rcases getElem?_concat_eq_some.1 hm' with hm' | ⟨rfl, -⟩
      · -- the client was idle, so what it kept was stored
        rcases ho.own k m e' hm' ho' with hin | ⟨call, l, hcall, -⟩
        · dsimp only at hk' ⊢
          rw [hk', hbkey] at hin
          exact Finset.mem_insert_of_mem hin
        · rw [hc] at hcall; cases hcall
      · omega
  · intro j n e hn hj
    dsimp only at hn ⊢
    rcases getElem?_concat_eq_some.1 hn with hn | ⟨rfl, rfl⟩
    · have hk := ho.own j n e hn hj
      by_cases hjk : j = k
      · subst hjk; exact hk.of_idle hc
      · rw [hother j hjk, Function.update_of_ne hjk]; exact hk
    · -- the new update is of the calling client, whose call keeps the copy
      obtain rfl := hinj hj
      refine Or.inr ⟨_, lst, hself, hlkey.trans hbkey.symm, ?_⟩
      rw [Function.update_self]; exact Finset.mem_insert_self _ _
  · intro j
    dsimp only
    by_cases hjk : j = k
    · subst hjk
      -- the copy of the call has all that was stored
      intro call p key hcall hkey
      rw [hself] at hcall
      cases hcall
      cases hkey
      rw [Function.update_self, hlkey]
      exact Finset.subset_insert _ _
    · rw [hother j hjk, Function.update_of_ne hjk]; exact ho.covers j

/-- **Every step but a deletion keeps the order.** -/
theorem Ordered.step (ho : Ordered D w g) (hinj : Function.Injective D.origin)
    (hm : Matched D w) (hd : ¬ a.IsDelete)
    (h : World.step D w a = some w') : Ordered D w' (Trace.track D w a w' g) := by
  have hshape := step_shape h g
  generalize Trace.track D w a w' g = g' at hshape
  cases hshape with
  | quiet => exact ho.node_step rfl rfl rfl rfl
  | clientFrame i p now k c dest frame _ hp _ hw =>
    rw [settle_eq_place] at hw
    subst hw
    exact ho.node_step rfl rfl rfl rfl
  | gossipFrame i p now dests frame _ hp hw =>
    rw [settle_eq_place] at hw
    subst hw
    exact ho.node_step rfl rfl rfl rfl
  | create k name uid now pick ep _ hc hu hw =>
    subst hw
    exact ho.new_call hc rfl rfl (fun _ _ => rfl) (by intro key hkey; cases hkey)
  | get k listUid now pick ep _ hc hw =>
    subst hw
    refine ho.new_call hc rfl rfl (fun j hj => Function.update_of_ne hj _ _) ?_
    intro key hkey
    cases hkey
    dsimp only
    rw [Function.update_self]
  | edit _ k listUid op base lst now ep _ hc hb he hw => exact ho.edited hinj hm hc hb he hw
  | delete => exact absurd trivial hd
  | batches k now pick batches _ hb hw => subst hw; exact ho.same_call rfl rfl rfl rfl
  | refresh k now pick ep _ hw => subst hw; exact ho.same_call rfl rfl rfl rfl
  | finish _ k call pending reply hs hc _ => exact ho.ends hc _ (finish_ends w k pending reply)
  | refreshed _ k reply _ =>
    rw [World.setClient_eq]
    exact ho.same_call rfl rfl rfl rfl

/-- **Without deletions, every run is ordered.** -/
theorem ordered (hinj : Function.Injective D.origin) {s : Traced ι κ}
    (hrun : Run (Traced.step D) (fun _ a => ¬ a.IsDelete) (Traced.init D) s) :
    Reflected IsCopy s.1 s.2 ∧ Ordered D s.1 s.2 := by
  suffices (Matched D s.1 ∧ Reflected IsCopy s.1 s.2) ∧ Ordered D s.1 s.2 from ⟨this.1.2, this.2⟩
  refine hrun.inv (I := fun s => (Matched D s.1 ∧ Reflected IsCopy s.1 s.2) ∧ Ordered D s.1 s.2)
    ⟨⟨Matched.init D, Reflected.init IsCopy D⟩, Ordered.init D⟩ ?_
  intro s a s' hI hd hs
  obtain ⟨h1, h2⟩ := traced_eq_some hs
  rw [h2]
  exact ⟨⟨hI.1.1.step h1, hI.1.2.next hI.1.1 h1⟩, hI.2.step hinj hI.1.1 hd h1⟩

/-- **No quantity update is lost or counted twice.** After any run without deletions, a
stored list has, for every item and every client, the totals the client's latest update
in the replica's history left, and shows the sum of the deltas recorded in the history. -/
theorem quantities_exact (hinj : Function.Injective D.origin) {s : Traced ι κ}
    (hrun : Run (Traced.step D) (fun _ a => ¬ a.IsDelete) (Traced.init D) s)
    (hw : NoWraps s.2.log) (hu : NewUids s.2.log) {r : ι ⊕ κ} {key : Str} {l : ShoppingList}
    (hl : s.1.list r key = some l) (q : Quantity) (uid : Str) :
    (∀ o, (∀ n ∈ s.2.history r key, ∀ e : Update, s.2.log[n]? = some e → e.origin ≠ o) →
      (l.counter q uid).posOf o = 0 ∧ (l.counter q uid).negOf o = 0) ∧
    (∀ n e, n ∈ s.2.history r key → s.2.log[n]? = some e →
      (∀ m ∈ s.2.history r key, ∀ e' : Update, s.2.log[m]? = some e' → e'.origin = e.origin →
        m ≤ n) →
      (l.counter q uid).posOf e.origin = (e.state.counter q uid).posOf e.origin ∧
        (l.counter q uid).negOf e.origin = (e.state.counter q uid).negOf e.origin) ∧
    (l.counter q uid).value = int64 (∑ n ∈ s.2.history r key, deltaAt s.2.log q uid n) ∧
    (-2 ^ 63 ≤ ∑ n ∈ s.2.history r key, deltaAt s.2.log q uid n →
      ∑ n ∈ s.2.history r key, deltaAt s.2.log q uid n < 2 ^ 63 →
      (l.counter q uid).value = ∑ n ∈ s.2.history r key, deltaAt s.2.log q uid n) := by
  obtain ⟨hr, ho⟩ := ordered hinj hrun
  have hc := hr.list hl
  have hvalue := hc.value_eq hr.logged hw hu ho.program q uid
  refine ⟨?_, ?_, hvalue, ?_⟩
  · intro o hno; exact hc.none hr.logged hw hu ho.program hno
  · intro n e hn he hlast; exact hc.latest hr.logged hw hu ho.program he hn hlast
  · intro h1 h2; rw [hvalue]; exact int64_of_range h1 h2

/-- In the sample run, the node's list shows the last of the two quantities set: the item's
first quantity and the difference to the second. -/
theorem sampleRun_total : ∃ (s : Traced (Fin 2) (Fin 2)) (l : ShoppingList),
    Run (Traced.step .sample) (fun _ a => ¬ a.IsDelete) (Traced.init .sample) s ∧
      s.1.list (.inl 0) (sampleUid 0) = some l ∧
      (∑ n ∈ s.2.history (.inl 0) (sampleUid 0),
        deltaAt s.2.log .desired (sampleUid 1) n) = 1 + 2 ∧
      (l.counter .desired (sampleUid 1)).value = 3 := by
  obtain ⟨s, hs, hp⟩ := runList_of_any (Traced.step Deployment.sample)
    (Traced.init Deployment.sample) sampleRun
    (fun s => decide (NoWraps s.2.log ∧ NewUids s.2.log ∧
        (∑ n ∈ s.2.history (.inl 0) (sampleUid 0),
          deltaAt s.2.log .desired (sampleUid 1) n) = 3) &&
      (s.1.list (.inl 0) (sampleUid 0)).isSome)
    (by decide +kernel)
  simp only [Bool.and_eq_true, decide_eq_true_eq, Option.isSome_iff_exists] at hp
  obtain ⟨⟨hw, hu, hsum⟩, l, hl⟩ := hp
  have hrun : Run (Traced.step Deployment.sample) (fun _ a => ¬ a.IsDelete) (Traced.init .sample) s :=
    Run.of_list (by simp [sampleRun, Action.IsDelete]) hs
  have hinj : Function.Injective Deployment.sample.origin := by decide
  obtain ⟨-, -, -, htotal⟩ :=
    quantities_exact hinj hrun hw hu hl .desired (sampleUid 1)
  rw [hsum] at htotal
  exact ⟨s, l, hrun, hl, hsum, htotal (by norm_num) (by norm_num)⟩

end Shopping
