import Shopping.Proof.Consistency

/-!
# Item names

Merging an item takes the name of the item merged in, whichever of the two names is newer,
so two copies of an item with different names end with different names when each is merged
into the other. The name a list shows is the last one given in its history (`Named`) as
long as no merge meets a name that it does not know to be older (`NamesAgree`).
-/

namespace Shopping

open Lib

/-- The name an update gives an item. -/
def Op.nameFor (op : Op) (uid : Str) : Option Str :=
  match op with
  | add x name _ _ _ => if uid = x then some name else none
  | update x name _ _ _ => if uid = x then some name else none
  | remove _ => none

/-- The name that update `n` of the log gives an item. -/
def naming (log : List Update) (uid : Str) (n : ℕ) : Option Str :=
  (log[n]?).bind fun e => e.op.nameFor uid

/-- The name stored for an item. -/
def ShoppingList.nameOf (l : ShoppingList) (uid : Str) : Option Str :=
  (l.items.elements.lookup uid).map ShoppingItem.name

variable {log log' : List Update} {h h' : Finset ℕ} {l l' r : ShoppingList} {op : Op}
  {origin uid name : Str}

/-- **A merge takes the name of the list merged in**, where that has the item. -/
theorem ShoppingList.nameOf_merge (hm : l.merge l' = .ok r) (uid : Str) :
    r.nameOf uid = (l'.nameOf uid).or (l.nameOf uid) := by
  unfold nameOf
  rcases ORSet.elements_merge (merge_eq_ok hm).1 uid with
    ⟨h1, h2⟩ | ⟨y, h1, h2, h3⟩ | ⟨x, y, z, h1, h2, h3, h4⟩
  · rw [h1, h2]; rfl
  · rw [h1, h3]; rfl
  · have hname : z.name = y.name := (ShoppingItem.merge_eq_ok h3).2.2.1
    rw [h1, h2, h4, Option.map_some, hname]; rfl

/-- An update gives its item the name it has for it. -/
theorem Op.nameOf_apply (hw : l.WF) (h : op.apply origin l = .ok r) (uid : Str) :
    r.nameOf uid = (op.nameFor uid).or (l.nameOf uid) := by
  unfold ShoppingList.nameOf
  rw [Op.elements_apply hw h uid]
  by_cases hu : uid = op.itemUid
  · rw [if_pos hu]
    subst hu
    cases op with
    | add x given desired current tag => rw [itemUid, nameFor, if_pos rfl]; rfl
    | update x given desired current tag =>
      obtain ⟨it, -, hit, -, -⟩ := editItem_eq_ok hw h
      rw [itemUid, nameFor, if_pos rfl, hit]; rfl
    | remove x => rfl
  · rw [if_neg hu]
    have hnone : op.nameFor uid = none := by
      cases op with
      | add x given desired current tag => exact if_neg hu
      | update x given desired current tag => exact if_neg hu
      | remove x => rfl
    rw [hnone, Option.none_or]

theorem naming_mono (hp : log <+: log') {n : ℕ} (hn : n < log.length) (uid : Str) :
    naming log' uid n = naming log uid n := by
  obtain ⟨t, rfl⟩ := hp
  rw [naming, List.getElem?_append_left hn]; rfl

/-- The list merged in has each item under the name the other list has, or not at all, or
it knows all the names that list was given for it. -/
def NamesAgree : MergeCond := fun log h l h' l' =>
  ∀ uid ∈ l.items.elements.keys, l'.nameOf uid = l.nameOf uid ∨ l'.nameOf uid = none ∨
    ∀ n ∈ h, (naming log uid n).isSome → n ∈ h'

instance (log : List Update) (h : Finset ℕ) (l : ShoppingList) (h' : Finset ℕ) (l' : ShoppingList) :
    Decidable (NamesAgree log h l h' l') :=
  inferInstanceAs (Decidable (∀ uid ∈ l.items.elements.keys, _ ∨ _ ∨ ∀ n ∈ h, _ → _))

/-- The list is a copy with the names that were given last. -/
structure Named (log : List Update) (h : Finset ℕ) (l : ShoppingList) : Prop where
  copy : IsCopy log h l
  latest : ∀ uid name, l.nameOf uid = some name → Latest (naming log uid) h name
  unnamed : ∀ uid, l.nameOf uid = none → ∀ n ∈ h, naming log uid n = none

theorem Named.mono (hL : Logged lists log) (hp : log <+: log') (hn : Named log h l) :
    Named log' h l where
  copy := hn.copy.mono hp
  latest uid name hname := (hn.latest uid name hname).congr
    fun n hmem => naming_mono hp (hn.copy.lt_length hL n hmem) uid
  unnamed uid hnone n hmem :=
    (naming_mono hp (hn.copy.lt_length hL n hmem) uid).trans (hn.unnamed uid hnone n hmem)

theorem Named.update (hL : Logged lists log) (hn : Named log h l) (hu : op.apply origin l = .ok r) :
    Named (log ++ [⟨origin, op, l, r, insert log.length h⟩]) (insert log.length h) r := by
  have hlt := hn.copy.lt_length hL
  have hnew : ∀ uid, naming (log ++ [⟨origin, op, l, r, insert log.length h⟩]) uid log.length =
      op.nameFor uid := by
    intro uid; rw [naming, List.getElem?_concat_length]; rfl
  have hold := hn.mono hL (List.prefix_append log [⟨origin, op, l, r, insert log.length h⟩])
  refine ⟨Kept.isCopy.update hL hn.copy hu, ?_, ?_⟩
  · intro uid name hname
    rw [Op.nameOf_apply (hn.copy.wf hL) hu] at hname
    cases hop : op.nameFor uid with
    | some given =>
      rw [hop] at hname; cases hname
      exact Latest.write hlt ((hnew uid).trans hop)
    | none =>
      rw [hop, Option.none_or] at hname
      exact (hold.latest uid name hname).insert ((hnew uid).trans hop)
  · intro uid hnone n hmem
    rw [Op.nameOf_apply (hn.copy.wf hL) hu, Option.or_eq_none_iff] at hnone
    rcases Finset.mem_insert.1 hmem with rfl | hmem
    · rw [hnew, hnone.1]
    · exact hold.unnamed uid hnone.2 n hmem

theorem Named.merge (hn : Named log h l) (hn' : Named log h' l') (hk : l.key = l'.key)
    (hm : l.merge l' = .ok r) (hC : NamesAgree log h l h' l') : Named log (h ∪ h') r := by
  refine ⟨Copy.merge hn.copy hn'.copy ⟨hm, hk⟩, ?_, ?_⟩
  · intro uid name hname
    rw [ShoppingList.nameOf_merge hm] at hname
    -- the merge takes the other list's name where that has one
    cases hl' : l'.nameOf uid with
    | none =>
      rw [hl', Option.none_or] at hname
      rw [Finset.union_comm]
      refine Latest.union_of_subset ?_ (hn.latest uid name hname)
      intro n hmem hs
      rw [hn'.unnamed uid hl' n hmem] at hs; cases hs
    | some name' =>
      rw [hl'] at hname; cases hname
      have hlatest := hn'.latest uid name hl'
      cases hl : l.nameOf uid with
      | none =>
        refine hlatest.union_of_subset ?_
        intro n hmem hs
        rw [hn.unnamed uid hl n hmem] at hs; cases hs
      | some old =>
        have hkey : uid ∈ l.items.elements.keys := by
          rw [← AList.mem_keys, ← AList.lookup_isSome]
          exact Option.isSome_map.symm.trans (Option.isSome_of_eq_some hl)
        -- two names: they are one, or the other history has all writes of this one
        rcases hC uid hkey with heq | hnone | hsub
        · rw [hl', hl, Option.some.injEq] at heq
          subst heq
          exact (hn.latest uid name hl).union hlatest
        · rw [hl'] at hnone; cases hnone
        · exact hlatest.union_of_subset hsub
  · intro uid hnone n hmem
    rw [ShoppingList.nameOf_merge hm, Option.or_eq_none_iff] at hnone
    rcases Finset.mem_union.1 hmem with hmem | hmem
    · exact hn.unnamed uid hnone.2 n hmem
    · exact hn'.unnamed uid hnone.1 n hmem

/-- **Merges of names that agree keep the names that were given last.** -/
theorem Kept.named : Kept Named NamesAgree where
  copy hn := hn.copy
  mono hL hp hn := hn.mono hL hp
  blank := by
    intro log l hl
    have hnone : ∀ uid, l.nameOf uid = none := by
      intro uid; rw [ShoppingList.nameOf, hl]; rfl
    refine ⟨Copy.blank hl, ?_, ?_⟩
    · intro uid name hname; rw [hnone] at hname; cases hname
    · intro uid _ n hmem; cases hmem
  update hL hn hu := hn.update hL hu
  merge _ hn hn' hk hm hC := hn.merge hn' hk hm hC

/-- Copies that reflect the same updates have the same names. -/
theorem Named.nameOf_congr (hn : Named log h l) (hn' : Named log h l') (uid : Str) :
    l.nameOf uid = l'.nameOf uid := by
  cases hl : l.nameOf uid with
  | none =>
    cases hl' : l'.nameOf uid with
    | none => rfl
    | some name =>
      obtain ⟨n, hmem, hgiven, -⟩ := hn'.latest uid name hl'
      rw [hn.unnamed uid hl n hmem] at hgiven; cases hgiven
  | some name =>
    cases hl' : l'.nameOf uid with
    | none =>
      obtain ⟨n, hmem, hgiven, -⟩ := hn.latest uid name hl
      rw [hn'.unnamed uid hl' n hmem] at hgiven; cases hgiven
    | some name' => rw [(hn.latest uid name hl).unique (hn'.latest uid name' hl')]

variable {ι κ : Type*} [DecidableEq ι] [DecidableEq κ] {D : Deployment ι κ} {s s' : Traced ι κ}
  {a : Action ι κ} {i : ι} {m : Message} {key : Str}

/-- Delivering lists that reflect nothing new leaves a node's history as it is. -/
theorem node_known (hs : Traced.step D s a = some s') (happ : Applies D s.1 i a m)
    (ho : m.op ≠ .deleteList)
    (hold : ∀ lh ∈ m.lists.zip (s.2.delivered a), lh.1.key = key → lh.2 ⊆ s.2.node i key) :
    s'.2.node i key = s.2.node i key ∧ s'.2.log = s.2.log := by
  obtain ⟨-, htrack⟩ := traced_eq_some hs
  rw [htrack]
  cases a with
  | clientFrame j p now =>
    obtain ⟨rfl, hrec, l, hl, hsh⟩ := happ
    obtain ⟨ls, hls⟩ := List.head?_eq_some_iff.1 hl
    refine ⟨?_, rfl⟩
    simp only [Trace.track, Trace.handled, Function.update_self, hrec]
    rw [Trace.served_accepted hls hsh]
    exact Trace.applied_known ho hold
  | gossipFrame j p now =>
    obtain ⟨rfl, hrec, hop⟩ := happ
    refine ⟨?_, rfl⟩
    simp only [Trace.track, Trace.handled, Function.update_self, hrec, Trace.gossiped, if_pos hop]
    exact Trace.applied_known ho hold
  | _ => exact happ.elim

/-- **Item names converge exactly where no merge meets a newer or a concurrent name.** Two
copies of an item end with one name when each is merged into the other iff they have one
name. In every run whose merges meet names that agree, a list has the names given last in
its replica's history, replicas with the same history show the same names, and delivering a
state in the past of an update that a node reflects leaves the node's names in place. -/
theorem names_converge (D : Deployment ι κ) :
    (∀ a b : ShoppingItem, a.uid = b.uid →
      ((∃ r r', a.merge b = .ok r ∧ b.merge a = .ok r' ∧ r.name = r'.name) ↔ a.name = b.name)) ∧
    ∀ s, Run (Traced.step D) (Meets NamesAgree D) (Traced.init D) s →
      (∀ r key l uid name, s.1.list r key = some l → l.nameOf uid = some name →
        Latest (naming s.2.log uid) (s.2.history r key) name) ∧
      (∀ r r' key l l', s.1.list r key = some l → s.1.list r' key = some l' →
        s.2.history r key = s.2.history r' key →
        ∀ it ∈ l.getAllItems, ∀ it' ∈ l'.getAllItems, it.uid = it'.uid → it.name = it'.name) ∧
      ∀ i key l l' n e a m s', s.1.list (.inl i) key = some l → n ∈ s.2.node i key →
        s.2.log[n]? = some e → Meets NamesAgree D s a → Applies D s.1 i a m → m.op ≠ .deleteList →
        (∀ lh ∈ m.lists.zip (s.2.delivered a), lh.1.key = key → lh.2 ⊆ e.hist) →
        Traced.step D s a = some s' → s'.1.list (.inl i) key = some l' →
        ∀ uid, l'.nameOf uid = l.nameOf uid := by
  refine ⟨?_, ?_⟩
  · intro a b hab
    constructor
    · rintro ⟨r, r', hr, hr', hname⟩
      rw [(ShoppingItem.merge_eq_ok hr).2.2.1, (ShoppingItem.merge_eq_ok hr').2.2.1] at hname
      exact hname.symm
    · intro hname
      obtain ⟨r, hr⟩ := ShoppingItem.merge_isOk.2 hab
      obtain ⟨r', hr'⟩ := ShoppingItem.merge_isOk.2 hab.symm
      refine ⟨r, r', hr, hr', ?_⟩
      rw [(ShoppingItem.merge_eq_ok hr).2.2.1, (ShoppingItem.merge_eq_ok hr').2.2.1, hname]
  · intro s hrun
    obtain ⟨hm, hr⟩ := Kept.named.reflected (fun _ _ h => h) hrun
    refine ⟨fun r key l uid name hl => (hr.list hl).latest uid name, ?_, ?_⟩
    · intro r r' key l l' hl hl' heq it hit it' hit' huid
      have hn := hr.list hl
      have hn' := hr.list hl'
      obtain ⟨-, he⟩ := (ORSet.WF.mem_values_iff (hn.copy.wf hr.logged) it).1 hit
      obtain ⟨-, he'⟩ := (ORSet.WF.mem_values_iff (hn'.copy.wf hr.logged) it').1 hit'
      have hsame := hn.nameOf_congr (heq ▸ hn') it.uid
      have hname : l.nameOf it.uid = some it.name := congrArg (Option.map ShoppingItem.name) he
      have hname' : l'.nameOf it'.uid = some it'.name := congrArg (Option.map ShoppingItem.name) he'
      rw [hname, huid, hname', Option.some.injEq] at hsame
      exact hsame
    · intro i key l l' n e a m s' hl hn he hC happ ho hold hs hl' uid
      have hnamed : Named s.2.log (s.2.node i key) l := hr.list hl
      -- what is delivered was in the past of an update that the node has
      have hpast : e.hist ⊆ s.2.node i key := Copy.closed hr.logged hnamed.copy n hn e he
      obtain ⟨hsame, hlog⟩ :=
        node_known hs happ ho fun lh hlh hk => (hold lh hlh hk).trans hpast
      obtain ⟨-, hr'⟩ := Kept.named.reflected (fun _ _ h => h) (hrun.tail ⟨a, hC, hs⟩)
      have hnamed' : Named s'.2.log (s'.2.node i key) l' := hr'.list hl'
      rw [hsame, hlog] at hnamed'
      exact hnamed'.nameOf_congr hnamed uid

/-- The sample run meets names that agree, and delivering the created list again, which is in
the past of the rename, changes no name. -/
theorem sampleRun_names : ∃ (s s' : Traced (Fin 2) (Fin 2)) (l l' lc : ShoppingList),
    Run (Traced.step .sample) (Meets NamesAgree .sample) (Traced.init .sample) s ∧
      s.1.list (.inl 0) (sampleUid 0) = some l ∧ s.1.list (.inr 0) (sampleUid 0) = some lc ∧
      s'.1.list (.inl 0) (sampleUid 0) = some l' ∧
      l.nameOf (sampleUid 1) = some (str "soy milk") ∧
      (∀ it ∈ l.getAllItems, ∀ it' ∈ lc.getAllItems, it.uid = it'.uid → it.name = it'.name) ∧
      ∀ uid, l'.nameOf uid = l.nameOf uid := by
  obtain ⟨s, hs, hp⟩ := runList_of_any
    (checked (Traced.step Deployment.sample) (Meets NamesAgree Deployment.sample))
    (Traced.init Deployment.sample) sampleRun
    (fun s => decide (s.2.node 0 (sampleUid 0) = {0, 1} ∧ s.2.client 0 (sampleUid 0) = {0, 1} ∧
        Meets NamesAgree .sample s (.clientFrame 0 0 fun _ => 7)) &&
      (s.2.log[1]?).isSome &&
      (s.1.list (.inl 0) (sampleUid 0)).any (fun l : ShoppingList =>
        decide (l.nameOf (sampleUid 1) = some (str "soy milk"))) &&
      (s.1.list (.inr 0) (sampleUid 0)).isSome &&
      (Trace.received Platform.sample s.1 0).any (fun m : Message => decide
        ((s.1.node 0).node.Accepts Platform.sample m ∧ m.op ≠ .deleteList ∧
          ∀ lh ∈ m.lists.zip (s.2.carried 0), lh.2 = ∅)) &&
      (Traced.step .sample s (.clientFrame 0 0 fun _ => 7)).any fun s' : Traced (Fin 2) (Fin 2) =>
        (s'.1.list (.inl 0) (sampleUid 0)).isSome) (by decide +kernel)
  simp only [Bool.and_eq_true, decide_eq_true_eq, Option.any_eq_true, Option.isSome_iff_exists] at hp
  obtain ⟨⟨⟨⟨⟨⟨hn, hc, hmeets⟩, e, he⟩, l, hl, hname⟩, lc, hlc⟩, m, hm, hacc, ho, hold⟩,
    s', hs', l', hl'⟩ := hp
  have hrun := Run.of_checked hs
  obtain ⟨-, hsame, hkeep⟩ := (names_converge .sample).2 s hrun
  refine ⟨s, s', l, l', lc, hrun, hl, hlc, hl', hname,
    hsame (.inl 0) (.inr 0) (sampleUid 0) l lc hl hlc (hn.trans hc.symm), ?_⟩
  refine hkeep 0 (sampleUid 0) l l' 1 e _ m s' hl (by rw [hn]; decide) he hmeets ⟨rfl, hm, hacc⟩ ho
    ?_ hs' hl'
  intro lh hlh _
  rw [hold lh hlh]
  exact Finset.empty_subset _

/-- A client creates a list and an item, another client gets the list, the first one renames
the item, and the other one sends the node its copy. -/
def renameRun : List (Action (Fin 2) (Fin 2)) :=
  [.start 0 1, .createShoppingList 0 [] (sampleUid 0) 1 0, .clientFrame 0 0 fun _ => 2, .reply 0 4,
    .addItem 0 (sampleUid 0) (str "milk") 1 0 (sampleUid 1) 3 3 0, .clientFrame 0 5 fun _ => 4,
    .reply 0 9, .getShoppingList 1 (sampleUid 0) 5 0, .clientFrame 0 10 fun _ => 6, .reply 1 11,
    .updateItem 0 (sampleUid 0) (sampleUid 1) (str "soy milk") 1 0 7 7 0,
    .clientFrame 0 12 fun _ => 8, .reply 0 16, .gossipState 1 9 fun _ => 0]

/-- The name that a replica has for the item of the run. -/
def shownName (s : Traced (Fin 2) (Fin 2)) (r : Fin 2 ⊕ Fin 2) : Option Str :=
  (s.1.list r (sampleUid 0)).bind fun l => l.nameOf (sampleUid 1)

/-- **Two copies of an item take each other's name**, and an older state undoes a rename:
the node shows the old name and the renaming client the new one, with the same history. -/
theorem names_diverge :
    (∃ a b r r' : ShoppingItem,
      a.uid = b.uid ∧ a.merge b = .ok r ∧ b.merge a = .ok r' ∧ r.name ≠ r'.name) ∧
    ∃ s s' : Traced (Fin 2) (Fin 2),
      Run (Traced.step .sample) (fun _ a => ¬ a.IsDelete) (Traced.init .sample) s ∧
      Traced.step .sample s (.clientFrame 0 17 fun _ => 10) = some s' ∧
      shownName s (.inl 0) = some (str "soy milk") ∧ shownName s' (.inl 0) = some (str "milk") ∧
      s'.2.node 0 (sampleUid 0) = s.2.node 0 (sampleUid 0) ∧
      shownName s' (.inr 0) = some (str "soy milk") ∧
      s'.2.client 0 (sampleUid 0) = s'.2.node 0 (sampleUid 0) := by
  refine ⟨⟨{ name := str "milk" }, { name := str "soy milk" }, { name := str "soy milk" },
    { name := str "milk" }, rfl, rfl, rfl, by decide⟩, ?_⟩
  obtain ⟨s, hs, hp⟩ := runList_of_any (Traced.step Deployment.sample)
    (Traced.init Deployment.sample) renameRun
    (fun s => (Traced.step .sample s (.clientFrame 0 17 fun _ => 10)).any fun s' => decide
      (shownName s (.inl 0) = some (str "soy milk") ∧ shownName s' (.inl 0) = some (str "milk") ∧
        s'.2.node 0 (sampleUid 0) = s.2.node 0 (sampleUid 0) ∧
        shownName s' (.inr 0) = some (str "soy milk") ∧
        s'.2.client 0 (sampleUid 0) = s'.2.node 0 (sampleUid 0))) (by decide +kernel)
  simp only [Option.any_eq_true, decide_eq_true_eq] at hp
  obtain ⟨s', hs', hshown⟩ := hp
  refine ⟨s, s', Run.of_list ?_ hs, hs', hshown⟩
  simp [renameRun, Action.IsDelete]

end Shopping
