import Shopping.Model.ShoppingList
import Shopping.Lib.Replication
import Shopping.Lib.Run

/-!
# Observed-remove membership

Any number of replicas of one list change it through `ShoppingList::add`, `update` and
`remove` and merge past or present states of each other (`Group`). Whatever they do, an
item is visible exactly if the replica's history has an add or update of it that no
remove of it in the history has seen (`membership`). The one condition is on the clock:
`genTag` gives no two adds of one item the same tag.
-/

namespace Shopping

open Lib

/-- A change of a list, with the tag `genTag` returns. -/
inductive Change
  | add (item : ShoppingItem) (tag : Str)
  | update (item : ShoppingItem) (tag : Str)
  | remove (item : ShoppingItem)

namespace Change

def apply (l : ShoppingList) : Change → Except Exn ShoppingList
  | add item tag => l.add item tag
  | update item tag => l.update item tag
  | remove item => .ok (l.remove item)

/-- The item UID and the tag of an add or update. -/
def tagged : Change → Option (Str × Str)
  | add item tag => some (item.uid, tag)
  | update item tag => some (item.uid, tag)
  | remove _ => none

/-- The item UID of a remove. -/
def removed : Change → Option Str
  | remove item => some item.uid
  | _ => none

end Change

/-- A change made: on which list, to which list, and what that list reflects. -/
structure Event where
  change : Change
  base : ShoppingList
  state : ShoppingList
  hist : Finset ℕ

def events : Replicated ShoppingList Event where
  blank l := l.items = {}
  merge a b c := a.merge b = .ok c
  update a e := e.base = a ∧ e.change.apply a = .ok e.state
  state := Event.state
  hist := Event.hist

/-- Change `n` is an add or update of the item `uid`, with this tag. -/
def Tags (log : List Event) (n : ℕ) (uid tag : Str) : Prop :=
  ∃ e, log[n]? = some e ∧ e.change.tagged = some (uid, tag)

/-- An add or update of the item. -/
def Adds (log : List Event) (uid : Str) (n : ℕ) : Prop := ∃ tag, Tags log n uid tag

/-- Change `m` removes the item, having seen change `n`. -/
def RemovesSeen (log : List Event) (uid : Str) (m n : ℕ) : Prop :=
  ∃ e, log[m]? = some e ∧ e.change.removed = some uid ∧ n ∈ e.hist

/-- The history has an add or update of the item that no remove of the item in the
history has seen. -/
def Unremoved (log : List Event) (h : Finset ℕ) (uid : Str) : Prop :=
  ∃ n ∈ h, Adds log uid n ∧ ∀ m ∈ h, ¬ RemovesSeen log uid m n

variable {log : List Event} {h h' : Finset ℕ} {l : ShoppingList} {uid tag : Str}

/-- What one change leaves of the tags. -/
theorem Change.apply_eq_ok {c : Change} {l r : ShoppingList} (hc : c.apply l = .ok r) (uid : Str) :
    (∀ tag, tag ∈ r.items.addTags uid ↔ tag ∈ l.items.addTags uid ∨ c.tagged = some (uid, tag)) ∧
      ∀ tag, tag ∈ r.items.removeTags uid ↔
        tag ∈ l.items.removeTags uid ∨ c.removed = some uid ∧ tag ∈ l.items.addTags uid := by
  -- adding and updating both add the tag to the element
  have hadd : ∀ (item : ShoppingItem) (t : Str), r = { l with items := l.items.add item t } →
      (∀ tag, tag ∈ r.items.addTags uid ↔
        tag ∈ l.items.addTags uid ∨ (some (item.uid, t) : Option (Str × Str)) = some (uid, tag)) ∧
      ∀ tag, tag ∈ r.items.removeTags uid ↔ tag ∈ l.items.removeTags uid := by
    rintro item t rfl
    refine ⟨?_, fun tag => Iff.rfl⟩
    intro tag
    rw [show _ = _ from ORSet.addTags_add l.items item t uid, ShoppingItem.element_getUid]
    by_cases hu : uid = item.uid
    · subst hu
      simp only [if_true, Finset.mem_insert, Option.some.injEq, Prod.mk.injEq, true_and]
      rw [or_comm, eq_comm]
    · have : ¬ item.uid = uid := fun h => hu h.symm
      simp [hu, this]
  cases c with
  | add item t =>
    simp only [Change.apply, ShoppingList.add] at hc
    split at hc
    · cases hc
    · cases hc
      obtain ⟨h1, h2⟩ := hadd item t rfl
      exact ⟨h1, fun tag => (h2 tag).trans (by simp [Change.removed])⟩
  | update item t =>
    simp only [Change.apply, ShoppingList.update] at hc
    split at hc
    · cases hc
    · cases hc
      obtain ⟨h1, h2⟩ := hadd item t rfl
      exact ⟨h1, fun tag => (h2 tag).trans (by simp [Change.removed])⟩
  | remove item =>
    cases hc
    have ha : (l.remove item).items.addTags uid = l.items.addTags uid :=
      ORSet.addTags_remove l.items item uid
    have hr : (l.remove item).items.removeTags uid = if uid = item.uid then
        l.items.removeTags uid ∪ l.items.addTags uid else l.items.removeTags uid :=
      ORSet.removeTags_remove l.items item uid
    rw [ha, hr]
    refine ⟨fun tag => by simp [Change.tagged], ?_⟩
    intro tag
    by_cases hu : uid = item.uid
    · subst hu; simp [Change.removed]
    · have : ¬ item.uid = uid := fun h => hu h.symm
      simp [Change.removed, hu, this]

theorem Change.apply_wf {c : Change} {l r : ShoppingList} (hw : l.WF) (hc : c.apply l = .ok r) :
    r.WF := by
  cases c with
  | add item t =>
    simp only [Change.apply, ShoppingList.add] at hc
    split at hc
    · cases hc
    · cases hc; exact ORSet.WF.add hw item t
  | update item t =>
    simp only [Change.apply, ShoppingList.update] at hc
    split at hc
    · cases hc
    · cases hc; exact ORSet.WF.add hw item t
  | remove item => cases hc; exact ORSet.WF.remove hw item

/-- What the two tag sets of a copy hold, by its history. -/
structure TagsOf (log : List Event) (h : Finset ℕ) (l : ShoppingList) : Prop where
  wf : l.WF
  add : ∀ uid tag, tag ∈ l.items.addTags uid ↔ ∃ n ∈ h, Tags log n uid tag
  remove : ∀ uid tag, tag ∈ l.items.removeTags uid ↔
    ∃ m ∈ h, ∃ n, RemovesSeen log uid m n ∧ Tags log n uid tag

theorem TagsOf.blank (hb : l.items = {}) : TagsOf log ∅ l where
  wf := by rw [ShoppingList.WF, hb]; exact ORSet.WF.empty
  add := by
    intro uid tag
    rw [show l.items.addTags uid = ∅ by rw [hb]; rfl]
    simp
  remove := by
    intro uid tag
    rw [show l.items.removeTags uid = ∅ by rw [hb]; rfl]
    simp

/-- A change adds its own tag, and removes what its replica has seen. -/
theorem TagsOf.change (ht : TagsOf log h l) {n : ℕ} {e : Event} (hn : log[n]? = some e)
    (hh : e.hist = insert n h) (happ : e.change.apply l = .ok e.state) :
    TagsOf log (insert n h) e.state := by
  have htags : ∀ uid tag, Tags log n uid tag ↔ e.change.tagged = some (uid, tag) := by
    intro uid tag
    constructor
    · rintro ⟨e', he', hp⟩; rw [hn] at he'; cases he'; exact hp
    · intro hp; exact ⟨e, hn, hp⟩
  have hseen : ∀ uid k, RemovesSeen log uid n k ↔ e.change.removed = some uid ∧ k ∈ insert n h := by
    intro uid k
    constructor
    · rintro ⟨e', he', hp⟩; rw [hn] at he'; cases he'; rw [← hh]; exact hp
    · intro hp; rw [← hh] at hp; exact ⟨e, hn, hp⟩
  -- no change both tags and removes
  have hexcl : ∀ uid tag, e.change.removed = some uid → e.change.tagged ≠ some (uid, tag) := by
    intro uid tag hr ht
    cases hc : e.change <;> rw [hc] at hr ht <;> cases hr; cases ht
  refine ⟨Change.apply_wf ht.wf happ, ?_, ?_⟩
  · intro uid tag
    rw [(Change.apply_eq_ok happ uid).1, ht.add]
    constructor
    · rintro (⟨m, hm, htag⟩ | htag)
      · exact ⟨m, Finset.mem_insert_of_mem hm, htag⟩
      · exact ⟨n, Finset.mem_insert_self _ _, (htags uid tag).2 htag⟩
    · rintro ⟨m, hm, htag⟩
      rcases Finset.mem_insert.1 hm with rfl | hm
      · exact Or.inr ((htags uid tag).1 htag)
      · exact Or.inl ⟨m, hm, htag⟩
  · intro uid tag
    rw [(Change.apply_eq_ok happ uid).2, ht.remove, ht.add]
    constructor
    · rintro (⟨m, hm, k, hrem, htag⟩ | ⟨hrem, k, hk, htag⟩)
      · exact ⟨m, Finset.mem_insert_of_mem hm, k, hrem, htag⟩
      · exact ⟨n, Finset.mem_insert_self _ _, k,
          (hseen uid k).2 ⟨hrem, Finset.mem_insert_of_mem hk⟩, htag⟩
    · rintro ⟨m, hm, k, hrem, htag⟩
      rcases Finset.mem_insert.1 hm with rfl | hm
      · obtain ⟨hr, hk⟩ := (hseen uid k).1 hrem
        rcases Finset.mem_insert.1 hk with rfl | hk
        · exact absurd ((htags uid tag).1 htag) (hexcl uid tag hr)
        · exact Or.inr ⟨hr, k, hk, htag⟩
      · exact Or.inl ⟨m, hm, k, hrem, htag⟩

/-- The tags of a merge are those of the union of the histories. -/
theorem TagsOf.merge {l' r : ShoppingList} (ht : TagsOf log h l) (ht' : TagsOf log h' l')
    (hm : l.merge l' = .ok r) : TagsOf log (h ∪ h') r := by
  have hi := (ShoppingList.merge_eq_ok hm).1
  refine ⟨ht.wf.merge ht'.wf hm, ?_, ?_⟩
  · intro uid tag
    rw [ORSet.addTags_merge hi, Finset.mem_union, ht.add, ht'.add]
    simp only [Finset.mem_union, or_and_right, exists_or]
  · intro uid tag
    rw [ORSet.removeTags_merge hi, Finset.mem_union, ht.remove, ht'.remove]
    simp only [Finset.mem_union, or_and_right, exists_or]

theorem Copy.tagsOf (hL : Logged events log) (hc : Copy events log h l) : TagsOf log h l := by
  refine Copy.induct (P := TagsOf log) hL (fun s hs => TagsOf.blank hs) ?_ ?_ hc
  · intro n e h s hn _ hh hu ht
    exact ht.change hn hh hu.2
  · intro h h' a b c ht ht' hm
    exact ht.merge ht' hm

/-- `genTag` gave no two adds of an item the same tag. -/
def NewTags (log : List Event) : Prop := (log.filterMap fun e => e.change.tagged).Nodup

instance (log : List Event) : Decidable (NewTags log) := inferInstanceAs (Decidable (List.Nodup _))

/-- Each tag is of one addition. -/
theorem NewTags.unique (hu : NewTags log) {n m : ℕ} (hn : Tags log n uid tag)
    (hm : Tags log m uid tag) : n = m := by
  obtain ⟨e, he, ht⟩ := hn
  obtain ⟨e', he', ht'⟩ := hm
  exact unique_of_nodup hu he he' ht ht'

/-- **An item is visible iff the history has an unremoved add or update of it.** -/
theorem TagsOf.contains_iff (ht : TagsOf log h l) (hu : NewTags log) (uid : Str) :
    l.items.contains uid = true ↔ Unremoved log h uid := by
  rw [ht.wf.contains_iff, ORSet.Live]
  constructor
  · rintro ⟨tag, hadd, hrem⟩
    obtain ⟨n, hn, htag⟩ := (ht.add uid tag).1 hadd
    refine ⟨n, hn, ⟨tag, htag⟩, ?_⟩
    intro m hm hseen
    exact hrem ((ht.remove uid tag).2 ⟨m, hm, n, hseen, htag⟩)
  · rintro ⟨n, hn, ⟨tag, htag⟩, hno⟩
    refine ⟨tag, (ht.add uid tag).2 ⟨n, hn, htag⟩, ?_⟩
    intro hrem
    obtain ⟨m, hm, k, hseen, htag'⟩ := (ht.remove uid tag).1 hrem
    rw [hu.unique htag' htag] at hseen
    exact hno m hm hseen

/-- The visible items are those that `values()` lists. -/
theorem TagsOf.listed_iff (ht : TagsOf log h l) (uid : Str) :
    (∃ it ∈ l.getAllItems, it.uid = uid) ↔ l.items.contains uid = true := by
  rw [ht.wf.contains_iff]
  constructor
  · rintro ⟨it, hit, rfl⟩; exact ((ORSet.WF.mem_values_iff ht.wf it).1 hit).1
  · intro hl
    obtain ⟨it, he⟩ := ht.wf.exists_element hl
    have hk : it.uid = uid := ht.wf.key uid it he
    subst hk
    exact ⟨it, (ORSet.WF.mem_values_iff ht.wf it).2 ⟨hl, he⟩, rfl⟩

/-- A state of a list, with the changes it reflects. -/
structure Version where
  list : ShoppingList
  hist : Finset ℕ

/-- The replicas of one list: what each holds, every state any of them has held, and the
changes made. -/
structure Group (ρ : Type*) where
  replica : ρ → Version
  states : List Version
  log : List Event

/-- A replica changes its list, or merges the `p`-th state. -/
inductive GroupAction (ρ : Type*)
  | change (r : ρ) (c : Change)
  | merge (r : ρ) (p : ℕ)

namespace Group

variable {ρ : Type*} [DecidableEq ρ]

/-- All replicas hold the new list. -/
def init (uid name : Str) : Group ρ where
  replica _ := ⟨ShoppingList.new uid name, ∅⟩
  states := [⟨ShoppingList.new uid name, ∅⟩]
  log := []

def hold (g : Group ρ) (r : ρ) (v : Version) : Group ρ :=
  { g with replica := Function.update g.replica r v, states := g.states ++ [v] }

/-- One step; `none` if the call throws. -/
def step (g : Group ρ) : GroupAction ρ → Option (Group ρ)
  | .change r c =>
    let v := g.replica r
    match c.apply v.list with
    | .ok l =>
      let h := insert g.log.length v.hist
      some { g.hold r ⟨l, h⟩ with log := g.log ++ [⟨c, v.list, l, h⟩] }
    | .error _ => none
  | .merge r p =>
    let v := g.replica r
    match g.states[p]? with
    | some v' =>
      match v.list.merge v'.list with
      | .ok l => some (g.hold r ⟨l, v.hist ∪ v'.hist⟩)
      | .error _ => none
    | none => none

/-- Every state is a copy with its history. -/
structure Copies (g : Group ρ) : Prop where
  logged : Logged events g.log
  replica : ∀ r, Copy events g.log (g.replica r).hist (g.replica r).list
  states : ∀ v ∈ g.states, Copy events g.log v.hist v.list

theorem Copies.hold {g g' : Group ρ} (hc : Copies g) {r : ρ} {v : Version} {log : List Event}
    (hp : g.log <+: log) (hL : Logged events log) (hv : Copy events log v.hist v.list)
    (hg : g' = { g.hold r v with log }) : Copies g' := by
  subst hg
  refine ⟨hL, ?_, ?_⟩
  · intro r'
    simp only [Group.hold, Function.update_apply]
    split
    · exact hv
    · exact (hc.replica r').mono hp
  · intro v' hv'
    rcases List.mem_append.1 hv' with hv' | hv'
    · exact (hc.states v' hv').mono hp
    · obtain rfl := List.mem_singleton.1 hv'; exact hv

/-- Every step of the group keeps its replicas copies of their histories. -/
theorem Copies.step {g g' : Group ρ} {a : GroupAction ρ} (hc : Copies g)
    (h : g.step a = some g') : Copies g' := by
  cases a with
  | change r c =>
    simp only [Group.step] at h
    split at h
    · rename_i l happ
      rw [Option.some.injEq] at h
      refine hc.hold (List.prefix_append _ _) ?_ ?_ h.symm
      · exact hc.logged.append (hc.replica r) rfl ⟨rfl, happ⟩
      · exact Copy.update (R := events) (n := g.log.length) List.getElem?_concat_length
    · cases h
  | merge r p =>
    simp only [Group.step] at h
    split at h
    · rename_i v' hv'
      split at h
      · rename_i l hm
        rw [Option.some.injEq] at h
        refine hc.hold (List.prefix_refl _) hc.logged ?_ h.symm
        exact Copy.merge (hc.replica r) (hc.states v' (List.mem_of_getElem? hv')) hm
      · cases h
    · cases h

theorem copies {uid name : Str} {g : Group ρ}
    (hrun : Run Group.step (fun _ _ => True) (Group.init uid name) g) : Copies g := by
  refine hrun.inv ?_ (fun g a g' hc _ h => hc.step h)
  refine ⟨Logged.nil, fun _ => Copy.blank rfl, ?_⟩
  intro v hv
  obtain rfl := List.mem_singleton.1 hv
  exact Copy.blank rfl

/-- **Observed-remove membership.** In every run, an item is visible in a state of a
replica, past or present, iff the state's history has an add or update of it that no
remove of it in the history has seen; and merging a state that brings no change changes
nothing that is visible. -/
theorem membership {uid name : Str} {g : Group ρ}
    (hrun : Run Group.step (fun _ _ => True) (Group.init uid name) g) (hu : NewTags g.log) :
    (∀ v, (v ∈ g.states ∨ ∃ r, g.replica r = v) → ∀ item,
      (v.list.items.contains item = true ↔ Unremoved g.log v.hist item) ∧
        ((∃ it ∈ v.list.getAllItems, it.uid = item) ↔ Unremoved g.log v.hist item)) ∧
      ∀ r, ∀ v ∈ g.states, v.hist ⊆ (g.replica r).hist → ∀ l, (g.replica r).list.merge v.list = .ok l →
        ∀ item, l.items.contains item = (g.replica r).list.items.contains item := by
  have hc := copies hrun
  constructor
  · intro v hv item
    have ht : TagsOf g.log v.hist v.list := by
      rcases hv with hv | ⟨r, rfl⟩
      · exact Copy.tagsOf hc.logged (hc.states v hv)
      · exact Copy.tagsOf hc.logged (hc.replica r)
    exact ⟨ht.contains_iff hu item, (ht.listed_iff item).trans (ht.contains_iff hu item)⟩
  · intro r v hv hsub l hm item
    have ht := Copy.tagsOf hc.logged (hc.replica r)
    have ht' := ht.merge (Copy.tagsOf hc.logged (hc.states v hv)) hm
    rw [Finset.union_eq_left.2 hsub] at ht'
    rw [Bool.eq_iff_iff, ht'.contains_iff hu, ht.contains_iff hu]

/-- A replica adds an item and another one merges its list; the first one removes the item
while the other one updates it, and merges the other's list. -/
def sampleRun : List (GroupAction (Fin 2)) :=
  [.change 0 (.add {} [1]), .merge 1 1, .change 0 (.remove {}), .change 1 (.update {} [2]),
    .merge 0 4]

/-- The update survives the remove. -/
theorem sampleRun_membership : ∃ g : Group (Fin 2),
    runList Group.step (Group.init [] []) sampleRun = some g ∧
      Unremoved g.log (g.replica 0).hist [] := by
  obtain ⟨g, hg, hp⟩ := runList_of_any (Group.step (ρ := Fin 2)) (Group.init [] [])
    sampleRun (fun g => decide (NewTags g.log ∧
      (g.replica 0).list.items.contains [] = true)) (by decide +kernel)
  obtain ⟨hu, hshown⟩ := of_decide_eq_true hp
  have hrun := Run.of_list (P := fun _ _ => True) (fun _ _ _ => trivial) hg
  exact ⟨g, hg, (((membership hrun hu).1 _ (Or.inr ⟨0, rfl⟩) []).1).1 hshown⟩

end Group

end Shopping
