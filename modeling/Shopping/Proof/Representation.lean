import Shopping.Model.ShoppingList

/-!
# The sets a program can build

`Reachable` is every set built from the empty one by adds, removes, merges and changes of
stored elements in place. Such sets satisfy the representation invariant
(`Reachable.wf`), so that four ways of asking for an item agree: `contains`, the tags,
`values()` and `getItem` (`representation`).

A tag is a bare clock reading. So an add is visible to its own replica exactly if the tag
was not removed before (`add_visible`): after a remove within the same microsecond, or a step
back of the clock, it is not.
-/

namespace Shopping

open Lib

namespace ORSet

/-- The sets built by the operations. `Edit` is how a stored element may be changed through a
reference to it; a merge that throws leaves what it has merged so far. -/
inductive Reachable {T : Type*} [Element T] (Edit : T → T → Prop) : ORSet T → Prop
  | empty : Reachable Edit {}
  | add {s : ORSet T} (elem : T) (now : ℤ) :
      Reachable Edit s → Reachable Edit (s.add elem (genTag now))
  | remove {s : ORSet T} (elem : T) : Reachable Edit s → Reachable Edit (s.remove elem)
  | merge {s t : ORSet T} :
      Reachable Edit s → Reachable Edit t → Reachable Edit (s.merge t).state
  | edit {s : ORSet T} {uid : Str} {x y : T} (hx : s.elements.lookup uid = some x)
      (hxy : Edit x y) :
      Reachable Edit s → Reachable Edit { s with elements := s.elements.insert uid y }

variable {T : Type*} [Element T] {s t : ORSet T} {Edit : T → T → Prop}

/-- No UID has tags of removes only: `removeSet` has no key that `addSet` lacks. -/
def RemovesKnown (s : ORSet T) : Prop := ∀ uid ∈ s.removeSet, uid ∈ s.addSet

omit [Element T] in
theorem RemovesKnown.empty : RemovesKnown ({} : ORSet T) := by
  intro uid h; simp at h

theorem RemovesKnown.add (h : s.RemovesKnown) (elem : T) (tag : Str) :
    (s.add elem tag).RemovesKnown := fun uid hm => (AList.mem_insert _).2 (Or.inr (h uid hm))

theorem RemovesKnown.remove (h : s.RemovesKnown) (elem : T) : (s.remove elem).RemovesKnown := by
  intro uid hm
  rw [addSet_remove]
  unfold ORSet.remove at hm
  dsimp only at hm
  split at hm
  · exact h uid hm
  · rename_i tags htags
    split at hm
    · exact h uid hm
    · rcases (AList.mem_insert _).1 hm with rfl | hm
      · rw [← AList.lookup_isSome, htags]; rfl
      · exact h uid hm

theorem RemovesKnown.merge {u : ORSet T} (hs : s.RemovesKnown) (ht : t.RemovesKnown)
    (h : s.merge t = .ok u) : u.RemovesKnown := by
  obtain ⟨-, ha, hr⟩ := merge_eq_ok h
  intro uid hm
  rw [hr, mergeTags, UMap.mem_foldInto] at hm
  rw [ha, mergeTags, UMap.mem_foldInto]
  exact hm.imp (hs uid) (ht uid)

section

variable [LawfulElement T] (hEdit : ∀ x y, Edit x y → Element.getUid y = Element.getUid x)
include hEdit

/-- **Every set that can be built satisfies the representation invariant.** -/
theorem Reachable.wf (h : s.Reachable Edit) : s.WF ∧ s.RemovesKnown := by
  induction h with
  | empty => exact ⟨WF.empty, RemovesKnown.empty⟩
  | add elem now _ ih => exact ⟨ih.1.add elem _, ih.2.add elem _⟩
  | remove elem _ ih => exact ⟨ih.1.remove elem, ih.2.remove elem⟩
  | merge _ _ ihs iht =>
    obtain ⟨u, hu⟩ := ihs.1.merge_isOk iht.1
    rw [hu]
    exact ⟨ihs.1.merge iht.1 hu, ihs.2.merge iht.2 hu⟩
  | edit hx hxy _ ih =>
    refine ⟨ih.1.set ?_ ?_, ih.2⟩
    · rw [← AList.lookup_isSome, hx]; rfl
    · rw [hEdit _ _ hxy]; exact ih.1.key _ _ hx

/-- The element just added is in the set. -/
def AddVisible (s : ORSet T) (elem : T) (now : ℤ) : Prop :=
  (s.add elem (genTag now)).contains (Element.getUid elem) = true ∧
    elem ∈ (s.add elem (genTag now)).values

omit [LawfulElement T] hEdit in
theorem live_add (s : ORSet T) (elem : T) (tag : Str) :
    (s.add elem tag).Live (Element.getUid elem) ↔
      s.Live (Element.getUid elem) ∨ tag ∉ s.removeTags (Element.getUid elem) := by
  unfold Live
  rw [addTags_add, if_pos rfl, removeTags_add, Finset.exists_mem_insert, or_comm]

/-- An add is visible iff the item was there before or its tag is not removed yet. -/
theorem Reachable.addVisible_iff (h : s.Reachable Edit) (elem : T) (now : ℤ) :
    s.AddVisible elem now ↔ s.contains (Element.getUid elem) = true ∨
      genTag now ∉ s.removeTags (Element.getUid elem) := by
  have hs := (h.wf hEdit).1
  have hadd := hs.add elem (genTag now)
  have hstored : (s.add elem (genTag now)).elements.lookup (Element.getUid elem) = some elem := by
    rw [elements_add, if_pos rfl]
  unfold AddVisible
  rw [hadd.contains_iff, hadd.mem_values_iff, hs.contains_iff, live_add]
  simp only [hstored, and_true, and_self]

end

end ORSet

/-- An item changed through one of its setters. -/
inductive ShoppingItem.Edited (it : ShoppingItem) : ShoppingItem → Prop
  | setName (name : Str) : Edited it (it.setName name)
  | setDesiredQuantity (origin : Str) (quantity : UInt32) :
      Edited it (it.setDesiredQuantity origin quantity)
  | setCurrentQuantity (origin : Str) (quantity : UInt32) :
      Edited it (it.setCurrentQuantity origin quantity)

theorem ShoppingItem.Edited.getUid {it it' : ShoppingItem} (h : it.Edited it') :
    Element.getUid it' = Element.getUid it := by
  cases h
  · rfl
  · rw [element_getUid, element_getUid, ShoppingItem.setDesiredQuantity]
  · rw [element_getUid, element_getUid, ShoppingItem.setCurrentQuantity]

namespace ORSet

variable {s : ORSet ShoppingItem}

/-- The ways of asking for the item of a UID. -/
structure Agree (s : ORSet ShoppingItem) (uid : Str) : Prop where
  tags : s.contains uid = true ↔ ∃ tag ∈ s.addTags uid, tag ∉ s.removeTags uid
  values : s.values.countP (fun x => x.uid = uid) = if s.contains uid = true then 1 else 0
  getItem : ∀ l : ShoppingList, l.items = s →
    ((∃ found, l.getItem uid = .ok found) ↔ s.contains uid = true)

/-- What a set of items is made of. -/
structure Represented (s : ORSet ShoppingItem) : Prop where
  key : ∀ uid x, s.elements.lookup uid = some x → x.uid = uid
  keys : ∀ uid, uid ∈ s.elements ↔ uid ∈ s.addSet
  tags : ∀ uid tags, s.addSet.lookup uid = some tags → tags.Nonempty
  removed : ∀ uid removed, s.removeSet.lookup uid = some removed →
    ∃ tags, s.addSet.lookup uid = some tags ∧ removed ⊆ tags

theorem WF.represented (h : s.WF) (hr : s.RemovesKnown) : s.Represented where
  key := h.key
  keys := h.keys
  tags := by
    intro uid tags htags
    have hmem : uid ∈ s.addSet := by rw [← AList.lookup_isSome, htags]; rfl
    have hne := h.tags uid hmem
    rw [addTags, htags] at hne
    exact Finset.nonempty_iff_ne_empty.2 hne
  removed := by
    intro uid removed hrem
    have hmem : uid ∈ s.addSet := hr uid (by rw [← AList.lookup_isSome, hrem]; rfl)
    obtain ⟨tags, htags⟩ := Option.isSome_iff_exists.1 (AList.lookup_isSome.2 hmem)
    have hsub := h.removed uid
    rw [removeTags, addTags, hrem, htags] at hsub
    exact ⟨tags, htags, hsub⟩

/-- `values()` lists the item of a contained UID once. -/
theorem WF.countP_values (h : s.WF) (uid : Str) :
    s.values.countP (fun x => x.uid = uid) = if s.contains uid = true then 1 else 0 := by
  have hnodup : s.valueKeys.Nodup := s.addSet.keys_nodup.filter _
  -- a listed key holds an item of its own UID, so items are counted by their keys
  have hkeys : s.values.countP (fun x => x.uid = uid) = s.valueKeys.count uid := by
    rw [ORSet.values, List.countP_filterMap, List.count]
    refine List.countP_congr fun key hkey => ?_
    obtain ⟨x, hx⟩ := Option.isSome_iff_exists.1 (AList.lookup_isSome.2 (mem_valueKeys.1 hkey).2)
    rw [hx]
    simp [show x.uid = key from h.key key x hx]
  rw [hkeys]
  by_cases hc : s.contains uid = true
  · have hmem : uid ∈ s.valueKeys := by
      obtain ⟨x, hx⟩ := h.exists_element ((h.contains_iff uid).1 hc)
      exact mem_valueKeys.2 ⟨hc, by rw [← AList.lookup_isSome, hx]; rfl⟩
    rw [if_pos hc, List.count_eq_one_of_mem hnodup hmem]
  · rw [if_neg hc, List.count_eq_zero]
    exact fun hmem => hc (mem_valueKeys.1 hmem).1

/-- `getItem` returns exactly for contained UIDs. -/
theorem WF.getItem_isOk {l : ShoppingList} (h : l.WF) (uid : Str) :
    (∃ found, l.getItem uid = .ok found) ↔ l.items.contains uid = true := by
  constructor
  · rintro ⟨⟨key, it⟩, hf⟩
    obtain ⟨-, hl, -⟩ := ShoppingList.WF.getItem_eq_ok h hf
    exact contains_of_live hl
  · intro hc
    obtain ⟨x, hx⟩ := h.exists_element ((h.contains_iff uid).1 hc)
    have huid : x.getUid = uid := h.key uid x hx
    have hmem : uid ∈ l.items.valueKeys :=
      mem_valueKeys.2 ⟨hc, by rw [← AList.lookup_isSome, hx]; rfl⟩
    unfold ShoppingList.getItem
    dsimp only
    split
    · exact ⟨_, rfl⟩
    · rename_i hnone
      have := List.findSome?_eq_none_iff.1 hnone uid hmem
      rw [hx, Option.bind_some, if_pos huid] at this
      cases this

/-- **The representation of a set of items**: its maps are in step, it merges with every other
set, and all ways of asking for an item agree. -/
theorem representation (h : s.Reachable ShoppingItem.Edited) :
    s.Represented ∧ (∀ t : ORSet ShoppingItem, t.Reachable ShoppingItem.Edited →
      ∃ u, s.merge t = .ok u) ∧ ∀ uid, s.Agree uid := by
  have hwf := fun t ht => Reachable.wf (s := t) (fun _ _ he => ShoppingItem.Edited.getUid he) ht
  have hs := (hwf s h).1
  refine ⟨hs.represented (hwf s h).2, fun t ht => hs.merge_isOk (hwf t ht).1, fun uid => ?_⟩
  refine ⟨hs.contains_iff uid, hs.countP_values uid, ?_⟩
  rintro l rfl
  exact WF.getItem_isOk hs uid

/-- An item to add and remove. -/
def sampleMilk : ShoppingItem := ShoppingItem.new (str "o") (str "milk") (str "milk") 1 0

/-- Milk was added and removed, all at time 1. -/
def removedSet : ORSet ShoppingItem :=
  (({} : ORSet ShoppingItem).add sampleMilk (genTag 1)).remove sampleMilk

theorem removedSet_reachable (Edit : ShoppingItem → ShoppingItem → Prop) :
    removedSet.Reachable Edit := ((Reachable.empty.add sampleMilk 1).remove sampleMilk)

theorem removedSet_represented : removedSet.Represented ∧
    (∀ t : ORSet ShoppingItem, t.Reachable ShoppingItem.Edited → ∃ u, removedSet.merge t = .ok u) ∧
      ∀ uid, removedSet.Agree uid :=
  representation (removedSet_reachable ShoppingItem.Edited)

end ORSet

namespace ShoppingList

/-- A list to which an item was added contains it iff the tag was not removed before. -/
theorem contains_add {l r : ShoppingList} (h : l.WF) {it : ShoppingItem} {tag : Str}
    (hr : l.add it tag = .ok r) : r.contains it = true ↔ tag ∉ l.items.removeTags it.uid := by
  unfold add at hr
  split at hr
  · cases hr
  · rename_i hnew
    cases hr
    have hwf := ORSet.WF.add h it tag
    have hdead : ¬ l.items.Live it.uid := fun hl => hnew (ORSet.contains_of_live hl)
    show (l.items.add it tag).contains it.uid = true ↔ _
    rw [hwf.contains_iff, ← ShoppingItem.element_getUid, ORSet.live_add, ShoppingItem.element_getUid,
      or_iff_right hdead]

/-- **An add is visible** iff the item was there before or the clock reading of the add is not
among those removed; and `ShoppingList::add`, which wants the item not to be there, leaves it
contained iff it is not. -/
theorem add_visible {T : Type*} [Element T] [LawfulElement T] {s : ORSet T}
    (hs : s.Reachable fun _ _ => False) {l : ShoppingList}
    (hl : l.items.Reachable ShoppingItem.Edited) (now : ℤ) :
    (∀ elem : T, s.AddVisible elem now ↔ s.contains (Element.getUid elem) = true ∨
        ORSet.genTag now ∉ s.removeTags (Element.getUid elem)) ∧
      ∀ (it : ShoppingItem) (r : ShoppingList), l.add it (ORSet.genTag now) = .ok r →
        (r.contains it = true ↔ ORSet.genTag now ∉ l.items.removeTags it.uid) := by
  constructor
  · intro elem
    exact hs.addVisible_iff (fun _ _ h => h.elim) elem now
  · intro it r hr
    exact contains_add (hl.wf fun _ _ he => he.getUid).1 hr

/-- A microsecond later the item is back. -/
theorem added_later :
    ORSet.removedSet.AddVisible ORSet.sampleMilk 2 ∧
      ∃ r, add { items := ORSet.removedSet } ORSet.sampleMilk (ORSet.genTag 2) = .ok r ∧
        r.contains ORSet.sampleMilk = true := by
  obtain ⟨hset, hlist⟩ := add_visible (ORSet.removedSet_reachable fun _ _ => False)
    (l := { items := ORSet.removedSet }) (ORSet.removedSet_reachable ShoppingItem.Edited) 2
  refine ⟨(hset ORSet.sampleMilk).2 (Or.inr (by decide +kernel)), _, rfl, ?_⟩
  refine (hlist ORSet.sampleMilk _ rfl).2 ?_
  decide +kernel

/-- Within the same microsecond it is not: the list it is added to does not contain it. -/
theorem added_at_once : ORSet.removedSet.Reachable (fun _ _ => False) ∧
    ¬ ORSet.removedSet.AddVisible ORSet.sampleMilk 1 ∧
      ∃ r, add { items := ORSet.removedSet } ORSet.sampleMilk (ORSet.genTag 1) = .ok r ∧
        r.contains ORSet.sampleMilk = false := by
  refine ⟨ORSet.removedSet_reachable _, ?_, _, rfl, by decide +kernel⟩
  rintro ⟨h, -⟩
  revert h
  decide +kernel

end ShoppingList

end Shopping
