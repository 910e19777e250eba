import Shopping.Base

/-!
# `ORSet<T>`

An observed-remove set (`crdt/or_set.hpp`): the stored elements, and per UID the
tags of its adds and the tags its removes have seen. `genTag` reads the system
clock, which is outside the code, so `add` takes the tag as an argument.

`addTags` and `removeTags` read the two tag maps, empty where there is no entry.
Each operation has one lemma that says what it leaves of each map.
-/

namespace Shopping

open Lib

/-- What `ORSet<T>` asks of `T`. -/
class Element (T : Type*) where
  getUid : T → Str
  merge : T → T → Except Exn T

/-- Merging succeeds exactly between elements of one UID, and keeps the UID. -/
class LawfulElement (T : Type*) [Element T] : Prop where
  merge_isOk : ∀ x y : T, (∃ z, Element.merge x y = .ok z) ↔ Element.getUid x = Element.getUid y
  getUid_merge : ∀ x y z : T, Element.merge x y = .ok z → Element.getUid z = Element.getUid x

/-- `template <typename T> class ORSet`. -/
structure ORSet (T : Type*) where
  elements : UMap Str T := ∅
  addSet : UMap Str (Finset Str) := ∅
  removeSet : UMap Str (Finset Str) := ∅

namespace ORSet

variable {T : Type*}

instance : Inhabited (ORSet T) := ⟨{}⟩

/-- `string genTag() const`, at the clock reading `now` in microseconds. -/
def genTag (now : ℤ) : Str := toStr now

/-- `bool contains(const string &uid) const`. -/
def contains (s : ORSet T) (uid : Str) : Bool :=
  match s.addSet.lookup uid with
  | none => false
  | some tags =>
    match s.removeSet.lookup uid with
    | none => true
    | some removed => decide (∃ tag ∈ tags, tag ∉ removed)

/-- The keys `values()` lists, in the order of `addSet`. -/
def valueKeys (s : ORSet T) : List Str :=
  s.addSet.keys.filter fun uid => s.contains uid && (s.elements.lookup uid).isSome

/-- `values()`: the stored elements of the contained UIDs. -/
def values (s : ORSet T) : List T := s.valueKeys.filterMap s.elements.lookup

/-- `set[uid].insert(tags.begin(), tags.end())` for every entry of `other`. -/
def mergeTags (m other : UMap Str (Finset Str)) : UMap Str (Finset Str) :=
  UMap.foldInto (fun old tags => old.getD ∅ ∪ tags) m other

variable [Element T]

/-- `void add(const T &elem)`, with the tag `genTag()` returns. -/
def add (s : ORSet T) (elem : T) (tag : Str) : ORSet T :=
  let uid := Element.getUid elem
  { s with
    elements := s.elements.insert uid elem
    addSet := s.addSet.insert uid (insert tag ((s.addSet.lookup uid).getD ∅)) }

/-- `void remove(const T &elem)`. -/
def remove (s : ORSet T) (elem : T) : ORSet T :=
  let uid := Element.getUid elem
  match s.addSet.lookup uid with
  | none => s
  | some tags =>
    -- `removeSet[uid]` is only reached from inside the loop over the tags
    if tags = ∅ then s
    else { s with removeSet := s.removeSet.insert uid ((s.removeSet.lookup uid).getD ∅ ∪ tags) }

/-- The first loop of `merge`: an element stored on both sides is merged, which may
throw; one stored on the other side only is copied. -/
def mergeElement (old : Option T) (elem : T) : Except Exn T :=
  match old with
  | some mine => Element.merge mine elem
  | none => .ok elem

/-- `void merge(const ORSet<T> &other)`. A throw in the first loop leaves the
elements visited before it merged, and the tags untouched. -/
def merge (s other : ORSet T) : Method (ORSet T) :=
  match UMap.foldIntoE mergeElement s.elements other.elements.entries with
  | .error (e, elements) => .error (e, { s with elements })
  | .ok elements =>
    .ok
      { elements
        addSet := mergeTags s.addSet other.addSet
        removeSet := mergeTags s.removeSet other.removeSet }

omit [Element T]

def addTags (s : ORSet T) (uid : Str) : Finset Str := (s.addSet.lookup uid).getD ∅

def removeTags (s : ORSet T) (uid : Str) : Finset Str := (s.removeSet.lookup uid).getD ∅

/-- The tags of a UID after the merge are those of both sides. -/
theorem getD_mergeTags (m other : UMap Str (Finset Str)) (uid : Str) :
    ((mergeTags m other).lookup uid).getD ∅ =
      (m.lookup uid).getD ∅ ∪ (other.lookup uid).getD ∅ := by
  rw [mergeTags, UMap.lookup_foldInto]
  cases other.lookup uid <;> simp

/-- A UID with a tag that no remove has seen. -/
def Live (s : ORSet T) (uid : Str) : Prop := ∃ tag ∈ s.addTags uid, tag ∉ s.removeTags uid

instance (s : ORSet T) (uid : Str) : Decidable (s.Live uid) :=
  inferInstanceAs (Decidable (∃ tag ∈ s.addTags uid, tag ∉ s.removeTags uid))

/-- A live UID is contained. -/
theorem contains_of_live {s : ORSet T} {uid : Str} (h : s.Live uid) : s.contains uid = true := by
  obtain ⟨tag, h1, h2⟩ := h
  unfold addTags at h1
  unfold removeTags at h2
  unfold contains
  cases ha : s.addSet.lookup uid with
  | none => rw [ha] at h1; simp at h1
  | some tags =>
    rw [ha] at h1
    cases hr : s.removeSet.lookup uid with
    | none => rfl
    | some removed =>
      rw [hr] at h2
      simp only [decide_eq_true_eq]
      exact ⟨tag, h1, h2⟩

theorem mem_valueKeys {s : ORSet T} {uid : Str} :
    uid ∈ s.valueKeys ↔ s.contains uid = true ∧ uid ∈ s.elements := by
  rw [valueKeys, List.mem_filter, Bool.and_eq_true, AList.lookup_isSome]
  constructor
  · exact fun h => h.2
  · intro h
    refine ⟨?_, h⟩
    rw [← AList.mem_keys, ← AList.lookup_isSome]
    have := h.1
    unfold contains at this
    cases ha : s.addSet.lookup uid with
    | none => rw [ha] at this; cases this
    | some _ => rfl

/-- `values` lists the elements of the UIDs contained. -/
theorem mem_values {s : ORSet T} {elem : T} :
    elem ∈ s.values ↔ ∃ uid, s.contains uid = true ∧ s.elements.lookup uid = some elem := by
  rw [values, List.mem_filterMap]
  constructor
  · rintro ⟨uid, h1, h2⟩
    exact ⟨uid, (mem_valueKeys.1 h1).1, h2⟩
  · rintro ⟨uid, h1, h2⟩
    refine ⟨uid, mem_valueKeys.2 ⟨h1, ?_⟩, h2⟩
    rw [← AList.lookup_isSome, h2]; rfl

variable [Element T]

/-- An addition gives its own UID one more tag. -/
theorem addTags_add (s : ORSet T) (elem : T) (tag uid : Str) :
    (s.add elem tag).addTags uid =
      if uid = Element.getUid elem then insert tag (s.addTags uid) else s.addTags uid := by
  simp only [addTags, add, UMap.lookup_insert_ite]
  split
  · rename_i h; subst h; rfl
  · rfl

@[simp] theorem removeTags_add (s : ORSet T) (elem : T) (tag uid : Str) :
    (s.add elem tag).removeTags uid = s.removeTags uid := rfl

theorem elements_add (s : ORSet T) (elem : T) (tag uid : Str) :
    (s.add elem tag).elements.lookup uid =
      if uid = Element.getUid elem then some elem else s.elements.lookup uid :=
  UMap.lookup_insert_ite uid _ elem s.elements

@[simp] theorem addTags_remove (s : ORSet T) (elem : T) (uid : Str) :
    (s.remove elem).addTags uid = s.addTags uid := by
  unfold remove
  dsimp only
  split
  · rfl
  · split <;> rfl

@[simp] theorem elements_remove (s : ORSet T) (elem : T) :
    (s.remove elem).elements = s.elements := by
  unfold remove
  dsimp only
  split
  · rfl
  · split <;> rfl

/-- **A remove sees every tag its replica knows for the UID**, and no other UID. -/
theorem removeTags_remove (s : ORSet T) (elem : T) (uid : Str) :
    (s.remove elem).removeTags uid =
      if uid = Element.getUid elem then s.removeTags uid ∪ s.addTags uid else s.removeTags uid := by
  unfold remove
  dsimp only
  split
  · rename_i hnone
    split
    · rename_i h; subst h; simp [addTags, hnone]
    · rfl
  · rename_i tags hsome
    split
    · rename_i hempty
      split
      · rename_i h; subst h; simp [addTags, hsome, hempty]
      · rfl
    · simp only [removeTags, UMap.lookup_insert_ite]
      split
      · rename_i h; subst h; simp [addTags, hsome]
      · rfl

variable {s t u : ORSet T}

/-- A merge that returns took its elements from the throwing loop. -/
theorem merge_eq_ok (h : s.merge t = .ok u) :
    UMap.foldIntoE mergeElement s.elements t.elements.entries = .ok u.elements ∧
      u.addSet = mergeTags s.addSet t.addSet ∧ u.removeSet = mergeTags s.removeSet t.removeSet := by
  unfold merge at h
  split at h
  · cases h
  · rename_i elements helem
    simp only [Except.ok.injEq] at h
    subst h; exact ⟨helem, rfl, rfl⟩

/-- The added tags of a merge are those of both sides. -/
theorem addTags_merge (h : s.merge t = .ok u) (uid : Str) :
    u.addTags uid = s.addTags uid ∪ t.addTags uid := by
  rw [addTags, (merge_eq_ok h).2.1, getD_mergeTags]; rfl

/-- The removed tags of a merge are those of both sides. -/
theorem removeTags_merge (h : s.merge t = .ok u) (uid : Str) :
    u.removeTags uid = s.removeTags uid ∪ t.removeTags uid := by
  rw [removeTags, (merge_eq_ok h).2.2, getD_mergeTags]; rfl

/-- What a merge leaves under a key: the side that has it, or the merge of both. -/
theorem elements_merge (h : s.merge t = .ok u) (uid : Str) :
    (t.elements.lookup uid = none ∧ u.elements.lookup uid = s.elements.lookup uid) ∨
      (∃ y, t.elements.lookup uid = some y ∧ s.elements.lookup uid = none ∧
        u.elements.lookup uid = some y) ∨
      ∃ x y z, t.elements.lookup uid = some y ∧ s.elements.lookup uid = some x ∧
        Element.merge x y = .ok z ∧ u.elements.lookup uid = some z := by
  rcases UMap.lookup_foldIntoE (merge_eq_ok h).1 uid with h1 | ⟨y, z, h1, h2, h3⟩
  · exact Or.inl h1
  · cases hx : s.elements.lookup uid with
    | none =>
      simp only [hx, mergeElement, Except.ok.injEq] at h2
      subst h2; exact Or.inr (Or.inl ⟨y, h1, rfl, h3⟩)
    | some x =>
      simp only [hx, mergeElement] at h2
      exact Or.inr (Or.inr ⟨x, y, z, h1, rfl, h2, h3⟩)

/-- **A merge returns iff every pair of elements stored under one key merges.** -/
theorem merge_isOk :
    (∃ u, s.merge t = .ok u) ↔
      ∀ uid x y, s.elements.lookup uid = some x → t.elements.lookup uid = some y →
        ∃ z, Element.merge x y = .ok z := by
  have hloop := UMap.foldIntoE_isOk (f := mergeElement) (m := s.elements) (o := t.elements)
  have hiff : (∃ u, s.merge t = .ok u) ↔
      ∃ m', UMap.foldIntoE mergeElement s.elements t.elements.entries = .ok m' := by
    constructor
    · rintro ⟨u, hu⟩; exact ⟨_, (merge_eq_ok hu).1⟩
    · rintro ⟨m', hm⟩; simp only [merge, hm]; exact ⟨_, rfl⟩
  rw [hiff, hloop]
  constructor
  · intro h uid x y hx hy
    have := h uid y hy
    rwa [hx] at this
  · intro h uid y hy
    cases hx : s.elements.lookup uid with
    | none => exact ⟨y, rfl⟩
    | some x => exact h uid x y hx hy

/-- What every set built by the operations satisfies: elements are stored under their
own UID, `elements` and `addSet` have the same keys, no tag set of `addSet` is
empty, and a remove has only seen tags of adds. -/
structure WF (s : ORSet T) : Prop where
  key : ∀ uid x, s.elements.lookup uid = some x → Element.getUid x = uid
  keys : ∀ uid, uid ∈ s.elements ↔ uid ∈ s.addSet
  tags : ∀ uid, uid ∈ s.addSet → s.addTags uid ≠ ∅
  removed : ∀ uid, s.removeTags uid ⊆ s.addTags uid

theorem mem_addSet_iff (s : ORSet T) (uid : Str) (h : s.WF) : uid ∈ s.addSet ↔ s.addTags uid ≠ ∅ := by
  refine ⟨h.tags uid, fun hne => ?_⟩
  by_contra hn
  rw [← AList.lookup_eq_none] at hn
  exact hne (by rw [addTags, hn]; rfl)

theorem WF.empty : ({} : ORSet T).WF where
  key := by intro uid x h; simp at h
  keys := by intro uid; simp
  tags := by intro uid h; simp at h
  removed := by intro uid; exact Finset.Subset.refl _

/-- An addition keeps the set well formed. -/
theorem WF.add (h : s.WF) (elem : T) (tag : Str) : (s.add elem tag).WF where
  key := by
    intro uid x hx
    rw [elements_add] at hx
    split at hx
    · rename_i he; cases hx; exact he.symm
    · exact h.key uid x hx
  keys := by
    intro uid
    rw [ORSet.add, AList.mem_insert, AList.mem_insert, h.keys]
  tags := by
    intro uid hm
    rw [addTags_add]
    split
    · exact Finset.insert_ne_empty _ _
    · rename_i hne
      rw [ORSet.add, AList.mem_insert] at hm
      exact h.tags uid (hm.resolve_left hne)
  removed := by
    intro uid
    rw [removeTags_add, addTags_add]
    split
    · exact (h.removed uid).trans (Finset.subset_insert _ _)
    · exact h.removed uid

theorem addSet_remove (s : ORSet T) (elem : T) : (s.remove elem).addSet = s.addSet := by
  unfold remove
  dsimp only
  split
  · rfl
  · split <;> rfl

/-- A removal keeps the set well formed: it tombstones only tags that were added. -/
theorem WF.remove (h : s.WF) (elem : T) : (s.remove elem).WF where
  key := by intro uid x hx; rw [elements_remove] at hx; exact h.key uid x hx
  keys := by intro uid; rw [elements_remove, addSet_remove]; exact h.keys uid
  tags := by intro uid hm; rw [addSet_remove] at hm; rw [addTags_remove]; exact h.tags uid hm
  removed := by
    intro uid
    rw [removeTags_remove, addTags_remove]
    split
    · exact Finset.union_subset (h.removed uid) (Finset.Subset.refl _)
    · exact h.removed uid

/-- Writing through a reference to a stored element, keeping its UID. -/
theorem WF.set (h : s.WF) {uid : Str} {x : T} (hm : uid ∈ s.elements) (hx : Element.getUid x = uid) :
    ({ s with elements := s.elements.insert uid x } : ORSet T).WF where
  key := by
    intro k y hy
    simp only [UMap.lookup_insert_ite] at hy
    split at hy
    · rename_i hk; cases hy; rw [hx, hk]
    · exact h.key k y hy
  keys := by
    intro k
    simp only [AList.mem_insert]
    rw [← h.keys]
    constructor
    · rintro (rfl | hk)
      · exact hm
      · exact hk
    · exact Or.inr
  tags := h.tags
  removed := h.removed

theorem mem_elements_merge (h : s.merge t = .ok u) (uid : Str) :
    uid ∈ u.elements ↔ uid ∈ s.elements ∨ uid ∈ t.elements := by
  rw [← AList.lookup_isSome, ← AList.lookup_isSome, ← AList.lookup_isSome]
  rcases elements_merge h uid with ⟨h1, h2⟩ | ⟨y, h1, h2, h3⟩ | ⟨x, y, z, h1, h2, -, h3⟩
  · simp [h1, h2]
  · simp [h1, h3]
  · simp [h1, h3]

variable [LawfulElement T]

/-- The merge of two well-formed sets is well formed. -/
theorem WF.merge (hs : s.WF) (ht : t.WF) (h : s.merge t = .ok u) : u.WF where
  key := by
    intro uid x hx
    rcases elements_merge h uid with ⟨-, h2⟩ | ⟨y, h1, -, h3⟩ | ⟨x', y, z, -, h2, h3, h4⟩
    · rw [h2] at hx; exact hs.key uid x hx
    · rw [h3] at hx; cases hx; exact ht.key uid _ h1
    · rw [h4] at hx; cases hx
      rw [LawfulElement.getUid_merge _ _ _ h3]; exact hs.key uid _ h2
  keys := by
    intro uid
    rw [mem_elements_merge h, (merge_eq_ok h).2.1, mergeTags, UMap.mem_foldInto, hs.keys, ht.keys]
  tags := by
    intro uid hm
    rw [(merge_eq_ok h).2.1, mergeTags, UMap.mem_foldInto] at hm
    rw [addTags_merge h]
    intro he
    rw [Finset.union_eq_empty] at he
    rcases hm with hm | hm
    · exact hs.tags uid hm he.1
    · exact ht.tags uid hm he.2
  removed := by
    intro uid
    rw [removeTags_merge h, addTags_merge h]
    exact Finset.union_subset_union (hs.removed uid) (ht.removed uid)

/-- **Sets built by the operations always merge.** -/
theorem WF.merge_isOk (hs : s.WF) (ht : t.WF) : ∃ u, s.merge t = .ok u := by
  rw [ORSet.merge_isOk]
  intro uid x y hx hy
  rw [LawfulElement.merge_isOk, hs.key uid x hx, ht.key uid y hy]

omit [LawfulElement T]

/-- **Membership is having a tag that no remove has seen.** -/
theorem WF.contains_iff (h : s.WF) (uid : Str) : s.contains uid = true ↔ s.Live uid := by
  refine ⟨fun hc => ?_, contains_of_live⟩
  unfold contains at hc
  cases ha : s.addSet.lookup uid with
  | none => rw [ha] at hc; cases hc
  | some tags =>
    rw [ha] at hc
    have htags : s.addTags uid = tags := by rw [addTags, ha]; rfl
    cases hr : s.removeSet.lookup uid with
    | none =>
      have hmem : uid ∈ s.addSet := by rw [← AList.lookup_isSome, ha]; rfl
      obtain ⟨tag, ht⟩ := Finset.nonempty_iff_ne_empty.2 (h.tags uid hmem)
      exact ⟨tag, ht, by rw [removeTags, hr]; simp⟩
    | some removed =>
      rw [hr] at hc
      simp only [decide_eq_true_eq] at hc
      rw [Live, htags, removeTags, hr]
      exact hc

/-- The element `values()` lists for a contained UID is the one stored under it. -/
theorem WF.mem_values_iff (h : s.WF) (x : T) :
    x ∈ s.values ↔ s.Live (Element.getUid x) ∧ s.elements.lookup (Element.getUid x) = some x := by
  rw [mem_values]
  constructor
  · rintro ⟨uid, h1, h2⟩
    rw [h.key uid x h2]
    exact ⟨(h.contains_iff uid).1 h1, h2⟩
  · rintro ⟨h1, h2⟩
    exact ⟨_, contains_of_live h1, h2⟩

/-- A UID with a tag has an element. -/
theorem WF.exists_element (h : s.WF) {uid : Str} (hl : s.Live uid) :
    ∃ x, s.elements.lookup uid = some x := by
  obtain ⟨tag, h1, -⟩ := hl
  have : uid ∈ s.elements := by
    rw [h.keys, mem_addSet_iff s uid h]
    exact Finset.ne_empty_of_mem h1
  rw [← AList.lookup_isSome] at this
  exact Option.isSome_iff_exists.1 this

end ORSet

end Shopping
