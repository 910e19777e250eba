import Shopping.Client.Api

/-!
# What a client's update does to a list

`addItem`, `updateItem` and `removeItem` as data: `Op.apply` is the change each makes to
the list it read. What a list shows of an item's counters is `ShoppingList.counter`.

* `Op.addTags_apply`, `Op.removeTags_apply`, `Op.elements_apply`: what an update leaves of
  the three maps.
* `Op.totalOf_apply`: what it adds to the totals of its origin.
-/

namespace Shopping

open Lib

/-- The two counters of an item. -/
inductive Quantity
  | desired
  | current
  deriving DecidableEq

instance : Fintype Quantity := ⟨{.desired, .current}, fun q => by cases q <;> decide⟩

namespace ShoppingItem

def counter (it : ShoppingItem) : Quantity → PNCounter
  | .desired => it.desiredQuantity
  | .current => it.currentQuantity

/-- Both counters of an item are merged, each with its own. -/
theorem counter_merge {it other r : ShoppingItem} (h : it.merge other = .ok r) (q : Quantity) :
    r.counter q = (it.counter q).merge (other.counter q) := by
  obtain ⟨-, -, -, hd, hc⟩ := merge_eq_ok h
  cases q with
  | desired => exact hd
  | current => exact hc

end ShoppingItem

namespace ShoppingList

/-- The counter stored for an item; the empty one where there is no item. -/
def counter (l : ShoppingList) (q : Quantity) (uid : Str) : PNCounter :=
  ((l.items.elements.lookup uid).map fun it => it.counter q).getD {}

theorem counter_of_some {l : ShoppingList} {uid : Str} {it : ShoppingItem}
    (h : l.items.elements.lookup uid = some it) (q : Quantity) : l.counter q uid = it.counter q := by
  rw [counter, h]; rfl

theorem counter_of_none {l : ShoppingList} {uid : Str} (h : l.items.elements.lookup uid = none)
    (q : Quantity) : l.counter q uid = {} := by
  rw [counter, h]; rfl

/-- A reading of counters that merges as a maximum does so through lists, for every item. -/
theorem counter_merge_max {l other r : ShoppingList} (h : l.merge other = .ok r)
    (f : PNCounter → ℕ) (f0 : f {} = 0) (fm : ∀ c d, f (c.merge d) = max (f c) (f d))
    (q : Quantity) (uid : Str) :
    f (r.counter q uid) = max (f (l.counter q uid)) (f (other.counter q uid)) := by
  rcases ORSet.elements_merge (merge_eq_ok h).1 uid with
    ⟨h1, h2⟩ | ⟨y, h1, h2, h3⟩ | ⟨x, y, z, h1, h2, h3, h4⟩
  · rw [counter_of_none h1, counter, h2, f0, Nat.max_zero]; rfl
  · rw [counter_of_some h1, counter_of_none h2, counter_of_some h3, f0, Nat.zero_max]
  · rw [counter_of_some h1, counter_of_some h2, counter_of_some h4, ShoppingItem.counter_merge h3,
      fm]

/-- **Merging lists takes the larger total of every origin**, for every item. -/
theorem totalOf_counter_merge {l other r : ShoppingList} (h : l.merge other = .ok r) (q : Quantity)
    (uid : Str) (side : PNCounter.Side) (o : Str) : (r.counter q uid).totalOf side o =
      max ((l.counter q uid).totalOf side o) ((other.counter q uid).totalOf side o) :=
  counter_merge_max h (fun c => c.totalOf side o) (PNCounter.totalOf_empty side o)
    (fun c d => PNCounter.totalOf_merge c d side o) q uid

end ShoppingList

/-- An update, with the quantities the user gives and the tag `genTag` returns. -/
inductive Op
  | add (itemUid name : Str) (desired current : Int32) (tag : Str)
  | update (itemUid name : Str) (desired current : Int32) (tag : Str)
  | remove (itemUid : Str)

namespace Op

def itemUid : Op → Str
  | add uid _ _ _ _ => uid
  | update uid _ _ _ _ => uid
  | remove uid => uid

/-- The item UID an update creates. -/
def added : Op → Option Str
  | add uid _ _ _ _ => some uid
  | _ => none

/-- The change an update of the client `origin` makes to the list it read. -/
def apply (origin : Str) (lst : ShoppingList) : Op → Except Exn ShoppingList
  | add uid name desired current tag =>
    lst.add (ShoppingItem.new origin uid name desired.toUInt32 current.toUInt32) tag
  | update uid name desired current tag => API.editItem lst origin uid name desired current tag
  | remove uid => API.dropItem lst uid

/-- The tags an update adds to an item. -/
def newTags (op : Op) (uid : Str) : Finset Str :=
  match op with
  | add x _ _ _ tag => if uid = x then {tag} else ∅
  | update x _ _ _ tag => if uid = x then {tag} else ∅
  | remove _ => ∅

/-- The tags an update removes, those it finds in the list. -/
def seenTags (op : Op) (lst : ShoppingList) (uid : Str) : Finset Str :=
  match op with
  | remove x => if uid = x then lst.items.addTags uid else ∅
  | _ => ∅

/-- The three setters of `updateItem`. -/
def edited (it : ShoppingItem) (origin name : Str) (desired current : Int32) : ShoppingItem :=
  ((it.setName name).setDesiredQuantity origin desired.toUInt32).setCurrentQuantity origin
    current.toUInt32

@[simp] theorem edited_uid (it : ShoppingItem) (origin name : Str) (desired current : Int32) :
    (edited it origin name desired current).uid = it.uid := rfl

/-- What an update makes of the item stored under its UID. -/
def item (op : Op) (origin : Str) (old : Option ShoppingItem) : Option ShoppingItem :=
  match op with
  | add uid name desired current _ =>
    some (ShoppingItem.new origin uid name desired.toUInt32 current.toUInt32)
  | update _ name desired current _ => old.map fun it => edited it origin name desired current
  | remove _ => old

variable {op : Op} {origin : Str} {lst r : ShoppingList}

/-- An edit succeeds on a live item only, and puts its new value in the old one's place. -/
theorem editItem_eq_ok (hw : lst.WF) {itemUid name tag : Str} {desired current : Int32}
    (h : API.editItem lst origin itemUid name desired current tag = .ok r) :
    ∃ it, lst.items.Live itemUid ∧ lst.items.elements.lookup itemUid = some it ∧
      it.uid = itemUid ∧
      r =
        { lst with
          items := (lst.setItem itemUid (edited it origin name desired current)).items.add
            (edited it origin name desired current) tag } := by
  unfold API.editItem at h
  cases hg : lst.getItem itemUid with
  | error e => rw [hg] at h; cases h
  | ok found =>
    obtain ⟨key, it⟩ := found
    obtain ⟨rfl, hl, he, hu⟩ := hw.getItem_eq_ok hg
    simp only [hg, bind, Except.bind] at h
    unfold ShoppingList.update at h
    split at h
    · cases h
    · cases h
      exact ⟨it, hl, he, hu, rfl⟩

/-- A removal succeeds on a live item only. -/
theorem dropItem_eq_ok (hw : lst.WF) {itemUid : Str} (h : API.dropItem lst itemUid = .ok r) :
    ∃ it, lst.items.Live itemUid ∧ lst.items.elements.lookup itemUid = some it ∧
      it.uid = itemUid ∧ r = lst.remove it := by
  unfold API.dropItem at h
  cases hg : lst.getItem itemUid with
  | error e => rw [hg] at h; cases h
  | ok found =>
    obtain ⟨key, it⟩ := found
    obtain ⟨rfl, hl, he, hu⟩ := hw.getItem_eq_ok hg
    simp only [hg, bind, Except.bind, pure, Except.pure, Except.ok.injEq] at h
    exact ⟨it, hl, he, hu, h.symm⟩

/-- A new item must not be in the list yet. -/
theorem add_eq_ok {it : ShoppingItem} {tag : Str} (h : lst.add it tag = .ok r) :
    lst.items.contains it.uid = false ∧ r = { lst with items := lst.items.add it tag } := by
  unfold ShoppingList.add at h
  split at h
  · cases h
  · rename_i hc
    cases h
    exact ⟨Bool.eq_false_iff.2 hc, rfl⟩

/-- An update keeps the list's UID and its name. -/
theorem apply_names (h : op.apply origin lst = .ok r) : r.uid = lst.uid ∧ r.name = lst.name := by
  cases op with
  | add uid name desired current tag =>
    obtain ⟨-, rfl⟩ := add_eq_ok h
    exact ⟨rfl, rfl⟩
  | update uid name desired current tag =>
    simp only [apply, API.editItem] at h
    cases hg : lst.getItem uid with
    | error e => rw [hg] at h; cases h
    | ok found =>
      simp only [hg, bind, Except.bind, ShoppingList.update] at h
      split at h
      · cases h
      · cases h; exact ⟨rfl, rfl⟩
  | remove uid =>
    simp only [apply, API.dropItem] at h
    cases hg : lst.getItem uid with
    | error e => rw [hg] at h; cases h
    | ok found =>
      simp only [hg, bind, Except.bind, pure, Except.pure, Except.ok.injEq] at h
      subst h; exact ⟨rfl, rfl⟩

/-- An update keeps the representation invariant. -/
theorem apply_wf (hw : lst.WF) (h : op.apply origin lst = .ok r) : r.WF := by
  cases op with
  | add uid name desired current tag =>
    obtain ⟨-, rfl⟩ := add_eq_ok h
    exact ORSet.WF.add hw _ _
  | update uid name desired current tag =>
    obtain ⟨it, hl, he, hu, rfl⟩ := editItem_eq_ok hw h
    have hm : uid ∈ lst.items.elements := by rw [← AList.lookup_isSome, he]; rfl
    have hset : (lst.setItem uid (edited it origin name desired current)).items.WF :=
      ORSet.WF.set hw hm hu
    exact hset.add _ _
  | remove uid =>
    obtain ⟨it, -, -, -, rfl⟩ := dropItem_eq_ok hw h
    exact ORSet.WF.remove hw _

theorem insert_ite (A : Finset Str) (p : Prop) [Decidable p] (tag : Str) :
    (if p then insert tag A else A) = A ∪ if p then {tag} else ∅ := by
  split
  · rw [Finset.union_comm]; rfl
  · rw [Finset.union_empty]

/-- **The tags an update adds.** -/
theorem addTags_apply (hw : lst.WF) (h : op.apply origin lst = .ok r) (uid : Str) :
    r.items.addTags uid = lst.items.addTags uid ∪ op.newTags uid := by
  cases op with
  | add x name desired current tag =>
    obtain ⟨-, rfl⟩ := add_eq_ok h
    exact (ORSet.addTags_add _ _ _ _).trans (insert_ite _ _ _)
  | update x name desired current tag =>
    obtain ⟨it, -, -, rfl, rfl⟩ := editItem_eq_ok hw h
    exact (ORSet.addTags_add _ _ _ _).trans (insert_ite _ _ _)
  | remove x =>
    obtain ⟨it, -, -, -, rfl⟩ := dropItem_eq_ok hw h
    exact (ORSet.addTags_remove _ _ _).trans (Finset.union_empty _).symm

/-- **The tags an update removes.** -/
theorem removeTags_apply (hw : lst.WF) (h : op.apply origin lst = .ok r) (uid : Str) :
    r.items.removeTags uid = lst.items.removeTags uid ∪ op.seenTags lst uid := by
  cases op with
  | add x name desired current tag =>
    obtain ⟨-, rfl⟩ := add_eq_ok h
    exact (Finset.union_empty _).symm
  | update x name desired current tag =>
    obtain ⟨it, -, -, -, rfl⟩ := editItem_eq_ok hw h
    exact (Finset.union_empty _).symm
  | remove x =>
    obtain ⟨it, -, -, rfl, rfl⟩ := dropItem_eq_ok hw h
    rw [seenTags]
    refine (ORSet.removeTags_remove lst.items it uid).trans ?_
    rw [ShoppingItem.element_getUid]
    split
    · rfl
    · exact (Finset.union_empty _).symm

/-- **The item an update writes.** -/
theorem elements_apply (hw : lst.WF) (h : op.apply origin lst = .ok r) (uid : Str) :
    r.items.elements.lookup uid =
      if uid = op.itemUid then op.item origin (lst.items.elements.lookup uid)
      else lst.items.elements.lookup uid := by
  cases op with
  | add x name desired current tag =>
    obtain ⟨-, rfl⟩ := add_eq_ok h
    exact ORSet.elements_add _ _ _ _
  | update x name desired current tag =>
    obtain ⟨it, -, he, rfl, rfl⟩ := editItem_eq_ok hw h
    dsimp only
    rw [ORSet.elements_add, ShoppingItem.element_getUid, edited_uid, itemUid]
    split
    · rename_i hk; subst hk; rw [he]; rfl
    · rename_i hk; exact (UMap.lookup_insert_ite _ _ _ _).trans (if_neg hk)
  | remove x =>
    obtain ⟨it, -, -, -, rfl⟩ := dropItem_eq_ok hw h
    rw [item, ite_self]
    exact congrArg _ (ORSet.elements_remove _ _)

/-- The quantity an update sets. -/
def quantity (op : Op) (q : Quantity) : UInt32 :=
  match op, q with
  | add _ _ desired _ _, .desired => desired.toUInt32
  | add _ _ _ current _, .current => current.toUInt32
  | update _ _ desired _ _, .desired => desired.toUInt32
  | update _ _ _ current _, .current => current.toUInt32
  | remove _, _ => 0

/-- What an update makes of a counter of its item. -/
def newCounter (op : Op) (origin : Str) (c : PNCounter) (q : Quantity) : PNCounter :=
  match op with
  | add .. => PNCounter.increment {} origin (op.quantity q).toNat
  | update .. => ShoppingItem.setCounter c origin (op.quantity q)
  | remove _ => c

/-- The increment an update records in a counter of its item. -/
def posDelta (op : Op) (lst : ShoppingList) (q : Quantity) : ℕ :=
  match op with
  | add .. => (op.quantity q).toNat
  | update uid .. => ShoppingItem.posDelta (lst.counter q uid) (op.quantity q)
  | remove _ => 0

/-- The decrement an update records in a counter of its item. -/
def negDelta (op : Op) (lst : ShoppingList) (q : Quantity) : ℕ :=
  match op with
  | update uid .. => ShoppingItem.negDelta (lst.counter q uid) (op.quantity q)
  | _ => 0

/-- What an update records on a side of a counter of its item. -/
def delta (op : Op) (lst : ShoppingList) (q : Quantity) : PNCounter.Side → ℕ
  | .pos => op.posDelta lst q
  | .neg => op.negDelta lst q

/-- No total wraps when the update is made. -/
def NoWrap (op : Op) (origin : Str) (lst : ShoppingList) : Prop :=
  match op with
  | update uid .. => ∀ q, ShoppingItem.NoWrap (lst.counter q uid) origin (op.quantity q)
  | _ => True

instance (op : Op) (origin : Str) (lst : ShoppingList) : Decidable (op.NoWrap origin lst) := by
  unfold NoWrap; split <;> infer_instance

/-- An added item is new to the list, also among the items that are no longer shown. -/
def NewItem (op : Op) (lst : ShoppingList) : Prop :=
  match op with
  | add uid .. => lst.items.elements.lookup uid = none
  | _ => True

theorem counter_eq (q : Quantity) (uid : Str) :
    lst.counter q uid = ((lst.items.elements.lookup uid).map fun it => it.counter q).getD {} := rfl

theorem counter_edited (it : ShoppingItem) (uid name tag : Str) (desired current : Int32)
    (q : Quantity) :
    (edited it origin name desired current).counter q =
      (update uid name desired current tag).newCounter origin (it.counter q) q := by
  cases q with
  | desired =>
    rw [edited, ShoppingItem.counter, ShoppingItem.desiredQuantity_setCurrentQuantity,
      ShoppingItem.desiredQuantity_setDesiredQuantity]
    unfold newCounter
    rfl
  | current =>
    rw [edited, ShoppingItem.counter, ShoppingItem.currentQuantity_setCurrentQuantity,
      ShoppingItem.currentQuantity_setDesiredQuantity]
    unfold newCounter
    rfl

/-- The counter an update leaves at its item. -/
theorem counter_apply (hw : lst.WF) (h : op.apply origin lst = .ok r) (q : Quantity) :
    r.counter q op.itemUid = op.newCounter origin (lst.counter q op.itemUid) q := by
  have he := elements_apply hw h op.itemUid
  rw [if_pos rfl] at he
  cases op with
  | add x name desired current tag =>
    rw [ShoppingList.counter_of_some he]
    cases q <;> rfl
  | update x name desired current tag =>
    obtain ⟨it, -, hit, -, -⟩ := editItem_eq_ok hw h
    rw [itemUid, hit] at he
    rw [itemUid, ShoppingList.counter_of_some he, ShoppingList.counter_of_some hit]
    exact counter_edited it x name tag desired current q
  | remove x => rw [counter_eq, he]; rfl

/-- An operation leaves the counters of every other item alone. -/
theorem counter_apply_ne (hw : lst.WF) (h : op.apply origin lst = .ok r) (q : Quantity) {uid : Str}
    (hne : uid ≠ op.itemUid) : r.counter q uid = lst.counter q uid := by
  rw [counter_eq, elements_apply hw h, if_neg hne]; rfl

/-- What an update records of a counter of its item, and under which origin. -/
theorem totalOf_newCounter (hn : op.NoWrap origin lst) (hnew : op.NewItem lst) (q : Quantity)
    (side : PNCounter.Side) (o : Str) :
    (op.newCounter origin (lst.counter q op.itemUid) q).totalOf side o =
      (lst.counter q op.itemUid).totalOf side o +
        if o = origin then op.delta lst q side else 0 := by
  cases op with
  | add x name desired current tag =>
    rw [itemUid, ShoppingList.counter_of_none hnew, PNCounter.totalOf_empty, zero_add]
    cases side with
    | pos => exact ShoppingItem.posOf_increment_empty origin _ o
    | neg => exact (PNCounter.negOf_increment ..).trans (ite_self 0).symm
  | update x name desired current tag =>
    cases side with
    | pos => exact ShoppingItem.posOf_setCounter (hn q) o
    | neg => exact ShoppingItem.negOf_setCounter (hn q) o
  | remove x => cases side <;> simp [delta, posDelta, negDelta, newCounter]

/-- **What an update adds to the totals**: its delta, for its item and origin. -/
theorem totalOf_apply (hw : lst.WF) (h : op.apply origin lst = .ok r) (hn : op.NoWrap origin lst)
    (hnew : op.NewItem lst) (q : Quantity) (uid : Str) (side : PNCounter.Side) (o : Str) :
    (r.counter q uid).totalOf side o = (lst.counter q uid).totalOf side o +
      if uid = op.itemUid ∧ o = origin then op.delta lst q side else 0 := by
  by_cases hu : uid = op.itemUid
  · subst hu
    rw [counter_apply hw h q, totalOf_newCounter hn hnew q side o]
    simp only [true_and]
  · rw [counter_apply_ne hw h q hu, if_neg (fun hc => hu hc.1), add_zero]

end Op

end Shopping
