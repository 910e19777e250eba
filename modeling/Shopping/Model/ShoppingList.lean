import Shopping.Model.ShoppingItem

/-!
# `ShoppingList`

A list: its UID, its name and an observed-remove set of items
(`model/shopping_list.{hpp,cpp}`). `merge` merges the items only: neither the
name nor the UID of the other list is looked at.
-/

namespace Shopping

open Lib

/-- `class ShoppingList`. -/
structure ShoppingList where
  uid : Str := []
  name : Str := []
  items : ORSet ShoppingItem := {}

namespace ShoppingList

instance : Inhabited ShoppingList := ⟨{}⟩

/-- `ShoppingList(uid, name)`. -/
def new (uid name : Str) : ShoppingList where
  uid := uid
  name := name

def getUid (l : ShoppingList) : Str := l.uid

def contains (l : ShoppingList) (item : ShoppingItem) : Bool := l.items.contains item.getUid

def add (l : ShoppingList) (item : ShoppingItem) (tag : Str) : Except Exn ShoppingList :=
  if l.contains item then
    .error (.invalidArgument "Item with the same UID already exists in the shopping list")
  else .ok { l with items := l.items.add item tag }

def update (l : ShoppingList) (item : ShoppingItem) (tag : Str) : Except Exn ShoppingList :=
  if l.contains item = false then .error (.invalidArgument "Item not found in the shopping list")
  else .ok { l with items := l.items.add item tag }

def remove (l : ShoppingList) (item : ShoppingItem) : ShoppingList :=
  { l with items := l.items.remove item }

/-- `ShoppingItem& getItem(const string& uid)`: the first of `values()` with this UID,
with the key it is stored under, which is where the reference points. -/
def getItem (l : ShoppingList) (uid : Str) : Except Exn (Str × ShoppingItem) :=
  let found := l.items.valueKeys.findSome? fun key =>
    (l.items.elements.lookup key).bind fun it => if it.getUid = uid then some (key, it) else none
  match found with
  | some it => .ok it
  | none => .error (.invalidArgument "Item not found in the shopping list")

/-- Writing an item through the reference `getItem` returned. -/
def setItem (l : ShoppingList) (key : Str) (item : ShoppingItem) : ShoppingList :=
  { l with items := { l.items with elements := l.items.elements.insert key item } }

def getAllItems (l : ShoppingList) : List ShoppingItem := l.items.values

/-- `void merge(const ShoppingList &other)`. -/
def merge (l other : ShoppingList) : Method ShoppingList :=
  match l.items.merge other.items with
  | .ok items => .ok { l with items }
  | .error (e, items) => .error (e, { l with items })

theorem merge_eq_ok {l other r : ShoppingList} (h : l.merge other = .ok r) :
    l.items.merge other.items = .ok r.items ∧ r.uid = l.uid ∧ r.name = l.name := by
  unfold merge at h
  split at h
  · rename_i items hi
    simp only [Except.ok.injEq] at h
    subst h; exact ⟨hi, rfl, rfl⟩
  · cases h

theorem merge_isOk {l other : ShoppingList} :
    (∃ r, l.merge other = .ok r) ↔ ∃ items, l.items.merge other.items = .ok items := by
  constructor
  · rintro ⟨r, h⟩; exact ⟨_, (merge_eq_ok h).1⟩
  · rintro ⟨items, h⟩; unfold merge; rw [h]; exact ⟨_, rfl⟩

/-- The list satisfies the representation invariant of its items. -/
abbrev WF (l : ShoppingList) : Prop := l.items.WF

theorem WF.merge_isOk {l other : ShoppingList} (h : l.WF) (ho : other.WF) :
    ∃ r, l.merge other = .ok r := ShoppingList.merge_isOk.2 (ORSet.WF.merge_isOk h ho)

theorem WF.merge {l other r : ShoppingList} (h : l.WF) (ho : other.WF)
    (hm : l.merge other = .ok r) : r.WF := ORSet.WF.merge h ho (merge_eq_ok hm).1

theorem WF.new (uid name : Str) : (new uid name).WF := ORSet.WF.empty

/-- `getItem` returns a listed item of the UID asked for, and its key. -/
theorem getItem_eq_ok {l : ShoppingList} {uid key : Str} {it : ShoppingItem}
    (h : l.getItem uid = .ok (key, it)) :
    l.items.contains key = true ∧ l.items.elements.lookup key = some it ∧ it.uid = uid := by
  unfold getItem at h
  dsimp only at h
  split at h
  · rename_i found hf
    simp only [Except.ok.injEq] at h
    subst h
    obtain ⟨k, hk, hb⟩ := List.exists_of_findSome?_eq_some hf
    rw [Option.bind_eq_some_iff] at hb
    obtain ⟨it', hl, hi⟩ := hb
    split at hi
    · rename_i hu
      cases hi
      exact ⟨(ORSet.mem_valueKeys.1 hk).1, hl, hu⟩
    · cases hi
  · cases h

/-- Where items are stored under their UID, the reference points there. -/
theorem WF.getItem_eq_ok {l : ShoppingList} (hw : l.WF) {uid key : Str} {it : ShoppingItem}
    (h : l.getItem uid = .ok (key, it)) :
    key = uid ∧ l.items.Live uid ∧ l.items.elements.lookup uid = some it ∧ it.uid = uid := by
  obtain ⟨h1, h2, h3⟩ := ShoppingList.getItem_eq_ok h
  have hk : key = uid := by rw [← h3]; exact (hw.key key it h2).symm
  subst hk
  exact ⟨rfl, (hw.contains_iff _).1 h1, h2, h3⟩

end ShoppingList

end Shopping
