import Shopping.Lib.Rows
import Shopping.Proof.Packing
import Shopping.Proof.Representation
import Shopping.Client.Api

/-!
# Edits of lists that are alike

What `Proof/Packing.lean` says of merges, for the edits of a client: made to lists that are
alike, an edit leaves lists that are alike (`ShoppingList.Alike.add`, `API.editItem_alike`,
`API.dropItem_alike`). Through `getItem` this takes the representation invariant, since the
first item of a UID is found in the order of the entries.
-/

namespace Shopping

open Lib

/-- Being alike is transitive: on counters it is equality of the entries of both maps. -/
theorem PNCounter.Alike.trans {a b c : PNCounter} (h : a.Alike b) (h' : b.Alike c) : a.Alike c :=
  ⟨h.pos.trans (fun _ _ _ => Eq.trans) h'.pos, h.neg.trans (fun _ _ _ => Eq.trans) h'.neg⟩

theorem ShoppingItem.Alike.trans {a b c : ShoppingItem} (h : a.Alike b) (h' : b.Alike c) :
    a.Alike c :=
  ⟨h.uid.trans h'.uid, h.name.trans h'.name, h.desiredQuantity.trans h'.desiredQuantity,
    h.currentQuantity.trans h'.currentQuantity⟩

/-- Being alike is transitive on lists, field by field. -/
theorem ShoppingList.Alike.trans {a b c : ShoppingList} (h : a.Alike b) (h' : b.Alike c) :
    a.Alike c :=
  ⟨h.uid.trans h'.uid, h.name.trans h'.name,
    h.items.elements.trans (fun _ _ _ => ShoppingItem.Alike.trans) h'.items.elements,
    h.items.addSet.trans (fun _ _ _ => Eq.trans) h'.items.addSet,
    h.items.removeSet.trans (fun _ _ _ => Eq.trans) h'.items.removeSet⟩

/-- Being alike is transitive on the lists that a message carries. -/
theorem alike_lists_trans {a b c : List ShoppingList} (h : List.Forall₂ ShoppingList.Alike a b)
    (h' : List.Forall₂ ShoppingList.Alike b c) : List.Forall₂ ShoppingList.Alike a c := by
  induction h generalizing c with
  | nil => exact h'
  | cons hab _ ih =>
    cases h' with
    | cons hbc h' => exact .cons (hab.trans hbc) (ih h')

theorem Message.Alike.symm {m m' : Message} (h : m.Alike m') : m'.Alike m :=
  ⟨h.op.symm, h.origin.symm, h.ts.symm, h.lists.flip.imp fun _ _ => ShoppingList.Alike.symm,
    h.nodes.symm⟩

/-- A message packed twice is alike to what comes out in the end. -/
theorem Message.Alike.trans {a b c : Message} (h : a.Alike b) (h' : b.Alike c) : a.Alike c :=
  ⟨h.op.trans h'.op, h.origin.trans h'.origin, h.ts.trans h'.ts, alike_lists_trans h.lists h'.lists,
    h.nodes.trans h'.nodes⟩

/-- A total is looked up by its origin, so the order of the entries does not matter to a change. -/
theorem PNCounter.bump_alike {m m' : UMap Str UInt64} (h : UMap.Alike Eq m m') (origin : Str)
    (delta : ℤ) : UMap.Alike Eq (bump m origin delta) (bump m' origin delta) := by
  unfold bump
  split
  · rw [UMap.alike_eq_iff.1 h origin]
    exact h.insert origin rfl
  · exact h

theorem PNCounter.Alike.increment {c c' : PNCounter} (h : c.Alike c') (origin : Str) (delta : ℤ) :
    (c.increment origin delta).Alike (c'.increment origin delta) :=
  ⟨PNCounter.bump_alike h.pos origin delta, h.neg⟩

theorem PNCounter.Alike.decrement {c c' : PNCounter} (h : c.Alike c') (origin : Str) (delta : ℤ) :
    (c.decrement origin delta).Alike (c'.decrement origin delta) :=
  ⟨h.pos, PNCounter.bump_alike h.neg origin delta⟩

/-- The setters go by the value of the counter, which counters that are alike share. -/
theorem PNCounter.Alike.setCounter {c c' : PNCounter} (h : c.Alike c') (origin : Str)
    (quantity : UInt32) : (ShoppingItem.setCounter c origin quantity).Alike
      (ShoppingItem.setCounter c' origin quantity) := by
  have hdiff : ShoppingItem.diff c quantity = ShoppingItem.diff c' quantity := by
    rw [ShoppingItem.diff, ShoppingItem.diff, h.value_eq]
  have hset : ∀ c : PNCounter, ShoppingItem.setCounter c origin quantity =
      if 0 < ShoppingItem.diff c quantity then c.increment origin (ShoppingItem.diff c quantity)
      else if ShoppingItem.diff c quantity < 0 then
        c.decrement origin (int32 (-ShoppingItem.diff c quantity))
      else c := fun _ => rfl
  rw [hset, hset, hdiff]
  generalize ShoppingItem.diff c' quantity = d
  split
  · exact h.increment origin d
  · split
    · exact h.decrement origin (int32 (-d))
    · exact h

/-- What `updateItem` does to the item: the new name and both quantities. -/
theorem ShoppingItem.Alike.setQuantities {it it' : ShoppingItem} (h : it.Alike it')
    (origin itemName : Str) (desired current : UInt32) :
    ShoppingItem.Alike
      (((it.setName itemName).setDesiredQuantity origin desired).setCurrentQuantity origin current)
      (((it'.setName itemName).setDesiredQuantity origin desired).setCurrentQuantity origin
        current) := by
  have hname : ∀ it : ShoppingItem, (it.setName itemName).desiredQuantity = it.desiredQuantity ∧
      (it.setName itemName).currentQuantity = it.currentQuantity := fun _ => ⟨rfl, rfl⟩
  refine ⟨h.uid, rfl, ?_, ?_⟩
  · simp only [desiredQuantity_setCurrentQuantity, desiredQuantity_setDesiredQuantity, hname]
    exact h.desiredQuantity.setCounter origin desired
  · simp only [currentQuantity_setCurrentQuantity, currentQuantity_setDesiredQuantity, hname]
    exact h.currentQuantity.setCounter origin current

variable {l l' r : ShoppingList}

/-- An element added under the same tag, where the two elements are alike. -/
theorem ORSet.Alike.add {s s' : ORSet ShoppingItem} (h : s.Alike s') {it it' : ShoppingItem}
    (hit : it.Alike it') (tag : Str) : (s.add it tag).Alike (s'.add it' tag) := by
  have huid : Element.getUid it = Element.getUid it' := hit.uid
  unfold ORSet.add
  dsimp only
  rw [huid, UMap.alike_eq_iff.1 h.addSet]
  exact ⟨h.elements.insert _ hit, h.addSet.insert _ rfl, h.removeSet⟩

/-- A removal looks only at the UID of what it removes. -/
theorem ORSet.Alike.remove {s s' : ORSet ShoppingItem} (h : s.Alike s') {it it' : ShoppingItem}
    (hit : it.uid = it'.uid) : (s.remove it).Alike (s'.remove it') := by
  have huid : Element.getUid it = Element.getUid it' := hit
  unfold ORSet.remove
  dsimp only
  rw [huid, UMap.alike_eq_iff.1 h.addSet, UMap.alike_eq_iff.1 h.removeSet]
  split
  · exact h
  · split
    · exact h
    · exact ⟨h.elements, h.addSet, h.removeSet.insert _ rfl⟩

/-- The two lists agree on which items they have. -/
theorem ShoppingList.Alike.contains_eq (h : l.Alike l') {it it' : ShoppingItem}
    (hit : it.uid = it'.uid) : l.contains it = l'.contains it' := by
  rw [ShoppingList.contains, ShoppingList.contains, ShoppingItem.getUid, ShoppingItem.getUid, hit]
  exact h.items.contains_eq _

/-- A write of an item, as `add` and `update` make it unless they throw. -/
theorem ShoppingList.Alike.put (h : l.Alike l') {it it' : ShoppingItem} (hit : it.Alike it')
    {tag : Str} {fails : Prop} [Decidable fails] {e : Exn}
    (hr : (if fails then .error e else .ok { l with items := l.items.add it tag }) =
      Except.ok r) :
    ∃ r', (if fails then .error e else .ok { l' with items := l'.items.add it' tag }) =
      Except.ok r' ∧ r.Alike r' := by
  split at hr
  · cases hr
  · rename_i hno
    cases hr
    exact ⟨_, if_neg hno, h.uid, h.name, h.items.add hit tag⟩

/-- `add` throws on both lists or on neither, and leaves lists that are alike. -/
theorem ShoppingList.Alike.add (h : l.Alike l') {it it' : ShoppingItem} (hit : it.Alike it')
    {tag : Str} (hr : l.add it tag = .ok r) : ∃ r', l'.add it' tag = .ok r' ∧ r.Alike r' := by
  unfold ShoppingList.add at hr ⊢
  rw [← h.contains_eq hit.uid]
  exact h.put hit hr

theorem ShoppingList.Alike.update (h : l.Alike l') {it it' : ShoppingItem} (hit : it.Alike it')
    {tag : Str} (hr : l.update it tag = .ok r) : ∃ r', l'.update it' tag = .ok r' ∧ r.Alike r' := by
  unfold ShoppingList.update at hr ⊢
  rw [← h.contains_eq hit.uid]
  exact h.put hit hr

/-- The representation invariant is about what is found under which key. -/
theorem ShoppingList.Alike.wf (h : l.Alike l') (hw : l'.WF) : l.WF where
  key := by
    intro uid x hx
    obtain ⟨x', hx', hal⟩ := h.items.elements.lookup hx
    exact hal.uid.trans (hw.key uid x' hx')
  keys uid := by
    rw [h.items.elements.mem_iff, h.items.addSet.mem_iff]
    exact hw.keys uid
  tags uid hm := by
    rw [ORSet.addTags, UMap.alike_eq_iff.1 h.items.addSet]
    exact hw.tags uid ((h.items.addSet.mem_iff uid).1 hm)
  removed uid := by
    rw [ORSet.addTags, ORSet.removeTags, UMap.alike_eq_iff.1 h.items.addSet,
      UMap.alike_eq_iff.1 h.items.removeSet]
    exact hw.removed uid

/-- `getItem` finds the item under the same key in both lists. It takes the first of its UID, and by
the invariant there is one at most. -/
theorem ShoppingList.Alike.getItem (h : l.Alike l') (hw : l'.WF) {uid key : Str}
    {it : ShoppingItem} (hi : l.getItem uid = .ok (key, it)) :
    ∃ it', l'.getItem uid = .ok (key, it') ∧ it.Alike it' := by
  obtain ⟨rfl, hlive, hl, -⟩ := (h.wf hw).getItem_eq_ok hi
  have hc : l'.items.contains key = true := by
    rw [← h.items.contains_eq]
    exact ORSet.contains_of_live hlive
  obtain ⟨⟨key', it'⟩, hi'⟩ := (ORSet.WF.getItem_isOk hw key).2 hc
  obtain ⟨rfl, -, hl', -⟩ := hw.getItem_eq_ok hi'
  obtain ⟨it'', hl'', hal⟩ := h.items.elements.lookup hl
  rw [hl'] at hl''
  cases hl''
  exact ⟨it', hi', hal⟩

/-- An edit through the reference of `getItem`, in `updateItem`. -/
theorem API.editItem_alike (h : l.Alike l') (hw : l'.WF) {origin itemUid itemName tag : Str}
    {desired current : Int32}
    (hr : API.editItem l origin itemUid itemName desired current tag = .ok r) :
    ∃ r', API.editItem l' origin itemUid itemName desired current tag = .ok r' ∧ r.Alike r' := by
  unfold API.editItem at hr ⊢
  cases hi : l.getItem itemUid with
  | error e => rw [hi] at hr; cases hr
  | ok found =>
    obtain ⟨key, it⟩ := found
    obtain ⟨it', hi', hal⟩ := h.getItem hw hi
    rw [hi] at hr
    rw [hi']
    have hset := hal.setQuantities origin itemName desired.toUInt32 current.toUInt32
    have hitem : (l.setItem key _).Alike (l'.setItem key _) :=
      ⟨h.uid, h.name, h.items.elements.insert key hset, h.items.addSet, h.items.removeSet⟩
    exact hitem.update hset hr

/-- A removal of the item that `getItem` finds, in `removeItem`. -/
theorem API.dropItem_alike (h : l.Alike l') (hw : l'.WF) {itemUid : Str}
    (hr : API.dropItem l itemUid = .ok r) : ∃ r', API.dropItem l' itemUid = .ok r' ∧ r.Alike r' := by
  unfold API.dropItem at hr ⊢
  cases hi : l.getItem itemUid with
  | error e => rw [hi] at hr; cases hr
  | ok found =>
    obtain ⟨key, it⟩ := found
    obtain ⟨it', hi', hal⟩ := h.getItem hw hi
    rw [hi] at hr
    rw [hi']
    cases hr
    exact ⟨_, rfl, h.uid, h.name, h.items.remove hal.uid⟩

end Shopping
