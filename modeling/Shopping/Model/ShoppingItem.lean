import Shopping.Crdt.PnCounter
import Shopping.Crdt.OrSet

/-!
# `ShoppingItem`

An item of a list: its UID, its name and two counters
(`model/shopping_item.{hpp,cpp}`). Setting a quantity records the difference to
the value shown as one increment or decrement of the caller's origin
(`posDelta`, `negDelta`); merging keeps the larger totals and takes the name of
the item merged in.
-/

namespace Shopping

open Lib

/-- `class ShoppingItem`. -/
structure ShoppingItem where
  uid : Str := []
  name : Str := []
  desiredQuantity : PNCounter := {}
  currentQuantity : PNCounter := {}
  deriving DecidableEq

namespace ShoppingItem

instance : Inhabited ShoppingItem := ⟨{}⟩

/-- `ShoppingItem(origin, uid, name, desiredQuantity, currentQuantity)`. -/
def new (origin uid name : Str) (desiredQuantity currentQuantity : UInt32) : ShoppingItem where
  uid := uid
  name := name
  desiredQuantity := PNCounter.increment {} origin desiredQuantity.toNat
  currentQuantity := PNCounter.increment {} origin currentQuantity.toNat

def getUid (it : ShoppingItem) : Str := it.uid

def getName (it : ShoppingItem) : Str := it.name

def getDesiredQuantity (it : ShoppingItem) : UInt32 := UInt32.ofInt it.desiredQuantity.value

def getCurrentQuantity (it : ShoppingItem) : UInt32 := UInt32.ofInt it.currentQuantity.value

/-- `static_cast<int32_t>(quantity) - static_cast<int32_t>(counter.value())`. -/
def diff (c : PNCounter) (quantity : UInt32) : ℤ :=
  int32 (int32 quantity.toNat - int32 c.value)

/-- The body of both setters, on the counter they set. -/
def setCounter (c : PNCounter) (origin : Str) (quantity : UInt32) : PNCounter :=
  let diff := diff c quantity
  if 0 < diff then c.increment origin diff
  else if diff < 0 then c.decrement origin (int32 (-diff))
  else c

def setCurrentQuantity (it : ShoppingItem) (origin : Str) (quantity : UInt32) : ShoppingItem :=
  { it with currentQuantity := setCounter it.currentQuantity origin quantity }

def setDesiredQuantity (it : ShoppingItem) (origin : Str) (quantity : UInt32) : ShoppingItem :=
  { it with desiredQuantity := setCounter it.desiredQuantity origin quantity }

def setName (it : ShoppingItem) (name : Str) : ShoppingItem := { it with name }

/-- `ShoppingItem& merge(const ShoppingItem &other)`: the name is the other's. -/
def merge (it other : ShoppingItem) : Except Exn ShoppingItem :=
  if it.uid ≠ other.uid then
    .error (.invalidArgument "Cannot merge ShoppingItems with different UIDs")
  else
    .ok
      { it with
        name := other.name
        desiredQuantity := it.desiredQuantity.merge other.desiredQuantity
        currentQuantity := it.currentQuantity.merge other.currentQuantity }

instance : Element ShoppingItem := ⟨getUid, merge⟩

@[simp] theorem element_getUid (it : ShoppingItem) : Element.getUid it = it.uid := rfl

/-- A merge that returns was between items of one UID; what it leaves of each field. -/
theorem merge_eq_ok {it other r : ShoppingItem} (h : it.merge other = .ok r) :
    it.uid = other.uid ∧ r.uid = it.uid ∧ r.name = other.name ∧
      r.desiredQuantity = it.desiredQuantity.merge other.desiredQuantity ∧
      r.currentQuantity = it.currentQuantity.merge other.currentQuantity := by
  unfold merge at h
  split at h
  · cases h
  · rename_i huid
    simp only [Except.ok.injEq] at h
    subst h
    exact ⟨not_not.1 huid, rfl, rfl, rfl, rfl⟩

/-- Items merge if and only if they have one UID. -/
theorem merge_isOk {it other : ShoppingItem} : (∃ r, it.merge other = .ok r) ↔ it.uid = other.uid := by
  constructor
  · rintro ⟨r, h⟩; exact (merge_eq_ok h).1
  · intro h; unfold merge; rw [if_neg (by simp [h])]; exact ⟨_, rfl⟩

instance : LawfulElement ShoppingItem where
  merge_isOk _ _ := merge_isOk
  getUid_merge _ _ _ h := (merge_eq_ok h).2.1

@[simp] theorem desiredQuantity_setCurrentQuantity (it : ShoppingItem) (origin : Str)
    (quantity : UInt32) :
    (it.setCurrentQuantity origin quantity).desiredQuantity = it.desiredQuantity := by
  unfold setCurrentQuantity; rfl

@[simp] theorem currentQuantity_setCurrentQuantity (it : ShoppingItem) (origin : Str)
    (quantity : UInt32) :
    (it.setCurrentQuantity origin quantity).currentQuantity =
      setCounter it.currentQuantity origin quantity := by
  unfold setCurrentQuantity
  generalize setCounter it.currentQuantity origin quantity = c
  rfl

@[simp] theorem desiredQuantity_setDesiredQuantity (it : ShoppingItem) (origin : Str)
    (quantity : UInt32) :
    (it.setDesiredQuantity origin quantity).desiredQuantity =
      setCounter it.desiredQuantity origin quantity := by
  unfold setDesiredQuantity
  generalize setCounter it.desiredQuantity origin quantity = c
  rfl

@[simp] theorem currentQuantity_setDesiredQuantity (it : ShoppingItem) (origin : Str)
    (quantity : UInt32) :
    (it.setDesiredQuantity origin quantity).currentQuantity = it.currentQuantity := by
  unfold setDesiredQuantity; rfl

/-- The increment a setter records. -/
def posDelta (c : PNCounter) (quantity : UInt32) : ℕ := (diff c quantity).toNat

/-- The decrement a setter records. -/
def negDelta (c : PNCounter) (quantity : UInt32) : ℕ :=
  if diff c quantity < 0 then (int32 (-diff c quantity)).toNat else 0

/-- No `uint64_t` total wraps when the setter runs. -/
def NoWrap (c : PNCounter) (origin : Str) (quantity : UInt32) : Prop :=
  c.posOf origin + posDelta c quantity < 2 ^ 64 ∧ c.negOf origin + negDelta c quantity < 2 ^ 64

instance (c : PNCounter) (origin : Str) (quantity : UInt32) :
    Decidable (NoWrap c origin quantity) := inferInstanceAs (Decidable (_ ∧ _))

/-- A setter raises only the totals of its own origin, on the side of the sign of the difference. -/
theorem posOf_setCounter {c : PNCounter} {origin : Str} {quantity : UInt32}
    (hw : NoWrap c origin quantity) (o : Str) :
    (setCounter c origin quantity).posOf o =
      c.posOf o + if o = origin then posDelta c quantity else 0 := by
  unfold setCounter
  dsimp only
  split
  · rw [PNCounter.posOf_increment hw.1]; rfl
  · have : posDelta c quantity = 0 := by unfold posDelta; omega
    rw [this]
    split <;> simp

theorem negOf_setCounter {c : PNCounter} {origin : Str} {quantity : UInt32}
    (hw : NoWrap c origin quantity) (o : Str) :
    (setCounter c origin quantity).negOf o =
      c.negOf o + if o = origin then negDelta c quantity else 0 := by
  have hw2 := hw.2
  unfold setCounter
  dsimp only
  split
  · have : negDelta c quantity = 0 := by unfold negDelta; rw [if_neg (by omega)]
    simp [this]
  · split
    · rename_i hneg
      have hd : negDelta c quantity = (int32 (-diff c quantity)).toNat := by
        unfold negDelta; rw [if_pos hneg]
      rw [hd] at hw2 ⊢
      rw [PNCounter.negOf_decrement hw2]
    · rename_i hneg
      have : negDelta c quantity = 0 := by unfold negDelta; rw [if_neg hneg]
      simp [this]

/-- A new item holds its quantities under its creator's origin. -/
theorem posOf_increment_empty (origin : Str) (quantity : UInt32) (o : Str) :
    (PNCounter.increment {} origin quantity.toNat).posOf o =
      if o = origin then quantity.toNat else 0 := by
  have hq := quantity.toNat_lt_size
  simp only [UInt32.size] at hq
  rw [PNCounter.posOf_increment, PNCounter.posOf_empty, zero_add, Int.toNat_natCast]
  rw [PNCounter.posOf_empty, Int.toNat_natCast]; omega

end ShoppingItem

end Shopping
