import Shopping.Client.Update

/-!
# What setting a quantity shows

`setCurrentQuantity` and `setDesiredQuantity` subtract what is shown, read as an `int32_t`,
from the new quantity, read as one, and negate the difference for a decrement. Neither
fits `int32_t` for all quantities (`set_takes_effect`). Where the build lets the
arithmetic wrap, one difference goes wrong still: `-2^31`, whose negation is
itself, so that nothing is recorded (`shown_setCounter`).
-/

namespace Shopping

open Lib

/-- A number fits `int32_t` iff the conversion keeps it. -/
theorem int32_eq_self {z : ℤ} : int32 z = z ↔ -2 ^ 31 ≤ z ∧ z < 2 ^ 31 := by
  rw [int32, Int.bmod_def]; omega

theorem int32_range (z : ℤ) : -2 ^ 31 ≤ int32 z ∧ int32 z < 2 ^ 31 := by
  rw [int32, Int.bmod_def]; omega

theorem int32_modEq (z : ℤ) : int32 z ≡ z [ZMOD 2 ^ 32] := by
  rw [int32, Int.bmod_def, Int.ModEq]; omega

/-- A quantity comes back from the 64 bits it was widened to. -/
theorem ofInt_int64_toNat (quantity : UInt32) : UInt32.ofInt (int64 quantity.toNat) = quantity := by
  have hq := quantity.toNat_lt_size
  simp only [UInt32.size] at hq
  have hfits : int64 (quantity.toNat : ℤ) = quantity.toNat := by
    apply int64_of_range <;> omega
  rw [hfits, ← UInt32.toNat_inj, UInt32.ofInt, UInt32.toNat_ofNat']
  omega

namespace ShoppingItem

variable {c : PNCounter} {origin : Str} {quantity : UInt32}

theorem diff_range (c : PNCounter) (quantity : UInt32) :
    -2 ^ 31 ≤ diff c quantity ∧ diff c quantity < 2 ^ 31 := int32_range _

/-- Modulo `2^32` the difference is the one between the quantities. -/
theorem diff_modEq (c : PNCounter) (quantity : UInt32) :
    diff c quantity ≡ quantity.toNat - c.value [ZMOD 2 ^ 32] :=
  (int32_modEq _).trans ((int32_modEq _).sub (int32_modEq _))

/-- A setter records the difference, except the one that has no negation. -/
theorem posDelta_sub_negDelta (c : PNCounter) (quantity : UInt32) :
    (posDelta c quantity : ℤ) - negDelta c quantity =
      if diff c quantity = -2 ^ 31 then 0 else diff c quantity := by
  have hrange := diff_range c quantity
  have hneg : diff c quantity = -2 ^ 31 ∧ int32 (-diff c quantity) = -2 ^ 31 ∨
      diff c quantity ≠ -2 ^ 31 ∧ int32 (-diff c quantity) = -diff c quantity := by
    by_cases h : diff c quantity = -2 ^ 31
    · exact Or.inl ⟨h, by rw [h]; decide⟩
    · exact Or.inr ⟨h, int32_eq_self.2 (by omega)⟩
  unfold posDelta negDelta
  rcases hneg with ⟨h, hn⟩ | ⟨h, hn⟩
  · rw [if_pos h, if_pos (by omega), hn, h]; rfl
  · rw [if_neg h]
    by_cases hlt : diff c quantity < 0
    · rw [if_pos hlt, hn]; omega
    · rw [if_neg hlt]; omega

theorem posDelta_le (c : PNCounter) (quantity : UInt32) : posDelta c quantity ≤ 2 ^ 31 := by
  have hrange := diff_range c quantity
  unfold posDelta; omega

theorem negDelta_le (c : PNCounter) (quantity : UInt32) : negDelta c quantity ≤ 2 ^ 31 := by
  have hrange := int32_range (-diff c quantity)
  unfold negDelta
  split <;> omega

/-- With sums below `2^62` no total wraps. -/
theorem noWrap_of_bounds (hp : c.posTotal < 2 ^ 62) (hn : c.negTotal < 2 ^ 62) (origin : Str)
    (quantity : UInt32) : NoWrap c origin quantity := by
  have hpos := c.posOf_le_posTotal origin
  have hneg := c.negOf_le_negTotal origin
  have h1 := posDelta_le c quantity
  have h2 := negDelta_le c quantity
  constructor <;> omega

/-- The value moves by the difference, but not where the difference is `-2^31`, whose negation is
itself. -/
theorem value_setCounter (hp : c.posTotal < 2 ^ 62) (hn : c.negTotal < 2 ^ 62) (origin : Str)
    (quantity : UInt32) :
    (setCounter c origin quantity).value =
      c.value + if diff c quantity = -2 ^ 31 then 0 else diff c quantity := by
  have hw := noWrap_of_bounds hp hn origin quantity
  have hpos := PNCounter.posTotal_of_add fun o => posOf_setCounter hw o
  have hneg := PNCounter.negTotal_of_add fun o => negOf_setCounter hw o
  have h1 := posDelta_le c quantity
  have h2 := negDelta_le c quantity
  rw [← posDelta_sub_negDelta,
    PNCounter.value_eq (c := setCounter c origin quantity) (by omega) (by omega),
    PNCounter.value_eq (c := c) (by omega) (by omega), hpos, hneg]
  push_cast
  ring

/-- **What the getter returns after a setter**: the quantity set, unless the difference is the
one without a negation. -/
theorem shown_setCounter (hp : c.posTotal < 2 ^ 62) (hn : c.negTotal < 2 ^ 62) (origin : Str)
    (quantity : UInt32) :
    UInt32.ofInt (setCounter c origin quantity).value = quantity ↔ diff c quantity ≠ -2 ^ 31 := by
  have hvalue := value_setCounter hp hn origin quantity
  have hfits : int64 (setCounter c origin quantity).value = (setCounter c origin quantity).value := by
    have hv := PNCounter.value_eq (c := c) (by omega) (by omega)
    have hrange := diff_range c quantity
    apply int64_of_range <;> rw [hvalue] <;> split <;> omega
  have hiff : UInt32.ofInt (setCounter c origin quantity).value = quantity ↔
      (setCounter c origin quantity).value ≡ quantity.toNat [ZMOD 2 ^ 32] := by
    rw [← ofInt_int64_eq_iff, hfits, ofInt_int64_toNat]
  have hmod := diff_modEq c quantity
  rw [hiff, hvalue]
  rw [Int.ModEq] at hmod ⊢
  split
  · rename_i h
    rw [h] at hmod
    simp only [h, ne_eq, not_true, iff_false]
    omega
  · rename_i h
    simp only [ne_eq, h, not_false_iff, iff_true]
    omega

/-- The totals of other origins stay. -/
theorem bump_lookup_ne (m : UMap Str UInt64) {origin o : Str} (delta : ℤ) (ho : o ≠ origin) :
    (PNCounter.bump m origin delta).lookup o = m.lookup o := by
  unfold PNCounter.bump
  split
  · exact AList.lookup_insert_ne ho
  · rfl

/-- A setter touches the entries of its origin only. -/
theorem setCounter_lookup_ne (c : PNCounter) {origin o : Str} (quantity : UInt32) (ho : o ≠ origin) :
    (setCounter c origin quantity).pos.lookup o = c.pos.lookup o ∧
      (setCounter c origin quantity).neg.lookup o = c.neg.lookup o := by
  have hinc : ∀ d, (c.increment origin d).pos.lookup o = c.pos.lookup o ∧
      (c.increment origin d).neg.lookup o = c.neg.lookup o :=
    fun d => ⟨bump_lookup_ne c.pos d ho, rfl⟩
  have hdec : ∀ d, (c.decrement origin d).pos.lookup o = c.pos.lookup o ∧
      (c.decrement origin d).neg.lookup o = c.neg.lookup o :=
    fun d => ⟨rfl, bump_lookup_ne c.neg d ho⟩
  rw [setCounter]
  split
  · exact hinc _
  split
  · exact hdec _
  · exact ⟨rfl, rfl⟩

/-- The two setters. -/
def setQuantity (it : ShoppingItem) (q : Quantity) (origin : Str) (quantity : UInt32) :
    ShoppingItem :=
  match q with
  | .desired => it.setDesiredQuantity origin quantity
  | .current => it.setCurrentQuantity origin quantity

/-- The two getters. -/
def getQuantity (it : ShoppingItem) : Quantity → UInt32
  | .desired => it.getDesiredQuantity
  | .current => it.getCurrentQuantity

theorem getQuantity_eq (it : ShoppingItem) (q : Quantity) :
    it.getQuantity q = UInt32.ofInt (it.counter q).value := by
  cases q
  · rw [getQuantity, getDesiredQuantity, counter]
  · rw [getQuantity, getCurrentQuantity, counter]

/-- A setter writes its own counter. -/
theorem counter_setQuantity (it : ShoppingItem) (q : Quantity) (origin : Str) (quantity : UInt32) :
    (it.setQuantity q origin quantity).counter q = setCounter (it.counter q) origin quantity := by
  cases q
  · rw [setQuantity, counter, counter, desiredQuantity_setDesiredQuantity]
  · rw [setQuantity, counter, counter, currentQuantity_setCurrentQuantity]

/-- A setter leaves the counter of the other quantity alone. -/
theorem counter_setQuantity_ne (it : ShoppingItem) {q q' : Quantity} (h : q' ≠ q) (origin : Str)
    (quantity : UInt32) : (it.setQuantity q origin quantity).counter q' = it.counter q' := by
  cases q <;> cases q'
  · exact absurd rfl h
  · rw [setQuantity, counter, counter, currentQuantity_setDesiredQuantity]
  · rw [setQuantity, counter, counter, desiredQuantity_setCurrentQuantity]
  · exact absurd rfl h

/-- No signed operation of a setter overflows: the subtraction of the sums in `value()`, the
subtraction of the quantities, and the negation of a negative difference. -/
structure Arithmetic (c : PNCounter) (quantity : UInt32) : Prop where
  value : c.value = c.posTotal - c.negTotal
  sub : diff c quantity = int32 quantity.toNat - int32 c.value
  neg : diff c quantity < 0 → int32 (-diff c quantity) = -diff c quantity

/-- What setting a quantity is for. -/
structure TakesEffect (it : ShoppingItem) (q : Quantity) (origin : Str) (quantity : UInt32) :
    Prop where
  arithmetic : Arithmetic (it.counter q) quantity
  shown : (it.setQuantity q origin quantity).getQuantity q = quantity
  fields : (it.setQuantity q origin quantity).uid = it.uid ∧
    (it.setQuantity q origin quantity).name = it.name
  counters : ∀ q' ≠ q, (it.setQuantity q origin quantity).counter q' = it.counter q'
  entries : ∀ o ≠ origin,
    ((it.setQuantity q origin quantity).counter q).pos.lookup o = (it.counter q).pos.lookup o ∧
      ((it.setQuantity q origin quantity).counter q).neg.lookup o = (it.counter q).neg.lookup o
  grows : (it.counter q).posOf origin ≤ ((it.setQuantity q origin quantity).counter q).posOf origin ∧
    (it.counter q).negOf origin ≤ ((it.setQuantity q origin quantity).counter q).negOf origin

/-- The quantity set and the value held, read as `int32_t`s, are less than `2^31` apart. -/
def Near (c : PNCounter) (quantity : UInt32) : Prop :=
  |int32 quantity.toNat - int32 c.value| < 2 ^ 31

instance (c : PNCounter) (quantity : UInt32) : Decidable (Near c quantity) :=
  inferInstanceAs (Decidable (_ < _))

/-- **The arithmetic of a setter** is exact iff the two `int32_t`s are near. -/
theorem arithmetic_iff (hp : c.posTotal < 2 ^ 62) (hn : c.negTotal < 2 ^ 62) (quantity : UInt32) :
    Arithmetic c quantity ↔ Near c quantity := by
  have hvalue : c.value = c.posTotal - c.negTotal := PNCounter.value_eq (by omega) (by omega)
  unfold Near
  rw [abs_lt]
  constructor
  · rintro ⟨-, hsub, hneg⟩
    have hfits := int32_eq_self.1 (show int32 (int32 quantity.toNat - int32 c.value) = _ from hsub)
    refine ⟨?_, hfits.2⟩
    by_contra hle
    -- the difference is `-2^31`, and negated it does not fit
    have hdiff : diff c quantity = -2 ^ 31 := by omega
    have := int32_eq_self.1 (hneg (by omega))
    omega
  · rintro ⟨hlo, hhi⟩
    have hsub : diff c quantity = int32 quantity.toNat - int32 c.value :=
      int32_eq_self.2 ⟨by omega, hhi⟩
    refine ⟨hvalue, hsub, fun hlt => int32_eq_self.2 ?_⟩
    omega

/-- **Setting a quantity takes effect** iff it is near the value held. -/
theorem set_takes_effect (it : ShoppingItem) (q : Quantity) (origin : Str) (quantity : UInt32)
    (hbound : (it.counter q).posTotal < 2 ^ 62 ∧ (it.counter q).negTotal < 2 ^ 62) :
    it.TakesEffect q origin quantity ↔ Near (it.counter q) quantity := by
  obtain ⟨hp, hn⟩ := hbound
  refine ⟨fun h => (arithmetic_iff hp hn quantity).1 h.arithmetic, fun h => ?_⟩
  have harith := (arithmetic_iff hp hn quantity).2 h
  have hw := noWrap_of_bounds hp hn origin quantity
  refine ⟨harith, ?_, ?_, fun q' hq' => it.counter_setQuantity_ne hq' origin quantity, ?_, ?_⟩
  · rw [getQuantity_eq, counter_setQuantity, shown_setCounter hp hn]
    intro hdiff
    have := harith.sub
    rw [Near, abs_lt] at h
    omega
  · cases q
    · rw [setQuantity, setDesiredQuantity]; exact ⟨rfl, rfl⟩
    · rw [setQuantity, setCurrentQuantity]; exact ⟨rfl, rfl⟩
  · intro o ho
    rw [counter_setQuantity]; exact setCounter_lookup_ne _ quantity ho
  · rw [counter_setQuantity, posOf_setCounter hw, negOf_setCounter hw]
    omega

/-- An item held in the quantities 10 and `2^31`. -/
def sampleItem : ShoppingItem := new (str "o") (str "milk") (str "milk") 10 2147483648

theorem sampleItem_lowered : sampleItem.TakesEffect .desired (str "o") 3 :=
  (set_takes_effect sampleItem .desired (str "o") 3 (by decide +kernel)).2 (by decide +kernel)

/-- `2^31` is `-2^31` as an `int32_t`: the difference to 0 overflows, the one it wraps to
has no negation, and the item keeps its quantity. -/
theorem sampleItem_not_cleared :
    (∀ q, (sampleItem.counter q).posTotal < 2 ^ 62 ∧ (sampleItem.counter q).negTotal < 2 ^ 62) ∧
      ¬ sampleItem.TakesEffect .current (str "o") 0 ∧
      (sampleItem.setCurrentQuantity (str "o") 0).getCurrentQuantity = 2147483648 := by
  refine ⟨by decide +kernel, fun h => ?_, by decide +kernel⟩
  have hsub := h.arithmetic.sub
  revert hsub
  decide +kernel

end ShoppingItem

end Shopping
