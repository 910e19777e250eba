import Shopping.Base

/-!
# `PNCounter`

A counter with one growing pair of totals per origin (`crdt/pn_counter.hpp`).
`posOf c o` and `negOf c o` read an origin's totals, 0 where there is no entry;
`value` depends on nothing else (`value_congr`), and is the exact difference of
the sums while these stay below `2^63` (`value_eq`).
-/

namespace Shopping

open Lib

/-- `class PNCounter`. -/
structure PNCounter where
  pos : UMap Str UInt64 := ∅
  neg : UMap Str UInt64 := ∅
  deriving DecidableEq

namespace PNCounter

instance : Inhabited PNCounter := ⟨{}⟩

/-- `if (delta > 0) m[origin] += delta;` for an `int64_t delta`. -/
def bump (m : UMap Str UInt64) (origin : Str) (delta : ℤ) : UMap Str UInt64 :=
  if 0 < delta then m.insert origin ((m.lookup origin).getD 0 + UInt64.ofNat delta.toNat) else m

def increment (c : PNCounter) (origin : Str) (delta : ℤ) : PNCounter :=
  { c with pos := bump c.pos origin delta }

def decrement (c : PNCounter) (origin : Str) (delta : ℤ) : PNCounter :=
  { c with neg := bump c.neg origin delta }

/-- `for (const auto& [origin, count] : m) sum += count;` with `int64_t sum = 0`. -/
def sumCounts (m : UMap Str UInt64) : ℤ :=
  m.foldl (fun sum _ count => int64 (sum + count.toNat)) 0

def value (c : PNCounter) : ℤ := int64 (sumCounts c.pos - sumCounts c.neg)

/-- `m[origin] = max(m[origin], count)` for every entry of `other`. -/
def mergeCounts (m other : UMap Str UInt64) : UMap Str UInt64 :=
  UMap.foldInto (fun old count => max (old.getD 0) count) m other

def merge (c other : PNCounter) : PNCounter :=
  { pos := mergeCounts c.pos other.pos, neg := mergeCounts c.neg other.neg }

/-- The entry of an origin, as a number; 0 if there is none. -/
def count (m : UMap Str UInt64) (o : Str) : ℕ := ((m.lookup o).map UInt64.toNat).getD 0

def posOf (c : PNCounter) (o : Str) : ℕ := count c.pos o

def negOf (c : PNCounter) (o : Str) : ℕ := count c.neg o

@[simp] theorem posOf_empty (o : Str) : ({} : PNCounter).posOf o = 0 := rfl

theorem toNat_getD (m : UMap Str UInt64) (o : Str) : ((m.lookup o).getD 0).toNat = count m o := by
  unfold count; cases m.lookup o <;> rfl

/-- **What `+=` leaves**, as long as the `uint64_t` does not wrap. -/
theorem count_bump {m : UMap Str UInt64} {origin : Str} {delta : ℤ}
    (hw : count m origin + delta.toNat < 2 ^ 64) (o : Str) :
    count (bump m origin delta) o = count m o + if o = origin then delta.toNat else 0 := by
  unfold bump
  split
  · have h := toNat_getD m origin
    rw [count, UMap.lookup_insert_ite]
    by_cases ho : o = origin
    · subst ho
      simp only [if_true, Option.map_some, Option.getD_some, UInt64.toNat_add, UInt64.toNat_ofNat', h]
      omega
    · simp only [if_neg ho, add_zero]; rfl
  · have : delta.toNat = 0 := by omega
    simp [this]

/-- Below `2^64` an increment adds its delta to the total of its origin alone. -/
theorem posOf_increment {c : PNCounter} {origin : Str} {delta : ℤ}
    (hw : c.posOf origin + delta.toNat < 2 ^ 64) (o : Str) :
    (c.increment origin delta).posOf o = c.posOf o + if o = origin then delta.toNat else 0 :=
  count_bump hw o

/-- Below `2^64` a decrement adds its delta on the other side. -/
theorem negOf_decrement {c : PNCounter} {origin : Str} {delta : ℤ}
    (hw : c.negOf origin + delta.toNat < 2 ^ 64) (o : Str) :
    (c.decrement origin delta).negOf o = c.negOf o + if o = origin then delta.toNat else 0 :=
  count_bump hw o

@[simp] theorem negOf_increment (c : PNCounter) (origin o : Str) (delta : ℤ) :
    (c.increment origin delta).negOf o = c.negOf o := by
  unfold increment negOf; rfl

@[simp] theorem posOf_decrement (c : PNCounter) (origin o : Str) (delta : ℤ) :
    (c.decrement origin delta).posOf o = c.posOf o := by
  unfold decrement posOf; rfl

theorem toNat_max (a b : UInt64) : (max a b).toNat = max a.toNat b.toNat := by
  rcases le_total a.toNat b.toNat with h | h
  · rw [max_eq_right h, show max a b = b from if_pos (UInt64.le_iff_toNat_le.2 h)]
  · rw [max_eq_left h]
    by_cases hab : a ≤ b
    · rw [show max a b = b from if_pos hab]
      exact le_antisymm h (UInt64.le_iff_toNat_le.1 hab)
    · rw [show max a b = a from if_neg hab]

/-- **Merging takes the larger total of every origin.** -/
theorem count_mergeCounts (m other : UMap Str UInt64) (o : Str) :
    count (mergeCounts m other) o = max (count m o) (count other o) := by
  rw [count, mergeCounts, UMap.lookup_foldInto]
  cases h : other.lookup o with
  | none => simp [count, h]
  | some x =>
    simp only [Option.elim_some, Option.map_some, Option.getD_some, toNat_max, toNat_getD]
    simp [count, h]

@[simp] theorem posOf_merge (c d : PNCounter) (o : Str) :
    (c.merge d).posOf o = max (c.posOf o) (d.posOf o) := count_mergeCounts _ _ o

@[simp] theorem negOf_merge (c d : PNCounter) (o : Str) :
    (c.merge d).negOf o = max (c.negOf o) (d.negOf o) := count_mergeCounts _ _ o

/-- The two halves of a counter. -/
inductive Side
  | pos
  | neg

/-- An origin's total on a side. -/
def totalOf (c : PNCounter) : Side → Str → ℕ
  | .pos => c.posOf
  | .neg => c.negOf

theorem totalOf_empty (side : Side) (o : Str) : ({} : PNCounter).totalOf side o = 0 := by
  cases side <;> rfl

/-- A merge takes the larger total of each origin. -/
theorem totalOf_merge (c d : PNCounter) (side : Side) (o : Str) :
    (c.merge d).totalOf side o = max (c.totalOf side o) (d.totalOf side o) := by
  cases side with
  | pos => exact posOf_merge c d o
  | neg => exact negOf_merge c d o

/-- The exact sum of the entries. -/
def posTotal (c : PNCounter) : ℕ := UMap.total UInt64.toNat c.pos

def negTotal (c : PNCounter) : ℕ := UMap.total UInt64.toNat c.neg

/-- The sum of the code is the total cut to 64 bits. -/
theorem sumCounts_eq (m : UMap Str UInt64) : sumCounts m = int64 (UMap.total UInt64.toNat m) := by
  have key : ∀ (es : List (Sigma fun _ : Str => UInt64)) (z : ℤ),
      es.foldl (fun sum e => int64 (sum + e.2.toNat)) (int64 z) =
        int64 (z + (es.map fun e => e.2.toNat).sum) := by
    intro es
    induction es with
    | nil => intro z; simp
    | cons e es ih =>
      intro z
      rw [List.foldl_cons, int64_add_int64, ih, List.map_cons, List.sum_cons]
      push_cast; rw [add_assoc]
  have := key m.entries 0
  rw [zero_add] at this
  exact this

/-- **The value, as exact integers.** -/
theorem value_eq_int64 (c : PNCounter) : c.value = int64 (c.posTotal - c.negTotal) := by
  rw [value, sumCounts_eq, sumCounts_eq, int64_sub_int64]; rfl

/-- While both sums fit `int64_t`, the value is their difference. -/
theorem value_eq {c : PNCounter} (hp : c.posTotal < 2 ^ 63) (hn : c.negTotal < 2 ^ 63) :
    c.value = c.posTotal - c.negTotal := by
  rw [value_eq_int64]; apply int64_of_range <;> omega

theorem posTotal_eq_sum (c : PNCounter) {S : Finset Str} (hS : ∀ o ∈ c.pos, o ∈ S) :
    c.posTotal = ∑ o ∈ S, c.posOf o := UMap.total_eq_sum _ _ hS

theorem negTotal_eq_sum (c : PNCounter) {S : Finset Str} (hS : ∀ o ∈ c.neg, o ∈ S) :
    c.negTotal = ∑ o ∈ S, c.negOf o := UMap.total_eq_sum _ _ hS

/-- Totals that agree at every origin have the same sum. -/
theorem posTotal_congr {c d : PNCounter} (hp : ∀ o, c.posOf o = d.posOf o) :
    c.posTotal = d.posTotal := by
  rw [posTotal_eq_sum c (S := c.pos.keys.toFinset ∪ d.pos.keys.toFinset) (by
      intro o ho; simp [AList.mem_keys.1 ho]),
    posTotal_eq_sum d (S := c.pos.keys.toFinset ∪ d.pos.keys.toFinset) (by
      intro o ho; simp [AList.mem_keys.1 ho])]
  exact Finset.sum_congr rfl fun o _ => hp o

theorem negTotal_congr {c d : PNCounter} (hn : ∀ o, c.negOf o = d.negOf o) :
    c.negTotal = d.negTotal :=
  posTotal_congr (c := { pos := c.neg }) (d := { pos := d.neg }) hn

/-- **The value depends on the origins' totals only**, not on the order of the
entries or on entries that are 0. -/
theorem value_congr {c d : PNCounter} (hp : ∀ o, c.posOf o = d.posOf o)
    (hn : ∀ o, c.negOf o = d.negOf o) : c.value = d.value := by
  rw [value_eq_int64, value_eq_int64, posTotal_congr hp, negTotal_congr hn]

/-- No origin has more than the total. -/
theorem posOf_le_posTotal (c : PNCounter) (o : Str) : c.posOf o ≤ c.posTotal := by
  have hS : ∀ o' ∈ c.pos, o' ∈ insert o c.pos.keys.toFinset := by
    intro o' ho'; simp [AList.mem_keys.1 ho']
  rw [posTotal_eq_sum c hS]
  exact Finset.single_le_sum (f := c.posOf) (fun _ _ => Nat.zero_le _) (Finset.mem_insert_self o _)

theorem negOf_le_negTotal (c : PNCounter) (o : Str) : c.negOf o ≤ c.negTotal :=
  posOf_le_posTotal { pos := c.neg } o

/-- A counter that is ahead of another at one origin only is ahead by as much in the sum. -/
theorem posTotal_of_add {c d : PNCounter} {origin : Str} {n : ℕ}
    (h : ∀ o, d.posOf o = c.posOf o + if o = origin then n else 0) :
    d.posTotal = c.posTotal + n := by
  have hc : ∀ o ∈ c.pos, o ∈ insert origin (c.pos.keys.toFinset ∪ d.pos.keys.toFinset) := by
    intro o ho; simp [AList.mem_keys.1 ho]
  have hd : ∀ o ∈ d.pos, o ∈ insert origin (c.pos.keys.toFinset ∪ d.pos.keys.toFinset) := by
    intro o ho; simp [AList.mem_keys.1 ho]
  rw [posTotal_eq_sum c hc, posTotal_eq_sum d hd, Finset.sum_congr rfl fun o _ => h o,
    Finset.sum_add_distrib, Finset.sum_ite_eq', if_pos (Finset.mem_insert_self _ _)]

theorem negTotal_of_add {c d : PNCounter} {origin : Str} {n : ℕ}
    (h : ∀ o, d.negOf o = c.negOf o + if o = origin then n else 0) :
    d.negTotal = c.negTotal + n :=
  posTotal_of_add (c := { pos := c.neg }) (d := { pos := d.neg }) h

/-- By how much the increments of `c` exceed those of `d`, origin by origin. -/
def posSurplus (c d : PNCounter) : ℕ := ∑ o ∈ c.pos.keys.toFinset, (c.posOf o - d.posOf o)

/-- The same of the decrements. -/
def negSurplus (c d : PNCounter) : ℕ := ∑ o ∈ c.neg.keys.toFinset, (c.negOf o - d.negOf o)

/-- A maximum at every origin adds the surplus to the total. -/
theorem posTotal_of_max {c d m : PNCounter} (hm : ∀ o, m.posOf o = max (c.posOf o) (d.posOf o)) :
    m.posTotal = d.posTotal + c.posSurplus d := by
  have hout : ∀ o, o ∉ c.pos.keys.toFinset → c.posOf o = 0 := by
    intro o ho
    have : c.pos.lookup o = none := by
      rw [AList.lookup_eq_none, AList.mem_keys]; simpa using ho
    rw [posOf, count, this]; rfl
  have hsurplus : c.posSurplus d =
      ∑ o ∈ c.pos.keys.toFinset ∪ d.pos.keys.toFinset ∪ m.pos.keys.toFinset,
        (c.posOf o - d.posOf o) := by
    rw [posSurplus]
    refine Finset.sum_subset (by intro o ho; simp [List.mem_toFinset.1 ho]) ?_
    intro o _ ho
    rw [hout o ho, Nat.zero_sub]
  rw [hsurplus,
    posTotal_eq_sum m (S := c.pos.keys.toFinset ∪ d.pos.keys.toFinset ∪ m.pos.keys.toFinset)
      (by intro o ho; simp [AList.mem_keys.1 ho]),
    posTotal_eq_sum d (S := c.pos.keys.toFinset ∪ d.pos.keys.toFinset ∪ m.pos.keys.toFinset)
      (by intro o ho; simp [AList.mem_keys.1 ho]),
    ← Finset.sum_add_distrib]
  refine Finset.sum_congr rfl fun o _ => ?_
  rw [hm]
  omega

theorem negTotal_of_max {c d m : PNCounter} (hm : ∀ o, m.negOf o = max (c.negOf o) (d.negOf o)) :
    m.negTotal = d.negTotal + c.negSurplus d :=
  posTotal_of_max (c := { pos := c.neg }) (d := { pos := d.neg }) (m := { pos := m.neg }) hm

/-- **What is merged in leaves the value shown as it is** iff it adds as many increments as
decrements, modulo the range of what is shown. -/
theorem shown_eq_iff {c d m : PNCounter} (hp : ∀ o, m.posOf o = max (c.posOf o) (d.posOf o))
    (hn : ∀ o, m.negOf o = max (c.negOf o) (d.negOf o)) :
    UInt32.ofInt d.value = UInt32.ofInt m.value ↔ c.posSurplus d ≡ c.negSurplus d [MOD 2 ^ 32] := by
  rw [value_eq_int64, value_eq_int64, ofInt_int64_eq_iff, posTotal_of_max hp, negTotal_of_max hn,
    Int.modEq_iff_dvd, Nat.modEq_iff_dvd]
  push_cast
  rw [show (d.posTotal : ℤ) + c.posSurplus d - (d.negTotal + c.negSurplus d) -
    (d.posTotal - d.negTotal) = -(c.negSurplus d - c.posSurplus d) by ring, dvd_neg]

end PNCounter

end Shopping
