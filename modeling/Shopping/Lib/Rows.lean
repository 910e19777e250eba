import Shopping.Lib.UnorderedMap

/-!
# Tables row by row

Two tables with the same keys in the same order, whose values are related and may be of
different types (`Rows`): one may hold in some encoding what the other holds as it is. Reading,
writing and erasing a row keep them related, and what a scan of one finds is related to what a
scan of the other finds.

Being alike, the relation for maps listed in different orders, is kept by writes too.
-/

namespace Shopping.Lib.UMap

variable {K V W : Type*} {R : V → W → Prop} {m : UMap K V} {o : UMap K W}

/-- The same keys in the same order, with values that `R` relates. -/
def Rows (R : V → W → Prop) (m : UMap K V) (o : UMap K W) : Prop :=
  List.Forall₂ (fun e e' => e.1 = e'.1 ∧ R e.2 e'.2) m.entries o.entries

theorem Rows.empty : Rows R (∅ : UMap K V) (∅ : UMap K W) := List.Forall₂.nil

/-- The values are related row by row, in the order of the tables. -/
theorem Rows.values (h : Rows R m o) :
    List.Forall₂ R (m.entries.map fun e => e.2) (o.entries.map fun e => e.2) := by
  rw [List.forall₂_map_left_iff, List.forall₂_map_right_iff]
  exact h.imp fun _ _ he => he.2

variable [DecidableEq K]

/-- What is found under a key is related, or nothing is found on either side. -/
theorem Rows.lookup (h : Rows R m o) (k : K) : Option.Rel R (m.lookup k) (o.lookup k) := by
  obtain ⟨es, hes⟩ := m
  obtain ⟨es', hes'⟩ := o
  change List.Forall₂ _ es es' at h
  show Option.Rel R (List.dlookup k es) (List.dlookup k es')
  clear hes hes'
  induction h with
  | nil => exact .none
  | cons he _ ih =>
    rw [dlookup_cons, dlookup_cons, he.1]
    split
    · exact .some he.2
    · exact ih

/-- The same row goes on both sides. -/
theorem Rows.erase (h : Rows R m o) (k : K) : Rows R (m.erase k) (o.erase k) := by
  obtain ⟨es, hes⟩ := m
  obtain ⟨es', hes'⟩ := o
  change List.Forall₂ _ es es' at h
  show List.Forall₂ _ (es.kerase k) (es'.kerase k)
  clear hes hes'
  induction h with
  | nil => exact .nil
  | @cons e e' es es' he hes ih =>
    by_cases hk : k = e.1
    · rw [List.kerase_cons_eq hk, List.kerase_cons_eq (hk.trans he.1)]
      exact hes
    · rw [List.kerase_cons_ne hk, List.kerase_cons_ne (he.1 ▸ hk)]
      exact .cons he ih

/-- A new row comes first on both sides, in the place of any row of its key. -/
theorem Rows.insert (h : Rows R m o) (k : K) {v : V} {w : W} (hv : R v w) :
    Rows R (m.insert k v) (o.insert k w) := .cons ⟨rfl, hv⟩ (h.erase k)

section Alike

variable {S : V → V → Prop} {a b c : UMap K V}

/-- Related values may be stored under a key of maps that are alike. -/
theorem Alike.insert (h : Alike S a b) (k : K) {v w : V} (hv : S v w) :
    Alike S (a.insert k v) (b.insert k w) := by
  intro x
  rw [lookup_insert_ite, lookup_insert_ite]
  split
  · exact .some hv
  · exact h x

/-- Being alike is transitive where the relation on values is. -/
theorem Alike.trans (hS : ∀ u v w, S u v → S v w → S u w) (h : Alike S a b) (h' : Alike S b c) :
    Alike S a c := by
  intro k
  have hab := h k
  have hbc := h' k
  generalize a.lookup k = x, b.lookup k = y, c.lookup k = z at hab hbc
  cases hab with
  | none => exact hbc
  | some h1 =>
    cases hbc with
    | some h2 => exact .some (hS _ _ _ h1 h2)

/-- Maps that are alike have the same keys. -/
theorem Alike.mem_iff (h : Alike S a b) (k : K) : k ∈ a ↔ k ∈ b := by
  have hk := h k
  rw [← AList.lookup_isSome, ← AList.lookup_isSome]
  generalize a.lookup k = x, b.lookup k = y at hk
  cases hk <;> simp

end Alike

end Shopping.Lib.UMap
