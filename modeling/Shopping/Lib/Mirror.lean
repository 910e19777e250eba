import Shopping.Lib.UnorderedMap

/-!
# Links that mirror a map

A program that keeps a link for some of the entries of a map holds the same fact three
times: the entries, the set of keys it has linked, and the links. `Mirror` says they agree:
the keys are those of the entries that satisfy `p`, and the links, with multiplicity, are
`f` of these entries. Adding and changing an entry keep it (`Mirror.insert`,
`Mirror.replace`); so does removing one, where dropping a link drops all of its name, if no
other entry has a link of that name (`Mirror.erase`).
-/

namespace Shopping.Lib

variable {K V A : Type*} [DecidableEq K]

namespace UMap

/-- `f` of the entries that satisfy `p`, with multiplicity. -/
def collect (p : K → V → Prop) [∀ k v, Decidable (p k v)] (f : V → A) (m : UMap K V) :
    Multiset A := ↑((m.entries.filter fun e => p e.1 e.2).map fun e => f e.2)

variable {p : K → V → Prop} [∀ k v, Decidable (p k v)] {f : V → A} {m : UMap K V} {k : K} {v : V}

theorem mem_collect {a : A} :
    a ∈ collect p f m ↔ ∃ k v, m.lookup k = some v ∧ p k v ∧ f v = a := by
  unfold collect
  simp only [Multiset.mem_coe, List.mem_map, List.mem_filter, decide_eq_true_eq]
  constructor
  · rintro ⟨e, ⟨he, hp⟩, rfl⟩; exact ⟨e.1, e.2, AList.mem_lookup_iff.2 he, hp, rfl⟩
  · rintro ⟨k, v, hl, hp, rfl⟩; exact ⟨⟨k, v⟩, ⟨AList.mem_lookup_iff.1 hl, hp⟩, rfl⟩

theorem collect_insert (m : UMap K V) (k : K) (v : V) :
    collect p f (m.insert k v) = if p k v then f v ::ₘ collect p f (m.erase k)
      else collect p f (m.erase k) := by
  unfold collect
  rw [show (m.insert k v).entries = ⟨k, v⟩ :: (m.erase k).entries from rfl, List.filter_cons]
  simp only [decide_eq_true_eq]
  split <;> rfl

/-- The entry of a key, and the others. -/
theorem collect_of_lookup (h : m.lookup k = some v) :
    collect p f m = if p k v then f v ::ₘ collect p f (m.erase k) else collect p f (m.erase k) := by
  rw [← collect_insert]
  have hperm : m.entries.Perm (m.insert k v).entries := by
    refine List.lookup_ext m.nodupKeys (m.insert k v).nodupKeys fun k' v' => ?_
    have hl := lookup_insert_ite k' k v m
    unfold AList.lookup at hl h
    rw [hl]
    by_cases hk : k' = k
    · subst hk; rw [if_pos rfl, h]
    · rw [if_neg hk]
  exact Multiset.coe_eq_coe.2 ((hperm.filter _).map _)

theorem collect_erase_of_notMem (h : k ∉ m) : collect p f (m.erase k) = collect p f m := by
  unfold collect
  rw [show (m.erase k).entries = m.entries from
    List.kerase_of_notMem_keys fun hin => h (AList.mem_keys.2 hin)]

end UMap

/-- The linked keys and the links are those of the entries that satisfy `p`. -/
structure Mirror (p : K → V → Prop) [∀ k v, Decidable (p k v)] (f : V → A) (m : UMap K V)
    (linked : Finset K) (links : List A) : Prop where
  keys : ∀ k, k ∈ linked ↔ ∃ v ∈ m.lookup k, p k v
  links : (links : Multiset A) = UMap.collect p f m

namespace Mirror

variable {p : K → V → Prop} [∀ k v, Decidable (p k v)] {f : V → A} {m : UMap K V}
  {linked : Finset K} {links : List A} {k : K} {v old : V}

/-- A new entry is linked if it satisfies `p`. -/
theorem insert (h : Mirror p f m linked links) (hk : k ∉ m) :
    Mirror p f (m.insert k v) (if p k v then Insert.insert k linked else linked)
      (if p k v then f v :: links else links) where
  keys := by
    intro k'
    have hlinked : k' ∈ (if p k v then Insert.insert k linked else linked) ↔
        p k v ∧ k' = k ∨ k' ∈ linked := by
      split <;> simp [*]
    rw [hlinked, h.keys, UMap.lookup_insert_ite]
    by_cases hk' : k' = k
    · subst hk'
      rw [AList.lookup_eq_none.2 hk]
      simp
    · simp [hk']
  links := by
    rw [UMap.collect_insert, UMap.collect_erase_of_notMem hk, ← h.links]
    split <;> rfl

/-- An entry may be replaced by one of the same link. -/
theorem replace (h : Mirror p f m linked links) (hold : m.lookup k = some old)
    (hp : p k old ↔ p k v) (hf : p k v → f old = f v) : Mirror p f (m.insert k v) linked links where
  keys := by
    intro k'
    rw [h.keys, UMap.lookup_insert_ite]
    by_cases hk' : k' = k
    · subst hk'
      rw [if_pos rfl, hold]
      simp [hp]
    · rw [if_neg hk']
  links := by
    rw [h.links, UMap.collect_of_lookup hold, UMap.collect_insert]
    simp only [hp]
    split
    · rename_i hpv; rw [hf hpv]
    · rfl

/-- The link of a linked entry is there. -/
theorem mem_links (h : Mirror p f m linked links) (hold : m.lookup k = some v) (hp : p k v) :
    f v ∈ links := by
  rw [← Multiset.mem_coe, h.links]
  exact UMap.mem_collect.2 ⟨k, v, hold, hp, rfl⟩

variable [DecidableEq A]

/-- Dropping all links of one name drops that of its entry, if no other entry shares it. -/
theorem erase (h : Mirror p f m linked links) (hold : m.lookup k = some v)
    (hshared : p k v → ∀ k' v', m.lookup k' = some v' → k' ≠ k → p k' v' → f v' ≠ f v) :
    Mirror p f (m.erase k) (if p k v then linked.erase k else linked)
      (if p k v then links.filter (· ≠ f v) else links) where
  keys := by
    intro k'
    have hlinked : k' ∈ (if p k v then linked.erase k else linked) ↔ k' ≠ k ∧ k' ∈ linked := by
      split
      · rw [Finset.mem_erase]
      · rename_i hp
        refine (and_iff_right_of_imp ?_).symm
        rintro hk' rfl
        obtain ⟨v', hv', hp'⟩ := (h.keys _).1 hk'
        rw [hold] at hv'
        cases hv'; exact hp hp'
    rw [hlinked, h.keys]
    -- the erased name is gone on both sides, the others keep their entries
    by_cases hk' : k' = k
    · subst hk'
      rw [AList.lookup_erase]; simp
    · rw [AList.lookup_erase_ne hk', and_iff_right hk']
  links := by
    have hall := UMap.collect_of_lookup (p := p) (f := f) hold
    rw [← h.links] at hall
    split
    · rename_i hp
      rw [if_pos hp] at hall
      -- the filter drops every link equal to that of the entry, and no other entry has one
      have hrest : ∀ a ∈ UMap.collect p f (m.erase k), a ≠ f v := by
        intro a ha
        obtain ⟨k', v', hl, hp', rfl⟩ := UMap.mem_collect.1 ha
        have hk' : k' ≠ k := by
          rintro rfl; rw [AList.lookup_erase] at hl; cases hl
        rw [AList.lookup_erase_ne hk'] at hl
        exact hshared hp k' v' hl hk' hp'
      rw [← Multiset.filter_coe, hall, Multiset.filter_cons_of_neg _ (by simp)]
      exact Multiset.filter_eq_self.2 hrest
    · rename_i hp
      rw [if_neg hp] at hall
      exact hall

end Mirror

end Shopping.Lib
