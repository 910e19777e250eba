import Mathlib

/-!
# Unordered maps and the loops over them

`UMap K V` is Mathlib's `AList`: entries with pairwise different keys, in an
order nothing should depend on. A loop over such a map that writes into another
one visits each key once, so what it leaves at a key is a function of the two
old values there:

* `lookup_foldInto`: the loop `for (k, v) in o: m[k] = f(m.find(k), v)`.
* `lookup_foldIntoE`: the same loop with an `f` that may throw, when it ends
  normally; `foldIntoE_isOk` says when it does.
* `foldInto_alike`, `foldIntoE_alike`: maps with the same keys and related values
  (`Alike`), in whatever order, go through a loop alike.
* `total_eq_sum`: the sum over the entries as a sum over any set of keys that
  holds those of the map.
* `renewAll_spec`: a map that keeps the newest value under each key ends up with the
  newest of all it was offered, in whatever order they came.
-/

namespace Shopping.Lib

/-- An unordered map: entries with pairwise different keys. -/
abbrev UMap (K V : Type*) := AList (fun _ : K => V)

namespace UMap

variable {K V W ε : Type*} [DecidableEq K]

theorem dlookup_cons (k : K) (e : Sigma fun _ : K => V) (es : List (Sigma fun _ : K => V)) :
    List.dlookup k (e :: es) = if e.1 = k then some e.2 else List.dlookup k es := by
  obtain ⟨a, v⟩ := e
  by_cases h : a = k
  · subst h; simp
  · rw [if_neg h]; exact List.dlookup_cons_ne (β := fun _ => V) es ⟨a, v⟩ (Ne.symm h)

/-- A key occurs once: it is not among the keys of the entries after it. -/
theorem dlookup_tail {e : Sigma fun _ : K => V} {es : List (Sigma fun _ : K => V)}
    (h : (e :: es).NodupKeys) : List.dlookup e.1 es = none :=
  List.dlookup_eq_none.2 (List.nodupKeys_cons.1 h).1

theorem lookup_insert_ite (k a : K) (v : V) (m : UMap K V) :
    (m.insert a v).lookup k = if k = a then some v else m.lookup k := by
  by_cases h : k = a
  · subst h; rw [AList.lookup_insert, if_pos rfl]
  · rw [AList.lookup_insert_ne h, if_neg h]

/-- `for (k, v) in o: m[k] = f(m.find(k), v)`. -/
def foldInto (f : Option V → W → V) (m : UMap K V) (o : UMap K W) : UMap K V :=
  o.foldl (fun m k v => m.insert k (f (m.lookup k) v)) m

/-- **What the loop leaves at a key.** -/
theorem lookup_foldInto (f : Option V → W → V) (m : UMap K V) (o : UMap K W) (k : K) :
    (foldInto f m o).lookup k =
      (o.lookup k).elim (m.lookup k) (fun v => some (f (m.lookup k) v)) := by
  obtain ⟨es, hes⟩ := o
  simp only [foldInto, AList.foldl, AList.lookup]
  induction es generalizing m with
  | nil => rfl
  | cons e es ih =>
    have htail := dlookup_tail hes
    rw [List.foldl_cons, ih _ (List.nodupKeys_cons.1 hes).2, dlookup_cons]
    have hins := lookup_insert_ite k e.1 (f (m.lookup e.1) e.2) m
    simp only [AList.lookup] at hins
    rw [hins]
    by_cases hk : e.1 = k
    · subst hk; simp [htail]
    · simp [hk, Ne.symm hk]

theorem mem_foldInto (f : Option V → W → V) (m : UMap K V) (o : UMap K W) (k : K) :
    k ∈ foldInto f m o ↔ k ∈ m ∨ k ∈ o := by
  rw [← AList.lookup_isSome, ← AList.lookup_isSome, ← AList.lookup_isSome, lookup_foldInto]
  cases o.lookup k <;> simp

/-- `for (k, v) in es: m[k] = f(m.find(k), v)`, where `f` may throw: the map after
the loop, or the exception with the map as the throw leaves it. -/
def foldIntoE (f : Option V → W → Except ε V) :
    UMap K V → List (Sigma fun _ : K => W) → Except (ε × UMap K V) (UMap K V)
  | m, [] => .ok m
  | m, e :: es =>
    match f (m.lookup e.1) e.2 with
    | .ok v => foldIntoE f (m.insert e.1 v) es
    | .error x => .error (x, m)

/-- **What the throwing loop leaves at a key**, when it ends normally. -/
theorem lookup_foldIntoE {f : Option V → W → Except ε V} {m m' : UMap K V} {o : UMap K W}
    (h : foldIntoE f m o.entries = .ok m') (k : K) :
    (o.lookup k = none ∧ m'.lookup k = m.lookup k) ∨
      ∃ v w, o.lookup k = some v ∧ f (m.lookup k) v = .ok w ∧ m'.lookup k = some w := by
  obtain ⟨es, hes⟩ := o
  simp only [AList.lookup] at h ⊢
  induction es generalizing m with
  | nil =>
    simp only [foldIntoE, Except.ok.injEq] at h
    subst h; exact Or.inl ⟨rfl, rfl⟩
  | cons e es ih =>
    rw [foldIntoE] at h
    cases hf : f (m.lookup e.1) e.2 with
    | error x => rw [hf] at h; cases h
    | ok w =>
      rw [hf] at h
      have htail := dlookup_tail hes
      have hins := lookup_insert_ite k e.1 w m
      simp only [AList.lookup] at hins
      have ih' := ih (List.nodupKeys_cons.1 hes).2 h
      rw [hins] at ih'
      rw [dlookup_cons]
      by_cases hk : e.1 = k
      · -- the key of this entry: the rest of the loop leaves it alone
        subst hk
        rcases ih' with ⟨-, h2⟩ | ⟨v', w', h1, -⟩
        · refine Or.inr ⟨e.2, w, if_pos rfl, hf, ?_⟩
          rw [h2, if_pos rfl]
        · rw [htail] at h1; cases h1
      · rw [if_neg hk]
        rwa [if_neg (Ne.symm hk)] at ih'

/-- **The loop ends normally iff no visited pair of values throws.** -/
theorem foldIntoE_isOk {f : Option V → W → Except ε V} {m : UMap K V} {o : UMap K W} :
    (∃ m', foldIntoE f m o.entries = .ok m') ↔
      ∀ k v, o.lookup k = some v → ∃ w, f (m.lookup k) v = .ok w := by
  constructor
  · rintro ⟨m', h⟩ k v hk
    rcases lookup_foldIntoE h k with ⟨h1, -⟩ | ⟨v', w, h1, h2, -⟩
    · rw [hk] at h1; cases h1
    · rw [hk] at h1; cases h1; exact ⟨w, h2⟩
  · obtain ⟨es, hes⟩ := o
    simp only [AList.lookup]
    induction es generalizing m with
    | nil => intro _; exact ⟨m, rfl⟩
    | cons e es ih =>
      intro h
      obtain ⟨w, hw⟩ := h e.1 e.2 (by rw [dlookup_cons, if_pos rfl])
      have htail := dlookup_tail hes
      simp only [foldIntoE, AList.lookup, hw]
      apply ih (List.nodupKeys_cons.1 hes).2
      intro k v hk
      have hne : e.1 ≠ k := by
        rintro rfl; rw [htail] at hk; cases hk
      have hins := lookup_insert_ite k e.1 w m
      simp only [AList.lookup] at hins
      rw [hins, if_neg (Ne.symm hne)]
      exact h k v (by rw [dlookup_cons, if_neg hne]; exact hk)

/-- What the loop throws is what a visited pair of values throws. -/
theorem foldIntoE_error {f : Option V → W → Except ε V} {es : List (Sigma fun _ : K => W)} {x : ε} :
    ∀ {m m' : UMap K V}, foldIntoE f m es = .error (x, m') → ∃ a b, f a b = .error x := by
  induction es with
  | nil => intro m m' h; cases h
  | cons e es ih =>
    intro m m' h
    rw [foldIntoE] at h
    cases hf : f (m.lookup e.1) e.2 with
    | ok v => rw [hf] at h; exact ih h
    | error y => rw [hf] at h; cases h; exact ⟨_, _, hf⟩

/-- The same keys, with values that `R` relates. -/
def Alike (R : V → V → Prop) (m m' : UMap K V) : Prop :=
  ∀ k, Option.Rel R (m.lookup k) (m'.lookup k)

variable {R : V → V → Prop} {S : W → W → Prop} {m m' : UMap K V} {o o' : UMap K W}

theorem alike_eq_iff : Alike Eq m m' ↔ ∀ k, m.lookup k = m'.lookup k := by
  refine forall_congr' fun k => ?_
  generalize m.lookup k = a, m'.lookup k = b
  constructor
  · intro h
    cases h with
    | none => rfl
    | some h => rw [h]
  · rintro rfl
    cases a with
    | none => exact .none
    | some v => exact .some rfl

theorem Alike.refl (hR : ∀ v, R v v) (m : UMap K V) : Alike R m m := by
  intro k
  cases m.lookup k with
  | none => exact .none
  | some v => exact .some (hR v)

theorem Alike.lookup_none (h : Alike R m m') {k : K} (hk : m.lookup k = none) :
    m'.lookup k = none := by
  have hrel := h k
  rw [hk] at hrel
  generalize m'.lookup k = b at hrel ⊢
  cases hrel
  rfl

theorem Alike.lookup (h : Alike R m m') {k : K} {v : V} (hk : m.lookup k = some v) :
    ∃ v', m'.lookup k = some v' ∧ R v v' := by
  have hrel := h k
  rw [hk] at hrel
  generalize m'.lookup k = b at hrel ⊢
  cases hrel with
  | some hR => exact ⟨_, rfl, hR⟩

theorem Alike.symm (hR : ∀ v v', R v v' → R v' v) (h : Alike R m m') : Alike R m' m := by
  intro k
  have hrel := h k
  generalize m.lookup k = a, m'.lookup k = b at hrel ⊢
  cases hrel with
  | none => exact .none
  | some hv => exact .some (hR _ _ hv)

theorem foldInto_alike {f : Option V → W → V} (hm : Alike Eq m m') (ho : Alike Eq o o') :
    Alike Eq (foldInto f m o) (foldInto f m' o') := by
  rw [alike_eq_iff] at hm ho ⊢
  intro k
  rw [lookup_foldInto, lookup_foldInto, hm k, ho k]

/-- **A loop over maps that are alike ends in the same way**, if each of its steps does. -/
theorem foldIntoE_alike {f : Option V → W → Except ε V} (hm : Alike R m m') (ho : Alike S o o')
    (hf : ∀ a a' b b' r, Option.Rel R a a' → S b b' → f a b = .ok r →
      ∃ r', f a' b' = .ok r' ∧ R r r')
    (hS : ∀ v v', S v v' → S v' v) {r : UMap K V} (hr : foldIntoE f m o.entries = .ok r) :
    ∃ r', foldIntoE f m' o'.entries = .ok r' ∧ Alike R r r' := by
  have hok : ∃ r', foldIntoE f m' o'.entries = .ok r' := by
    rw [foldIntoE_isOk]
    intro k v' hv'
    obtain ⟨v, hv, hvv⟩ := (ho.symm hS).lookup hv'
    obtain ⟨w, hw⟩ := foldIntoE_isOk.1 ⟨r, hr⟩ k v hv
    obtain ⟨w', hw', -⟩ := hf _ _ _ _ w (hm k) (hS _ _ hvv) hw
    exact ⟨w', hw'⟩
  obtain ⟨r', hr'⟩ := hok
  refine ⟨r', hr', fun k => ?_⟩
  -- both loops visit the key, or none does
  rcases lookup_foldIntoE hr k with ⟨h1, h2⟩ | ⟨v, w, hv, hw, hrk⟩
  · rcases lookup_foldIntoE hr' k with ⟨-, h2'⟩ | ⟨v', -, hv', -⟩
    · rw [h2, h2']; exact hm k
    · rw [ho.lookup_none h1] at hv'; cases hv'
  · obtain ⟨v', hv', hvv⟩ := ho.lookup hv
    rcases lookup_foldIntoE hr' k with ⟨h1', -⟩ | ⟨u', w', hu', hw', hrk'⟩
    · rw [hv'] at h1'; cases h1'
    · rw [hv'] at hu'
      cases hu'
      obtain ⟨w'', hw'', hR⟩ := hf _ _ _ _ w (hm k) hvv hw
      rw [hw'] at hw''
      cases hw''
      rw [hrk, hrk']
      exact .some hR

/-- The sum of `g` over the entries. -/
def total (g : V → ℕ) (m : UMap K V) : ℕ := (m.entries.map fun e => g e.2).sum

/-- **The sum over the entries is the sum over any set of keys that covers them.** -/
theorem total_eq_sum (g : V → ℕ) (m : UMap K V) {S : Finset K} (hS : ∀ k ∈ m, k ∈ S) :
    total g m = ∑ k ∈ S, ((m.lookup k).map g).getD 0 := by
  have hmap : (m.entries.map fun e => g e.2) =
      m.keys.map fun k => ((m.lookup k).map g).getD 0 := by
    simp only [AList.keys, List.keys, List.map_map]
    apply List.map_congr_left
    intro e he
    have : e.2 ∈ m.lookup e.1 := AList.mem_lookup_iff.2 he
    simp only [Function.comp_apply]
    rw [Option.mem_def.1 this]; rfl
  rw [total, hmap, ← List.sum_toFinset _ m.keys_nodup]
  apply Finset.sum_subset
  · intro k hk; exact hS k (AList.mem_keys.2 (List.mem_toFinset.1 hk))
  · intro k _ hk
    have : m.lookup k = none :=
      AList.lookup_eq_none.2 fun h => hk (List.mem_toFinset.2 (AList.mem_keys.1 h))
    rw [this]; rfl

section Newest

variable {T : Type*} [LinearOrder T] (stamp : V → T)

/-- Store `v` under `k` unless a newer value is there. -/
def renew (m : UMap K V) (k : K) (v : V) : UMap K V :=
  match m.lookup k with
  | some old => if stamp v < stamp old then m else m.insert k v
  | none => m.insert k v

/-- Offer the values one after another. -/
def renewAll (m : UMap K V) (offers : List (K × V)) : UMap K V :=
  offers.foldl (fun m offer => renew stamp m offer.1 offer.2) m

variable {stamp} {m : UMap K V} {k : K} {v : V}

theorem renew_eq (m : UMap K V) (k : K) (v : V) :
    renew stamp m k v = if ∃ old ∈ m.lookup k, stamp v < stamp old then m else m.insert k v := by
  unfold renew
  cases h : m.lookup k <;> simp

theorem lookup_renew_ne {k' : K} (hk : k' ≠ k) :
    (renew stamp m k v).lookup k' = m.lookup k' := by
  rw [renew_eq]
  split
  · rfl
  · exact AList.lookup_insert_ne hk

theorem mem_renew {k' : K} : k' ∈ renew stamp m k v ↔ k' ∈ m ∨ k' = k := by
  rw [renew_eq]
  split
  · rename_i h
    obtain ⟨old, hold, -⟩ := h
    have hk : k ∈ m := AList.lookup_isSome.1 (by rw [hold]; rfl)
    exact ⟨Or.inl, fun h => h.elim id fun h => h ▸ hk⟩
  · rw [AList.mem_insert, or_comm]

/-- **One offer**: what is stored then is the old value or the one offered, and no older than
either. -/
theorem lookup_renew {w : V} (h : (renew stamp m k v).lookup k = some w) :
    (m.lookup k = some w ∨ w = v) ∧ (∀ old ∈ m.lookup k, stamp old ≤ stamp w) ∧
      stamp v ≤ stamp w := by
  rw [renew_eq] at h
  split at h
  · rename_i hnewer
    obtain ⟨old, hold, hlt⟩ := hnewer
    rw [hold] at h
    cases h
    refine ⟨Or.inl hold, fun old' hold' => ?_, hlt.le⟩
    rw [hold] at hold'
    cases hold'; exact le_rfl
  · rename_i hnewer
    rw [AList.lookup_insert] at h
    cases h
    exact ⟨Or.inr rfl, fun old hold => not_lt.1 fun hlt => hnewer ⟨old, hold, hlt⟩, le_rfl⟩

theorem mem_renewAll (offers : List (K × V)) : ∀ m : UMap K V,
    k ∈ renewAll stamp m offers ↔ k ∈ m ∨ ∃ offer ∈ offers, offer.1 = k := by
  induction offers with
  | nil => intro m; simp [renewAll]
  | cons offer offers ih =>
    intro m
    have hstep : renewAll stamp m (offer :: offers) =
        renewAll stamp (renew stamp m offer.1 offer.2) offers := rfl
    rw [hstep, ih, mem_renew, or_assoc, List.exists_mem_cons_iff, eq_comm (a := k)]

/-- **The newest value stays**, whatever the order of the offers. -/
theorem renewAll_spec (offers : List (K × V)) : ∀ {m : UMap K V} {w : V},
    (renewAll stamp m offers).lookup k = some w →
      (m.lookup k = some w ∨ (k, w) ∈ offers) ∧ (∀ old ∈ m.lookup k, stamp old ≤ stamp w) ∧
        ∀ offer ∈ offers, offer.1 = k → stamp offer.2 ≤ stamp w := by
  induction offers with
  | nil =>
    intro m w h
    have h : m.lookup k = some w := h
    exact ⟨Or.inl h, fun old hold => by rw [h] at hold; cases hold; exact le_rfl, by simp⟩
  | cons offer offers ih =>
    intro m w h
    obtain ⟨hfrom, hold, hoffers⟩ := ih (m := renew stamp m offer.1 offer.2) h
    by_cases hk : offer.1 = k
    · subst hk
      -- the offer is stored, or something newer is
      obtain ⟨w1, hw1⟩ : ∃ w1, (renew stamp m offer.1 offer.2).lookup offer.1 = some w1 :=
        Option.isSome_iff_exists.1 (AList.lookup_isSome.2 (mem_renew.2 (Or.inr rfl)))
      obtain ⟨hfrom1, hold1, hoffer⟩ := lookup_renew hw1
      have hle := hold w1 hw1
      refine ⟨?_, fun old ho => (hold1 old ho).trans hle, ?_⟩
      · rcases hfrom with hfrom | hfrom
        · rw [hw1] at hfrom
          cases hfrom
          rcases hfrom1 with hfrom1 | rfl
          · exact Or.inl hfrom1
          · exact Or.inr List.mem_cons_self
        · exact Or.inr (List.mem_cons_of_mem _ hfrom)
      · intro offer' ho' heq
        rcases List.mem_cons.1 ho' with rfl | ho'
        · exact hoffer.trans hle
        · exact hoffers offer' ho' heq
    · rw [lookup_renew_ne (Ne.symm hk)] at hfrom hold
      refine ⟨hfrom.imp_right (List.mem_cons_of_mem _), hold, ?_⟩
      intro offer' ho' heq
      rcases List.mem_cons.1 ho' with rfl | ho'
      · exact absurd heq hk
      · exact hoffers offer' ho' heq

end Newest

end UMap

end Shopping.Lib
