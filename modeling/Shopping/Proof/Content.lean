import Shopping.Client.Update

/-!
# The content of a list

What the replicas of a list have to agree on: the tags added to and removed from every
item, and for both counters of every item the totals of every origin. Contents form a
join semilattice, and a list's content is a homomorphism into it.

* `content_merge`: merging lists joins their contents.
* `le_content_apply`: an update only raises the content.
* `shows_congr`: the content decides what a list shows, apart from names.
-/

namespace Shopping

open Lib

/-- The abstract state of a list. -/
@[ext]
structure Content where
  adds : Str → Finset Str
  removes : Str → Finset Str
  pos : Quantity → Str → Str → ℕ
  neg : Quantity → Str → Str → ℕ

namespace Content

instance : SemilatticeSup Content where
  le a b := a.adds ≤ b.adds ∧ a.removes ≤ b.removes ∧ a.pos ≤ b.pos ∧ a.neg ≤ b.neg
  le_refl a := ⟨le_rfl, le_rfl, le_rfl, le_rfl⟩
  le_trans a b c h h' :=
    ⟨h.1.trans h'.1, h.2.1.trans h'.2.1, h.2.2.1.trans h'.2.2.1, h.2.2.2.trans h'.2.2.2⟩
  le_antisymm a b h h' := Content.ext (h.1.antisymm h'.1) (h.2.1.antisymm h'.2.1)
    (h.2.2.1.antisymm h'.2.2.1) (h.2.2.2.antisymm h'.2.2.2)
  sup a b :=
    { adds := a.adds ⊔ b.adds
      removes := a.removes ⊔ b.removes
      pos := a.pos ⊔ b.pos
      neg := a.neg ⊔ b.neg }
  le_sup_left a b := ⟨le_sup_left, le_sup_left, le_sup_left, le_sup_left⟩
  le_sup_right a b := ⟨le_sup_right, le_sup_right, le_sup_right, le_sup_right⟩
  sup_le a b c h h' := ⟨sup_le h.1 h'.1, sup_le h.2.1 h'.2.1, sup_le h.2.2.1 h'.2.2.1,
    sup_le h.2.2.2 h'.2.2.2⟩

instance : OrderBot Content where
  bot := { adds := ⊥, removes := ⊥, pos := ⊥, neg := ⊥ }
  bot_le _ := ⟨bot_le, bot_le, bot_le, bot_le⟩

variable (s : Finset ℕ) (f : ℕ → Content)

theorem adds_sup (uid : Str) : (s.sup f).adds uid = s.sup fun n => (f n).adds uid :=
  Finset.apply_sup_eq_sup_comp (fun c : Content => c.adds uid) (fun _ _ => rfl) rfl

theorem removes_sup (uid : Str) : (s.sup f).removes uid = s.sup fun n => (f n).removes uid :=
  Finset.apply_sup_eq_sup_comp (fun c : Content => c.removes uid) (fun _ _ => rfl) rfl

theorem pos_sup (q : Quantity) (uid o : Str) :
    (s.sup f).pos q uid o = s.sup fun n => (f n).pos q uid o :=
  Finset.apply_sup_eq_sup_comp (fun c : Content => c.pos q uid o) (fun _ _ => rfl) rfl

theorem neg_sup (q : Quantity) (uid o : Str) :
    (s.sup f).neg q uid o = s.sup fun n => (f n).neg q uid o :=
  Finset.apply_sup_eq_sup_comp (fun c : Content => c.neg q uid o) (fun _ _ => rfl) rfl

end Content

/-- The content of a list. -/
def content (l : ShoppingList) : Content where
  adds := l.items.addTags
  removes := l.items.removeTags
  pos q uid o := (l.counter q uid).posOf o
  neg q uid o := (l.counter q uid).negOf o

variable {l l' r : ShoppingList} {op : Op} {origin : Str}

/-- A list without items, shown or removed, has no content. -/
theorem content_blank (h : l.items = {}) : content l = ⊥ := by
  have hc : ∀ q uid, l.counter q uid = {} := by
    intro q uid; exact ShoppingList.counter_of_none (by rw [h]; rfl) q
  have ha : ∀ uid, l.items.addTags uid = ∅ := by intro uid; rw [h]; rfl
  have hr : ∀ uid, l.items.removeTags uid = ∅ := by intro uid; rw [h]; rfl
  apply Content.ext
  · funext uid; exact ha uid
  · funext uid; exact hr uid
  · funext q uid o; simp only [content, hc]; rfl
  · funext q uid o; simp only [content, hc]; rfl

/-- **Merging joins contents.** -/
theorem content_merge (h : l.merge l' = .ok r) : content r = content l ⊔ content l' := by
  have hi := (ShoppingList.merge_eq_ok h).1
  apply Content.ext
  · funext uid; exact ORSet.addTags_merge hi uid
  · funext uid; exact ORSet.removeTags_merge hi uid
  · funext q uid o; exact ShoppingList.totalOf_counter_merge h q uid .pos o
  · funext q uid o; exact ShoppingList.totalOf_counter_merge h q uid .neg o

/-- **An update only raises the content**, if no total wraps and an added item is new. -/
theorem le_content_apply (hw : l.WF) (h : op.apply origin l = .ok r) (hn : op.NoWrap origin l)
    (hnew : op.NewItem l) : content l ≤ content r := by
  have htotal : ∀ side q uid o,
      (l.counter q uid).totalOf side o ≤ (r.counter q uid).totalOf side o := by
    intro side q uid o
    rw [op.totalOf_apply hw h hn hnew]
    exact Nat.le_add_right _ _
  refine ⟨?_, ?_, htotal .pos, htotal .neg⟩
  · intro uid
    simp only [content, op.addTags_apply hw h]
    exact Finset.subset_union_left
  · intro uid
    simp only [content, op.removeTags_apply hw h]
    exact Finset.subset_union_left

/-- The list shows the item with these quantities. -/
def ShoppingList.Shows (l : ShoppingList) (uid : Str) (desired current : UInt32) : Prop :=
  ∃ it ∈ l.getAllItems,
    it.uid = uid ∧ it.getDesiredQuantity = desired ∧ it.getCurrentQuantity = current

/-- **What a well-formed list shows, by its tags and counters.** -/
theorem ShoppingList.WF.shows_iff (h : l.WF) (uid : Str) (desired current : UInt32) :
    l.Shows uid desired current ↔ l.items.Live uid ∧
      UInt32.ofInt (l.counter .desired uid).value = desired ∧
      UInt32.ofInt (l.counter .current uid).value = current := by
  constructor
  · rintro ⟨it, hit, rfl, rfl, rfl⟩
    obtain ⟨hl, he⟩ := (ORSet.WF.mem_values_iff h it).1 hit
    have hc : ∀ q, l.counter q it.uid = it.counter q := counter_of_some he
    exact ⟨hl, by rw [hc]; rfl, by rw [hc]; rfl⟩
  · rintro ⟨hl, rfl, rfl⟩
    obtain ⟨it, he⟩ := h.exists_element hl
    have hk : it.uid = uid := h.key uid it he
    subst hk
    refine ⟨it, (ORSet.WF.mem_values_iff h it).2 ⟨hl, he⟩, rfl, ?_, ?_⟩
    · rw [counter_of_some he]; rfl
    · rw [counter_of_some he]; rfl

/-- **Lists of one content show the same items and quantities.** -/
theorem shows_congr (h : l.WF) (h' : l'.WF) (hc : content l = content l') (uid : Str)
    (desired current : UInt32) : l.Shows uid desired current ↔ l'.Shows uid desired current := by
  have ha : l.items.addTags uid = l'.items.addTags uid := congrFun (congrArg Content.adds hc) uid
  have hr : l.items.removeTags uid = l'.items.removeTags uid :=
    congrFun (congrArg Content.removes hc) uid
  have hv : ∀ q, (l.counter q uid).value = (l'.counter q uid).value := by
    intro q
    apply PNCounter.value_congr
    · intro o; exact congrFun (congrFun (congrFun (congrArg Content.pos hc) q) uid) o
    · intro o; exact congrFun (congrFun (congrFun (congrArg Content.neg hc) q) uid) o
  rw [h.shows_iff, h'.shows_iff, hv, hv, ORSet.Live, ORSet.Live, ha, hr]

end Shopping
