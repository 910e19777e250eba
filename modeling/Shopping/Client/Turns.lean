import Shopping.Client.Api

/-!
# How a client's call can end

One inversion lemma for each of the two ends of a call that store a list
(`finishEdit_cases`, `finishGet_cases`), and one for the requests of `gossipState`
(`gossipState_eq_some`), whose batches hold each list once, by its shard
(`lookup_gossipBatches`).
-/

namespace Shopping

open Lib

namespace API

/-- The list an answer of the cloud carries, if it is a `LIST_RESPONSE`. -/
def cloudList (reply : Option Message) : Option ShoppingList :=
  reply.bind fun m => if m.op = .listResponse then m.lists.head? else none

/-- A `LIST_RESPONSE` without a list, which no node sends. -/
def NoList (reply : Option Message) : Prop := ∃ m, reply = some m ∧ m.op = .listResponse ∧ m.lists = []

/-- The client once it has stored a list. -/
def stored (a : API) (lst : ShoppingList) (c : Calls) : API := { a with db := (a.db.write lst c).1 }

theorem cloudList_cons {m : Message} {l : ShoppingList} {ls : List ShoppingList}
    (ho : m.op = .listResponse) (hl : m.lists = l :: ls) : cloudList (some m) = some l := by
  simp [cloudList, ho, hl]

theorem cloudList_other {m : Message} (ho : m.op ≠ .listResponse) : cloudList (some m) = none := by
  simp [cloudList, ho]

section

variable (a : API) (c : Calls)

/-- **The end of an edit**: the edited list, merged with the answer's, is stored. -/
theorem finishEdit_cases (lst : ShoppingList) (reply : Option Message) :
    (NoList reply ∧ a.finishEdit lst reply c = .error .emptyIndex) ∨
      ∃ r, a.finishEdit lst reply c = .ok (r, a.stored r c) ∧
        ((cloudList reply = none ∧ r = lst) ∨
          ∃ l, cloudList reply = some l ∧ r = Throws.state (lst.merge l)) := by
  cases reply with
  | none => exact Or.inr ⟨lst, rfl, Or.inl ⟨rfl, rfl⟩⟩
  | some m =>
    unfold finishEdit
    dsimp only
    by_cases ho : m.op = .listResponse
    · rw [if_pos ho]
      cases hl : m.lists with
      | nil => exact Or.inl ⟨⟨m, rfl, ho, hl⟩, rfl⟩
      | cons l ls =>
        dsimp only
        refine Or.inr ⟨Throws.state (lst.merge l), ?_, Or.inr ⟨l, cloudList_cons ho hl, rfl⟩⟩
        cases lst.merge l <;> rfl
    · rw [if_neg ho]; exact Or.inr ⟨lst, rfl, Or.inl ⟨cloudList_other ho, rfl⟩⟩

/-- **The end of a get**: nothing is found, or the merge throws, or a list is stored. -/
theorem finishGet_cases (found : Option ShoppingList) (reply : Option Message) :
    (NoList reply ∧ a.finishGet found reply c = .error .emptyIndex) ∨
      (cloudList reply = none ∧ found = none ∧
        a.finishGet found reply c = .error (.runtimeError "List not found")) ∨
      (∃ l mine x, cloudList reply = some l ∧ found = some mine ∧ mine.merge l = .error x ∧
        a.finishGet found reply c = .error x.1) ∨
      ∃ r, a.finishGet found reply c = .ok (r, a.stored r c) ∧
        ((cloudList reply = none ∧ found = some r) ∨ (cloudList reply = some r ∧ found = none) ∨
          ∃ l mine, cloudList reply = some l ∧ found = some mine ∧ mine.merge l = .ok r) := by
  cases reply with
  | none =>
    cases found with
    | none => exact Or.inr (Or.inl ⟨rfl, rfl, rfl⟩)
    | some mine => exact Or.inr (Or.inr (Or.inr ⟨mine, rfl, Or.inl ⟨rfl, rfl⟩⟩))
  | some m =>
    by_cases ho : m.op = .listResponse
    · -- an answer with a list takes the merge, where there is a stored copy
      cases hl : m.lists with
      | nil =>
        refine Or.inl ⟨⟨m, rfl, ho, hl⟩, ?_⟩
        simp only [finishGet, if_pos ho, hl]
      | cons l ls =>
        have hcloud : cloudList (some m) = some l := cloudList_cons ho hl
        cases found with
        | none =>
          refine Or.inr (Or.inr (Or.inr ⟨l, ?_, Or.inr (Or.inl ⟨hcloud, rfl⟩)⟩))
          simp only [finishGet, if_pos ho, hl]
          rfl
        | some mine =>
          cases hm : mine.merge l with
          | error x =>
            refine Or.inr (Or.inr (Or.inl ⟨l, mine, x, hcloud, rfl, hm, ?_⟩))
            simp only [finishGet, if_pos ho, hl, hm]
          | ok r =>
            refine Or.inr (Or.inr (Or.inr ⟨r, ?_, Or.inr (Or.inr ⟨l, mine, hcloud, rfl, hm⟩)⟩))
            simp only [finishGet, if_pos ho, hl, hm]
            rfl
    · -- any other answer counts as none: what was found stays
      have hcloud : cloudList (some m) = none := cloudList_other ho
      cases found with
      | none =>
        refine Or.inr (Or.inl ⟨hcloud, rfl, ?_⟩)
        simp only [finishGet, if_neg ho]
      | some mine =>
        refine Or.inr (Or.inr (Or.inr ⟨mine, ?_, Or.inl ⟨hcloud, rfl⟩⟩))
        simp only [finishGet, if_neg ho]
        rfl

/-- A refresh changes the endpoint table only. -/
theorem finishUpdateCloudNodes_keeps (reply : Option Message) :
    (a.finishUpdateCloudNodes reply).db = a.db ∧
      (a.finishUpdateCloudNodes reply).origin = a.origin := by
  unfold finishUpdateCloudNodes
  split
  · split <;> exact ⟨rfl, rfl⟩
  · exact ⟨rfl, rfl⟩

end

theorem forall₂_of_mapM {α β : Type*} {f : α → Option β} {xs : List α} :
    ∀ {ys : List β}, xs.mapM f = some ys → List.Forall₂ (fun x y => f x = some y) xs ys := by
  induction xs with
  | nil => intro ys h; cases h; exact List.Forall₂.nil
  | cons x xs ih =>
    intro ys h
    rw [List.mapM_cons] at h
    simp only [bind, Option.bind_eq_some_iff] at h
    obtain ⟨y, hy, ys', hys, h⟩ := h
    cases h
    exact List.Forall₂.cons hy (ih hys)

variable {a : API} {c : Calls}

/-- The requests of `gossipState`, one for each batch. -/
theorem gossipState_eq_some {pf : Platform} {now : UInt64} {pick : Int32 → ℕ}
    {requests : List (Str × Message)} (h : a.gossipState pf now pick c = some requests) :
    List.Forall₂ (fun batch req => ∃ first ep, batch.2.head? = some first ∧
      a.getShardEndpoint pf first.uid (pick batch.1) = some ep ∧
      req = (ep, Message.gossipLists a.origin now batch.2))
      (a.gossipBatches pf (a.db.readAll c)).entries requests := by
  refine List.Forall₂.imp ?_ (forall₂_of_mapM h)
  intro batch req hb
  simp only [bind, Option.bind_eq_some_iff] at hb
  obtain ⟨first, hf, ep, he, hr⟩ := hb
  cases hr
  exact ⟨first, ep, hf, he, rfl⟩

/-- Every request of `gossipState` carries a batch. -/
theorem mem_gossipState {pf : Platform} {now : UInt64} {pick : Int32 → ℕ}
    {requests : List (Str × Message)} (h : a.gossipState pf now pick c = some requests)
    {req : Str × Message} (hreq : req ∈ requests) :
    ∃ batch ∈ (a.gossipBatches pf (a.db.readAll c)).entries, ∃ first ep,
      batch.2.head? = some first ∧ a.getShardEndpoint pf first.uid (pick batch.1) = some ep ∧
      req = (ep, Message.gossipLists a.origin now batch.2) := by
  have hall := gossipState_eq_some h
  clear h
  generalize (a.gossipBatches pf (a.db.readAll c)).entries = batches at hall
  induction hall with
  | nil => cases hreq
  | cons hb _ ih =>
    rcases List.mem_cons.1 hreq with rfl | hreq
    · exact ⟨_, List.mem_cons_self, hb⟩
    · obtain ⟨batch, hmem, hb⟩ := ih hreq
      exact ⟨batch, List.mem_cons_of_mem _ hmem, hb⟩

/-- **The batch of a shard holds the lists of that shard**, in their order; a shard without
lists has no batch. -/
theorem lookup_gossipBatches (pf : Platform) (a : API) (ls : List ShoppingList) (shard : Int32) :
    (a.gossipBatches pf ls).lookup shard =
      if (ls.filter fun lst => a.shardOf pf lst.uid = shard) = [] then none
      else some (ls.filter fun lst => a.shardOf pf lst.uid = shard) := by
  have key : ∀ (m : UMap Int32 (List ShoppingList)),
      (ls.foldl (fun m lst => m.insert (a.shardOf pf lst.uid)
        ((m.lookup (a.shardOf pf lst.uid)).getD [] ++ [lst])) m).lookup shard =
        if (ls.filter fun lst => a.shardOf pf lst.uid = shard) = [] then m.lookup shard
        else some ((m.lookup shard).getD [] ++
          ls.filter fun lst => a.shardOf pf lst.uid = shard) := by
    induction ls with
    | nil => intro m; rfl
    | cons l ls ih =>
      intro m
      rw [List.foldl_cons, ih, UMap.lookup_insert_ite]
      by_cases hs : a.shardOf pf l.uid = shard
      · subst hs
        by_cases hls : (ls.filter fun lst => a.shardOf pf lst.uid = a.shardOf pf l.uid) = []
        · simp [hls]
        · simp [hls]
      · rw [if_neg (Ne.symm hs), List.filter_cons_of_neg (by simpa using hs)]
  exact (key ∅).trans (by simp)

/-- A batch is never empty and holds exactly the lists of its shard. -/
theorem mem_gossipBatches {pf : Platform} {ls : List ShoppingList}
    {batch : Sigma fun _ : Int32 => List ShoppingList}
    (h : batch ∈ (a.gossipBatches pf ls).entries) :
    batch.2 ≠ [] ∧ batch.2 = ls.filter fun lst => a.shardOf pf lst.uid = batch.1 := by
  have hl : (a.gossipBatches pf ls).lookup batch.1 = some batch.2 := AList.mem_lookup_iff.2 h
  rw [lookup_gossipBatches] at hl
  split at hl
  · cases hl
  · rename_i hne
    rw [Option.some.injEq] at hl
    exact ⟨hl ▸ hne, hl.symm⟩

end API

end Shopping
