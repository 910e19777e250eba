import Shopping.Proof.Copies

/-!
# How long a deletion lasts

A node that handles a `DELETE_LIST` forgets the list and keeps nothing in its place. So
the list stays away from the node until the next frame that brings a copy of it, and no
longer: it does not matter when the copy was made (`deletion_until_delivery`).
-/

namespace Shopping

open Lib

/-- The message makes a node that applies it store a list under the key. -/
def Message.Brings (m : Message) (key : Str) : Prop :=
  match m.op with
  | .ensureList => ∃ l ∈ m.lists.head?, l.key = key
  | .gossipLists => ∃ l ∈ m.lists, l.key = key
  | _ => False

theorem Message.Brings.lists_ne {m : Message} {key : Str} (h : m.Brings key) : m.lists ≠ [] := by
  intro hl
  unfold Message.Brings at h
  rw [hl] at h
  split at h
  · obtain ⟨l, h, -⟩ := h; cases h
  · obtain ⟨l, h, -⟩ := h; cases h
  · exact h

namespace Node

variable {db : SqliteDb} {key : Str} {l : ShoppingList}

/-- A row under another key stays away. -/
theorem mergeIncoming_absent (hk : db.Keyed) (hnone : db.rows.lookup key = none)
    (hl : l.key ≠ key) : (mergeIncoming .ok .ok db l).state.rows.lookup key = none := by
  rcases mergeIncoming_cases hk .ok .ok l with ⟨e, h⟩ | ⟨r, hr, h⟩
  · rw [h]; exact hnone
  · rw [h, Throws.state, SqliteDb.lookup_write_ok, hr, if_neg (Ne.symm hl)]; exact hnone

theorem mergeAll_absent {ls : List ShoppingList} (hls : ∀ l ∈ ls, l.key ≠ key) :
    ∀ (i : ℕ) (db : SqliteDb), db.Keyed → db.rows.lookup key = none →
      (mergeAll (fun _ => .ok) i db ls).state.rows.lookup key = none := by
  induction ls with
  | nil => intro i db _ hnone; exact hnone
  | cons l ls ih =>
    intro i db hk hnone
    have habs := mergeIncoming_absent hk hnone (hls l List.mem_cons_self)
    have hkeyed := mergeIncoming_keyed hk .ok .ok l
    rw [mergeAll]
    split
    · rename_i db' hm
      rw [hm] at habs hkeyed
      exact ih (fun l hl => hls l (List.mem_cons_of_mem _ hl)) (i + 1) db' hkeyed habs
    · rename_i e hm
      rw [hm] at habs; exact habs

/-- **A message that does not bring the list leaves it away.** -/
theorem applyMessage_absent (hk : db.Keyed) (hnone : db.rows.lookup key = none) {m : Message}
    (hm : ¬ m.Brings key) : (applyMessage (fun _ => .ok) db m).state.rows.lookup key = none := by
  obtain ⟨op, origin, ts, ls, nodes⟩ := m
  cases op with
  | ensureList =>
    cases ls with
    | nil => exact hnone
    | cons l ls => exact mergeIncoming_absent hk hnone fun h => hm ⟨l, rfl, h⟩
  | deleteList =>
    cases ls with
    | nil => exact hnone
    | cons l ls =>
      show ((db.deleteList l.uid .ok).1).rows.lookup key = none
      rw [SqliteDb.lookup_deleteList_ok]
      split
      · rfl
      · exact hnone
  | gossipLists => exact mergeAll_absent (fun l hl h => hm ⟨l, hl, h⟩) 0 db hk hnone
  | _ => exact hnone

theorem mergeIncoming_present (hk : db.Keyed) {db' : SqliteDb}
    (h : mergeIncoming .ok .ok db l = .ok db')
    (hp : l.key = key ∨ (db.rows.lookup key).isSome = true) :
    (db'.rows.lookup key).isSome = true := by
  rcases mergeIncoming_cases hk .ok .ok l with ⟨e, he⟩ | ⟨r, hr, he⟩
  · rw [he] at h; cases h
  · rw [he, Except.ok.injEq] at h
    rw [← h, SqliteDb.lookup_write_ok, hr]
    split
    · rfl
    · rename_i hne; exact hp.resolve_left (Ne.symm hne)

theorem mergeAll_present {ls : List ShoppingList} :
    ∀ (i : ℕ) (db db' : SqliteDb), db.Keyed → mergeAll (fun _ => .ok) i db ls = .ok db' →
      ((∃ l ∈ ls, l.key = key) ∨ (db.rows.lookup key).isSome = true) →
      (db'.rows.lookup key).isSome = true := by
  induction ls with
  | nil =>
    intro i db db' _ h hp
    cases h
    rcases hp with ⟨l, hl, -⟩ | hp
    · cases hl
    · exact hp
  | cons l ls ih =>
    intro i db db' hk h hp
    rw [mergeAll] at h
    split at h
    · rename_i db1 h1
      have hk1 := mergeIncoming_keyed hk .ok .ok l
      rw [h1] at hk1
      refine ih (i + 1) db1 db' hk1 h ?_
      rcases hp with ⟨l', hl', rfl⟩ | hp
      · rcases List.mem_cons.1 hl' with rfl | hl'
        · exact Or.inr (mergeIncoming_present hk h1 (Or.inl rfl))
        · exact Or.inl ⟨l', hl', rfl⟩
      · exact Or.inr (mergeIncoming_present hk h1 (Or.inr hp))
    · cases h

/-- **A message that brings the list stores it**, unless it throws. -/
theorem applyMessage_present (hk : db.Keyed) {m : Message} {db' : SqliteDb}
    (h : applyMessage (fun _ => .ok) db m = .ok db') (hm : m.Brings key) :
    (db'.rows.lookup key).isSome = true := by
  obtain ⟨op, origin, ts, ls, nodes⟩ := m
  cases op with
  | ensureList =>
    obtain ⟨l, hl, hkey⟩ := hm
    cases ls with
    | nil => cases hl
    | cons l' ls => cases hl; exact mergeIncoming_present hk h (Or.inl hkey)
  | gossipLists => exact mergeAll_present 0 db db' hk h (Or.inl hm)
  | _ => exact absurd hm id

end Node

variable {ι κ : Type*} [DecidableEq ι] [DecidableEq κ]

/-- The action has node `i` apply a message that brings the list. -/
def Delivers (D : Deployment ι κ) (w : World ι κ) (i : ι) (key : Str) (a : Action ι κ) : Prop :=
  ∃ m, Applies D w i a m ∧ m.Brings key

/-- The action has node `i` handle a `DELETE_LIST` of the list. -/
def Deletes (D : Deployment ι κ) (w : World ι κ) (i : ι) (key : Str) (a : Action ι κ) : Prop :=
  ∃ m, Applies D w i a m ∧ m.op = .deleteList ∧ ∃ l ∈ m.lists.head?, l.key = key

variable {D : Deployment ι κ} {w w' : World ι κ} {a : Action ι κ} {i : ι} {key : Str}

theorem Deletes.absent (hd : Deletes D w i key a) (h : World.step D w a = some w') :
    (w'.node i).node.db.rows.lookup key = none := by
  obtain ⟨m, hm, ho, l, hl, rfl⟩ := hd
  rw [(step_db h i).1 m hm]
  obtain ⟨op, origin, ts, ls, nodes⟩ := m
  obtain rfl : op = .deleteList := ho
  cases ls with
  | nil => cases hl
  | cons l' ls =>
    cases hl
    show ((w.node i).node.db.deleteList l.uid .ok).1.rows.lookup l.key = none
    rw [SqliteDb.lookup_deleteList_ok]
    exact if_pos rfl

/-- A step that does not bring the list leaves it away. -/
theorem absent_step (hm : Matched D w) (hnone : (w.node i).node.db.rows.lookup key = none)
    (hd : ¬ Delivers D w i key a) (h : World.step D w a = some w') :
    (w'.node i).node.db.rows.lookup key = none := by
  by_cases happ : ∃ m, Applies D w i a m
  · obtain ⟨m, hmsg⟩ := happ
    rw [(step_db h i).1 m hmsg]
    exact Node.applyMessage_absent (hm.nodeKey i) hnone fun hb => hd ⟨m, hmsg, hb⟩
  · rw [(step_db h i).2 happ]; exact hnone

/-- A step that brings the list stores it, however old the copy is. -/
theorem Delivers.present {g : Trace ι κ} (hd : Delivers D w i key a) (hm : Matched D w)
    (hr : Reflected IsCopy w g) (h : World.step D w a = some w') :
    ((w'.node i).node.db.rows.lookup key).isSome = true := by
  obtain ⟨m, hmsg, hb⟩ := hd
  rw [(step_db h i).1 m hmsg]
  obtain ⟨db', hdb⟩ := hr.applies_ok hm hmsg hb.lists_ne
  rw [hdb]
  exact Node.applyMessage_present (hm.nodeKey i) hdb hb

/-- A node that does not store the list answers `GET_LIST` without one. -/
theorem get_absent {pf : Platform} {env : Env} {n : Node} {origin uid : Str} {ts : UInt64}
    (hnone : n.db.rows.lookup (cstr uid) = none) :
    ∃ frame, n.handleClientFrame pf env (.packed (Message.getList origin ts uid)) =
        .ok (n.reply frame) ∧
      (frame = .raw wrongShard ∨ ∃ m, frame = .packed m ∧ m.op = .noListResponse) := by
  have hread : n.db.read uid (env.stmt 0) = none := by
    unfold SqliteDb.read
    split
    · exact hnone
    · rfl
  by_cases hs : n.shardForList pf uid = n.cfg.shardId
  · refine ⟨_, ?_, Or.inr ⟨Message.listResponse false n.cfg.nodeId (env.now 0)
      (ShoppingList.new uid []), rfl, rfl⟩⟩
    simp [Node.handleClientFrame, Message.getList, ShoppingList.new, ShoppingList.getUid, hs, hread]
  · refine ⟨.raw wrongShard, ?_, Or.inl rfl⟩
    simp [Node.handleClientFrame, Message.getList, ShoppingList.new, ShoppingList.getUid, hs]

/-- **A deletion lasts until the next delivery.** Once a node has handled a `DELETE_LIST`,
and as long as no message that brings the list is delivered to it, it does not store the
list and answers `GET_LIST` without it; the next such delivery stores the list again. -/
theorem deletion_until_delivery {w w1 w2 : World ι κ}
    (h0 : Run (World.step D) (fun _ _ => True) (World.init D) w) (hd : Deletes D w i key a)
    (h1 : World.step D w a = some w1)
    (h2 : Run (World.step D) (fun w b => ¬ Delivers D w i key b) w1 w2) :
    (w2.node i).node.db.rows.lookup key = none ∧
      (∀ env origin ts uid, cstr uid = key →
        ∃ frame, (w2.node i).node.handleClientFrame (D.pf i) env
            (.packed (Message.getList origin ts uid)) = .ok ((w2.node i).node.reply frame) ∧
          (frame = .raw wrongShard ∨ ∃ m, frame = .packed m ∧ m.op = .noListResponse)) ∧
      ∀ b w3, Delivers D w2 i key b → World.step D w2 b = some w3 →
        ((w3.node i).node.db.rows.lookup key).isSome = true := by
  have hm1 := (matched h0).step h1
  have habsent : Matched D w2 ∧ (w2.node i).node.db.rows.lookup key = none := by
    refine h2.inv (I := fun w => Matched D w ∧ (w.node i).node.db.rows.lookup key = none)
      ⟨hm1, hd.absent h1⟩ ?_
    intro w b w' hI hnd hs
    exact ⟨hI.1.step hs, absent_step hI.1 hI.2 hnd hs⟩
  refine ⟨habsent.2, ?_, ?_⟩
  · rintro env origin ts uid rfl; exact get_absent habsent.2
  · intro b w3 hdel h3
    have hall : Run (World.step D) (fun _ _ => True) (World.init D) w2 :=
      (h0.tail ⟨a, trivial, h1⟩).trans (h2.mono fun _ _ _ => trivial)
    obtain ⟨g, hr⟩ := exists_reflected hall
    exact hdel.present habsent.1 hr h3

/-- A client creates a list, another one gets it, and the first one deletes it. -/
def deletionRun : List (Action (Fin 2) (Fin 2)) :=
  [.start 0 1, .createShoppingList 0 [] (sampleUid 0) 1 0, .clientFrame 0 0 fun _ => 2, .reply 0 4,
    .getShoppingList 1 (sampleUid 0) 3 0, .clientFrame 0 5 fun _ => 4, .reply 1 6,
    .deleteShoppingList 0 (sampleUid 0) 5 0]

/-- Then the other client sends the node the copy it has had since before the deletion. -/
def oldCopyRun : List (Action (Fin 2) (Fin 2)) := [.reply 0 11, .gossipState 1 6 fun _ => 0]

/-- The deletion is handled, and the old copy brings the list back. -/
theorem deletionRun_end : ∃ w w1 w2 w3 : World (Fin 2) (Fin 2),
    runList (World.step .sample) (World.init .sample) deletionRun = some w ∧
    Deletes .sample w 0 (sampleUid 0) (.clientFrame 0 7 fun _ => 6) ∧
    World.step .sample w (.clientFrame 0 7 fun _ => 6) = some w1 ∧
    runList (World.step .sample) w1 oldCopyRun = some w2 ∧
    Delivers .sample w2 0 (sampleUid 0) (.clientFrame 0 12 fun _ => 7) ∧
    World.step .sample w2 (.clientFrame 0 12 fun _ => 7) = some w3 ∧
    ((w3.node 0).node.db.rows.lookup (sampleUid 0)).isSome = true := by
  obtain ⟨w, hw, hp⟩ := runList_of_any (World.step Deployment.sample)
    (World.init Deployment.sample) deletionRun
    (fun w => decide (∃ m ∈ Trace.received Platform.sample w 7,
        (w.node 0).node.Accepts Platform.sample m ∧ m.op = .deleteList ∧
          ∃ l ∈ m.lists.head?, l.key = sampleUid 0) &&
      (World.step .sample w (.clientFrame 0 7 fun _ => 6)).any fun w1 =>
        (runList (World.step .sample) w1 oldCopyRun).any fun w2 =>
          decide (∃ m ∈ Trace.received Platform.sample w2 12,
            (w2.node 0).node.Accepts Platform.sample m ∧ m.op = .gossipLists ∧
              ∃ l ∈ m.lists, l.key = sampleUid 0) &&
          (World.step .sample w2 (.clientFrame 0 12 fun _ => 7)).any fun w3 =>
            ((w3.node 0).node.db.rows.lookup (sampleUid 0)).isSome) (by decide +kernel)
  simp only [Bool.and_eq_true, decide_eq_true_eq, Option.any_eq_true] at hp
  obtain ⟨⟨m, hm, hacc, hdel⟩, w1, h1, w2, h2, ⟨m', hm', hacc', hop, hl⟩, w3, h3, hback⟩ := hp
  have hbrings : m'.Brings (sampleUid 0) := by
    unfold Message.Brings
    rw [hop]
    exact hl
  exact ⟨w, w1, w2, w3, hw, ⟨m, ⟨rfl, hm, hacc⟩, hdel⟩, h1, h2, ⟨m', ⟨rfl, hm', hacc'⟩, hbrings⟩, h3,
    hback⟩

/-- **A deleted list returns without any new change**: the node stores it again when it
gets a copy from before the deletion. -/
theorem deleted_list_returns :
    ¬ ∀ (w w1 w2 : World (Fin 2) (Fin 2)) (a : Action (Fin 2) (Fin 2)) (key : Str),
      Run (World.step .sample) (fun _ _ => True) (World.init .sample) w →
      Deletes .sample w 0 key a → World.step .sample w a = some w1 →
      Run (World.step .sample) (fun _ b => ¬ b.IsEdit) w1 w2 →
      (w2.node 0).node.db.rows.lookup key = none := by
  intro h
  obtain ⟨w, w1, w2, w3, hw, hd, h1, h2, -, h3, hback⟩ := deletionRun_end
  have hquiet : Run (World.step .sample) (fun _ b => ¬ b.IsEdit) w1 w2 := by
    refine Run.of_list ?_ h2
    intro s b hb
    simp only [oldCopyRun, List.mem_cons, List.not_mem_nil, or_false] at hb
    rcases hb with rfl | rfl <;> exact id
  have := h w w1 w3 _ _ (Run.of_list (fun _ _ _ => trivial) hw) hd h1 (hquiet.tail ⟨_, id, h3⟩)
  rw [this] at hback; cases hback

/-- Until the old copy is handled the list is away, and then it is back. -/
theorem deletionRun_absent : ∃ w1 w2 w3 : World (Fin 2) (Fin 2),
    Run (World.step .sample) (fun _ _ => True) (World.init .sample) w1 ∧
      runList (World.step .sample) w1 oldCopyRun = some w2 ∧
      (w2.node 0).node.db.rows.lookup (sampleUid 0) = none ∧
      (∃ frame, (w2.node 0).node.handleClientFrame Platform.sample { now := fun _ => 6 }
          (.packed (Message.getList [] 0 (sampleUid 0))) = .ok ((w2.node 0).node.reply frame) ∧
        (frame = .raw wrongShard ∨ ∃ m, frame = .packed m ∧ m.op = .noListResponse)) ∧
      World.step .sample w2 (.clientFrame 0 12 fun _ => 7) = some w3 ∧
      ((w3.node 0).node.db.rows.lookup (sampleUid 0)).isSome = true := by
  obtain ⟨w, w1, w2, w3, hw, hd, h1, h2, hdel, h3, -⟩ := deletionRun_end
  have h0 : Run (World.step .sample) (fun _ _ => True) (World.init .sample) w :=
    Run.of_list (fun _ _ _ => trivial) hw
  have hrun : Run (World.step .sample) (fun w b => ¬ Delivers .sample w 0 (sampleUid 0) b) w1 w2 := by
    refine Run.of_list ?_ h2
    intro s b hb
    simp only [oldCopyRun, List.mem_cons, List.not_mem_nil, or_false] at hb
    rcases hb with rfl | rfl
    · exact fun ⟨_, h, _⟩ => h
    · exact fun ⟨_, h, _⟩ => h
  obtain ⟨habsent, hget, hback⟩ := deletion_until_delivery h0 hd h1 hrun
  exact ⟨w1, w2, w3, h0.tail ⟨_, trivial, h1⟩, h2, habsent,
    hget { now := fun _ => 6 } [] 0 (sampleUid 0) rfl, h3, hback _ w3 hdel h3⟩

end Shopping
