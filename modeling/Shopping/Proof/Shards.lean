import Shopping.Proof.Frames

/-!
# Lists of other shards

`handle_client_frame` looks at the shard of `lists[0]` only, and clients may send
`GOSSIP_LISTS` too, whose loop writes every list of the message. So a node keeps to its shard
iff the messages with this operation do (`Contained`).
-/

namespace Shopping

open Lib

namespace Node

variable {own : Str → Prop} {db db' : SqliteDb} {src : Str → List ShoppingList} {c c' : Calls}
  {l : ShoppingList}

/-- Every row holds a list that `own` is true of. -/
def RowsIn (own : Str → Prop) (db : SqliteDb) : Prop :=
  ∀ key l, db.rows.lookup key = some l → own l.uid

/-- Merging `l` in stores no list that `own` is not true of: `l` is not one, or nothing is
written, or the row is there and keeps its UID. -/
def Admits (own : Str → Prop) (readCalls writeCalls : Calls) (src : Str → List ShoppingList)
    (l : ShoppingList) : Prop :=
  own l.uid ∨ writeCalls.both = false ∨ (readCalls.both = true ∧ src l.key ≠ [])

/-- The loop of `GOSSIP_LISTS` stores no list that `own` is not true of, up to the list whose
merge throws. -/
def Contained (own : Str → Prop) (stmt : ℕ → Calls) :
    ℕ → (Str → List ShoppingList) → List ShoppingList → Prop
  | _, _, [] => True
  | i, src, l :: ls =>
    ((stmt (2 * i)).both = true → ∀ e ∈ src l.key, e.UidsAgree l) →
      Admits own (stmt (2 * i)) (stmt (2 * i + 1)) src l ∧
        Contained own stmt (i + 1) (feed (stmt (2 * i)) (stmt (2 * i + 1)) src l) ls

/-- `src` says which rows there are. -/
def Filled (db : SqliteDb) (src : Str → List ShoppingList) : Prop :=
  ∀ key, (db.rows.lookup key).isSome = true ↔ src key ≠ []

theorem storedLists_filled (db : SqliteDb) : Filled db (storedLists db) := by
  intro key
  unfold storedLists
  cases db.rows.lookup key <;> simp

/-- A merge that returns writes the row under the UID it was read with. -/
theorem mergeIncoming_eq_ok (h : mergeIncoming c c' db l = .ok db') :
    ∃ r, r.uid = ((db.read l.uid c).getD (ShoppingList.new l.uid [])).uid ∧
      db' = (db.write r c').1 := by
  obtain ⟨r, hm, hwrite⟩ := mergeIncoming_inv h
  exact ⟨r, (ShoppingList.merge_eq_ok hm).2.1, hwrite⟩

/-- The UID the row is written with: that of the row read, if one is. -/
theorem existing_uid (c : Calls) (db : SqliteDb) (l : ShoppingList) :
    (∃ row, c.both = true ∧ db.rows.lookup l.key = some row ∧
        ((db.read l.uid c).getD (ShoppingList.new l.uid [])).uid = row.uid) ∨
      ((c.both = true → db.rows.lookup l.key = none) ∧
        ((db.read l.uid c).getD (ShoppingList.new l.uid [])).uid = l.uid) := by
  unfold SqliteDb.read ShoppingList.key
  by_cases hc : c.both = true
  · rw [if_pos hc]
    cases hl : db.rows.lookup (cstr l.uid) with
    | none => exact Or.inr ⟨fun _ => rfl, rfl⟩
    | some row => exact Or.inl ⟨row, hc, rfl, rfl⟩
  · rw [if_neg hc]
    exact Or.inr ⟨fun h => absurd h hc, rfl⟩

/-- A merge that returns changes the row of its key only. -/
theorem lookup_mergeIncoming (hk : db.Keyed) (h : mergeIncoming c c' db l = .ok db') :
    ∃ r : ShoppingList, r.uid = ((db.read l.uid c).getD (ShoppingList.new l.uid [])).uid ∧
      ∀ key, db'.rows.lookup key =
        if c'.both = true ∧ key = l.key then some r else db.rows.lookup key := by
  obtain ⟨r, hr, rfl⟩ := mergeIncoming_eq_ok h
  have hkey : cstr r.uid = l.key := by
    rw [hr]; exact existing_key hk c l
  refine ⟨r, hr, fun key => ?_⟩
  unfold SqliteDb.write
  by_cases hc : c'.both = true
  · rw [if_pos hc, ← hkey]
    simp only [hc, true_and]
    exact UMap.lookup_insert_ite key _ r db.rows
  · simp [hc]

/-- A merge adds the list to the sources of its row. -/
theorem mergeIncoming_filled (hk : db.Keyed) (hs : Filled db src)
    (h : mergeIncoming c c' db l = .ok db') : Filled db' (feed c c' src l) := by
  obtain ⟨r, -, hrows⟩ := lookup_mergeIncoming hk h
  intro key
  rw [hrows, feed]
  by_cases hc : c'.both = true
  · by_cases hkey : key = l.key
    · simp [hc, hkey]
    · simp [hc, hkey, hs key]
  · simp [hc, hs key]

/-- **One list merged in.** -/
theorem mergeIncoming_rowsIn (hk : db.Keyed) (hs : Filled db src) (hin : RowsIn own db)
    (ha : Admits own c c' src l) (h : mergeIncoming c c' db l = .ok db') : RowsIn own db' := by
  obtain ⟨r, hr, hrows⟩ := lookup_mergeIncoming hk h
  intro key l' hl
  rw [hrows] at hl
  split at hl
  · rename_i hw
    cases hl
    rw [hr]
    rcases existing_uid c db l with ⟨row, -, hrow, heq⟩ | ⟨hnone, heq⟩
    · rw [heq]; exact hin _ row hrow
    · rw [heq]
      rcases ha with hown | hc' | ⟨hc, hsrc⟩
      · exact hown
      · rw [hw.1] at hc'; cases hc'
      · have := (hs l.key).2 hsrc
        rw [hnone hc] at this; cases this
  · exact hin key l' hl

/-- When no call fails, a row that breaks the rule comes from a list that is not admitted. -/
theorem admits_of_rowsIn (hk : db.Keyed) (hs : Filled db src) (hin : RowsIn own db')
    (h : mergeIncoming .ok .ok db l = .ok db') : Admits own .ok .ok src l := by
  obtain ⟨r, hr, hrows⟩ := lookup_mergeIncoming hk h
  rcases existing_uid .ok db l with ⟨row, hc, hrow, -⟩ | ⟨-, heq⟩
  · exact Or.inr (Or.inr ⟨hc, (hs l.key).1 (by rw [hrow]; rfl)⟩)
  · rw [heq] at hr
    refine Or.inl ?_
    rw [← hr]
    exact hin l.key r (by rw [hrows]; simp)

/-- When no call fails, rows keep their UIDs. -/
theorem mergeIncoming_uid (hk : db.Keyed) (h : mergeIncoming .ok .ok db l = .ok db') {key : Str}
    {row : ShoppingList} (hrow : db.rows.lookup key = some row) :
    ∃ row', db'.rows.lookup key = some row' ∧ row'.uid = row.uid := by
  obtain ⟨r, hr, hrows⟩ := lookup_mergeIncoming hk h
  by_cases hkey : key = l.key
  · refine ⟨r, by rw [hrows]; simp [hkey], ?_⟩
    rcases existing_uid .ok db l with ⟨row', -, hrow', heq⟩ | ⟨hnone, -⟩
    · rw [← hkey, hrow] at hrow'
      cases hrow'
      rw [hr, heq]
    · rw [← hkey, hrow] at hnone
      cases hnone rfl
  · exact ⟨row, by rw [hrows]; simp [hkey, hrow], rfl⟩

/-- If every source fits the shard, the rows merged from them do. -/
theorem mergeAll_rowsIn (stmt : ℕ → Calls) (ls : List ShoppingList) :
    ∀ i db (src : Str → List ShoppingList), db.Keyed → Fed db src → Filled db src → RowsIn own db →
      Contained own stmt i src ls → RowsIn own (mergeAll stmt i db ls).state := by
  induction ls with
  | nil => intro i db src _ _ _ hin _; exact hin
  | cons l ls ih =>
    intro i db src hk hf hs hin hcont
    rw [mergeAll]
    have hok := mergeIncoming_isOk hf (stmt (2 * i)) (stmt (2 * i + 1)) l
    have hkeyed := mergeIncoming_keyed hk (stmt (2 * i)) (stmt (2 * i + 1)) l
    rcases mergeIncoming_cases hk (stmt (2 * i)) (stmt (2 * i + 1)) l with ⟨e, hm⟩ | ⟨r, -, hm⟩
    · rw [hm]; exact hin
    · rw [hm] at hkeyed ⊢
      obtain ⟨hadm, hrest⟩ := hcont (hok.1 ⟨_, hm⟩)
      exact ih (i + 1) _ _ hkeyed (mergeIncoming_fed hk hf hm) (mergeIncoming_filled hk hs hm)
        (mergeIncoming_rowsIn hk hs hin hadm hm) hrest

theorem mergeAll_uid (ls : List ShoppingList) : ∀ i (db : SqliteDb), db.Keyed →
    ∀ key row, db.rows.lookup key = some row →
      ∃ row', (mergeAll (fun _ => .ok) i db ls).state.rows.lookup key = some row' ∧
        row'.uid = row.uid := by
  induction ls with
  | nil => intro i db _ key row hrow; exact ⟨row, hrow, rfl⟩
  | cons l ls ih =>
    intro i db hk key row hrow
    rw [mergeAll]
    have hkeyed := mergeIncoming_keyed hk .ok .ok l
    rcases mergeIncoming_cases hk .ok .ok l with ⟨e, hm⟩ | ⟨r, -, hm⟩
    · rw [hm]; exact ⟨row, hrow, rfl⟩
    · obtain ⟨row1, hrow1, huid1⟩ := mergeIncoming_uid hk hm hrow
      rw [hm] at hkeyed ⊢
      obtain ⟨row2, hrow2, huid2⟩ := ih (i + 1) _ hkeyed key row1 hrow1
      exact ⟨row2, hrow2, huid2.trans huid1⟩

/-- Conversely, rows of the shard come from sources of the shard. -/
theorem contained_of_rowsIn (ls : List ShoppingList) :
    ∀ i db (src : Str → List ShoppingList), db.Keyed → Fed db src → Filled db src →
      RowsIn own (mergeAll (fun _ => .ok) i db ls).state →
        Contained own (fun _ => .ok) i src ls := by
  induction ls with
  | nil => intro i db src _ _ _ _; trivial
  | cons l ls ih =>
    intro i db src hk hf hs hin hagree
    obtain ⟨db', hm⟩ := (mergeIncoming_isOk hf .ok .ok l).2 hagree
    have hkeyed := mergeIncoming_keyed hk .ok .ok l
    rw [hm] at hkeyed
    rw [mergeAll, hm] at hin
    refine ⟨admits_of_rowsIn hk hs ?_ hm, ih (i + 1) db' _ hkeyed (mergeIncoming_fed hk hf hm)
      (mergeIncoming_filled hk hs hm) hin⟩
    -- the rows that are there after `l` have the same UIDs at the end
    intro key row hrow
    obtain ⟨row', hrow', huid⟩ := mergeAll_uid ls (i + 1) db' hkeyed key row hrow
    rw [← huid]; exact hin key row' hrow'

/-- Lists of UID `uid` are of the node's shard. -/
def Owns (pf : Platform) (n : Node) (uid : Str) : Prop := n.shardForList pf uid = n.cfg.shardId

/-- The store holds only lists of the node's shard. -/
def OwnRows (pf : Platform) (n : Node) : Prop := RowsIn (n.Owns pf) n.db

/-- A frame on the client socket whose loop, if it has one, stores only lists of the node's
shard. -/
def FrameContained (pf : Platform) (n : Node) : Wake → Prop
  | .clientFrame env frame =>
    ∀ m ∈ frame.decode pf, m.op = .gossipLists → (∀ l ∈ m.lists.head?, n.Owns pf l.uid) →
      Contained (n.Owns pf) env.stmt 0 (storedLists n.db) m.lists
  | _ => True

variable {pf : Platform} {env : Env} {n : Node} {frame : Frame}

/-- What `apply_message` stores, the first list being of the node's shard. -/
theorem applyMessage_rowsIn (stmt : ℕ → Calls) (hk : db.Keyed) (hin : RowsIn own db) {m : Message}
    (hfirst : ∀ l ∈ m.lists.head?, own l.uid)
    (hcont : m.op = .gossipLists → Contained own stmt 0 (storedLists db) m.lists) :
    RowsIn own (applyMessage stmt db m).state := by
  obtain ⟨op, origin, ts, lists, nodes⟩ := m
  -- a deletion only takes rows away
  have herase : ∀ uid c, RowsIn own (db.deleteList uid c).1 := by
    intro uid c
    unfold SqliteDb.deleteList
    split
    · intro key l hl
      by_cases hkey : key = cstr uid
      · rw [hkey, AList.lookup_erase] at hl; cases hl
      · rw [AList.lookup_erase_ne hkey] at hl; exact hin key l hl
    · exact hin
  cases op with
  | ensureList =>
    cases lists with
    | nil => exact hin
    | cons l ls =>
      rcases mergeIncoming_cases hk (stmt 0) (stmt 1) l with ⟨e, hm⟩ | ⟨r, -, hm⟩
      · show RowsIn own (mergeIncoming (stmt 0) (stmt 1) db l).state
        rw [hm]; exact hin
      · have hrows := mergeIncoming_rowsIn hk (storedLists_filled db) hin
          (Or.inl (hfirst l rfl)) hm
        show RowsIn own (mergeIncoming (stmt 0) (stmt 1) db l).state
        rw [hm]; exact hrows
  | deleteList =>
    cases lists with
    | nil => exact hin
    | cons l ls => exact herase _ _
  | gossipLists =>
    exact mergeAll_rowsIn stmt lists 0 db _ hk (storedLists_fed db) (storedLists_filled db) hin
      (hcont rfl)
  | _ => cases lists <;> exact hin

/-- **One client frame**: the store keeps to the shard if the frame does. -/
theorem handleClientFrame_ownRows (hn : n.Ready) (hown : n.OwnRows pf)
    (hcont : FrameContained pf n (.clientFrame env frame)) :
    (n.handleClientFrame pf env frame).state.OwnRows pf := by
  obtain ⟨db, new, hstate, hdb⟩ := (handleClientFrame_turn pf env n frame).state_eq
  rw [hstate]
  show RowsIn (n.Owns pf) db
  rcases hdb with rfl | ⟨m, hd, ⟨l, hl, hs⟩, rfl⟩
  · exact hown
  · have hfirst : ∀ l' ∈ m.lists.head?, n.Owns pf l'.uid := by
      intro l' hl'
      rw [Option.mem_unique hl' hl]; exact hs
    exact applyMessage_rowsIn env.stmt hn.keyed hown hfirst fun hop => hcont m hd hop hfirst

/-- When no call fails: the frame keeps to the shard if the store does. -/
theorem frameContained_of_ownRows (hn : n.Ready) (hok : env.stmt = fun _ => .ok)
    (hown : (n.handleClientFrame pf env frame).state.OwnRows pf) :
    FrameContained pf n (.clientFrame env frame) := by
  intro m hd hop hfirst
  obtain ⟨op, origin, ts, lists, nodes⟩ := m
  cases hop
  cases lists with
  | nil => trivial
  | cons l ls =>
    have ht := handleClientFrame_turn pf env n frame
    have hdb := ht.db_of_accepts hd ⟨l, rfl, hfirst l rfl⟩
    obtain ⟨db, new, hstate, -⟩ := ht.state_eq
    rw [hstate] at hdb hown
    have hrows : RowsIn (n.Owns pf) db := hown
    rw [show db = _ from hdb, hok] at hrows
    rw [hok]
    exact contained_of_rowsIn (l :: ls) 0 n.db _ hn.keyed (storedLists_fed n.db)
      (storedLists_filled n.db) hrows

/-- The turns of the loop that take up the requests. -/
def clientTurns (reqs : List (Env × Frame)) : List Wake := reqs.map fun r => .clientFrame r.1 r.2

/-- **The node keeps to its shard**: whatever it has handled of `reqs`, its store holds only
lists of the shard. -/
def KeepsShard (pf : Platform) (n : Node) (reqs : List (Env × Frame)) : Prop :=
  ∀ pre post, reqs = pre ++ post → (runLoop pf n (clientTurns pre)).state.OwnRows pf

theorem keepsShard_nil : KeepsShard pf n [] ↔ n.OwnRows pf := by
  constructor
  · intro h; exact h [] [] rfl
  · intro h pre post heq
    obtain ⟨rfl, rfl⟩ := List.append_eq_nil_iff.1 heq.symm
    exact h

theorem keepsShard_cons {r : Env × Frame} {reqs : List (Env × Frame)} :
    KeepsShard pf n (r :: reqs) ↔ n.OwnRows pf ∧
      (n.handleClientFrame pf r.1 r.2).state.OwnRows pf ∧
        ∀ n', n.handleClientFrame pf r.1 r.2 = .ok n' → KeepsShard pf n' reqs := by
  have hrun : ∀ pre, runLoop pf n (clientTurns (r :: pre)) =
      (n.handleClientFrame pf r.1 r.2).bind fun n => runLoop pf n (clientTurns pre) := fun _ => rfl
  constructor
  · intro h
    refine ⟨h [] _ rfl, ?_, fun n' hn' pre post heq => ?_⟩
    · have hone := h [r] reqs rfl
      rw [hrun] at hone
      cases hc : n.handleClientFrame pf r.1 r.2 with
      | error x => rw [hc] at hone; exact hone
      | ok n' => rw [hc] at hone; exact hone
    · have hpre := h (r :: pre) post (by rw [heq]; rfl)
      rwa [hrun, hn'] at hpre
  · rintro ⟨hnow, hone, hrest⟩ pre post heq
    cases pre with
    | nil => exact hnow
    | cons r' pre =>
      cases heq
      rw [hrun]
      cases hc : n.handleClientFrame pf r.1 r.2 with
      | error x => rw [hc] at hone; exact hone
      | ok n' => exact hrest n' hc pre post rfl

/-- **The store keeps to the shard as long as the frames do.** -/
theorem keepsShard_of_contained (reqs : List (Env × Frame)) : ∀ n : Node, n.Ready → n.OwnRows pf →
    Throughout pf (FrameContained pf) n (clientTurns reqs) → KeepsShard pf n reqs := by
  induction reqs with
  | nil => intro n _ hown _; exact keepsShard_nil.2 hown
  | cons r reqs ih =>
    rintro n hn hown ⟨hfirst, hrest⟩
    have hstep := handleClientFrame_ownRows hn hown hfirst
    refine keepsShard_cons.2 ⟨hown, hstep, fun n' hn' => ?_⟩
    rw [hn'] at hstep
    exact ih n' (wake_ready (w := .clientFrame r.1 r.2) hn hn') hstep (hrest n' hn')

/-- When no call fails, the frames keep to the shard as long as the store does. -/
theorem contained_of_keepsShard (reqs : List (Env × Frame)) : ∀ n : Node, n.Ready →
    (∀ r ∈ reqs, r.1.stmt = fun _ => .ok) → KeepsShard pf n reqs →
      Throughout pf (FrameContained pf) n (clientTurns reqs) := by
  induction reqs with
  | nil => intro n _ _ _; trivial
  | cons r reqs ih =>
    intro n hn hok hkeeps
    obtain ⟨-, hone, hrest⟩ := keepsShard_cons.1 hkeeps
    refine ⟨frameContained_of_ownRows hn (hok r List.mem_cons_self) hone, fun n' hn' => ?_⟩
    exact ih n' (wake_ready hn hn') (fun r' hr' => hok r' (List.mem_cons_of_mem _ hr')) (hrest n' hn')

/-- A request whose first list is of another shard is refused. -/
theorem handleClientFrame_refused {m : Message} {l : ShoppingList} (hd : m ∈ frame.decode pf)
    (hop : m.op ≠ .getNodes) (hl : l ∈ m.lists.head?) (hs : ¬ n.Owns pf l.uid) :
    n.handleClientFrame pf env frame = .ok (n.reply (.raw wrongShard)) := by
  obtain ⟨op, origin, ts, lists, nodes⟩ := m
  cases lists with
  | nil => cases hl
  | cons l' ls =>
    cases hl
    unfold handleClientFrame
    rw [show frame.decode pf = some _ from hd]
    dsimp only
    rw [if_neg hop]
    exact if_pos hs

instance (pf : Platform) (n : Node) : DecidablePred (n.Owns pf) := fun uid => by
  unfold Owns; infer_instance

instance (own : Str → Prop) [DecidablePred own] (c c' : Calls) (src : Str → List ShoppingList)
    (l : ShoppingList) : Decidable (Admits own c c' src l) := by
  unfold Admits; infer_instance

instance decidableContained (own : Str → Prop) [DecidablePred own] (stmt : ℕ → Calls) :
    ∀ ls i src, Decidable (Contained own stmt i src ls)
  | [], _, _ => isTrue trivial
  | _ :: ls, i, _ =>
    have := decidableContained own stmt ls (i + 1)
    inferInstanceAs (Decidable (_ → _ ∧ _))

instance (pf : Platform) (n : Node) : DecidablePred (FrameContained pf n)
  | .clientFrame _ _ => by unfold FrameContained; infer_instance
  | .gossipFrame _ _ => isTrue trivial
  | .discoveryFrame _ => isTrue trivial
  | .stateTimer _ _ => isTrue trivial
  | .discoveryTimer _ _ => isTrue trivial

/-- Node 0 of two shards, over an empty database. -/
def shardNode : Node := new { Deployment.sample.cfg 0 with numShards := 2 } {} 0

theorem shardNode_ready : shardNode.Ready := ⟨by decide, SqliteDb.Keyed.empty⟩

theorem shardNode_ownRows : shardNode.OwnRows samplePf := by
  intro key l h; simp [shardNode, new] at h

/-- A list of the node's shard if `i` is odd. -/
def shardList (i : ℕ) : ShoppingList := ShoppingList.new (sampleUid i) []

/-- A list of the node's shard in front, one of the other shard behind it. -/
def mixedRequest : Env × Frame :=
  (sampleEnv, .packed (Message.gossipLists [] 0 [shardList 1, shardList 0]))

/-- **A node keeps to its shard** iff the frames do: always if they do, and only then if no
call on the database fails. What it refuses, it refuses without a trace. -/
theorem shard_kept (pf : Platform) {n : Node} (hn : n.Ready) (hown : n.OwnRows pf)
    (reqs : List (Env × Frame)) :
    (Throughout pf (FrameContained pf) n (clientTurns reqs) → KeepsShard pf n reqs) ∧
      ((∀ r ∈ reqs, r.1.stmt = fun _ => .ok) → KeepsShard pf n reqs →
        Throughout pf (FrameContained pf) n (clientTurns reqs)) ∧
      ∀ env frame, ∀ m ∈ frame.decode pf, m.op ≠ .getNodes → ∀ l ∈ m.lists.head?,
        ¬ n.Owns pf l.uid → n.handleClientFrame pf env frame = .ok (n.reply (.raw wrongShard)) :=
  ⟨keepsShard_of_contained reqs n hn hown, contained_of_keepsShard reqs n hn,
    fun _ _ _ hd hop _ hl hs => handleClientFrame_refused hd hop hl hs⟩

/-- Requests that keep to the shard: one is refused, one carries two lists of the shard. -/
def orderlyRequests : List (Env × Frame) :=
  [(sampleEnv, .packed (Message.ensureList [] 0 (shardList 1))),
    (sampleEnv, .packed (Message.ensureList [] 0 (shardList 0))),
    (sampleEnv, .packed (Message.gossipLists [] 0 [shardList 1, shardList 3])),
    (sampleEnv, .packed (Message.gossipLists [] 0 [shardList 0, shardList 1]))]

theorem orderlyRequests_kept : KeepsShard samplePf shardNode orderlyRequests :=
  (shard_kept samplePf shardNode_ready shardNode_ownRows orderlyRequests).1 (by decide +kernel)

theorem other_shard_stored : shardNode.Ready ∧ shardNode.OwnRows samplePf ∧
    (shardNode.handleClientFrame samplePf mixedRequest.1 mixedRequest.2).returned = true ∧
    ¬ KeepsShard samplePf shardNode [mixedRequest] := by
  refine ⟨shardNode_ready, shardNode_ownRows, by decide +kernel, fun h => ?_⟩
  have hcont := contained_of_keepsShard [mixedRequest] shardNode shardNode_ready
    (fun r hr => by obtain rfl := List.mem_singleton.1 hr; rfl) h
  exact absurd hcont (by decide +kernel)

end Node

end Shopping
