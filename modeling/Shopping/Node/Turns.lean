import Shopping.Node.Node

/-!
# What a handler can do

One inversion lemma for each handler, so that later proofs need not unfold it: the
forms the result of `handle_client_frame` can take (`ClientTurn`), what gossip adds to
`sent`, and the fields the discovery code leaves alone (`SameLists`).
-/

namespace Shopping

open Lib

namespace Node

@[simp] theorem reply_sent (n : Node) (frame : Frame) :
    (n.reply frame).sent = n.sent ++ [.reply frame] := rfl

/-- The sender and the time of a message play no part in what it does. -/
theorem applyMessage_stamp (stmt : ℕ → Calls) (db : SqliteDb) (m : Message) (origin : Str)
    (ts : UInt64) :
    applyMessage stmt db { m with origin := origin, ts := ts } = applyMessage stmt db m := by
  obtain ⟨op, _, _, lists, _⟩ := m
  cases op <;> cases lists <;> rfl

/-- The list that `l` is merged into has its key. -/
theorem existing_key {db : SqliteDb} (hk : db.Keyed) (c : Calls) (l : ShoppingList) :
    ((db.read l.uid c).getD (ShoppingList.new l.uid [])).key = l.key := by
  unfold SqliteDb.read
  split
  · cases hl : db.rows.lookup (cstr l.uid) with
    | none => rfl
    | some row => exact hk _ row hl
  · rfl

/-- A merge that returns writes what the merge of the row read gives. -/
theorem mergeIncoming_inv {db db' : SqliteDb} {c c' : Calls} {l : ShoppingList}
    (h : mergeIncoming c c' db l = .ok db') :
    ∃ r, ((db.read l.uid c).getD (ShoppingList.new l.uid [])).merge l = .ok r ∧
      db' = (db.write r c').1 := by
  unfold mergeIncoming at h
  dsimp only [ShoppingList.getUid] at h
  cases hm : ((db.read l.uid c).getD (ShoppingList.new l.uid [])).merge l with
  | error x => rw [hm] at h; cases h
  | ok r =>
    rw [hm] at h
    cases h
    exact ⟨r, rfl, rfl⟩

/-- Merging a list in writes a row under its key, or throws and writes nothing. -/
theorem mergeIncoming_cases {db : SqliteDb} (hk : db.Keyed) (c c' : Calls) (l : ShoppingList) :
    (∃ e, mergeIncoming c c' db l = .error (e, db)) ∨
      ∃ r, r.key = l.key ∧ mergeIncoming c c' db l = .ok (db.write r c').1 := by
  have hkey := existing_key hk c l
  unfold mergeIncoming
  dsimp only [ShoppingList.getUid]
  cases hm : ((db.read l.uid c).getD (ShoppingList.new l.uid [])).merge l with
  | error x => exact Or.inl ⟨x.1, rfl⟩
  | ok r =>
    refine Or.inr ⟨r, ?_, rfl⟩
    rw [ShoppingList.key, (ShoppingList.merge_eq_ok hm).2.1]; exact hkey

/-- Whatever its calls answer, a merge stores each list under its own key. -/
theorem mergeIncoming_keyed {db : SqliteDb} (hk : db.Keyed) (c c' : Calls) (l : ShoppingList) :
    (mergeIncoming c c' db l).state.Keyed := by
  rcases mergeIncoming_cases hk c c' l with ⟨e, h⟩ | ⟨r, -, h⟩
  · rw [h]; exact hk
  · rw [h]; exact hk.write r c'

/-- **What merging a list in and deleting one keep, `apply_message` keeps**, however it ends. -/
theorem applyMessage_inv (P : SqliteDb → Prop)
    (hmerge : ∀ c c' db l, P db → P (mergeIncoming c c' db l).state) {m : Message}
    (hdel : m.op = .deleteList → ∀ db uid c, P db → P (db.deleteList uid c).1) (stmt : ℕ → Calls)
    {db : SqliteDb} (h : P db) : P (applyMessage stmt db m).state := by
  have hall : ∀ ls i db, P db → P (mergeAll stmt i db ls).state := by
    intro ls
    induction ls with
    | nil => intro i db h; exact h
    | cons l ls ih =>
      intro i db h
      rw [mergeAll]
      have := hmerge (stmt (2 * i)) (stmt (2 * i + 1)) db l h
      split
      · rename_i db' hm; rw [hm] at this; exact ih _ _ this
      · rename_i e hm; rw [hm] at this; exact this
  unfold applyMessage
  split
  · exact hmerge _ _ _ _ h
  · rename_i ho _; exact hdel ho _ _ _ h
  · exact h
  · exact h
  · exact hall _ _ _ h
  · exact h

theorem applyMessage_keyed (stmt : ℕ → Calls) {db : SqliteDb} (h : db.Keyed) (m : Message) :
    (applyMessage stmt db m).state.Keyed :=
  applyMessage_inv SqliteDb.Keyed (fun c c' _ l h => mergeIncoming_keyed h c c' l)
    (fun _ _ uid c h => h.deleteList uid c) stmt h

/-- A gossip frame of node `n`: its lists are rows of the node. -/
def IsGossip (n : Node) (s : Sent) : Prop :=
  ∃ now c, s = .gossip n.gossipPush
    (.packed (Message.gossipLists n.cfg.nodeId now (n.db.readAll c)))

/-- The shard timer sends, and changes nothing else. -/
theorem performShardGossip_eq (now : UInt64) (c : Calls) (n : Node) :
    ∃ new, performShardGossip now c n = { n with sent := n.sent ++ new } ∧
      ∀ s ∈ new, n.IsGossip s := by
  unfold performShardGossip
  dsimp only
  split
  · exact ⟨[], by simp, by simp⟩
  · refine ⟨[_], rfl, ?_⟩
    intro s hs
    rw [List.mem_singleton] at hs
    exact ⟨now, c, hs⟩

/-- **The fan-out only sends gossip.** -/
theorem eagerFanout_eq (env : Env) (n : Node) :
    ∃ new, eagerFanout env n = { n with sent := n.sent ++ new } ∧ ∀ s ∈ new, n.IsGossip s := by
  unfold eagerFanout
  obtain ⟨new1, h1, hg1⟩ := performShardGossip_eq (env.now 1) (env.scan 0) n
  dsimp only
  rw [h1]
  obtain ⟨new2, h2, hg2⟩ := performShardGossip_eq (env.now 2) (env.scan 1)
    { n with sent := n.sent ++ new1 }
  rw [h2]
  obtain ⟨new3, h3, hg3⟩ := performShardGossip_eq (env.now 3) (env.scan 2)
    { n with sent := n.sent ++ new1 ++ new2 }
  rw [h3]
  refine ⟨new1 ++ new2 ++ new3, by simp, ?_⟩
  intro s hs
  simp only [List.mem_append] at hs
  rcases hs with (hs | hs) | hs
  · exact hg1 s hs
  · exact hg2 s hs
  · exact hg3 s hs

/-- The forms the result of `handle_client_frame` takes. -/
inductive ClientTurn (pf : Platform) (env : Env) (n : Node) (frame : Frame) : Method Node → Prop
  | undecodable (hd : frame.decode pf = none) :
      ClientTurn pf env n frame (.error (.msgpackError, n))
  | nodes (m : Message) (hd : frame.decode pf = some m) (hop : m.op = .getNodes) :
      ClientTurn pf env n frame (.ok (n.reply (.packed (Message.nodesResponse n.cfg.nodeId
        (env.now 0) (n.knownNodes.entries.map fun known => known.2)))))
  | empty (m : Message) (hd : frame.decode pf = some m) (hop : m.op ≠ .getNodes)
      (hl : m.lists = []) : ClientTurn pf env n frame (.error (.emptyIndex, n))
  | refused (m : Message) (l : ShoppingList) (ls : List ShoppingList)
      (hd : frame.decode pf = some m) (hop : m.op ≠ .getNodes) (hl : m.lists = l :: ls)
      (hs : n.shardForList pf l.uid ≠ n.cfg.shardId) :
      ClientTurn pf env n frame (.ok (n.reply (.raw wrongShard)))
  | found (m : Message) (l : ShoppingList) (ls : List ShoppingList) (row : ShoppingList)
      (hd : frame.decode pf = some m) (hop : m.op = .getList) (hl : m.lists = l :: ls)
      (hs : n.shardForList pf l.uid = n.cfg.shardId)
      (hr : n.db.read l.uid (env.stmt 0) = some row) :
      ClientTurn pf env n frame
        (.ok (n.reply (.packed (Message.listResponse true n.cfg.nodeId (env.now 0) row))))
  | absent (m : Message) (l : ShoppingList) (ls : List ShoppingList)
      (hd : frame.decode pf = some m) (hop : m.op = .getList) (hl : m.lists = l :: ls)
      (hs : n.shardForList pf l.uid = n.cfg.shardId)
      (hr : n.db.read l.uid (env.stmt 0) = none) :
      ClientTurn pf env n frame (.ok (n.reply (.packed (Message.listResponse false n.cfg.nodeId
        (env.now 0) (ShoppingList.new l.uid [])))))
  | thrown (m : Message) (l : ShoppingList) (ls : List ShoppingList) (e : Exn) (db : SqliteDb)
      (hd : frame.decode pf = some m) (hop : m.op ≠ .getNodes) (hop' : m.op ≠ .getList)
      (hl : m.lists = l :: ls) (hs : n.shardForList pf l.uid = n.cfg.shardId)
      (ha : applyMessage env.stmt n.db m = .error (e, db)) :
      ClientTurn pf env n frame (.error (e, { n with db }))
  | applied (m : Message) (l : ShoppingList) (ls : List ShoppingList) (db : SqliteDb)
      (hd : frame.decode pf = some m) (hop : m.op ≠ .getNodes) (hop' : m.op ≠ .getList)
      (hl : m.lists = l :: ls) (hs : n.shardForList pf l.uid = n.cfg.shardId)
      (ha : applyMessage env.stmt n.db m = .ok db) :
      ClientTurn pf env n frame (.ok ((eagerFanout env { n with db }).reply (.packed
        (Message.listResponse (m.op ≠ .deleteList) n.cfg.nodeId (env.now 4) l))))

theorem handleClientFrame_turn (pf : Platform) (env : Env) (n : Node) (frame : Frame) :
    ClientTurn pf env n frame (n.handleClientFrame pf env frame) := by
  unfold handleClientFrame
  cases hd : frame.decode pf with
  | none => exact .undecodable hd
  | some m =>
    dsimp only
    by_cases hop : m.op = .getNodes
    · rw [if_pos hop]; exact .nodes m hd hop
    rw [if_neg hop]
    cases hl : m.lists with
    | nil => exact .empty m hd hop hl
    | cons l ls =>
      dsimp only
      by_cases hs : n.shardForList pf l.getUid = n.cfg.shardId
      · rw [if_neg (not_not.2 hs)]
        by_cases hop' : m.op = .getList
        · rw [if_pos hop']
          cases hr : n.db.read l.getUid (env.stmt 0) with
          | none => exact .absent m l ls hd hop' hl hs hr
          | some row => exact .found m l ls row hd hop' hl hs hr
        · rw [if_neg hop']
          -- the message is applied with a new sender and time, which it does not read
          have hstamp := applyMessage_stamp env.stmt n.db m n.cfg.nodeId (env.now 0)
          rw [hl] at hstamp
          rw [hstamp]
          cases ha : applyMessage env.stmt n.db m with
          | error x => obtain ⟨e, db⟩ := x; exact .thrown m l ls e db hd hop hop' hl hs ha
          | ok db =>
            have hcfg : (eagerFanout env { n with db }).cfg = n.cfg := by
              obtain ⟨new, he, -⟩ := eagerFanout_eq env { n with db }
              rw [he]
            dsimp only
            rw [hcfg]
            exact .applied m l ls db hd hop hop' hl hs ha
      · rw [if_pos hs]; exact .refused m l ls hd hop hl hs

/-- A request passes the shard check of the node. -/
def Accepts (pf : Platform) (n : Node) (m : Message) : Prop :=
  ∃ l ∈ m.lists.head?, n.shardForList pf l.uid = n.cfg.shardId

instance (pf : Platform) (n : Node) (m : Message) : Decidable (n.Accepts pf m) :=
  inferInstanceAs (Decidable (∃ l ∈ m.lists.head?, n.shardForList pf l.uid = n.cfg.shardId))

section

variable {pf : Platform} {env : Env} {n : Node} {frame : Frame} {r : Method Node}

/-- **What the client socket changes**: the database, if the request passes the shard check,
as `apply_message` does, and the frames sent. -/
theorem ClientTurn.state_eq (ht : ClientTurn pf env n frame r) :
    ∃ db new, r.state = { n with db := db, sent := n.sent ++ new } ∧
      (db = n.db ∨ ∃ m, frame.decode pf = some m ∧ n.Accepts pf m ∧
        db = (applyMessage env.stmt n.db m).state) := by
  cases ht with
  | undecodable hd => exact ⟨n.db, [], by rw [List.append_nil]; rfl, Or.inl rfl⟩
  | empty m hd hop hl => exact ⟨n.db, [], by rw [List.append_nil]; rfl, Or.inl rfl⟩
  | thrown m l ls e db hd hop hop' hl hs ha =>
    refine ⟨db, [], by rw [List.append_nil]; rfl, Or.inr ⟨m, hd, ⟨l, ?_, hs⟩, ?_⟩⟩
    · rw [hl]; rfl
    · rw [ha]; rfl
  | applied m l ls db hd hop hop' hl hs ha =>
    obtain ⟨new, he, -⟩ := eagerFanout_eq env { n with db }
    refine ⟨db, new ++ [.reply (.packed (Message.listResponse (m.op ≠ .deleteList) n.cfg.nodeId
      (env.now 4) l))], ?_, Or.inr ⟨m, hd, ⟨l, ?_, hs⟩, ?_⟩⟩
    · rw [he, ← List.append_assoc]; rfl
    · rw [hl]; rfl
    · rw [ha]; rfl
  | _ => exact ⟨n.db, [_], rfl, Or.inl rfl⟩

/-- A request that passes the shard check is applied; `GET_NODES` and `GET_LIST` change nothing. -/
theorem ClientTurn.db_of_accepts (ht : ClientTurn pf env n frame r) {m : Message}
    (hd : frame.decode pf = some m) (hacc : n.Accepts pf m) :
    r.state.db = (applyMessage env.stmt n.db m).state := by
  -- the two requests that only read store nothing
  have hread : m.op = .getNodes ∨ m.op = .getList → (applyMessage env.stmt n.db m).state = n.db := by
    intro h
    obtain ⟨op, origin, ts, ls, nodes⟩ := m
    rcases h with rfl | rfl <;> rfl
  cases ht with
  | undecodable hd' => rw [hd] at hd'; cases hd'
  | nodes m' hd' hop =>
    rw [hd] at hd'; cases hd'
    exact (hread (Or.inl hop)).symm
  | empty m' hd' hop hl =>
    rw [hd] at hd'; cases hd'
    obtain ⟨l, hl', -⟩ := hacc
    rw [hl] at hl'; cases hl'
  | refused m' l ls hd' hop hl hs =>
    rw [hd] at hd'; cases hd'
    obtain ⟨l', hl', hs'⟩ := hacc
    rw [hl] at hl'; cases hl'
    exact absurd hs' hs
  | found m' l ls row hd' hop hl hs hr =>
    rw [hd] at hd'; cases hd'
    exact (hread (Or.inr hop)).symm
  | absent m' l ls hd' hop hl hs hr =>
    rw [hd] at hd'; cases hd'
    exact (hread (Or.inr hop)).symm
  | thrown m' l ls e db hd' hop hop' hl hs ha =>
    rw [hd] at hd'; cases hd'
    rw [ha]; rfl
  | applied m' l ls db hd' hop hop' hl hs ha =>
    rw [hd] at hd'; cases hd'
    obtain ⟨new, he, -⟩ := eagerFanout_eq env { n with db }
    rw [he, ha]; rfl

end

/-- **What the client socket sends**: gossip, and a reply whose lists have the keys of the
lists asked about. -/
theorem handleClientFrame_state (pf : Platform) (env : Env) {n : Node} (hs : n.sent = [])
    (hk : n.db.Keyed) (frame : Frame) :
    (n.handleClientFrame pf env frame).state.cfg = n.cfg ∧
      (n.handleClientFrame pf env frame).state.db.Keyed ∧
      ∀ s ∈ (n.handleClientFrame pf env frame).state.sent,
        (n.handleClientFrame pf env frame).state.IsGossip s ∨
          ∃ frame', s = .reply frame' ∧ frame'.Proper ∧
            ∀ l' ∈ frame'.lists, ∃ m, frame.decode pf = some m ∧ ∃ l ∈ m.lists, l'.key = l.key := by
  have hstored : ∀ m : Message, (applyMessage env.stmt n.db m).state.Keyed :=
    applyMessage_keyed env.stmt hk
  have ht := handleClientFrame_turn pf env n frame
  generalize n.handleClientFrame pf env frame = r at ht ⊢
  cases ht with
  | undecodable hd => exact ⟨rfl, hk, by simp [Throws.state, hs]⟩
  | nodes m hd hop =>
    refine ⟨rfl, hk, ?_⟩
    intro s hmem
    simp only [Throws.state, reply_sent, hs, List.nil_append, List.mem_singleton] at hmem
    refine Or.inr ⟨_, hmem, Or.inr ⟨_, rfl, by simp [Message.nodesResponse]⟩, ?_⟩
    intro l' hl'; cases hl'
  | empty m hd hop hl => exact ⟨rfl, hk, by simp [Throws.state, hs]⟩
  | refused m l ls hd hop hl hsh =>
    refine ⟨rfl, hk, ?_⟩
    intro s hmem
    simp only [Throws.state, reply_sent, hs, List.nil_append, List.mem_singleton] at hmem
    refine Or.inr ⟨_, hmem, Or.inl rfl, ?_⟩
    intro l' hl'; cases hl'
  | found m l ls row hd hop hl hsh hr =>
    refine ⟨rfl, hk, ?_⟩
    intro s hmem
    simp only [Throws.state, reply_sent, hs, List.nil_append, List.mem_singleton] at hmem
    refine Or.inr ⟨_, hmem, Or.inr ⟨_, rfl, by simp [Message.listResponse]⟩, ?_⟩
    intro l' hl'
    obtain rfl := List.mem_singleton.1 hl'
    refine ⟨m, hd, l, by rw [hl]; exact List.mem_cons_self, ?_⟩
    -- the row has the key that was asked for
    unfold SqliteDb.read at hr
    split at hr
    · exact hk _ _ hr
    · cases hr
  | absent m l ls hd hop hl hsh hr =>
    refine ⟨rfl, hk, ?_⟩
    intro s hmem
    simp only [Throws.state, reply_sent, hs, List.nil_append, List.mem_singleton] at hmem
    refine Or.inr ⟨_, hmem, Or.inr ⟨_, rfl, by simp [Message.listResponse]⟩, ?_⟩
    intro l' hl'
    obtain rfl := List.mem_singleton.1 hl'
    exact ⟨m, hd, l, by rw [hl]; exact List.mem_cons_self, rfl⟩
  | thrown m l ls e db hd hop hop' hl hsh ha =>
    have := hstored m
    rw [ha] at this
    exact ⟨rfl, this, by simp [Throws.state, hs]⟩
  | applied m l ls db hd hop hop' hl hsh ha =>
    have hdb := hstored m
    rw [ha] at hdb
    obtain ⟨new, he, hg⟩ := eagerFanout_eq env { n with db }
    rw [he]
    refine ⟨rfl, hdb, ?_⟩
    intro s hmem
    simp only [Throws.state, reply_sent, hs, List.nil_append, List.mem_append,
      List.mem_singleton] at hmem
    rcases hmem with hmem | hmem
    · exact Or.inl (hg s hmem)
    · refine Or.inr ⟨_, hmem, Or.inr ⟨_, rfl, by simp [Message.listResponse]⟩, ?_⟩
      intro l' hl'
      obtain rfl := List.mem_singleton.1 hl'
      exact ⟨m, hd, l', by rw [hl]; exact List.mem_cons_self, rfl⟩

/-- `handle_gossip_frame` touches the database only. -/
theorem handleGossipFrame_state (pf : Platform) (env : Env) (n : Node) (frame : Frame) :
    ∃ db, (n.handleGossipFrame pf env frame).state = { n with db } ∧
      (db = n.db ∨ ∃ m, frame.decode pf = some m ∧ m.op = .gossipLists ∧
        db = (applyMessage env.stmt n.db m).state ∧
        ((n.handleGossipFrame pf env frame).returned =
          (applyMessage env.stmt n.db m).returned)) := by
  unfold handleGossipFrame
  cases hd : frame.decode pf with
  | none => exact ⟨n.db, rfl, Or.inl rfl⟩
  | some m =>
    dsimp only
    by_cases hop : m.op = .gossipLists
    · rw [if_pos hop]
      cases ha : applyMessage env.stmt n.db m with
      | ok db => exact ⟨db, rfl, Or.inr ⟨m, rfl, hop, by rw [ha]; rfl, by rw [ha]; rfl⟩⟩
      | error x => exact ⟨x.2, rfl, Or.inr ⟨m, rfl, hop, by rw [ha]; rfl, by rw [ha]; rfl⟩⟩
    · rw [if_neg hop]; exact ⟨n.db, rfl, Or.inl rfl⟩

/-- Two states of a node with the same configuration, database and sent frames. -/
structure SameLists (n n' : Node) : Prop where
  cfg : n'.cfg = n.cfg
  db : n'.db = n.db
  sent : n'.sent = n.sent

theorem SameLists.refl (n : Node) : SameLists n n := ⟨rfl, rfl, rfl⟩

theorem SameLists.trans {a b c : Node} (h : SameLists a b) (h' : SameLists b c) : SameLists a c :=
  ⟨h'.cfg.trans h.cfg, h'.db.trans h.db, h'.sent.trans h.sent⟩

/-- A sequence of two methods that each leave the lists alone. -/
theorem SameLists.bind {n : Node} {r : Method Node} {f : Node → Method Node}
    (hr : SameLists n r.state) (hf : ∀ n', SameLists n' (f n').state) :
    SameLists n (Throws.state (r.bind f)) :=
  Throws.state_bind hr fun n' h => h.trans (hf n')

/-- Two states of a node that differ in the socket `k` at most, and there in the peer `id`. -/
def Relinked (k : Push) (id : Str) (n n' : Node) : Prop :=
  ∃ ids endpoints, n' = n.setLinks ids endpoints k ∧
    ∀ id', id' ≠ id → (id' ∈ ids ↔ id' ∈ n.connected k)

theorem Relinked.refl (k : Push) (id : Str) (n : Node) : Relinked k id n n :=
  ⟨n.connected k, n.links k, by cases k <;> rfl, fun _ _ => Iff.rfl⟩

/-- Links have nothing to do with the lists. -/
theorem Relinked.same {k : Push} {id : Str} {n n' : Node} (h : Relinked k id n n') :
    SameLists n n' := by
  obtain ⟨ids, endpoints, rfl, -⟩ := h
  cases k <;> exact ⟨rfl, rfl, rfl⟩

theorem Relinked.known {k : Push} {id : Str} {n n' : Node} (h : Relinked k id n n') :
    n'.knownNodes = n.knownNodes := by
  obtain ⟨ids, endpoints, rfl, -⟩ := h
  cases k <;> rfl

/-- A join is about one socket and one peer, also when the connect throws. -/
theorem join_relinked (k : Push) (pf : Platform) (n : Node) (info : NodeInfo) :
    Relinked k info.nodeId n (join k pf n info).state := by
  have hins : ∀ id, id ≠ info.nodeId →
      (id ∈ insert info.nodeId (n.connected k) ↔ id ∈ n.connected k) := fun id hid => by simp [hid]
  unfold join
  split
  · dsimp only
    split <;> exact ⟨_, _, rfl, hins⟩
  · exact Relinked.refl k info.nodeId n

/-- A leave is about one socket and one peer, also when the disconnect throws. -/
theorem leave_relinked (k : Push) (n : Node) (id : Str) (info : NodeInfo) :
    Relinked k id n (leave k n id info).state := by
  have herase : ∀ id', id' ≠ id → (id' ∈ (n.connected k).erase id ↔ id' ∈ n.connected k) :=
    fun id' hid => by simp [hid]
  unfold leave
  split
  · dsimp only
    split <;> exact ⟨_, _, rfl, herase⟩
  · exact Relinked.refl k id n

theorem updateKnownNode_same (pf : Platform) (n : Node) (info : NodeInfo) :
    SameLists n (updateKnownNode pf n info).state := by
  unfold updateKnownNode
  split
  · exact SameLists.refl n
  · split
    · split
      · exact SameLists.refl n
      · exact ⟨rfl, rfl, rfl⟩
    · have h : SameLists n { n with knownNodes := n.knownNodes.insert info.nodeId info } :=
        ⟨rfl, rfl, rfl⟩
      exact (h.trans (join_relinked .discovery pf _ info).same).bind fun n' =>
        (join_relinked .gossip pf n' info).same.bind fun n'' => ⟨rfl, rfl, rfl⟩

/-- **Discovery does not touch lists.** -/
theorem updateKnownNodes_same (pf : Platform) (infos : List NodeInfo) :
    ∀ n, SameLists n (updateKnownNodes pf n infos).state := by
  induction infos with
  | nil => intro n; exact SameLists.refl n
  | cons info infos ih => intro n; exact (updateKnownNode_same pf n info).bind ih

theorem handleDiscoveryFrame_same (pf : Platform) (n : Node) (frame : Frame) :
    SameLists n (handleDiscoveryFrame pf n frame).state := by
  unfold handleDiscoveryFrame
  split
  · exact SameLists.refl n
  · split
    · exact SameLists.refl n
    · exact updateKnownNodes_same pf _ n

theorem foldl_stamp_same (now : UInt64) (ids : List Str) :
    ∀ n, SameLists n (ids.foldl (fun n id => n.stamp id now) n) := by
  induction ids with
  | nil => intro n; exact SameLists.refl n
  | cons id ids ih =>
    intro n
    have h : SameLists n (n.stamp id now) := ⟨rfl, rfl, rfl⟩
    exact h.trans (ih (n.stamp id now))

theorem enterLoop_same (pf : Platform) (now : UInt64) (n : Node) :
    SameLists n (enterLoop pf now n).state :=
  (updateKnownNodes_same pf _ n).bind fun n' => foldl_stamp_same now _ n'

theorem evictNode_same (now : UInt64) (n : Node) (id : Str) (info : NodeInfo) :
    SameLists n (evictNode now n id info).state := by
  unfold evictNode
  split
  · exact SameLists.refl n
  · split
    · exact SameLists.refl n
    · exact (leave_relinked .discovery n id info).same.bind fun n' =>
        (leave_relinked .gossip n' id info).same.bind fun n'' => ⟨rfl, rfl, rfl⟩

theorem evictDeadNodes_same (now : UInt64) (n : Node) :
    SameLists n (evictDeadNodes now n).state := by
  unfold evictDeadNodes
  generalize n.knownNodes.entries = es
  induction es generalizing n with
  | nil => exact SameLists.refl n
  | cons e es ih => exact (evictNode_same now n e.1 e.2).bind ih

/-- A discovery frame of the node: the entries it knows, and no list. -/
def IsDiscovery (n : Node) (s : Sent) : Prop :=
  ∃ dests now nodes, s = .discovery dests (.packed (Message.gossipNodes n.cfg.nodeId now nodes))

/-- The discovery timer sends discovery frames only, and leaves the lists alone. -/
theorem performDiscoveryGossip_eq (now : UInt64) (n : Node) :
    ∃ new, (performDiscoveryGossip now n).sent = n.sent ++ new ∧
      (∀ s ∈ new, n.IsDiscovery s) ∧ (performDiscoveryGossip now n).db = n.db ∧
      (performDiscoveryGossip now n).cfg = n.cfg := by
  unfold performDiscoveryGossip
  dsimp only
  split
  · exact ⟨[], by simp [stamp], by simp, rfl, rfl⟩
  · refine ⟨[_], rfl, ?_, rfl, rfl⟩
    intro s hs
    rw [List.mem_singleton] at hs
    exact ⟨_, now, _, hs⟩

/-- The discovery timer leaves the lists alone and only sends discovery frames. -/
theorem wake_discoveryTimer (pf : Platform) (evictNow gossipNow : UInt64) (n : Node) :
    (wake pf n (.discoveryTimer evictNow gossipNow)).state.cfg = n.cfg ∧
      (wake pf n (.discoveryTimer evictNow gossipNow)).state.db = n.db ∧
      ∀ s ∈ (wake pf n (.discoveryTimer evictNow gossipNow)).state.sent,
        s ∈ n.sent ∨ n.IsDiscovery s := by
  have he := evictDeadNodes_same evictNow n
  cases hr : evictDeadNodes evictNow n with
  | error x =>
    have hw : wake pf n (.discoveryTimer evictNow gossipNow) = .error x := by
      simp only [wake, hr]; rfl
    rw [hr] at he
    rw [hw]
    refine ⟨he.cfg, he.db, ?_⟩
    intro s hs
    rw [he.sent] at hs
    exact Or.inl hs
  | ok n' =>
    have hw : wake pf n (.discoveryTimer evictNow gossipNow) =
        .ok (performDiscoveryGossip gossipNow n') := by
      simp only [wake, hr]; rfl
    rw [hr] at he
    rw [hw]
    obtain ⟨new, h1, h2, h3, h4⟩ := performDiscoveryGossip_eq gossipNow n'
    refine ⟨h4.trans he.cfg, h3.trans he.db, ?_⟩
    intro s hs
    rw [Throws.state, h1, List.mem_append, show n'.sent = n.sent from he.sent] at hs
    rcases hs with hs | hs
    · exact Or.inl hs
    · obtain ⟨dests, now, nodes, rfl⟩ := h2 s hs
      have hcfg : n'.cfg = n.cfg := he.cfg
      exact Or.inr ⟨dests, now, nodes, by rw [hcfg]⟩

end Node

end Shopping
