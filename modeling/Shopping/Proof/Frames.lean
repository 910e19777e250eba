import Shopping.Node.Peers
import Shopping.System.World

/-!
# Frames that stop a node

No handler checks the frame it received, and the only `catch` of `run_loop` is around its
loop: whatever a handler throws ends the loop. So a node serves a frame exactly if nothing
in it throws (`Sound`): the bytes unpack, the list asked about is there, no merge meets two
items of different UIDs under one key, and the endpoints of new peers are valid.

`no_frame_stops` says so of whole runs of the loop, from any state a node can be in.
-/

namespace Shopping

open Lib

namespace ShoppingList

/-- The list stores an item of UID `uid` under `key`. -/
def UidAt (l : ShoppingList) (key uid : Str) : Prop :=
  ∃ x, l.items.elements.lookup key = some x ∧ x.uid = uid

/-- Items that the two lists store under one key have one UID. -/
def UidsAgree (e l : ShoppingList) : Prop :=
  ∀ entry ∈ e.items.elements.entries, ∀ y ∈ l.items.elements.lookup entry.1, entry.2.uid = y.uid

instance (e l : ShoppingList) : Decidable (e.UidsAgree l) := by unfold UidsAgree; infer_instance

theorem uidsAgree_iff {e l : ShoppingList} :
    e.UidsAgree l ↔ ∀ key u v, e.UidAt key u → l.UidAt key v → u = v := by
  constructor
  · rintro h key u v ⟨x, hx, rfl⟩ ⟨y, hy, rfl⟩
    exact h ⟨key, x⟩ (AList.mem_lookup_iff.1 hx) y hy
  · intro h entry hentry y hy
    exact h entry.1 _ _ ⟨entry.2, AList.mem_lookup_iff.2 hentry, rfl⟩ ⟨y, hy, rfl⟩

/-- `merge` throws nothing iff it merges items of one UID only. -/
theorem merge_isOk_iff {e l : ShoppingList} : (∃ r, e.merge l = .ok r) ↔ e.UidsAgree l := by
  rw [ShoppingList.merge_isOk, ORSet.merge_isOk, uidsAgree_iff]
  constructor
  · rintro h key u v ⟨x, hx, rfl⟩ ⟨y, hy, rfl⟩
    exact ShoppingItem.merge_isOk.1 (h key x y hx hy)
  · intro h key x y hx hy
    exact ShoppingItem.merge_isOk.2 (h key _ _ ⟨x, hx, rfl⟩ ⟨y, hy, rfl⟩)

/-- A merge stores under each key the UIDs that either side stores there. -/
theorem uidAt_merge {e l r : ShoppingList} (h : e.merge l = .ok r) (key uid : Str) :
    r.UidAt key uid ↔ e.UidAt key uid ∨ l.UidAt key uid := by
  unfold UidAt
  rcases ORSet.elements_merge (merge_eq_ok h).1 key with
    ⟨hl, hr⟩ | ⟨y, hl, he, hr⟩ | ⟨x, y, z, hl, he, hm, hr⟩
  · simp [hl, hr]
  · simp [hl, he, hr]
  · obtain ⟨huid, hz, -⟩ := ShoppingItem.merge_eq_ok hm
    simp [hl, he, hr, hz, huid]

theorem not_uidAt_new (listUid key uid : Str) : ¬ (new listUid []).UidAt key uid := by
  rintro ⟨x, hx, -⟩; cases hx

end ShoppingList

namespace Node

/-- The lists whose items the rows hold: the rows themselves, before a message is applied. -/
def storedLists (db : SqliteDb) (key : Str) : List ShoppingList := (db.rows.lookup key).toList

/-- `src` after `l` was merged in: a failing write changes nothing, and after a failing read
the row that is written holds `l` alone. -/
def feed (readCalls writeCalls : Calls) (src : Str → List ShoppingList) (l : ShoppingList) :
    Str → List ShoppingList :=
  if writeCalls.both then
    Function.update src l.key (l :: if readCalls.both then src l.key else [])
  else src

/-- Every list agrees with what its row holds when its turn comes, `i` lists having been
handled. A row that is not read agrees with everything. -/
def Mergeable (stmt : ℕ → Calls) :
    ℕ → (Str → List ShoppingList) → List ShoppingList → Prop
  | _, _, [] => True
  | i, src, l :: ls =>
    ((stmt (2 * i)).both = true → ∀ e ∈ src l.key, e.UidsAgree l) ∧
      Mergeable stmt (i + 1) (feed (stmt (2 * i)) (stmt (2 * i + 1)) src l) ls

instance decidableMergeable (stmt : ℕ → Calls) : ∀ ls i src, Decidable (Mergeable stmt i src ls)
  | [], _, _ => inferInstanceAs (Decidable True)
  | _ :: ls, i, _ =>
    have := decidableMergeable stmt ls (i + 1)
    inferInstanceAs (Decidable (_ ∧ _))

/-- `src` says which UIDs the rows store. -/
def Fed (db : SqliteDb) (src : Str → List ShoppingList) : Prop :=
  ∀ row key uid, (∃ l ∈ db.rows.lookup row, l.UidAt key uid) ↔ ∃ e ∈ src row, e.UidAt key uid

theorem storedLists_fed (db : SqliteDb) : Fed db (storedLists db) := by
  intro row key uid
  simp [storedLists, Option.mem_toList]

/-- The list a handler merges into, and its UIDs. -/
theorem uidAt_existing {db : SqliteDb} {src : Str → List ShoppingList} (hf : Fed db src)
    (l : ShoppingList) (c : Calls) (key uid : Str) :
    ((db.read l.uid c).getD (ShoppingList.new l.uid [])).UidAt key uid ↔
      c.both = true ∧ ∃ e ∈ src l.key, e.UidAt key uid := by
  rw [← hf l.key key uid]
  unfold SqliteDb.read
  split
  · rename_i hc
    rw [ShoppingList.key]
    cases hl : db.rows.lookup (cstr l.uid) with
    | none => simp [ShoppingList.not_uidAt_new]
    | some row => simp [hc]
  · rename_i hc
    simp [hc, ShoppingList.not_uidAt_new]

/-- **Merging a list in throws nothing** iff the list agrees with what its row holds. -/
theorem mergeIncoming_isOk {db : SqliteDb} {src : Str → List ShoppingList} (hf : Fed db src)
    (c c' : Calls) (l : ShoppingList) :
    (∃ db', mergeIncoming c c' db l = .ok db') ↔
      (c.both = true → ∀ e ∈ src l.key, e.UidsAgree l) := by
  have hiff : (∃ db', mergeIncoming c c' db l = .ok db') ↔
      ∃ r, ((db.read l.uid c).getD (ShoppingList.new l.uid [])).merge l = .ok r := by
    unfold mergeIncoming
    dsimp only [ShoppingList.getUid]
    cases ((db.read l.uid c).getD (ShoppingList.new l.uid [])).merge l with
    | ok r => simp
    | error x => simp
  rw [hiff, ShoppingList.merge_isOk_iff, ShoppingList.uidsAgree_iff]
  constructor
  · intro h hc e he
    rw [ShoppingList.uidsAgree_iff]
    intro key u v hu hv
    exact h key u v ((uidAt_existing hf l c key u).2 ⟨hc, e, he, hu⟩) hv
  · intro h key u v hu hv
    obtain ⟨hc, e, he, hu⟩ := (uidAt_existing hf l c key u).1 hu
    exact ShoppingList.uidsAgree_iff.1 (h hc e he) key u v hu hv

/-- Merging a list in, and what the rows hold after it. -/
theorem mergeIncoming_fed {db db' : SqliteDb} {src : Str → List ShoppingList} (hk : db.Keyed)
    (hf : Fed db src) {c c' : Calls} {l : ShoppingList} (h : mergeIncoming c c' db l = .ok db') :
    Fed db' (feed c c' src l) := by
  have hkey : ((db.read l.uid c).getD (ShoppingList.new l.uid [])).key = l.key :=
    existing_key hk c l
  obtain ⟨r, hm, rfl⟩ := mergeIncoming_inv h
  have hr : cstr r.uid = l.key := by
    rw [(ShoppingList.merge_eq_ok hm).2.1]; exact hkey
  unfold SqliteDb.write feed
  split
  · intro row key uid
    dsimp only [ShoppingList.getUid]
    rw [UMap.lookup_insert_ite, hr, Function.update_apply]
    -- the write replaces the row of the list, and leaves the others
    by_cases hrow : row = l.key
    · rw [if_pos hrow, if_pos hrow]
      have hold := uidAt_existing hf l c key uid
      have hnew := ShoppingList.uidAt_merge hm key uid
      rw [hold] at hnew
      simp only [Option.mem_some_iff, exists_eq_left', hnew, List.mem_cons,
        exists_eq_or_imp]
      rw [or_comm]
      refine or_congr Iff.rfl ?_
      split
      · rename_i hc; simp [hc]
      · rename_i hc; simp [hc]
    · rw [if_neg hrow, if_neg hrow]; exact hf row key uid
  · exact hf

/-- **The loop of `GOSSIP_LISTS` throws nothing** iff its lists are mergeable. -/
theorem mergeAll_isOk (stmt : ℕ → Calls) (ls : List ShoppingList) :
    ∀ i db (src : Str → List ShoppingList), db.Keyed → Fed db src →
      ((∃ db', mergeAll stmt i db ls = .ok db') ↔ Mergeable stmt i src ls) := by
  induction ls with
  | nil => intro i db src hk hf; simp [mergeAll, Mergeable]
  | cons l ls ih =>
    intro i db src hk hf
    have hstep := mergeIncoming_isOk hf (stmt (2 * i)) (stmt (2 * i + 1)) l
    rw [mergeAll, Mergeable, ← hstep]
    cases hm : mergeIncoming (stmt (2 * i)) (stmt (2 * i + 1)) db l with
    | error x => simp
    | ok db' =>
      have hk' : db'.Keyed := by
        have := mergeIncoming_keyed hk (stmt (2 * i)) (stmt (2 * i + 1)) l
        rw [hm] at this; exact this
      simp [ih (i + 1) db' _ hk' (mergeIncoming_fed hk hf hm)]

/-- The lists a message merges in. -/
def mergedLists (m : Message) : List ShoppingList :=
  match m.op with
  | .ensureList => m.lists.take 1
  | .gossipLists => m.lists
  | _ => []

/-- `apply_message` throws nothing iff the lists of the message are mergeable; it must have
one where `lists[0]` is read. -/
theorem applyMessage_isOk (stmt : ℕ → Calls) {db : SqliteDb} (hk : db.Keyed) {m : Message}
    (hm : m.lists ≠ [] ∨ m.op = .gossipLists) :
    (∃ db', applyMessage stmt db m = .ok db') ↔
      Mergeable stmt 0 (storedLists db) (mergedLists m) := by
  have hloop := fun ls => mergeAll_isOk stmt ls 0 db (storedLists db) hk (storedLists_fed db)
  obtain ⟨op, origin, ts, lists, nodes⟩ := m
  cases op with
  | ensureList =>
    cases lists with
    | nil => simp at hm
    | cons l ls =>
      -- a single list goes through the loop as it does through the branch of `ENSURE_LIST`
      have hone : mergeAll stmt 0 db [l] = mergeIncoming (stmt 0) (stmt 1) db l := by
        simp only [mergeAll]
        cases mergeIncoming (stmt 0) (stmt 1) db l <;> rfl
      have := hloop [l]
      rw [hone] at this
      exact this
  | gossipLists => exact hloop lists
  | deleteList =>
    cases lists with
    | nil => simp at hm
    | cons l ls => simp [applyMessage, mergedLists, Mergeable]
  | _ => simp [applyMessage, mergedLists, Mergeable]

/-! ### Peers that can be connected to -/

/-- The endpoints that `update_known_nodes` connects to for a new peer are valid. -/
def Joinable (pf : Platform) (n : Node) (info : NodeInfo) : Prop :=
  (info.nodeId ∉ n.connectedDiscovery →
      pf.validEndpoint (endpoint info.host info.discoveryPullPort) = true) ∧
    (info.shardId = n.cfg.shardId → info.nodeId ∉ n.connectedShard →
      pf.validEndpoint (endpoint info.host info.gossipPullPort) = true)

instance (pf : Platform) (n : Node) (info : NodeInfo) : Decidable (Joinable pf n info) := by
  unfold Joinable; infer_instance

/-- The first entry of every node not known yet can be joined. -/
def Connectable (pf : Platform) (n : Node) (infos : List NodeInfo) : Prop :=
  ∀ info ∈ infos, info.nodeId ≠ n.cfg.nodeId → info.nodeId ∉ n.knownNodes →
    infos.find? (fun i => i.nodeId = info.nodeId) = some info → Joinable pf n info

instance (pf : Platform) (n : Node) (infos : List NodeInfo) : Decidable (Connectable pf n infos) := by
  unfold Connectable; infer_instance

/-- A join returns iff the endpoint it connects to is valid. -/
theorem join_isOk (k : Push) (pf : Platform) (n : Node) (info : NodeInfo) :
    (∃ n', join k pf n info = .ok n') ↔ (k.Takes n.cfg info → info.nodeId ∉ n.connected k →
      pf.validEndpoint (k.endpoint info) = true) := by
  unfold join connect
  by_cases ht : k.Takes n.cfg info
  · by_cases hc : info.nodeId ∈ n.connected k
    · simp [hc]
    · by_cases hv : pf.validEndpoint (k.endpoint info) = true
      · simp [ht, hc, hv]
      · simp [ht, hc, hv]
  · simp [ht]

/-- What an entry of node `id` changes: what is known and connected of `id`. -/
structure OnlyOf (id : Str) (n n' : Node) : Prop where
  cfg : n'.cfg = n.cfg
  known : ∀ id', id' ≠ id → (id' ∈ n'.knownNodes ↔ id' ∈ n.knownNodes)
  discovery : ∀ id', id' ≠ id → (id' ∈ n'.connectedDiscovery ↔ id' ∈ n.connectedDiscovery)
  shard : ∀ id', id' ≠ id → (id' ∈ n'.connectedShard ↔ id' ∈ n.connectedShard)

/-- Entries of other nodes are joinable as before. -/
theorem OnlyOf.joinable {id : Str} {n n' : Node} (h : OnlyOf id n n') (pf : Platform)
    {info : NodeInfo} (hid : info.nodeId ≠ id) : Joinable pf n' info ↔ Joinable pf n info := by
  unfold Joinable
  rw [h.discovery _ hid, h.shard _ hid, h.cfg]

/-- **One entry**: it throws nothing iff its node is known or can be joined. -/
theorem updateKnownNode_isOk (pf : Platform) (n : Node) (info : NodeInfo) :
    (∃ n', updateKnownNode pf n info = .ok n') ↔
      (info.nodeId ≠ n.cfg.nodeId → info.nodeId ∉ n.knownNodes → Joinable pf n info) := by
  unfold updateKnownNode
  by_cases hself : info.nodeId = n.cfg.nodeId
  · simp [hself]
  rw [if_neg hself]
  cases hl : n.knownNodes.lookup info.nodeId with
  | some known =>
    have hmem : info.nodeId ∈ n.knownNodes := AList.lookup_isSome.1 (by rw [hl]; rfl)
    dsimp only
    split <;> simp [hmem]
  | none =>
    have hmem : info.nodeId ∉ n.knownNodes := AList.lookup_eq_none.1 hl
    dsimp only
    have hd := join_isOk .discovery pf
      { n with knownNodes := n.knownNodes.insert info.nodeId info } info
    unfold joinDiscovery joinShard
    cases hj : join .discovery pf
      { n with knownNodes := n.knownNodes.insert info.nodeId info } info with
    | error x =>
      rw [hj] at hd
      have hbad : ¬ Joinable pf n info := by
        intro hjoin
        obtain ⟨n', hn'⟩ := hd.2 fun _ => hjoin.1
        cases hn'
      simp [Except.bind, hself, hmem, hbad]
    | ok n1 =>
      rw [hj] at hd
      have hfirst := hd.1 ⟨n1, rfl⟩ trivial
      -- the first join leaves alone what the second one looks at
      have hs := join_isOk .gossip pf n1 info
      rw [show n1.cfg = n.cfg by rw [join_eq_ok hj]; rfl,
        show n1.connected .gossip = n.connected .gossip by rw [join_eq_ok hj]; rfl] at hs
      have hiff : Joinable pf n info ↔ ∃ n', join .gossip pf n1 info = .ok n' := by
        rw [hs]; exact and_iff_right hfirst
      simp only [Except.bind, hself, hmem, hiff, not_false_eq_true, ne_eq, forall_const]
      cases join .gossip pf n1 info with
      | error x => simp
      | ok n2 => simp

/-- **One entry**: what it changes, and that its node is known after it. -/
theorem updateKnownNode_onlyOf {pf : Platform} {n n' : Node} {info : NodeInfo}
    (h : updateKnownNode pf n info = .ok n') :
    OnlyOf info.nodeId n n' ∧
      (info.nodeId = n.cfg.nodeId ∨ info.nodeId ∈ n'.knownNodes) := by
  have hsame : ∀ id', id' ≠ info.nodeId → SameOf id' n n' := by
    intro id' hid
    have := updateKnownNode_sameOf pf n hid
    rwa [h] at this
  have hturn : n'.cfg = n.cfg ∧ (info.nodeId = n.cfg.nodeId ∨ info.nodeId ∈ n'.knownNodes) := by
    cases updateKnownNode_turn h with
    | own hid => exact ⟨rfl, Or.inl hid⟩
    | stale known hid hl hts => exact ⟨rfl, Or.inr (AList.lookup_isSome.1 (by rw [hl]; rfl))⟩
    | renewed known hid hl hts => exact ⟨rfl, Or.inr (by simp)⟩
    | joined hid hl => exact ⟨rfl, Or.inr (by simp)⟩
  refine ⟨⟨hturn.1, fun id' hid => ?_, fun id' hid => (hsame id' hid).discovery,
    fun id' hid => (hsame id' hid).shard⟩, hturn.2⟩
  rw [← AList.lookup_isSome, ← AList.lookup_isSome, (hsame id' hid).known]

/-- **A discovery message throws nothing** iff its new nodes can be joined. -/
theorem updateKnownNodes_isOk (pf : Platform) (infos : List NodeInfo) : ∀ n,
    (∃ n', updateKnownNodes pf n infos = .ok n') ↔ Connectable pf n infos := by
  induction infos with
  | nil => intro n; simp [updateKnownNodes, Connectable]
  | cons info infos ih =>
    intro n
    have hfirst := updateKnownNode_isOk pf n info
    have hhead : Connectable pf n (info :: infos) →
        info.nodeId ≠ n.cfg.nodeId → info.nodeId ∉ n.knownNodes → Joinable pf n info := by
      intro h hself hnew
      exact h info List.mem_cons_self hself hnew (by simp)
    rw [updateKnownNodes]
    cases hu : updateKnownNode pf n info with
    | error x =>
      rw [hu] at hfirst
      constructor
      · rintro ⟨n', hn'⟩; cases hn'
      · intro h
        obtain ⟨n', hn'⟩ := hfirst.2 (hhead h)
        cases hn'
    | ok n1 =>
      rw [hu] at hfirst
      have hjoin := hfirst.1 ⟨n1, rfl⟩
      obtain ⟨honly, hknown⟩ := updateKnownNode_onlyOf hu
      show (∃ n', updateKnownNodes pf n1 infos = .ok n') ↔ _
      rw [ih n1]
      constructor
      · intro h i hi hself hnew hfind
        by_cases hid : i.nodeId = info.nodeId
        · -- `i` is the first entry of its node, so it is `info` itself
          rw [List.find?_cons_of_pos (by simp [hid])] at hfind
          cases hfind; exact hjoin hself hnew
        · rw [List.find?_cons_of_neg (by simpa using Ne.symm hid)] at hfind
          have hi' : i ∈ infos := List.mem_of_find?_eq_some hfind
          have hnew' : i.nodeId ∉ n1.knownNodes := by rwa [honly.known _ hid]
          rw [← honly.joinable pf hid]
          exact h i hi' (by rwa [honly.cfg]) hnew' hfind
      · intro h i hi hself hnew hfind
        rw [honly.cfg] at hself
        have hid : i.nodeId ≠ info.nodeId := by
          rintro heq
          rw [heq] at hself hnew
          exact hknown.elim hself hnew
        rw [honly.known _ hid] at hnew
        rw [honly.joinable pf hid]
        refine h i (List.mem_cons_of_mem _ hi) hself hnew ?_
        rwa [List.find?_cons_of_neg (by simpa using Ne.symm hid)]

/-! ### The loop -/

/-- What every node of a deployment satisfies from its construction on. -/
structure Ready (n : Node) : Prop where
  shards : n.cfg.numShards ≠ 0
  keyed : n.db.Keyed

/-- The turn is the receipt of a frame. -/
def Wake.IsFrame : Wake → Prop
  | .clientFrame .. => True
  | .gossipFrame .. => True
  | .discoveryFrame .. => True
  | _ => False

instance : DecidablePred Wake.IsFrame := fun w => by cases w <;> unfold Wake.IsFrame <;> infer_instance

/-- How many replies the turn owes. -/
def Wake.requests : Wake → ℕ
  | .clientFrame .. => 1
  | _ => 0

def isReply : Sent → Bool
  | .reply _ => true
  | _ => false

/-- The replies a node has sent. -/
def replies (n : Node) : ℕ := n.sent.countP isReply

/-- The turn returns to the loop, a request having been answered by one reply. -/
def Served (pf : Platform) (n : Node) (w : Wake) : Prop :=
  ∃ n', wake pf n w = .ok n' ∧ n'.replies = n.replies + w.requests

/-- Nothing in a frame makes its handler throw. -/
def Sound (pf : Platform) (n : Node) : Wake → Prop
  | .clientFrame env frame =>
    ∃ m ∈ frame.decode pf, m.op = .getNodes ∨ ∃ l ∈ m.lists.head?,
      n.shardForList pf l.uid = n.cfg.shardId →
        Mergeable env.stmt 0 (storedLists n.db) (mergedLists m)
  | .gossipFrame env frame =>
    ∃ m ∈ frame.decode pf, m.op = .gossipLists →
      Mergeable env.stmt 0 (storedLists n.db) (mergedLists m)
  | .discoveryFrame frame =>
    ∃ m ∈ frame.decode pf, m.op = .gossipNodes → Connectable pf n m.nodes
  | _ => True

theorem replies_gossip {n : Node} {new : List Sent} (h : ∀ s ∈ new, n.IsGossip s) :
    new.countP isReply = 0 := by
  rw [List.countP_eq_zero]
  intro s hs
  obtain ⟨now, c, rfl⟩ := h s hs
  simp [isReply]

/-- **A client frame is served iff it is sound.** -/
theorem clientFrame_served (pf : Platform) {n : Node} (hn : n.Ready) (env : Env) (frame : Frame) :
    Served pf n (.clientFrame env frame) ↔ Sound pf n (.clientFrame env frame) := by
  have hreply : ∀ n' : Node, n'.sent = n.sent → ∀ frame',
      (n'.reply frame').replies = n.replies + 1 := by
    intro n' hn' frame'
    simp [replies, hn', List.countP_append, isReply]
  have happly := fun m hm => applyMessage_isOk env.stmt hn.keyed (m := m) hm
  unfold Served Sound
  have hwake : wake pf n (.clientFrame env frame) = handleClientFrame pf env n frame := rfl
  rw [hwake]
  have ht := handleClientFrame_turn pf env n frame
  generalize handleClientFrame pf env n frame = r at ht ⊢
  cases ht with
  | undecodable hd => simp [hd]
  | nodes m hd hop =>
    refine iff_of_true ⟨_, rfl, hreply n rfl _⟩ ⟨m, hd, Or.inl hop⟩
  | empty m hd hop hl => simp [hd, hop, hl]
  | refused m l ls hd hop hl hs =>
    refine iff_of_true ⟨_, rfl, hreply n rfl _⟩ ⟨m, hd, Or.inr ⟨l, by simp [hl], ?_⟩⟩
    intro h; exact absurd h hs
  | found m l ls row hd hop hl hs hr =>
    refine iff_of_true ⟨_, rfl, hreply n rfl _⟩ ⟨m, hd, Or.inr ⟨l, by simp [hl], ?_⟩⟩
    intro _; simp [mergedLists, hop, Mergeable]
  | absent m l ls hd hop hl hs hr =>
    refine iff_of_true ⟨_, rfl, hreply n rfl _⟩ ⟨m, hd, Or.inr ⟨l, by simp [hl], ?_⟩⟩
    intro _; simp [mergedLists, hop, Mergeable]
  | thrown m l ls e db hd hop hop' hl hs ha =>
    have hbad : ¬ Mergeable env.stmt 0 (storedLists n.db) (mergedLists m) := by
      rw [← happly m (Or.inl (by simp [hl])), ha]
      rintro ⟨db', h⟩; cases h
    simp [hd, hop, hl, hs, hbad]
  | applied m l ls db hd hop hop' hl hs ha =>
    have hgood := (happly m (Or.inl (by simp [hl]))).1 ⟨db, ha⟩
    refine iff_of_true ⟨_, rfl, ?_⟩ ⟨m, hd, Or.inr ⟨l, by simp [hl], fun _ => hgood⟩⟩
    obtain ⟨new, he, hg⟩ := eagerFanout_eq env { n with db }
    rw [he]
    -- the fan-out comes before the reply and adds none
    simp [replies, Wake.requests, replies_gossip hg, isReply]

/-- **A gossip frame is served iff it is sound.** -/
theorem gossipFrame_served (pf : Platform) {n : Node} (hn : n.Ready) (env : Env) (frame : Frame) :
    Served pf n (.gossipFrame env frame) ↔ Sound pf n (.gossipFrame env frame) := by
  unfold Served Sound wake handleGossipFrame
  cases hd : frame.decode pf with
  | none => simp [hd]
  | some m =>
    simp only [hd, Option.mem_some_iff, exists_eq_left']
    by_cases hop : m.op = .gossipLists
    · have happly := applyMessage_isOk env.stmt hn.keyed (m := m) (Or.inr hop)
      rw [forall_prop_of_true hop, ← happly]
      simp only [if_pos hop]
      cases applyMessage env.stmt n.db m with
      | ok db => simp [replies, Wake.requests]
      | error x => simp
    · simp [hop, Wake.requests]

/-- **A discovery frame is served iff it is sound.** -/
theorem discoveryFrame_served (pf : Platform) (n : Node) (frame : Frame) :
    Served pf n (.discoveryFrame frame) ↔ Sound pf n (.discoveryFrame frame) := by
  have hsame := handleDiscoveryFrame_same pf n frame
  have hsent : ∀ n', wake pf n (.discoveryFrame frame) = .ok n' → n'.replies = n.replies := by
    intro n' h
    have h : handleDiscoveryFrame pf n frame = .ok n' := h
    rw [h] at hsame
    rw [replies, replies, show n'.sent = n.sent from hsame.sent]
  have hserved : Served pf n (.discoveryFrame frame) ↔
      ∃ n', wake pf n (.discoveryFrame frame) = .ok n' := by
    refine exists_congr fun n' => and_iff_left_of_imp fun h => ?_
    exact hsent n' h
  rw [hserved]
  unfold Sound wake handleDiscoveryFrame
  cases hd : frame.decode pf with
  | none => simp [hd]
  | some m =>
    simp only [hd, Option.mem_some_iff, exists_eq_left']
    by_cases hop : m.op = .gossipNodes
    · rw [forall_prop_of_true hop, ← updateKnownNodes_isOk]; simp [hop]
    · simp [hop]

theorem wake_served (pf : Platform) {n : Node} (hn : n.Ready) (w : Wake) :
    (w.IsFrame → Served pf n w) ↔ Sound pf n w := by
  cases w with
  | clientFrame env frame => rw [← clientFrame_served pf hn]; simp [Wake.IsFrame]
  | gossipFrame env frame => rw [← gossipFrame_served pf hn]; simp [Wake.IsFrame]
  | discoveryFrame frame => rw [← discoveryFrame_served pf]; simp [Wake.IsFrame]
  | stateTimer now c => simp [Wake.IsFrame, Sound]
  | discoveryTimer evictNow gossipNow => simp [Wake.IsFrame, Sound]

/-- A turn that returns leaves a node as it can be. -/
theorem wake_ready {pf : Platform} {n n' : Node} (hn : n.Ready) {w : Wake}
    (h : wake pf n w = .ok n') : n'.Ready := by
  have hfields : n'.cfg = n.cfg ∧ n'.db.Keyed := by
    cases w with
    | clientFrame env frame =>
      obtain ⟨db, new, hs, hdb⟩ := (handleClientFrame_turn pf env n frame).state_eq
      rw [show handleClientFrame pf env n frame = .ok n' from h] at hs
      obtain rfl : n' = { n with db := db, sent := n.sent ++ new } := hs
      refine ⟨rfl, ?_⟩
      rcases hdb with rfl | ⟨m, -, -, rfl⟩
      · exact hn.keyed
      · exact applyMessage_keyed env.stmt hn.keyed m
    | gossipFrame env frame =>
      obtain ⟨db, hs, hdb⟩ := handleGossipFrame_state pf env n frame
      rw [show handleGossipFrame pf env n frame = .ok n' from h] at hs
      obtain rfl : n' = { n with db } := hs
      refine ⟨rfl, ?_⟩
      rcases hdb with rfl | ⟨m, -, -, rfl, -⟩
      · exact hn.keyed
      · exact applyMessage_keyed env.stmt hn.keyed m
    | discoveryFrame frame =>
      have hs := handleDiscoveryFrame_same pf n frame
      rw [show handleDiscoveryFrame pf n frame = .ok n' from h] at hs
      exact ⟨hs.cfg, by rw [show n'.db = n.db from hs.db]; exact hn.keyed⟩
    | stateTimer now c =>
      cases h
      obtain ⟨new, he, -⟩ := performShardGossip_eq now c n
      rw [he]; exact ⟨rfl, hn.keyed⟩
    | discoveryTimer evictNow gossipNow =>
      obtain ⟨hcfg, hdb, -⟩ := wake_discoveryTimer pf evictNow gossipNow n
      rw [h] at hcfg hdb
      exact ⟨hcfg, by rw [show n'.db = n.db from hdb]; exact hn.keyed⟩
  exact ⟨by rw [hfields.1]; exact hn.shards, hfields.2⟩

/-- `P` holds whenever the loop takes up what it finds to do. -/
def Throughout (pf : Platform) (P : Node → Wake → Prop) : Node → List Wake → Prop
  | _, [] => True
  | n, w :: ws => P n w ∧ ∀ n', wake pf n w = .ok n' → Throughout pf P n' ws

theorem throughout_iff {pf : Platform} {P : Node → Wake → Prop} (ws : List Wake) : ∀ n,
    Throughout pf P n ws ↔
      ∀ pre w post n', ws = pre ++ w :: post → runLoop pf n pre = .ok n' → P n' w := by
  induction ws with
  | nil => intro n; simp [Throughout]
  | cons w ws ih =>
    intro n
    constructor
    · rintro ⟨hfirst, hrest⟩ pre w' post n' heq hrun
      cases pre with
      | nil =>
        cases heq; cases hrun; exact hfirst
      | cons v pre =>
        cases heq
        rw [runLoop] at hrun
        cases hw : wake pf n w with
        | error x => rw [hw] at hrun; cases hrun
        | ok n1 =>
          rw [hw] at hrun
          exact (ih n1).1 (hrest n1 hw) pre w' post n' rfl hrun
    · intro h
      refine ⟨h [] w ws n rfl rfl, fun n1 hw => (ih n1).2 ?_⟩
      intro pre w' post n' heq hrun
      refine h (w :: pre) w' post n' (by rw [heq]; rfl) ?_
      rw [runLoop, hw]; exact hrun

/-- Runs of the loop from a ready node are along ready nodes. -/
theorem throughout_congr {pf : Platform} {P Q : Node → Wake → Prop}
    (hpq : ∀ n w, n.Ready → (P n w ↔ Q n w)) (ws : List Wake) : ∀ n, n.Ready →
      (Throughout pf P n ws ↔ Throughout pf Q n ws) := by
  induction ws with
  | nil => intro n _; rfl
  | cons w ws ih =>
    intro n hn
    refine and_congr (hpq n w hn) (forall₂_congr fun n' h => ?_)
    exact ih n' (wake_ready hn h)

/-- **No frame stops the node**: whatever the loop has taken up before, it serves the next
frame. -/
def NoFrameStops (pf : Platform) (n : Node) (ws : List Wake) : Prop :=
  ∀ pre w post n', ws = pre ++ w :: post → runLoop pf n pre = .ok n' →
    w.IsFrame → Served pf n' w

theorem noFrameStops_iff {pf : Platform} {n : Node} {ws : List Wake} :
    NoFrameStops pf n ws ↔ Throughout pf (fun n w => w.IsFrame → Served pf n w) n ws :=
  (throughout_iff ws n).symm

instance (pf : Platform) (n : Node) (w : Wake) : Decidable (Served pf n w) :=
  match h : wake pf n w with
  | .ok n' => decidable_of_iff (n'.replies = n.replies + w.requests) (by simp [Served, h])
  | .error _ => isFalse (by simp [Served, h])

instance (pf : Platform) (n : Node) : DecidablePred (Sound pf n)
  | .clientFrame _ _ => by unfold Sound; infer_instance
  | .gossipFrame _ _ => by unfold Sound; infer_instance
  | .discoveryFrame _ => by unfold Sound; infer_instance
  | .stateTimer _ _ => isTrue trivial
  | .discoveryTimer _ _ => isTrue trivial

instance decidableThroughout (pf : Platform) (P : Node → Wake → Prop)
    [∀ n, DecidablePred (P n)] :
    ∀ ws n, Decidable (Throughout pf P n ws)
  | [], _ => isTrue trivial
  | w :: ws, n =>
    have hrest : Decidable (∀ n', wake pf n w = .ok n' → Throughout pf P n' ws) :=
      match h : wake pf n w with
      | .ok n' =>
        have := decidableThroughout pf P ws n'
        decidable_of_iff (Throughout pf P n' ws) (by simp)
      | .error _ => isTrue (by simp)
    inferInstanceAs (Decidable (_ ∧ _))

/-- ZMQ refuses endpoints with a minus sign. -/
def samplePf : Platform := { Platform.sample with validEndpoint := fun ep => decide (45 ∉ ep) }

/-- Node 0 when it enters its loop over an empty database. -/
def sampleLoop : Node := (enterLoop samplePf 0 (new (Deployment.sample.cfg 0) {} 0)).state

theorem sampleLoop_ready : sampleLoop.Ready := by
  have hsame := enterLoop_same samplePf 0 (new (Deployment.sample.cfg 0) {} 0)
  refine ⟨?_, ?_⟩
  · rw [sampleLoop, hsame.cfg]; decide
  · rw [sampleLoop, hsame.db]; exact SqliteDb.Keyed.empty

/-- All clocks at zero, no call fails. -/
def sampleEnv : Env where
  now _ := 0

/-- A list with one item, of UID `uid`, stored under `key`. -/
def sampleList (key uid : Str) : ShoppingList :=
  { ShoppingList.new (sampleUid 0) [] with
    items := { elements := AList.singleton key (ShoppingItem.new [] uid [] 1 0) } }

/-- An `ENSURE_LIST` of a sample list. -/
def sampleEnsure (key uid : Str) : Wake :=
  .clientFrame sampleEnv (.packed (Message.ensureList [] 0 (sampleList key uid)))

/-- A `GOSSIP_NODES` about a new node whose discovery port is `port`. -/
def samplePeer (port : Int32) : Wake :=
  .discoveryFrame (.packed (Message.gossipNodes [7] 0
    [{ nodeId := [7], host := str "h", gossipPullPort := 17, discoveryPullPort := port }]))

/-- Bytes that are not msgpack, a request without a list, an item under the UID of another
one, and a peer with a negative port. -/
def stoppingRuns : List (List Wake) :=
  [[.clientFrame sampleEnv (.raw (str "hello"))],
    [.clientFrame sampleEnv (.packed { op := .ensureList, origin := [], ts := 0 })],
    [sampleEnsure (str "a") (str "a"), sampleEnsure (str "a") (str "b")],
    [samplePeer (-1)]]

/-- **No frame stops a node iff all its frames are sound.** -/
theorem no_frame_stops (pf : Platform) {n : Node} (hn : n.Ready) (ws : List Wake) :
    NoFrameStops pf n ws ↔ Throughout pf (Sound pf) n ws := by
  have hturn : Throughout pf (fun n w => w.IsFrame → Served pf n w) n ws ↔
      Throughout pf (Sound pf) n ws :=
    throughout_congr (fun n w hn => wake_served pf hn w) ws n hn
  rw [← hturn, throughout_iff]
  rfl

/-- Requests, gossip and a new peer, all sound. -/
def soundRun : List Wake :=
  [.clientFrame sampleEnv (.packed (Message.getNodes [] 0)),
    sampleEnsure (str "a") (str "a"),
    .gossipFrame sampleEnv (.packed (Message.gossipLists [] 0
      [sampleList (str "a") (str "a"), sampleList (str "b") (str "b")])),
    samplePeer 27, .discoveryTimer 0 0, sampleEnsure (str "b") (str "b")]

theorem soundRun_served : NoFrameStops samplePf sampleLoop soundRun :=
  (no_frame_stops samplePf sampleLoop_ready soundRun).2 (by decide +kernel)

theorem frames_stop_node : sampleLoop.Ready ∧
    ∀ ws ∈ stoppingRuns, ¬ NoFrameStops samplePf sampleLoop ws := by
  refine ⟨sampleLoop_ready, ?_⟩
  intro ws hws
  rw [noFrameStops_iff]
  revert ws
  decide +kernel

end Node

end Shopping
