import Shopping.System.Wire
import Shopping.Proof.Editing
import Shopping.Proof.Lengths

/-!
# A node on bytes does what a node does

A store of blobs stands for a database when its rows read as lists that are alike, a frame for a
message when its bytes read as one that is alike (`Store.Stands`, `FrameIs`). The handlers of
`Wire.Node` keep this, as long as every blob they bind is within SQLite's limit and every frame
they send shorter than `2^32` bytes (`Small`): they return or throw as those of `Node` do, and
leave stores and frames that stand for the same (`handleClientFrame_stands`,
`handleGossipFrame_stands`, `handleDiscoveryFrame_stands`, `discoveryTimer_stands`).
-/

namespace Shopping.Wire

open Lib Lib.Msgpack

/-- The blob reads as a list that is alike. -/
def HoldsList (blob : Bytes) (l : ShoppingList) : Prop :=
  ∃ l', BlobDb.readBlob blob = .ok (some l') ∧ l'.Alike l

/-- The store stands for the database. -/
def Store.Stands (s : Store) (db : SqliteDb) : Prop := UMap.Rows HoldsList s.db.rows db.rows

/-- Every blob bound was within the limit. -/
def Store.Small (s : Store) : Prop := ∀ blob ∈ s.bound, blob.length ≤ BlobDb.maxLength

variable {s : Store} {db : SqliteDb} {l l' : ShoppingList} {f : Format}

theorem Store.Stands.empty : Store.Stands {} {} := UMap.Rows.empty

/-- A read of the blobs unpacks a list that is alike to the stored one. -/
theorem Store.Stands.read (h : s.Stands db) (uid : Str) :
    ∃ found, s.db.read uid .ok = .ok found ∧
      Option.Rel ShoppingList.Alike found (db.read uid .ok) := by
  have hrow := UMap.Rows.lookup h (cstr uid)
  rw [BlobDb.read, if_pos Calls.both_ok, SqliteDb.read_ok]
  generalize s.db.rows.lookup (cstr uid) = blob, db.rows.lookup (cstr uid) = row at hrow
  cases hrow with
  | none => exact ⟨none, rfl, .none⟩
  | some hblob =>
    obtain ⟨l', hread, hal⟩ := hblob
    exact ⟨some l', hread, .some hal⟩

/-- A blob that was bound within the limit reads as the list written. -/
theorem Store.Stands.write (h : s.Stands db) (hl : l.Alike l') {order : ListOrder}
    (hlen : (l.pack order).length ≤ BlobDb.maxLength) :
    (s.write order l).Stands (db.write l' .ok).1 := by
  have hfits : l.Fits := @ShoppingList.fits_of_length l order
    (hlen.trans_lt (by decide))
  obtain ⟨l'', hread, hal⟩ := hfits.readBlob_pack order
  have hwrite : (s.db.write order l .ok).1.rows = s.db.rows.insert (cstr l.getUid) (l.pack order) := by
    simp only [BlobDb.write, BlobDb.bindBlob_eq hlen, Calls.both_ok, if_true]
  have huid : l.getUid = l'.getUid := hl.uid
  show UMap.Rows HoldsList (s.db.write order l .ok).1.rows (db.rows.insert (cstr l'.getUid) l')
  rw [hwrite, huid]
  exact UMap.Rows.insert h _ ⟨l'', hread, hal.symm.trans hl⟩

/-- A deletion drops the row of the same key. -/
theorem Store.Stands.deleteList (h : s.Stands db) (uid : Str) :
    (s.deleteList uid).Stands (db.deleteList uid .ok).1 := UMap.Rows.erase h (cstr uid)

/-- All blobs can be read, as the stored lists in their order. -/
theorem Store.Stands.readAll (h : s.Stands db) :
    ∃ lists, s.db.readAll .ok = .ok lists ∧
      List.Forall₂ ShoppingList.Alike lists (db.readAll .ok) := by
  have hread : ∀ (blobs : List Bytes) (rows : List ShoppingList), List.Forall₂ HoldsList blobs rows →
      ∃ lists, blobs.mapM BlobDb.readBlob = .ok (lists.map some) ∧
        List.Forall₂ ShoppingList.Alike lists rows := by
    intro blobs rows h
    induction h with
    | nil => exact ⟨[], rfl, .nil⟩
    | cons hblob _ ih =>
      obtain ⟨l', hl', hal⟩ := hblob
      obtain ⟨lists, hlists, hals⟩ := ih
      refine ⟨l' :: lists, ?_, .cons hal hals⟩
      rw [List.mapM_cons, hl', hlists]
      rfl
  obtain ⟨lists, hlists, hal⟩ := hread _ _ (UMap.Rows.values h)
  have hscan : SqliteDb.scan Calls.ok.step 0 (s.db.rows.entries.map fun row => row.2) =
      s.db.rows.entries.map fun row => row.2 := SqliteDb.scan_ok _ 0
  refine ⟨lists, ?_, by rw [SqliteDb.readAll_ok]; exact hal⟩
  rw [BlobDb.readAll, if_pos (show Calls.ok.prepare = true from rfl), hscan, hlists]
  show Except.ok (List.reduceOption (lists.map some)) = _
  rw [List.reduceOption, List.filterMap_map]
  simp

/-- The bytes read as the frame. -/
def FrameIs (bytes : Bytes) : Frame → Prop
  | .packed m => ∀ op ts, ∃ m', Message.fromZmq op ts bytes = some m' ∧ m'.Alike m
  | .raw raw => bytes = raw ∧ raw = wrongShard

theorem FrameIs.wrongShard : FrameIs wrongShard (.raw wrongShard) := ⟨rfl, rfl⟩

/-- The bytes of a message short enough stand for every message that is alike. -/
theorem FrameIs.toZmq {m m' : Message} (h : m.Alike m') {order : ℕ → ListOrder}
    (hlen : (m.toZmq order).length < 2 ^ 32) : FrameIs (m.toZmq order) (.packed m') := by
  intro op ts
  obtain ⟨m'', hm'', hal⟩ := (Message.fits_of_length hlen).fromZmq_toZmq order op ts
  exact ⟨m'', hm'', hal.symm.trans h⟩

/-- A frame unpacks on both levels to messages that are alike, or on neither. -/
theorem FrameIs.decode {bytes : Bytes} {frame : Frame} (h : FrameIs bytes frame) (pf : Platform)
    (f : Format) : Option.Rel Message.Alike (f.decode bytes) (frame.decode pf) := by
  cases frame with
  | packed m =>
    obtain ⟨m', hm', hal⟩ := h f.op f.ts
    rw [Format.decode, hm', Frame.decode_packed]
    exact .some hal
  | raw raw =>
    obtain ⟨rfl, rfl⟩ := h
    rw [Format.decode, Message.fromZmq_wrongShard, Frame.decode_wrongShard]
    exact .none

def Sent.frame : Sent → Bytes
  | .reply frame => frame
  | .gossip _ frame => frame
  | .discovery _ frame => frame

/-- The bytes handed over read as what is handed over. -/
inductive SentIs : Sent → Shopping.Sent → Prop
  | reply {bytes : Bytes} {frame : Frame} (h : FrameIs bytes frame) :
      SentIs (.reply bytes) (.reply frame)
  | gossip (endpoints : List Str) {bytes : Bytes} {frame : Frame} (h : FrameIs bytes frame) :
      SentIs (.gossip endpoints bytes) (.gossip endpoints frame)
  | discovery (endpoints : List Str) {bytes : Bytes} {frame : Frame} (h : FrameIs bytes frame) :
      SentIs (.discovery endpoints bytes) (.discovery endpoints frame)

/-- Both calls return, or both throw the same, in states that `R` relates. -/
def EndAlike {σ τ : Type*} (R : σ → τ → Prop) : Method σ → Method τ → Prop
  | .ok x, .ok y => R x y
  | .error (e, x), .error (e', y) => e = e' ∧ R x y
  | _, _ => False

/-- Methods that end alike leave related states, and both return or both throw. -/
theorem EndAlike.state {σ τ : Type*} {R : σ → τ → Prop} {r : Method σ} {r' : Method τ}
    (h : EndAlike R r r') : R r.state r'.state ∧ r.returned = r'.returned := by
  cases r with
  | ok x =>
    cases r' with
    | ok y => exact ⟨h, rfl⟩
    | error y => exact h.elim
  | error x =>
    cases r' with
    | ok y => exact h.elim
    | error y => exact ⟨h.2, rfl⟩

namespace Node

/-- Blobs that have been bound stay in the record of the store. -/
theorem mergeIncoming_bound (order : ListOrder) (s : Store) (l : ShoppingList) :
    s.bound <+: (mergeIncoming order s l).state.bound := by
  unfold mergeIncoming
  split
  · exact List.prefix_rfl
  · split
    · exact List.prefix_append _ _
    · exact List.prefix_rfl

/-- Blobs that have been bound stay through the loop. -/
theorem mergeAll_bound (f : Format) (ls : List ShoppingList) : ∀ (i : ℕ) (s : Store),
    s.bound <+: (mergeAll f i s ls).state.bound := by
  induction ls with
  | nil => intro i s; exact List.prefix_rfl
  | cons l ls ih =>
    intro i s
    have hfirst := mergeIncoming_bound (f.blob i) s l
    rw [mergeAll]
    cases h : mergeIncoming (f.blob i) s l with
    | ok s' => rw [h] at hfirst; exact hfirst.trans (ih (i + 1) s')
    | error x => rw [h] at hfirst; exact hfirst

/-- Both read the same, merge the same and write the same. -/
theorem mergeIncoming_stands (hs : s.Stands db) (hl : l.Alike l') {order : ListOrder}
    (hsmall : (mergeIncoming order s l).state.Small) :
    EndAlike Store.Stands (mergeIncoming order s l) (Shopping.Node.mergeIncoming .ok .ok db l') := by
  have huid : l.getUid = l'.getUid := hl.uid
  obtain ⟨found, hread, hrel⟩ := hs.read l.getUid
  have hexisting : (found.getD (ShoppingList.new l.getUid [])).Alike
      ((db.read l'.getUid .ok).getD (ShoppingList.new l'.getUid [])) := by
    rw [← huid]
    generalize db.read l.getUid .ok = row at hrel
    cases hrel with
    | none => exact .refl _
    | some hal => exact hal
  have hmerge := hexisting.merge hl
  unfold mergeIncoming at hsmall ⊢
  unfold Shopping.Node.mergeIncoming
  rw [hread] at hsmall ⊢
  dsimp only at hsmall ⊢
  generalize (found.getD (ShoppingList.new l.getUid [])).merge l = r at hsmall hmerge ⊢
  generalize ((db.read l'.getUid .ok).getD (ShoppingList.new l'.getUid [])).merge l' = r' at hmerge ⊢
  cases r with
  | ok merged =>
    cases r' with
    | ok merged' =>
      exact hs.write hmerge (hsmall _ (List.mem_append_right _ (List.mem_singleton.2 rfl)))
    | error x => exact hmerge.elim
  | error x =>
    cases r' with
    | ok merged' => exact hmerge.elim
    | error x' => exact ⟨hmerge, hs⟩

/-- **The loop of `GOSSIP_LISTS`**, list by list: what the rest binds is small since all is. -/
theorem mergeAll_stands {ls ls' : List ShoppingList}
    (hls : List.Forall₂ ShoppingList.Alike ls ls') : ∀ (i : ℕ) (s : Store) (db : SqliteDb),
      s.Stands db → (mergeAll f i s ls).state.Small →
      EndAlike Store.Stands (mergeAll f i s ls) (Shopping.Node.mergeAll (fun _ => .ok) i db ls') := by
  induction hls with
  | nil => intro i s db hs _; exact hs
  | @cons l l' ls ls' hl _ ih =>
    intro i s db hs hsmall
    have hend := @mergeIncoming_stands s db l l' hs hl (f.blob i)
    rw [mergeAll] at hsmall ⊢
    rw [Shopping.Node.mergeAll]
    generalize Shopping.Node.mergeIncoming .ok .ok db l' = r' at hend ⊢
    cases hr : mergeIncoming (f.blob i) s l with
    | ok s1 =>
      rw [hr] at hend hsmall
      -- what the rest binds comes after what the first list has bound
      have hgrown := mergeAll_bound f ls (i + 1) s1
      have hend := hend fun blob hb => hsmall blob (hgrown.subset hb)
      cases r' with
      | ok db1 => exact ih (i + 1) s1 db1 hend hsmall
      | error x => exact hend.elim
    | error x =>
      rw [hr] at hend hsmall
      have hend := hend hsmall
      cases r' with
      | ok db1 => exact hend.elim
      | error x' => exact hend

/-- `apply_message` on messages that are alike leaves stores that stand for each other. -/
theorem applyMessage_stands (hs : s.Stands db) {m m' : Message} (hm : m.Alike m')
    (hsmall : (applyMessage f s m).state.Small) :
    EndAlike Store.Stands (applyMessage f s m)
      (Shopping.Node.applyMessage (fun _ => .ok) db m') := by
  obtain ⟨op, origin, ts, lists, nodes⟩ := m
  obtain ⟨op', origin', ts', lists', nodes'⟩ := m'
  obtain ⟨hop, -, -, hlists, -⟩ := hm
  obtain rfl : op = op' := hop
  have hlists : List.Forall₂ ShoppingList.Alike lists lists' := hlists
  cases op with
  | ensureList =>
    cases hlists with
    | nil => exact ⟨rfl, hs⟩
    | cons hl _ => exact mergeIncoming_stands hs hl hsmall
  | deleteList =>
    cases hlists with
    | nil => exact ⟨rfl, hs⟩
    | cons hl _ =>
      have huid : ShoppingList.getUid _ = ShoppingList.getUid _ := hl.uid
      simp only [applyMessage, Shopping.Node.applyMessage]
      rw [huid]
      exact hs.deleteList _
  | gossipLists => exact mergeAll_stands hlists 0 s db hs hsmall
  | _ => exact hs

end Node

end Shopping.Wire

/-! ### The peers alone -/

namespace Shopping.Node

/-- The node with other lists and frames. -/
def hold (p : Node) (db : SqliteDb) (sent : List Sent) : Node := { p with db, sent }

def holdM (db : SqliteDb) (sent : List Sent) : Method Node → Method Node
  | .ok p => .ok (p.hold db sent)
  | .error (e, p) => .error (e, p.hold db sent)

/-- The method is about the peers: lists and frames make no difference to it. -/
def AboutPeers (g : Node → Method Node) : Prop :=
  ∀ p db sent, g (p.hold db sent) = holdM db sent (g p)

/-- Methods about the peers compose. -/
theorem AboutPeers.bind {g g' : Node → Method Node} (h : AboutPeers g) (h' : AboutPeers g') :
    AboutPeers fun p => (g p).bind g' := by
  intro p db sent
  show (g (p.hold db sent)).bind g' = holdM db sent ((g p).bind g')
  rw [h p db sent]
  cases g p with
  | ok q => exact h' q db sent
  | error x => rfl

/-- Neither the store nor the frames sent belong to a socket that pushes. -/
theorem connected_hold (k : Push) (p : Node) (db : SqliteDb) (sent : List Sent) :
    (p.hold db sent).connected k = p.connected k := by
  cases k <;> rfl

theorem links_hold (k : Push) (p : Node) (db : SqliteDb) (sent : List Sent) :
    (p.hold db sent).links k = p.links k := by
  cases k <;> rfl

theorem setLinks_hold (k : Push) (p : Node) (ids : Finset Str) (endpoints : List Str)
    (db : SqliteDb) (sent : List Sent) :
    (p.hold db sent).setLinks ids endpoints k = (p.setLinks ids endpoints k).hold db sent := by
  cases k <;> rfl

/-- Connecting to a peer, whether or not the connect throws. -/
theorem join_aboutPeers (k : Push) (pf : Platform) (info : NodeInfo) :
    AboutPeers fun p => join k pf p info := by
  intro p db sent
  simp only [join, connected_hold, links_hold, setLinks_hold]
  by_cases h : k.Takes p.cfg info ∧ info.nodeId ∉ p.connected k
  · rw [if_pos h, if_pos (show k.Takes (p.hold db sent).cfg info ∧ _ from h)]
    split <;> rfl
  · rw [if_neg h, if_neg (show ¬ (k.Takes (p.hold db sent).cfg info ∧ _) from h)]; rfl

/-- One entry of a discovery message. -/
theorem updateKnownNode_aboutPeers (pf : Platform) (info : NodeInfo) :
    AboutPeers fun p => updateKnownNode pf p info := by
  intro p db sent
  have hstamp : AboutPeers fun p => .ok (p.stamp info.nodeId info.lastSeenTs) := fun _ _ _ => rfl
  have hjoins := (join_aboutPeers .discovery pf info).bind
    ((join_aboutPeers .gossip pf info).bind hstamp)
  have hlearn := hjoins { p with knownNodes := p.knownNodes.insert info.nodeId info } db sent
  show updateKnownNode pf { p with db, sent } info = holdM db sent (updateKnownNode pf p info)
  unfold updateKnownNode
  by_cases hid : info.nodeId = p.cfg.nodeId
  · rw [if_pos hid, if_pos hid]; rfl
  · rw [if_neg hid, if_neg hid]
    dsimp only
    cases p.knownNodes.lookup info.nodeId with
    | none => exact hlearn
    | some known =>
      dsimp only
      by_cases hold : known.lastSeenTs > info.lastSeenTs
      · rw [if_pos hold, if_pos hold]; rfl
      · rw [if_neg hold, if_neg hold]; rfl

/-- `update_known_nodes`, entry by entry. -/
theorem updateKnownNodes_aboutPeers (pf : Platform) (infos : List NodeInfo) :
    AboutPeers fun p => updateKnownNodes pf p infos := by
  induction infos with
  | nil => intro p db sent; rfl
  | cons info infos ih => exact (updateKnownNode_aboutPeers pf info).bind ih

theorem foldl_stamp_hold (now : UInt64) (ids : List Str) : ∀ (p : Node) (db : SqliteDb)
    (sent : List Sent), ids.foldl (fun n id => n.stamp id now) (p.hold db sent) =
      (ids.foldl (fun n id => n.stamp id now) p).hold db sent := by
  induction ids with
  | nil => intro p db sent; rfl
  | cons id ids ih => intro p db sent; exact ih (p.stamp id now) db sent

/-- What the loop begins with: the initial peers, and a first time for all nodes. -/
theorem enterLoop_aboutPeers (pf : Platform) (now : UInt64) : AboutPeers (enterLoop pf now) := by
  intro p db sent
  have hstamp : AboutPeers fun n => .ok (n.knownNodes.keys.foldl (fun n id => n.stamp id now) n) :=
    fun p db sent => congrArg Except.ok (foldl_stamp_hold now _ p db sent)
  exact ((updateKnownNodes_aboutPeers pf p.cfg.initialPeers).bind hstamp) p db sent

/-- Disconnecting from a peer, whether or not the disconnect throws. -/
theorem leave_aboutPeers (k : Push) (id : Str) (info : NodeInfo) :
    AboutPeers fun p => leave k p id info := by
  intro p db sent
  simp only [leave, connected_hold, links_hold, setLinks_hold]
  by_cases h : k.Takes p.cfg info ∧ id ∈ p.connected k
  · rw [if_pos h, if_pos (show k.Takes (p.hold db sent).cfg info ∧ _ from h)]
    split <;> rfl
  · rw [if_neg h, if_neg (show ¬ (k.Takes (p.hold db sent).cfg info ∧ _) from h)]; rfl

/-- One eviction. -/
theorem evictNode_aboutPeers (now : UInt64) (id : Str) (info : NodeInfo) :
    AboutPeers fun p => evictNode now p id info := by
  intro p db sent
  have herase : AboutPeers fun p => .ok { p with knownNodes := p.knownNodes.erase id } :=
    fun _ _ _ => rfl
  have hleave := ((leave_aboutPeers .discovery id info).bind
    ((leave_aboutPeers .gossip id info).bind herase)) p db sent
  show evictNode now { p with db, sent } id info = holdM db sent (evictNode now p id info)
  unfold evictNode
  by_cases hid : id = p.cfg.nodeId
  · rw [if_pos hid, if_pos hid]; rfl
  · rw [if_neg hid, if_neg hid]
    by_cases hnew : now - info.lastSeenTs ≤ UInt64.ofInt p.cfg.discoveryTimeoutMs.toInt
    · rw [if_pos hnew, if_pos hnew]; rfl
    · rw [if_neg hnew, if_neg hnew]; exact hleave

theorem evictAll_aboutPeers (now : UInt64) (es : List (Sigma fun _ : Str => NodeInfo)) :
    AboutPeers fun p => evictAll now p es := by
  induction es with
  | nil => intro p db sent; rfl
  | cons e es ih => exact (evictNode_aboutPeers now e.1 e.2).bind ih

/-- `evict_dead_nodes`, which looks at the peers only. -/
theorem evictDeadNodes_aboutPeers (now : UInt64) : AboutPeers (evictDeadNodes now) :=
  fun p db sent => evictAll_aboutPeers now p.knownNodes.entries p db sent

end Shopping.Node

/-! ### Handlers -/

namespace Shopping.Wire.Node

open Lib Lib.Msgpack

/-- The node on bytes stands for the node. -/
structure Stands (n : Node) (m : Shopping.Node) : Prop where
  peers : m = n.peers.hold m.db m.sent
  store : n.store.Stands m.db
  sent : List.Forall₂ SentIs n.sent m.sent

/-- What was bound and handed over was within the limits. -/
structure Small (n : Node) : Prop where
  store : n.store.Small
  sent : ∀ s ∈ n.sent, s.frame.length < 2 ^ 32

variable {n : Node} {m : Shopping.Node} {f : Format}

/-- **A method about the peers** does the same on both levels. -/
theorem Stands.onPeers (h : n.Stands m) {g : Shopping.Node → Method Shopping.Node}
    (hg : Shopping.Node.AboutPeers g) : EndAlike Stands (n.onPeers (g n.peers)) (g m) := by
  rw [h.peers, hg]
  cases g n.peers with
  | ok p => exact ⟨rfl, h.store, h.sent⟩
  | error x => exact ⟨rfl, rfl, h.store, h.sent⟩

/-- A frame handed to a socket, on both levels. -/
theorem Stands.send (h : n.Stands m) {s : Sent} {s' : Shopping.Sent} (hs : SentIs s s') :
    (n.send s).Stands (m.send s') where
  peers := by rw [Shopping.Node.send, h.peers]; rfl
  store := h.store
  sent := List.rel_append h.sent (.cons hs .nil)

theorem Stands.cfg (h : n.Stands m) : m.cfg = n.peers.cfg := by rw [h.peers]; rfl

/-- The node on bytes with the peers of `n`, and what it stands for. -/
theorem Stands.cases {P : Shopping.Node → Prop} (h : n.Stands m)
    (hP : ∀ db sent, n.store.Stands db → List.Forall₂ SentIs n.sent sent → P (n.peers.hold db sent)) :
    P m := by
  rw [h.peers]
  exact hP m.db m.sent h.store h.sent

/-- What comes before is within the limits when all of it is. -/
theorem Small.before {n' : Node} (h : n'.Small) (hbound : n.store.bound <+: n'.store.bound)
    (hsent : n.sent <+: n'.sent) : n.Small :=
  ⟨fun blob hb => h.store blob (hbound.subset hb), fun s hs => h.sent s (hsent.subset hs)⟩

/-- What is small with a frame sent is small without it, and so is the frame. -/
theorem Small.send {s : Sent} (h : (n.send s).Small) : n.Small ∧ s.frame.length < 2 ^ 32 :=
  ⟨h.before List.prefix_rfl (List.prefix_append _ _),
    h.sent s (List.mem_append_right _ (List.mem_singleton.2 rfl))⟩

/-- More was handed over, and the store is the same. -/
def Sends (n n' : Node) : Prop := n'.store = n.store ∧ n.sent <+: n'.sent

/-- A node that has sent more is within the limits only if it was before. -/
theorem Sends.small {n' : Node} (h : n.Sends n') (hsmall : n'.Small) : n.Small :=
  hsmall.before (by rw [h.1]) h.2

/-- Gossip only sends, also when a blob cannot be read. -/
theorem performShardGossip_sends (f : Format) (i : ℕ) (now : UInt64) (n : Node) :
    n.Sends (performShardGossip f i now n).state := by
  unfold performShardGossip
  split
  · exact ⟨rfl, List.prefix_rfl⟩
  · dsimp only
    split
    · exact ⟨rfl, List.prefix_rfl⟩
    · exact ⟨rfl, List.prefix_append _ _⟩

/-- The fan-out only sends. -/
theorem eagerFanout_sends (f : Format) (now : ℕ → UInt64) (n : Node) :
    n.Sends (eagerFanout f now n).state := by
  have hnext : ∀ i n', n.Sends n' → n.Sends (performShardGossip f i (now (i + 1)) n').state := by
    intro i n' h
    have hsends := performShardGossip_sends f i (now (i + 1)) n'
    exact ⟨hsends.1.trans h.1, h.2.trans hsends.2⟩
  refine Throws.state_bind (performShardGossip_sends f 0 (now 1) n) fun n1 h1 => ?_
  exact Throws.state_bind (hnext 1 n1 h1) fun n2 h2 => hnext 2 n2 h2

/-- The lists gossiped are alike, so the frame stands for the packet. It is sent if there is a peer,
which both levels see alike. -/
theorem performShardGossip_stands (h : n.Stands m) {i : ℕ} {now : UInt64}
    (hsmall : (performShardGossip f i now n).state.Small) :
    EndAlike Stands (performShardGossip f i now n)
      (.ok (Shopping.Node.performShardGossip now .ok m)) := by
  refine @Stands.cases n m (fun m => EndAlike Stands _ (.ok (m.performShardGossip now .ok))) h ?_
  intro db sent hstore hsent
  have hstands : n.Stands (n.peers.hold db sent) := ⟨rfl, hstore, hsent⟩
  obtain ⟨lists, hread, hlists⟩ := hstore.readAll
  unfold performShardGossip at hsmall ⊢
  rw [hread] at hsmall ⊢
  unfold Shopping.Node.performShardGossip
  show Stands _ _
  have hsmall : Node.Small (if n.peers.gossipPush = [] then n else _) := hsmall
  by_cases hnone : n.peers.gossipPush = []
  · rw [if_pos hnone, if_pos (show (n.peers.hold db sent).gossipPush = [] from hnone)]
    exact hstands
  · rw [if_neg hnone] at hsmall
    rw [if_neg hnone, if_neg (show ¬(n.peers.hold db sent).gossipPush = [] from hnone)]
    refine hstands.send (.gossip _ (.toZmq ?_ hsmall.send.2))
    exact ⟨rfl, rfl, rfl, hlists, rfl⟩

/-- Three gossips in a row; each is within the limits since the last one is. -/
theorem eagerFanout_stands (h : n.Stands m) {now : ℕ → UInt64}
    (hsmall : (eagerFanout f now n).state.Small) :
    EndAlike Stands (eagerFanout f now n) (.ok (Shopping.Node.eagerFanout { now } m)) := by
  have hone : ∀ (i : ℕ) (n : Node) (m : Shopping.Node) (r : Node → Method Node), n.Stands m →
      (∀ n' : Node, n'.Sends (r n').state) →
      (Throws.state ((performShardGossip f i (now (i + 1)) n).bind r)).Small →
      ∃ n', performShardGossip f i (now (i + 1)) n = .ok n' ∧
        n'.Stands (m.performShardGossip (now (i + 1)) .ok) := by
    intro i n m r h hr hsmall
    have hend := @performShardGossip_stands n m f h i (now (i + 1))
    cases hg : performShardGossip f i (now (i + 1)) n with
    | ok n' =>
      rw [hg] at hend hsmall
      exact ⟨n', rfl, hend ((hr n').small hsmall)⟩
    | error x =>
      rw [hg] at hend hsmall
      exact (hend hsmall).elim
  unfold eagerFanout at hsmall ⊢
  unfold Shopping.Node.eagerFanout
  obtain ⟨n1, h1, hs1⟩ := hone 0 n m _ h (fun n' => Throws.state_bind
    (performShardGossip_sends f 1 (now 2) n') fun n2 h2 => by
      have h3 := performShardGossip_sends f 2 (now 3) n2
      exact ⟨h3.1.trans h2.1, h2.2.trans h3.2⟩) hsmall
  rw [h1] at hsmall ⊢
  obtain ⟨n2, h2, hs2⟩ := hone 1 n1 _ _ hs1 (fun n' => performShardGossip_sends f 2 (now 3) n') hsmall
  have hsmall : (Throws.state ((performShardGossip f 1 (now 2) n1).bind
      fun n => performShardGossip f 2 (now 3) n)).Small := hsmall
  show EndAlike Stands ((performShardGossip f 1 (now 2) n1).bind
      fun n => performShardGossip f 2 (now 3) n) _
  rw [h2] at hsmall ⊢
  exact performShardGossip_stands hs2 hsmall

/-- **A gossip frame.** Its lists are merged in if the operation is `GOSSIP_LISTS`. -/
theorem handleGossipFrame_stands (h : n.Stands m) {bytes : Bytes} {frame : Frame}
    (hframe : FrameIs bytes frame) (pf : Platform) (now : ℕ → UInt64)
    (hsmall : (handleGossipFrame f n bytes).state.Small) :
    EndAlike Stands (handleGossipFrame f n bytes)
      (Shopping.Node.handleGossipFrame pf { now } m frame) := by
  have hdecode := hframe.decode pf f
  unfold handleGossipFrame at hsmall ⊢
  unfold Shopping.Node.handleGossipFrame
  generalize f.decode bytes = x, frame.decode pf = y at hdecode hsmall ⊢
  cases hdecode with
  | none => exact ⟨rfl, h⟩
  | @some msg msg' hal =>
    dsimp only at hsmall ⊢
    by_cases hop : msg.op = .gossipLists
    · rw [if_pos hop] at hsmall ⊢
      rw [if_pos (hal.op ▸ hop)]
      have hend := @applyMessage_stands n.store m.db f h.store msg msg' hal
      generalize Shopping.Node.applyMessage (fun _ => .ok) m.db msg' = r' at hend ⊢
      cases hr : applyMessage f n.store msg with
      | ok store =>
        rw [hr] at hend hsmall
        have hend := hend hsmall.store
        cases r' with
        | ok db => exact ⟨by rw [h.peers]; rfl, hend, h.sent⟩
        | error x => exact hend.elim
      | error x =>
        rw [hr] at hend hsmall
        have hend := hend hsmall.store
        cases r' with
        | ok db => exact hend.elim
        | error x' => exact ⟨hend.1, by rw [h.peers]; rfl, hend.2, h.sent⟩
    · rw [if_neg hop, if_neg (hal.op ▸ hop)]
      exact h

/-- The reply is the fourth frame of its step, after those of the fan-out. -/
theorem Stands.reply (h : n.Stands m) {msg msg' : Message} (hal : msg.Alike msg')
    (hsmall : (n.send (.reply (msg.toZmq (f.frame 3)))).Small) :
    (n.send (.reply (msg.toZmq (f.frame 3)))).Stands (m.reply (.packed msg')) :=
  h.send (.reply (.toZmq hal hsmall.send.2))

/-- **A client frame**, case by case: no message, `GET_NODES`, no list, a list of another shard,
`GET_LIST` with and without a row, and the lists that are merged in. -/
theorem handleClientFrame_stands (h : n.Stands m) {bytes : Bytes} {frame : Frame}
    (hframe : FrameIs bytes frame) (pf : Platform) {now : ℕ → UInt64}
    (hsmall : (handleClientFrame pf f now n bytes).state.Small) :
    EndAlike Stands (handleClientFrame pf f now n bytes)
      (Shopping.Node.handleClientFrame pf { now } m frame) := by
  refine @Stands.cases n m (fun m => EndAlike Stands _ (m.handleClientFrame pf { now } frame)) h ?_
  intro db sent hstore hsent
  have h : n.Stands (n.peers.hold db sent) := ⟨rfl, hstore, hsent⟩
  have hdecode := hframe.decode pf f
  unfold handleClientFrame at hsmall ⊢
  unfold Shopping.Node.handleClientFrame
  generalize f.decode bytes = x, frame.decode pf = y at hdecode hsmall ⊢
  cases hdecode with
  | none => exact ⟨rfl, h⟩
  | @some msg msg' hal =>
    obtain ⟨op, origin, ts, lists, nodes⟩ := msg
    obtain ⟨op', origin', ts', lists', nodes'⟩ := msg'
    obtain rfl : op = op' := hal.op
    have hlists : List.Forall₂ ShoppingList.Alike lists lists' := hal.lists
    dsimp only at hsmall ⊢
    by_cases hnodes : op = .getNodes
    · rw [if_pos hnodes] at hsmall ⊢
      rw [if_pos hnodes]
      exact h.reply ⟨rfl, rfl, rfl, .nil, rfl⟩ hsmall
    rw [if_neg hnodes] at hsmall ⊢
    rw [if_neg hnodes]
    cases hlists with
    | nil => exact ⟨rfl, h⟩
    | @cons l l' ls ls' hl _ =>
      have huid : l.getUid = l'.getUid := hl.uid
      have hshard : ((n.peers.hold db sent).shardForList pf l'.getUid ≠
            (n.peers.hold db sent).cfg.shardId) =
          (n.peers.shardForList pf l.getUid ≠ n.peers.cfg.shardId) := by rw [huid]; rfl
      dsimp only at hsmall ⊢
      simp only [hshard]
      by_cases hmine : n.peers.shardForList pf l.getUid ≠ n.peers.cfg.shardId
      · rw [if_pos hmine, if_pos hmine]
        exact h.send (.reply .wrongShard)
      rw [if_neg hmine] at hsmall ⊢
      rw [if_neg hmine]
      by_cases hget : op = .getList
      · rw [if_pos hget] at hsmall ⊢
        rw [if_pos hget]
        obtain ⟨found, hread, hrel⟩ := hstore.read l.getUid
        rw [← huid]
        rw [hread] at hsmall ⊢
        have hdb : (n.peers.hold db sent).db = db := rfl
        rw [hdb]
        generalize db.read l.getUid .ok = row at hrel ⊢
        cases hrel with
        | none => exact h.reply ⟨rfl, rfl, rfl, .cons (.refl _) .nil, rfl⟩ hsmall
        | some hfound => exact h.reply ⟨rfl, rfl, rfl, .cons hfound .nil, rfl⟩ hsmall
      rw [if_neg hget] at hsmall ⊢
      rw [if_neg hget]
      have hstamped : Message.Alike ⟨op, n.peers.cfg.nodeId, now 0, l :: ls, nodes⟩
          ⟨op, n.peers.cfg.nodeId, now 0, l' :: ls', nodes'⟩ :=
        ⟨rfl, rfl, rfl, hal.lists, hal.nodes⟩
      have hend := @applyMessage_stands n.store db f hstore _ _ hstamped
      have happly : Shopping.Node.applyMessage (fun _ => .ok) (n.peers.hold db sent).db
          ⟨op, (n.peers.hold db sent).cfg.nodeId, now 0, l' :: ls', nodes'⟩ =
          Shopping.Node.applyMessage (fun _ => .ok) db
            ⟨op, n.peers.cfg.nodeId, now 0, l' :: ls', nodes'⟩ := rfl
      rw [happly]
      generalize Shopping.Node.applyMessage (fun _ => .ok) db _ = r' at hend ⊢
      cases hr : applyMessage f n.store ⟨op, n.peers.cfg.nodeId, now 0, l :: ls, nodes⟩ with
      | error x =>
        rw [hr] at hend hsmall
        have hend := hend hsmall.store
        cases r' with
        | ok db => exact hend.elim
        | error x' => exact ⟨hend.1, rfl, hend.2, hsent⟩
      | ok store =>
        rw [hr] at hend hsmall
        dsimp only at hsmall ⊢
        -- the fan-out comes before the reply
        have hfan := eagerFanout_sends f now { n with store }
        have hstands : ∀ db, store.Stands db → Stands { n with store } (n.peers.hold db sent) :=
          fun db hdb => ⟨rfl, hdb, hsent⟩
        cases hf : eagerFanout f now { n with store } with
        | error x =>
          rw [hf] at hsmall hfan
          have hsmall : Node.Small x.2 := hsmall
          have hend := hend (hfan.small hsmall).store
          cases r' with
          | error x' => exact hend.elim
          | ok db =>
            have hout := @eagerFanout_stands { n with store } _ f (hstands db hend) now
            rw [hf] at hout
            exact (hout hsmall).elim
        | ok n1 =>
          rw [hf] at hsmall hfan
          have hsmall : Node.Small (n1.send _) := hsmall
          have hend := hend (hfan.small hsmall.send.1).store
          cases r' with
          | error x' => exact hend.elim
          | ok db =>
            have hout := @eagerFanout_stands { n with store } _ f (hstands db hend) now
            rw [hf] at hout
            have hout : n1.Stands _ := hout hsmall.send.1
            have hresp : Message.Alike
                (Message.listResponse (op ≠ .deleteList) n1.peers.cfg.nodeId (now 4) l)
                (Message.listResponse (op ≠ .deleteList)
                  (Shopping.Node.eagerFanout { now } (n.peers.hold db sent)).cfg.nodeId (now 4) l') :=
              ⟨rfl, congrArg NodeConfig.nodeId hout.cfg.symm, rfl, .cons hl .nil, rfl⟩
            exact hout.reply hresp hsmall

/-- **A discovery frame.** The entries of nodes are unpacked as they were packed. -/
theorem handleDiscoveryFrame_stands (h : n.Stands m) {bytes : Bytes} {frame : Frame}
    (hframe : FrameIs bytes frame) (pf : Platform) :
    EndAlike Stands (handleDiscoveryFrame pf f n bytes)
      (Shopping.Node.handleDiscoveryFrame pf m frame) := by
  have hdecode := hframe.decode pf f
  unfold handleDiscoveryFrame Shopping.Node.handleDiscoveryFrame
  generalize f.decode bytes = x, frame.decode pf = y at hdecode ⊢
  cases hdecode with
  | none => exact ⟨rfl, h⟩
  | @some msg msg' hal =>
    dsimp only
    rw [hal.op, hal.nodes]
    by_cases hop : msg'.op ≠ .gossipNodes
    · rw [if_pos hop, if_pos hop]; exact h
    · rw [if_neg hop, if_neg hop]
      exact h.onPeers (Shopping.Node.updateKnownNodes_aboutPeers pf msg'.nodes)

/-- A node that starts learns its initial peers on both levels. -/
theorem enterLoop_stands (h : n.Stands m) (pf : Platform) (now : UInt64) :
    EndAlike Stands (n.onPeers (Shopping.Node.enterLoop pf now n.peers))
      (Shopping.Node.enterLoop pf now m) := h.onPeers (Shopping.Node.enterLoop_aboutPeers pf now)

/-- The entries sent are those of the peers, the same on both levels. -/
theorem performDiscoveryGossip_stands (h : n.Stands m) {now : UInt64}
    (hsmall : (n.performDiscoveryGossip f now).Small) :
    (n.performDiscoveryGossip f now).Stands (m.performDiscoveryGossip now) := by
  refine @Stands.cases n m (fun m => Stands _ (m.performDiscoveryGossip now)) h ?_
  intro db sent hstore hsent
  have hstands : Stands { n with peers := n.peers.stamp n.peers.cfg.nodeId now }
      ((n.peers.hold db sent).stamp n.peers.cfg.nodeId now) := ⟨rfl, hstore, hsent⟩
  unfold performDiscoveryGossip at hsmall ⊢
  unfold Shopping.Node.performDiscoveryGossip
  dsimp only at hsmall ⊢
  by_cases hnone : n.peers.discoveryPush = []
  · have hstamped : (n.peers.stamp n.peers.cfg.nodeId now).discoveryPush = [] := hnone
    rw [if_pos hstamped, if_pos]
    · exact hstands
    · exact hstamped
  · have hstamped : ¬(n.peers.stamp n.peers.cfg.nodeId now).discoveryPush = [] := hnone
    rw [if_neg hstamped] at hsmall ⊢
    rw [if_neg]
    · exact hstands.send (.discovery _ (.toZmq ⟨rfl, rfl, rfl, .nil, rfl⟩ hsmall.send.2))
    · exact hstamped

/-- **The discovery timer**: evictions, then the gossip unless one of them has thrown. -/
theorem discoveryTimer_stands (h : n.Stands m) (pf : Platform) {evictNow gossipNow : UInt64}
    (hsmall : (n.discoveryTimer f evictNow gossipNow).state.Small) :
    EndAlike Stands (n.discoveryTimer f evictNow gossipNow)
      (m.wake pf (.discoveryTimer evictNow gossipNow)) := by
  have hevict := h.onPeers (Shopping.Node.evictDeadNodes_aboutPeers evictNow)
  unfold discoveryTimer at hsmall ⊢
  show EndAlike Stands _
    ((m.evictDeadNodes evictNow).bind fun n => .ok (n.performDiscoveryGossip gossipNow))
  generalize m.evictDeadNodes evictNow = r' at hevict ⊢
  generalize n.onPeers (n.peers.evictDeadNodes evictNow) = r at hevict hsmall ⊢
  cases r with
  | ok n1 =>
    cases r' with
    | ok m1 => exact performDiscoveryGossip_stands hevict hsmall
    | error x => exact hevict.elim
  | error x =>
    cases r' with
    | ok m1 => exact hevict.elim
    | error x' => exact hevict

end Shopping.Wire.Node
