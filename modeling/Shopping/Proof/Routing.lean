import Shopping.Node.Members
import Shopping.Proof.Hash
import Shopping.Proof.Refresh
import Shopping.System.Matched

/-!
# Where requests go

A client takes the shard of a list from the size of its endpoint table, a node from its
configuration, and the table is fed by entries that travelled through the nodes' gossip. The
two count the same shards as long as the table has exactly the shards as keys. It does: every
entry in a node or in flight describes a node of the deployment, so a refresh only adds an
address to a shard that is there already, and never takes one away (`tables_route`).

But each hashes the UID on its own platform. A request reaches an owner of its lists if the two
hashes agree, as they do if `char` has one signedness on both or no byte of the UID is from 128
on (`Deployment.Agrees`). `clients_route` has it of the runs whose clients ask about such UIDs
only; `umlaut_refused` is a run in which a client with an unsigned `char` is turned away.

* `Platform.home` is the shard a platform computes.
* `Routes` says that a table leads to the owners of its shards, `Routed` that every table does,
  and every request in flight goes to an owner of its lists as its client computes them.
* `Agreed` says that all lists asked about are on one shard on both sides, and that no request
  was refused.
-/

namespace Shopping

open Lib

variable {ι κ : Type*}

/-- The shard of a list, as a platform computes it. -/
def Platform.home (pf : Platform) (shards : Int32) (listUid : Str) : Int32 :=
  Int32.ofNat (Util.getHash pf.charSigned listUid % shards.toInt.toNat)

namespace Deployment

variable (D : Deployment ι κ) (shards : Int32)

/-- The entry gives some node's client address with that node's shard. -/
def Describes (info : NodeInfo) : Prop :=
  ∃ i, info.host = (D.cfg i).host ∧ info.clientPort = (D.cfg i).clientPort ∧
    info.shardId = (D.cfg i).shardId

instance [Fintype ι] (info : NodeInfo) : Decidable (D.Describes info) := by
  unfold Describes; infer_instance

/-- The address is one of a node of the shard. -/
def Owns (shard : Int32) (addr : Str) : Prop :=
  ∃ i, (D.cfg i).clientAddr = addr ∧ (D.cfg i).shardId = shard

/-- The keys of a table are the shards. -/
def HasShards (table : UMap Int32 (List Str)) : Prop :=
  ∀ shard, shard ∈ table ↔ 0 ≤ shard ∧ shard < shards

/-- The table has exactly the shards as keys, and leads from each to nodes of it. -/
structure Routes (table : UMap Int32 (List Str)) : Prop where
  keys : HasShards shards table
  nonempty : ∀ shard eps, table.lookup shard = some eps → eps ≠ []
  owned : ∀ shard eps, table.lookup shard = some eps → ∀ ep ∈ eps, D.Owns shard ep

/-- The nodes share one number of shards and have different addresses, and peers are configured
truthfully. -/
structure Placed : Prop where
  positive : 0 < shards
  numShards : ∀ i, (D.cfg i).numShards = shards
  shardId : ∀ i, 0 ≤ (D.cfg i).shardId ∧ (D.cfg i).shardId < shards
  addresses : ∀ i j, (D.cfg i).clientAddr = (D.cfg j).clientAddr → i = j
  peers : ∀ i, ∀ info ∈ (D.cfg i).initialPeers, D.Describes info

/-- The endpoint tables are configured truthfully, too. -/
structure Sharded : Prop extends D.Placed shards where
  tables : ∀ k, D.Routes shards (D.table k)

/-- The client and every node hash the UID alike: their `char`s have one signedness, or no byte
of the UID is from 128 on. -/
def Agrees (k : κ) (uid : Str) : Prop :=
  ∀ i, (D.pf i).charSigned = (D.clientPf k).charSigned ∨ ∀ c ∈ uid, c < 128

instance [Fintype ι] (k : κ) (uid : Str) : Decidable (D.Agrees k uid) :=
  inferInstanceAs
    (Decidable (∀ i, (D.pf i).charSigned = (D.clientPf k).charSigned ∨ ∀ c ∈ uid, c < 128))

end Deployment

variable {D : Deployment ι κ} {shards : Int32} {pf : Platform}

namespace Platform

/-- The node computes the list's shard. -/
theorem shardForList_eq {n : Node} (hn : n.cfg.numShards = shards) (hpos : 0 < shards)
    (listUid : Str) : n.shardForList pf listUid = pf.home shards listUid := by
  have h0 : 0 < shards.toInt := Int32.lt_iff_toInt_lt.1 hpos
  have hmax := shards.toInt_lt
  have hsize : (shards.toInt % 2 ^ 64).toNat = shards.toInt.toNat := by
    rw [Int.emod_eq_of_lt (by omega) (by omega)]
  rw [Node.shardForList, hn, hsize]; rfl

end Platform

namespace Deployment

/-- **Where the hashes agree, so do the shards.** -/
theorem Agrees.home_eq {k : κ} {uid : Str} (h : D.Agrees k uid) (i : ι) :
    (D.pf i).home shards uid = (D.clientPf k).home shards uid := by
  have hhash : Util.getHash (D.pf i).charSigned uid = Util.getHash (D.clientPf k).charSigned uid := by
    rcases h i with hsign | hascii
    · rw [hsign]
    · have hpoly : ∀ charSigned, Util.getHash charSigned uid = Util.polynomial uid % Util.MOD :=
        fun charSigned => ((Util.hashes_iff charSigned uid).2 (Or.inr hascii)).value
      rw [hpoly, hpoly]
  rw [Platform.home, hhash]; rfl

/-- An entry that describes a node is of a shard that is there. -/
theorem HasShards.insert {table : UMap Int32 (List Str)} (h : HasShards shards table)
    (hD : ∀ i, 0 ≤ (D.cfg i).shardId ∧ (D.cfg i).shardId < shards) {info : NodeInfo}
    (hi : D.Describes info) {eps : List Str} :
    HasShards shards (table.insert info.shardId eps) := by
  obtain ⟨i, -, -, hshard⟩ := hi
  have hmem : info.shardId ∈ table := by
    rw [h, hshard]; exact hD i
  intro shard
  rw [AList.mem_insert, ← h]
  refine or_iff_right_of_imp ?_
  rintro rfl; exact hmem

/-- A refresh neither adds a shard nor takes one away. -/
theorem HasShards.refresh {a : API} (h : HasShards shards a.shardEndpoints)
    (hD : ∀ i, 0 ≤ (D.cfg i).shardId ∧ (D.cfg i).shardId < shards) {reply : Option Message}
    (hr : ∀ m ∈ reply, ∀ info ∈ m.nodes, D.Describes info) :
    HasShards shards (a.finishUpdateCloudNodes reply).shardEndpoints :=
  API.finish_inv (P := HasShards shards) h fun _ ht m hm info hinfo => ht.insert hD (hr m hm info hinfo)

/-- As many keys as there are shards. -/
theorem HasShards.length_keys {table : UMap Int32 (List Str)} (h : HasShards shards table) :
    table.keys.length = shards.toInt.toNat := by
  have hinj : Set.InjOn (fun s : Int32 => s.toInt.toNat) (table.keys.toFinset : Set Int32) := by
    intro a ha b hb heq
    have ha' := (h a).1 (List.mem_toFinset.1 ha)
    have hb' := (h b).1 (List.mem_toFinset.1 hb)
    rw [Int32.le_iff_toInt_le, Int32.toInt_zero] at ha' hb'
    have heq : a.toInt.toNat = b.toInt.toNat := heq
    exact Int32.toInt_inj.1 (by omega)
  have himage : table.keys.toFinset.image (fun s : Int32 => s.toInt.toNat) =
      Finset.range shards.toInt.toNat := by
    ext m
    simp only [Finset.mem_image, List.mem_toFinset, Finset.mem_range]
    constructor
    · rintro ⟨s, hs, rfl⟩
      have hs' := (h s).1 hs
      rw [Int32.le_iff_toInt_le, Int32.lt_iff_toInt_lt, Int32.toInt_zero] at hs'
      omega
    · intro hm
      have hmax := shards.toInt_lt
      have hint : (Int32.ofNat m).toInt = m := Int32.toInt_ofNat_of_lt (by omega)
      refine ⟨Int32.ofNat m, (h _).2 ?_, by rw [hint]; rfl⟩
      rw [Int32.le_iff_toInt_le, Int32.lt_iff_toInt_lt, Int32.toInt_zero, hint]
      omega
  rw [← Finset.card_range shards.toInt.toNat, ← himage, Finset.card_image_of_injOn hinj,
    List.toFinset_card_of_nodup table.keys_nodup]

/-- The client computes the list's shard. -/
theorem HasShards.shardOf_eq {a : API} (h : HasShards shards a.shardEndpoints) (listUid : Str) :
    a.shardOf pf listUid = pf.home shards listUid := by
  rw [API.shardOf, h.length_keys]; rfl

namespace Routes

variable {table : UMap Int32 (List Str)}

/-- **The endpoint a client chooses is one of an owner of the list.** -/
theorem getShardEndpoint {a : API} (h : D.Routes shards a.shardEndpoints) {listUid : Str}
    {pick : ℕ} {ep : Str} (he : a.getShardEndpoint pf listUid pick = some ep) :
    D.Owns (pf.home shards listUid) ep := by
  rw [API.getShardEndpoint, h.keys.shardOf_eq] at he
  cases hl : a.shardEndpoints.lookup (pf.home shards listUid) with
  | none => rw [hl] at he; cases he
  | some eps =>
    rw [hl] at he
    exact h.owned _ eps hl ep (List.mem_of_getElem? he)

/-- An entry that describes a node adds its address to its shard. -/
theorem insert (h : D.Routes shards table) (hD : D.Placed shards) {info : NodeInfo}
    (hi : D.Describes info) :
    D.Routes shards (table.insert info.shardId
      ((table.lookup info.shardId).getD [] ++ [endpoint info.host info.clientPort])) := by
  obtain ⟨i, hhost, hport, hshard⟩ := hi
  have haddr : D.Owns info.shardId (endpoint info.host info.clientPort) :=
    ⟨i, by rw [hhost, hport]; rfl, hshard.symm⟩
  constructor
  · exact h.keys.insert hD.shardId ⟨i, hhost, hport, hshard⟩
  · intro shard eps hl
    rw [UMap.lookup_insert_ite] at hl
    split at hl
    · cases hl; simp
    · exact h.nonempty shard eps hl
  · intro shard eps hl ep hep
    rw [UMap.lookup_insert_ite] at hl
    split at hl
    · rename_i heq
      subst heq
      cases hl
      rcases List.mem_append.1 hep with hep | hep
      · cases hold : table.lookup info.shardId with
        | none => rw [hold] at hep; cases hep
        | some old => rw [hold] at hep; exact h.owned _ old hold ep hep
      · rw [List.mem_singleton.1 hep]; exact haddr
    · exact h.owned shard eps hl ep hep

/-- **A refresh leaves a table that routes**, whatever the outcome of its exchange. -/
theorem refresh {a : API} (h : D.Routes shards a.shardEndpoints) (hD : D.Placed shards)
    {reply : Option Message} (hr : ∀ m ∈ reply, ∀ info ∈ m.nodes, D.Describes info) :
    D.Routes shards (a.finishUpdateCloudNodes reply).shardEndpoints :=
  API.finish_inv (P := D.Routes shards) h fun _ ht m hm info hinfo => ht.insert hD (hr m hm info hinfo)

end Routes

end Deployment

/-- The requests of a `gossipState` partition the local lists by their shards. -/
structure Batched (pf : Platform) (shards : Int32) (lists : List ShoppingList)
    (requests : List (Str × Message)) : Prop where
  nonempty : ∀ req ∈ requests, req.2.lists ≠ []
  shard : ∀ req ∈ requests, ∃ shard, ∀ l ∈ req.2.lists, pf.home shards l.uid = shard
  sublist : ∀ req ∈ requests, req.2.lists.Sublist lists
  once : ∀ l ∈ lists, ∃! j : ℕ, ∃ req, requests[j]? = some req ∧ l ∈ req.2.lists

/-- **`gossipState` sends every local list in exactly one batch, and no batch mixes shards.** -/
theorem Deployment.Routes.batched {a : API}
    (h : D.Routes shards a.shardEndpoints) {now : UInt64} {pick : Int32 → ℕ} {c : Calls}
    {requests : List (Str × Message)} (hr : a.gossipState pf now pick c = some requests) :
    Batched pf shards (a.db.readAll c) requests := by
  set lists := a.db.readAll c
  have hall := API.gossipState_eq_some hr
  -- the request of a batch holds the lists of the batch's shard
  have hbatch : ∀ req ∈ requests, ∃ shard, req.2.lists ≠ [] ∧
      req.2.lists = lists.filter fun lst => a.shardOf pf lst.uid = shard := by
    intro req hreq
    obtain ⟨batch, hmem, first, ep, hfirst, -, rfl⟩ := API.mem_gossipState hr hreq
    exact ⟨batch.1, API.mem_gossipBatches hmem⟩
  refine ⟨?_, ?_, ?_, ?_⟩
  · intro req hreq
    obtain ⟨shard, hne, -⟩ := hbatch req hreq
    exact hne
  · intro req hreq
    obtain ⟨shard, -, heq⟩ := hbatch req hreq
    refine ⟨shard, fun l hl => ?_⟩
    rw [heq, List.mem_filter] at hl
    rw [← h.keys.shardOf_eq]; simpa using hl.2
  · intro req hreq
    obtain ⟨shard, -, heq⟩ := hbatch req hreq
    rw [heq]; exact List.filter_sublist
  · intro l hl
    obtain ⟨hlen, hget⟩ := List.forall₂_iff_get.1 hall
    set batches := (a.gossipBatches pf lists).entries
    have hlists : ∀ j (hj : j < batches.length) (hj' : j < requests.length),
        requests[j].2.lists = batches[j].2 := by
      intro j hj hj'
      obtain ⟨first, ep, -, -, heq⟩ := hget j hj hj'
      have heq : requests[j] = _ := heq
      rw [heq]; rfl
    -- `l` is in the batch of its shard and in no other
    have hmem : ∀ j (hj : j < batches.length),
        l ∈ batches[j].2 ↔ batches[j].1 = a.shardOf pf l.uid := by
      intro j hj
      rw [(API.mem_gossipBatches (List.getElem_mem hj)).2, List.mem_filter]
      simp [hl, eq_comm]
    have hrow : (a.gossipBatches pf lists).lookup (a.shardOf pf l.uid) =
        some (lists.filter fun lst => a.shardOf pf lst.uid = a.shardOf pf l.uid) := by
      rw [API.lookup_gossipBatches, if_neg]
      intro hnil
      have : l ∈ lists.filter fun lst => a.shardOf pf lst.uid = a.shardOf pf l.uid := by
        simp [hl]
      rw [hnil] at this; cases this
    obtain ⟨j, hj, hentry⟩ := List.mem_iff_getElem.1 (AList.mem_lookup_iff.1 hrow)
    have hshard : batches[j].1 = a.shardOf pf l.uid := congrArg Sigma.fst hentry
    have hj' : j < requests.length := hlen ▸ hj
    refine ⟨j, ⟨requests[j], List.getElem?_eq_getElem hj', ?_⟩, ?_⟩
    · rw [hlists j hj hj', hmem j hj]; exact hshard
    · rintro j2 ⟨req, hreq, hl2⟩
      obtain ⟨hj2, rfl⟩ := List.getElem?_eq_some_iff.1 hreq
      have hj2' : j2 < batches.length := hlen ▸ hj2
      rw [hlists j2 hj2' hj2, hmem j2 hj2', ← hshard] at hl2
      have hkeys : ∀ i (hi : i < batches.length),
          (a.gossipBatches pf lists).keys[i]? = some batches[i].1 := by
        intro i hi
        rw [AList.keys, List.keys, List.getElem?_map, List.getElem?_eq_getElem hi]; rfl
      have hnodup := (a.gossipBatches pf lists).keys_nodup
      have hlt : j2 < (a.gossipBatches pf lists).keys.length :=
        (List.getElem?_eq_some_iff.1 (hkeys j2 hj2')).1
      refine (List.getElem?_inj hlt hnodup).1 ?_
      rw [hkeys j2 hj2', hkeys j hj, hl2]

/-- The entries in a packet describe nodes. -/
def Packet.Informed (D : Deployment ι κ) : Packet κ → Prop
  | .request .. => True
  | .reply _ _ frame =>
      frame = .raw wrongShard ∨ ∃ m, frame = .packed m ∧ ∀ info ∈ m.nodes, D.Describes info
  | .gossip _ _ => True
  | .discovery _ frame => ∃ m, frame = .packed m ∧ ∀ info ∈ m.nodes, D.Describes info

/-- Nodes know nodes of the deployment, and so do the packets. -/
structure Informed (D : Deployment ι κ) (w : World ι κ) : Prop where
  nodes : ∀ i, (w.node i).node.Knows D.Describes
  net : ∀ pkt ∈ w.net, pkt.Informed D

/-- A request about lists goes to a node that owns them, as its client computes their shard. -/
def Packet.Routed (D : Deployment ι κ) (shards : Int32) : Packet κ → Prop
  | .request k _ dest frame => ∃ m, frame = .packed m ∧ (m.op = .getNodes ∨
      ∃ i, (D.cfg i).clientAddr = dest ∧
        ∀ l ∈ m.lists, (D.clientPf k).home shards l.uid = (D.cfg i).shardId)
  | _ => True

/-- Clients route by the shards of the deployment, and so do the requests in flight. -/
structure Routed (D : Deployment ι κ) (shards : Int32) (w : World ι κ) : Prop where
  tables : ∀ k, D.Routes shards (w.client k).api.shardEndpoints
  net : ∀ pkt ∈ w.net, pkt.Routed D shards

variable [DecidableEq ι] [DecidableEq κ] {w w' : World ι κ} {a : Action ι κ}

omit [DecidableEq ι] [DecidableEq κ] in
theorem describes_new (i : ι) (db : SqliteDb) (now : UInt64) :
    (Node.new (D.cfg i) db now).Knows D.Describes :=
  Node.new_knows _ db now ⟨i, rfl, rfl, rfl⟩

omit [DecidableEq ι] [DecidableEq κ] in
/-- Stamps play no part in what an entry describes. -/
theorem describes_stamp (info : NodeInfo) (ts : UInt64) (h : D.Describes info) :
    D.Describes { info with lastSeenTs := ts } := h

omit [DecidableEq ι] [DecidableEq κ] in
theorem Informed.init : Informed D (World.init D) where
  nodes i := describes_new i {} 0
  net := by intro pkt h; cases h

omit [DecidableEq κ] in
/-- What a handler leaves. -/
theorem Informed.settle (hi : Informed D w) {i : ι} {call : Option (κ × ℕ)} {r : Method Node}
    (hn : r.state.Knows D.Describes)
    (hsent : ∀ s ∈ r.state.sent, ∀ pkt, World.packet call s = some pkt → pkt.Informed D) :
    Informed D (w.settle i call r) := by
  rw [settle_eq_place]
  constructor
  · intro j
    rw [World.place_node]
    split
    · exact hn.of_eq rfl rfl
    · exact hi.nodes j
  · intro pkt hpkt
    rcases List.mem_append.1 hpkt with hpkt | hpkt
    · exact hi.net pkt hpkt
    · obtain ⟨s, hs, hp⟩ := List.mem_filterMap.1 hpkt
      exact hsent s hs pkt hp

/-- **Every step keeps nodes and packets informed**, if peers are configured truthfully. -/
theorem Informed.step (hpeers : ∀ i, ∀ info ∈ (D.cfg i).initialPeers, D.Describes info)
    (hm : Matched D w) (hi : Informed D w) (h : World.step D w a = some w') : Informed D w' := by
  have hquiet : ∀ i, ∀ s ∈ (w.node i).node.sent, ∀ pkt : Packet κ,
      World.packet none s = some pkt → pkt.Informed D := by
    intro i s hs; rw [hm.sent] at hs; cases hs
  -- clients send requests only
  have hsend : ∀ {client : κ → ClientState} {ps : List (Packet κ)}, (∀ pkt ∈ ps, pkt.Informed D) →
      Informed D { w with client, net := w.net ++ ps } := fun hps =>
    ⟨hi.nodes, fun pkt hpkt => (List.mem_append.1 hpkt).elim (hi.net pkt) (hps pkt)⟩
  have hends : ∀ {k : κ} {pending : Pending} {reply : Option Message},
      Ends w k pending reply w' → Informed D w' := by
    intro k pending reply he
    cases he <;> exact ⟨hi.nodes, hi.net⟩
  cases step_moves h with
  | start i now =>
    have hnew := describes_new (D := D) i (w.node i).node.db now
    refine hi.settle (Node.enterLoop_knows describes_stamp (D.pf i) now hnew (hpeers i)) ?_
    intro s hs
    rw [(Node.enterLoop_same (D.pf i) now _).sent] at hs; cases hs
  | stop i => exact hi.settle (r := .error (.msgpackError, (w.node i).node)) (hi.nodes i) (hquiet i)
  | clientFrame i p now k c dest frame hp _ _ =>
    refine hi.settle (Node.handleClientFrame_knows (D.pf i) { now } (hi.nodes i) frame) ?_
    intro s hs pkt hpkt
    rcases Node.handleClientFrame_sent (D.pf i) { now } (hm.sent i) (hi.nodes i) frame s hs with
      ⟨dests, m, rfl⟩ | rfl | ⟨m, rfl, hnodes⟩
    · cases hpkt; trivial
    · cases hpkt; exact Or.inl rfl
    · cases hpkt; exact Or.inr ⟨m, rfl, hnodes⟩
  | gossipFrame i p now dests frame hp _ _ =>
    obtain ⟨db, hstate, -⟩ := Node.handleGossipFrame_state (D.pf i) { now } (w.node i).node frame
    refine hi.settle ?_ ?_
    · rw [hstate]; exact (hi.nodes i).of_eq rfl rfl
    · rw [hstate]; exact hquiet i
  | discoveryFrame i p dests frame hp _ _ =>
    obtain ⟨m, rfl, hnodes⟩ := hi.net _ (List.mem_of_getElem? hp)
    refine hi.settle (Node.handleDiscoveryFrame_knows describes_stamp (D.pf i) (hi.nodes i) ?_) ?_
    · intro m' hm'
      rw [Frame.decode_packed, Option.some.injEq] at hm'
      subst hm'; exact hnodes
    · rw [(Node.handleDiscoveryFrame_same (D.pf i) _ _).sent]; exact hquiet i
  | stateTimer i now _ =>
    obtain ⟨new, he, hg⟩ := Node.performShardGossip_eq now .ok (w.node i).node
    rw [he]
    refine hi.settle ((hi.nodes i).of_eq rfl rfl) ?_
    intro s hs pkt hpkt
    rcases List.mem_append.1 hs with hs | hs
    · exact hquiet i s hs pkt hpkt
    · obtain ⟨now, c, rfl⟩ := hg s hs
      cases hpkt; trivial
  | discoveryTimer i evictNow gossipNow _ =>
    obtain ⟨hk, hsent⟩ :=
      Node.discoveryTimer_knows describes_stamp (D.pf i) evictNow gossipNow (hi.nodes i)
    refine hi.settle hk ?_
    intro s hs pkt hpkt
    rcases hsent s hs with hs | ⟨dests, m, rfl, hnodes⟩
    · exact hquiet i s hs pkt hpkt
    · cases hpkt; exact ⟨m, rfl, hnodes⟩
  | begin k a api listUid pick m pending ep hc hb he =>
    refine hsend fun pkt hpkt => ?_
    obtain rfl := List.mem_singleton.1 hpkt
    trivial
  | gossipState k now pick batches hb =>
    refine hsend fun pkt hpkt => ?_
    obtain ⟨j, hj, rfl⟩ := List.mem_mapIdx.1 hpkt
    trivial
  | updateCloudNodes k now pick ep _ he =>
    refine hsend fun pkt hpkt => ?_
    obtain rfl := List.mem_singleton.1 hpkt
    trivial
  | reply k p call pending frame hc hp => exact hends (finish_ends w k pending _)
  | noReply k call pending hc => exact hends (finish_ends w k pending none)
  | nodesReply k p call frame hc hp => exact ⟨hi.nodes, hi.net⟩
  | noNodesReply k call hc => exact ⟨hi.nodes, hi.net⟩

/-- **Every reachable state is informed.** -/
theorem informed {P : World ι κ → Action ι κ → Prop}
    (hpeers : ∀ i, ∀ info ∈ (D.cfg i).initialPeers, D.Describes info)
    (h : Run (World.step D) P (World.init D) w) : Matched D w ∧ Informed D w :=
  Run.inv (I := fun w => Matched D w ∧ Informed D w) h ⟨Matched.init D, Informed.init⟩
    fun _ _ _ hI _ hs => ⟨hI.1.step hs, hI.2.step hpeers hI.1 hs⟩

omit [DecidableEq ι] [DecidableEq κ] in
/-- A call that begins an exchange asks about lists of the UID it routes by. -/
theorem Begin.lists {k : κ} {api : API} {listUid : Str} {pick : ℕ} {m : Message} {pending : Pending}
    (hb : Begin w k a api listUid pick m pending) :
    api.shardEndpoints = (w.client k).api.shardEndpoints ∧ ∀ l ∈ m.lists, l.uid = listUid := by
  cases hb <;> exact ⟨rfl, fun l hl => congrArg ShoppingList.uid (List.mem_singleton.1 hl)⟩

/-- **What a step does to a table**: it stays, or is refreshed with a reply that arrived or none. -/
theorem step_table (h : World.step D w a = some w') (k : κ) :
    (w'.client k).api.shardEndpoints = (w.client k).api.shardEndpoints ∨
      ∃ reply : Option Message, (∀ m ∈ reply, ∃ c frame, Packet.reply k c frame ∈ w.net ∧
        frame.decode (D.clientPf k) = some m) ∧
      (w'.client k).api.shardEndpoints =
        ((w.client k).api.finishUpdateCloudNodes reply).shardEndpoints := by
  have hset : ∀ (k' : κ) (c : ClientState), c.api.shardEndpoints = (w.client k').api.shardEndpoints →
      (Function.update w.client k' c k).api.shardEndpoints = (w.client k).api.shardEndpoints := by
    intro k' c hc
    rw [Function.update_apply]
    split
    · rename_i hk; subst hk; exact hc
    · rfl
  have hends : ∀ {k' : κ} {pending : Pending} {reply : Option Message}, Ends w k' pending reply w' →
      (w'.client k).api.shardEndpoints = (w.client k).api.shardEndpoints := by
    intro k' pending reply he
    cases he <;> exact hset k' _ rfl
  cases step_moves h with
  | begin k' a api listUid pick m pending ep hc hb he => exact Or.inl (hset k' _ hb.lists.1)
  | gossipState k' now pick batches hb => exact Or.inl (hset k' _ rfl)
  | updateCloudNodes k' now pick ep hc he => exact Or.inl (hset k' _ rfl)
  | reply k' p call pending frame hc hp => exact Or.inl (hends (finish_ends w k' pending _))
  | noReply k' call pending hc => exact Or.inl (hends (finish_ends w k' pending none))
  | nodesReply k' p call frame hc hp =>
    by_cases hk : k = k'
    · subst hk
      refine Or.inr ⟨_, fun m hm => ⟨call, frame, List.mem_of_getElem? hp, hm⟩, ?_⟩
      rw [World.setClient_client, if_pos rfl]
    · exact Or.inl (by rw [World.setClient_client, if_neg hk])
  | noNodesReply k' call hc =>
    by_cases hk : k = k'
    · subst hk
      refine Or.inr ⟨none, (fun m hm => nomatch hm), ?_⟩
      rw [World.setClient_client, if_pos rfl]
    · exact Or.inl (by rw [World.setClient_client, if_neg hk])
  | start i now => rw [settle_eq_place]; exact Or.inl rfl
  | clientFrame i p now k' c dest frame hp hr hd => rw [settle_eq_place]; exact Or.inl rfl
  | gossipFrame i p now dests frame hp hr hd => rw [settle_eq_place]; exact Or.inl rfl
  | discoveryFrame i p dests frame hp hr hd => rw [settle_eq_place]; exact Or.inl rfl
  | stateTimer i now hr => exact Or.inl rfl
  | discoveryTimer i evictNow gossipNow hr => rw [settle_eq_place]; exact Or.inl rfl
  | stop i => exact Or.inl rfl

/-- In an informed state a table is refreshed with entries that describe nodes. -/
theorem Informed.table (hi : Informed D w) (h : World.step D w a = some w') (k : κ) :
    (w'.client k).api.shardEndpoints = (w.client k).api.shardEndpoints ∨
      ∃ reply : Option Message, (∀ m ∈ reply, ∀ info ∈ m.nodes, D.Describes info) ∧
      (w'.client k).api.shardEndpoints =
        ((w.client k).api.finishUpdateCloudNodes reply).shardEndpoints := by
  refine (step_table h k).imp_right ?_
  rintro ⟨reply, hreply, heq⟩
  refine ⟨reply, fun m hm => ?_, heq⟩
  obtain ⟨c, frame, hmem, hdec⟩ := hreply m hm
  rcases hi.net _ hmem with rfl | ⟨m', rfl, hnodes⟩
  · rw [Frame.decode_wrongShard] at hdec; cases hdec
  · rw [Frame.decode_packed, Option.some.injEq] at hdec
    subst hdec; exact hnodes

omit [DecidableEq ι] [DecidableEq κ] in
theorem Routed.init (hD : D.Sharded shards) : Routed D shards (World.init D) where
  tables k := hD.tables k
  net := by intro pkt h; cases h

omit [DecidableEq ι] [DecidableEq κ] in
/-- A request about lists of one shard, to the endpoint chosen for it. -/
theorem Routed.request {a : API} (ht : D.Routes shards a.shardEndpoints) {k : κ} {call : ℕ}
    {listUid : Str} {pick : ℕ} {ep : Str} {m : Message}
    (he : a.getShardEndpoint (D.clientPf k) listUid pick = some ep)
    (hm : ∀ l ∈ m.lists,
      (D.clientPf k).home shards l.uid = (D.clientPf k).home shards listUid) :
    (Packet.request k call ep (.packed m)).Routed D shards := by
  obtain ⟨i, haddr, hshard⟩ := ht.getShardEndpoint he
  exact ⟨m, rfl, Or.inr ⟨i, haddr, fun l hl => (hm l hl).trans hshard.symm⟩⟩

/-- **Every step keeps requests routed.** -/
theorem Routed.step (hD : D.Placed shards) (hi : Informed D w) (hr : Routed D shards w)
    (h : World.step D w a = some w') : Routed D shards w' := by
  have htables : ∀ k, D.Routes shards (w'.client k).api.shardEndpoints := by
    intro k
    rcases hi.table h k with heq | ⟨reply, hreply, heq⟩
    · rw [heq]; exact hr.tables k
    · rw [heq]; exact (hr.tables k).refresh hD hreply
  refine ⟨htables, ?_⟩
  have hsend : ∀ ps : List (Packet κ), (∀ pkt ∈ ps, pkt.Routed D shards) →
      ∀ pkt ∈ w.net ++ ps, pkt.Routed D shards := fun ps hps pkt hpkt =>
    (List.mem_append.1 hpkt).elim (hr.net pkt) (hps pkt)
  -- nodes send no requests
  have hplace : ∀ (i : ι) (n : Node) (running : Bool) (call : Option (κ × ℕ)),
      ∀ pkt ∈ (w.place i n running call).net, pkt.Routed D shards := by
    intro i n running call
    refine hsend _ fun pkt hpkt => ?_
    obtain ⟨s, -, hs⟩ := List.mem_filterMap.1 hpkt
    cases s with
    | reply frame => obtain ⟨c, -, rfl⟩ := Option.map_eq_some_iff.1 hs; trivial
    | gossip dests frame => cases hs; trivial
    | discovery dests frame => cases hs; trivial
  have hends : ∀ {k : κ} {pending : Pending} {reply : Option Message},
      Ends w k pending reply w' → ∀ pkt ∈ w'.net, pkt.Routed D shards := by
    intro k pending reply he
    cases he <;> exact hr.net
  cases step_moves h with
  | start i now => rw [settle_eq_place]; exact hplace _ _ _ _
  | stop i => exact hplace _ _ _ _
  | clientFrame i p now k c dest frame hp _ _ => rw [settle_eq_place]; exact hplace _ _ _ _
  | gossipFrame i p now dests frame hp _ _ => rw [settle_eq_place]; exact hplace _ _ _ _
  | discoveryFrame i p dests frame hp _ _ => rw [settle_eq_place]; exact hplace _ _ _ _
  | stateTimer i now _ => exact hplace _ _ _ _
  | discoveryTimer i evictNow gossipNow _ => rw [settle_eq_place]; exact hplace _ _ _ _
  | begin k a api listUid pick m pending ep hc hb he =>
    obtain ⟨htable, hlists⟩ := hb.lists
    have hapi : D.Routes shards api.shardEndpoints := by rw [htable]; exact hr.tables k
    refine hsend _ fun pkt hpkt => ?_
    obtain rfl := List.mem_singleton.1 hpkt
    exact Routed.request hapi he fun l hl => by rw [hlists l hl]
  | gossipState k now pick batches hb =>
    refine hsend _ fun pkt hpkt => ?_
    obtain ⟨j, hj, rfl⟩ := List.mem_mapIdx.1 hpkt
    obtain ⟨batch, hmem, first, ep, hfirst, he, hreq⟩ :=
      API.mem_gossipState hb (List.getElem_mem hj)
    rw [hreq]
    refine Routed.request (hr.tables k) he ?_
    -- the first list of a batch is of the batch's shard, as all of them are
    have hshard : ∀ l ∈ batch.2, (D.clientPf k).home shards l.uid = batch.1 := by
      intro l hl
      rw [(API.mem_gossipBatches hmem).2, List.mem_filter] at hl
      rw [← (hr.tables k).keys.shardOf_eq]; simpa using hl.2
    intro l hl
    rw [hshard l hl, hshard first (List.mem_of_mem_head? hfirst)]
  | updateCloudNodes k now pick ep _ he =>
    refine hsend _ fun pkt hpkt => ?_
    obtain rfl := List.mem_singleton.1 hpkt
    exact ⟨_, rfl, Or.inl rfl⟩
  | reply k p call pending frame hc hp => exact hends (finish_ends w k pending _)
  | noReply k call pending hc => exact hends (finish_ends w k pending none)
  | nodesReply k p call frame hc hp => exact hr.net
  | noNodesReply k call hc => exact hr.net

/-- **Every reachable state is routed.** -/
theorem routed {P : World ι κ → Action ι κ → Prop} (hD : D.Sharded shards)
    (h : Run (World.step D) P (World.init D) w) : Matched D w ∧ Routed D shards w := by
  refine ⟨(informed hD.peers h).1, h.inv_over (fun _ hw => informed hD.peers hw) (Routed.init hD) ?_⟩
  rintro w a w' ⟨-, hi⟩ hr - hs
  exact hr.step hD.toPlaced hi hs

/-- **In every run every endpoint table has exactly the shards as keys and leads to their nodes,
and `gossipState` partitions the client's lists by shard.** -/
theorem tables_route {P : World ι κ → Action ι κ → Prop} (hD : D.Sharded shards)
    (h : Run (World.step D) P (World.init D) w) (k : κ) :
    D.Routes shards (w.client k).api.shardEndpoints ∧ ∀ now pick c requests,
      (w.client k).api.gossipState (D.clientPf k) now pick c = some requests →
        Batched (D.clientPf k) shards ((w.client k).api.db.readAll c) requests := by
  have htable := (routed hD h).2.tables k
  exact ⟨htable, fun now pick c requests hreq => htable.batched hreq⟩

/-- The UIDs of the lists an action sends requests about, with the client that asks. -/
def Action.asks (w : World ι κ) : Action ι κ → List (κ × Str)
  | createShoppingList k _ uid _ _ => [(k, uid)]
  | getShoppingList k listUid _ _ => [(k, listUid)]
  | addItem k listUid .. => asksAbout k listUid
  | updateItem k listUid .. => asksAbout k listUid
  | removeItem k listUid .. => asksAbout k listUid
  | deleteShoppingList k listUid _ _ => [(k, listUid)]
  | gossipState k _ _ => ((w.client k).api.db.readAll .ok).map fun lst => (k, lst.uid)
  | _ => []
where
  /-- An edit asks about the list it reads. -/
  asksAbout (k : κ) (listUid : Str) : List (κ × Str) :=
    (((w.client k).api.db.read listUid .ok).map fun lst => (k, lst.uid)).toList

/-- The client and every node agree on the UIDs the action asks about. -/
def Action.Agrees (D : Deployment ι κ) (w : World ι κ) (a : Action ι κ) : Prop :=
  ∀ ask ∈ a.asks w, D.Agrees ask.1 ask.2

instance [Fintype ι] (w : World ι κ) (a : Action ι κ) : Decidable (a.Agrees D w) := by
  unfold Action.Agrees; infer_instance

/-- The client and the nodes agree on the lists of a request, and no reply is a refusal. -/
def Packet.Agreed (D : Deployment ι κ) : Packet κ → Prop
  | .request k _ _ frame => ∀ l ∈ frame.lists, D.Agrees k l.uid
  | .reply _ _ frame => frame ≠ .raw wrongShard
  | .gossip _ _ => True
  | .discovery _ _ => True

omit [DecidableEq ι] [DecidableEq κ] in
/-- The UID a call that begins an exchange routes by is one its action asks about. -/
theorem Begin.asks {k : κ} {api : API} {listUid : Str} {pick : ℕ} {m : Message} {pending : Pending}
    (hb : Begin w k a api listUid pick m pending) : (k, listUid) ∈ a.asks w := by
  have hread : ∀ (op : Op) (origin : Str) {uid : Str} {base lst : ShoppingList},
      (w.client k).api.db.read uid .ok = some base → op.apply origin base = .ok lst →
        (k, lst.uid) ∈ Action.asks.asksAbout w k uid := by
    intro op origin uid base lst hbase he
    rw [Action.asks.asksAbout, hbase, (Op.apply_names he).1]; exact List.mem_singleton.2 rfl
  cases hb with
  | create name uid now pick hu => exact List.mem_singleton.2 rfl
  | get listUid now pick => exact List.mem_singleton.2 rfl
  | add listUid itemName desired current itemUid clock now pick lst hu he =>
    unfold API.addItem at he
    split at he
    · cases he
    · rename_i base hbase
      exact hread (.add itemUid itemName desired current _) _ hbase he
  | update listUid itemUid itemName desired current clock now pick lst he =>
    unfold API.updateItem at he
    split at he
    · cases he
    · rename_i base hbase
      exact hread (.update itemUid itemName desired current _) _ hbase he
  | remove listUid itemUid now pick lst he =>
    unfold API.removeItem at he
    split at he
    · cases he
    · rename_i base hbase
      exact hread (.remove itemUid) [] hbase he
  | delete listUid now pick => exact List.mem_singleton.2 rfl

/-- The client and the nodes agree on all lists asked about, and no request was refused. -/
def World.Agreed (D : Deployment ι κ) (w : World ι κ) : Prop := ∀ pkt ∈ w.net, pkt.Agreed D

omit [DecidableEq ι] [DecidableEq κ] in
/-- **A request whose lists the two sides agree on goes to exactly one node, which owns them.** -/
theorem Routed.accepts (hD : D.Sharded shards) (hm : Matched D w) (hr : Routed D shards w)
    (hw : w.Agreed D) {k : κ} {c : ℕ} {dest : Str} {frame : Frame}
    (hmem : Packet.request k c dest frame ∈ w.net) :
    ∃ m, frame = .packed m ∧ (m.op = .getNodes ∨ ∃! i, (D.cfg i).clientAddr = dest ∧
      ∀ l ∈ m.lists, (w.node i).node.shardForList (D.pf i) l.uid = (w.node i).node.cfg.shardId) := by
  obtain ⟨m, rfl, hop | ⟨i, haddr, hlists⟩⟩ := hr.net _ hmem
  · exact ⟨m, rfl, Or.inl hop⟩
  refine ⟨m, rfl, Or.inr ⟨i, ⟨haddr, fun l hl => ?_⟩, ?_⟩⟩
  · have hnum : (w.node i).node.cfg.numShards = shards := by rw [hm.cfg]; exact hD.numShards i
    have hagrees : D.Agrees k l.uid := hw _ hmem l hl
    rw [Platform.shardForList_eq hnum hD.positive, hagrees.home_eq, hm.cfg]
    exact hlists l hl
  · rintro j ⟨hj, -⟩
    exact hD.addresses j i (hj.trans haddr.symm)

omit [DecidableEq κ] in
/-- A handler that does not answer a client, or not with a refusal. -/
theorem World.Agreed.place (hw : w.Agreed D) {i : ι} {n : Node} {running : Bool}
    {call : Option (κ × ℕ)} (hsent : call = none ∨ .reply (.raw wrongShard) ∉ n.sent) :
    (w.place i n running call).Agreed D := by
  intro pkt hpkt
  rcases List.mem_append.1 hpkt with hpkt | hpkt
  · exact hw pkt hpkt
  obtain ⟨s, hs, hp⟩ := List.mem_filterMap.1 hpkt
  cases s with
  | reply frame =>
    obtain ⟨c, rfl, rfl⟩ := Option.map_eq_some_iff.1 hp
    rintro rfl
    exact hsent.elim (fun h => nomatch h) fun h => h hs
  | gossip dests frame => cases hp; trivial
  | discovery dests frame => cases hp; trivial

omit [DecidableEq κ] in
theorem World.Agreed.settle (hw : w.Agreed D) {i : ι} {call : Option (κ × ℕ)} {r : Method Node}
    (hsent : call = none ∨ .reply (.raw wrongShard) ∉ r.state.sent) :
    (w.settle i call r).Agreed D := by
  rw [settle_eq_place]; exact hw.place hsent

/-- **Every step whose UIDs the two sides agree on keeps them agreed.** -/
theorem World.Agreed.step (hD : D.Sharded shards) (hm : Matched D w) (hr : Routed D shards w)
    (hw : w.Agreed D) (ha : a.Agrees D w) (h : World.step D w a = some w') : w'.Agreed D := by
  -- what a client sends is about the UIDs of its action
  have hsend : ∀ {client : κ → ClientState} {ps : List (Packet κ)}, (∀ pkt ∈ ps, pkt.Agreed D) →
      World.Agreed D { w with client, net := w.net ++ ps } := fun hps pkt hpkt =>
    (List.mem_append.1 hpkt).elim (hw pkt) (hps pkt)
  have hends : ∀ {k : κ} {pending : Pending} {reply : Option Message},
      Ends w k pending reply w' → w'.Agreed D := by
    intro k pending reply he
    cases he <;> exact hw
  cases step_moves h with
  | start i now => exact hw.settle (Or.inl rfl)
  | stop i => exact hw.place (Or.inl rfl)
  | clientFrame i p now k c dest frame hp _ hd =>
    refine hw.settle (Or.inr fun hrefused => ?_)
    obtain ⟨m, l, hdec, hop, hl, hsh⟩ := Node.handleClientFrame_wrongShard _ _ (hm.sent i) hrefused
    obtain ⟨m', rfl, hget | ⟨j, ⟨haddr, howns⟩, -⟩⟩ :=
      hr.accepts hD hm hw (List.mem_of_getElem? hp) <;> cases hdec
    · exact hop hget
    · -- addresses are different, so the node that owns the lists is this one
      obtain rfl : j = i := hD.addresses j i (by rw [haddr, hd, hm.cfg])
      exact hsh (howns l hl)
  | gossipFrame i p now dests frame hp _ _ => exact hw.settle (Or.inl rfl)
  | discoveryFrame i p dests frame hp _ _ => exact hw.settle (Or.inl rfl)
  | stateTimer i now _ => exact hw.settle (Or.inl rfl)
  | discoveryTimer i evictNow gossipNow _ => exact hw.settle (Or.inl rfl)
  | begin k a api listUid pick m pending ep hc hb he =>
    refine hsend fun pkt hpkt => ?_
    obtain rfl := List.mem_singleton.1 hpkt
    intro l hl
    rw [hb.lists.2 l hl]
    exact ha _ hb.asks
  | gossipState k now pick batches hb =>
    refine hsend fun pkt hpkt => ?_
    obtain ⟨j, hj, rfl⟩ := List.mem_mapIdx.1 hpkt
    obtain ⟨batch, hmem, first, ep, -, -, hreq⟩ := API.mem_gossipState hb (List.getElem_mem hj)
    intro l hl
    rw [hreq] at hl
    have hl : l ∈ batch.2 := hl
    rw [(API.mem_gossipBatches hmem).2, List.mem_filter] at hl
    exact ha _ (List.mem_map_of_mem hl.1)
  | updateCloudNodes k now pick ep _ he =>
    refine hsend fun pkt hpkt => ?_
    obtain rfl := List.mem_singleton.1 hpkt
    intro l hl; cases hl
  | reply k p call pending frame hc hp => exact hends (finish_ends w k pending _)
  | noReply k call pending hc => exact hends (finish_ends w k pending none)
  | nodesReply k p call frame hc hp => exact hw
  | noNodesReply k call hc => exact hw

/-- In every run whose clients ask about such UIDs only, the two sides agree throughout. -/
theorem agreed (hD : D.Sharded shards)
    (h : Run (World.step D) (fun w a => a.Agrees D w) (World.init D) w) : w.Agreed D := by
  refine h.inv_over (fun _ hw => routed hD hw) ?_ ?_
  · exact fun pkt hpkt => nomatch hpkt
  · rintro w a w' ⟨hm, hr⟩ hw ha hs
    exact hw.step hD hm hr ha hs

/-- A table with a row for each of two shards. -/
def twoRows (eps0 eps1 : List Str) : UMap Int32 (List Str) :=
  AList.insert 1 eps1 (AList.singleton 0 eps0)

theorem lookup_twoRows (eps0 eps1 : List Str) (shard : Int32) :
    (twoRows eps0 eps1).lookup shard =
      if shard = 1 then some eps1 else if shard = 0 then some eps0 else none := by
  refine (UMap.lookup_insert_ite shard 1 _ _).trans ?_
  split
  · rfl
  · refine (UMap.dlookup_cons shard _ []).trans ?_
    simp only [eq_comm]; rfl

theorem hasShards_twoRows (eps0 eps1 : List Str) : Deployment.HasShards 2 (twoRows eps0 eps1) := by
  intro shard
  have hmem : shard ∈ twoRows eps0 eps1 ↔ shard = 1 ∨ shard = 0 := by
    rw [← AList.lookup_isSome, lookup_twoRows]
    by_cases h1 : shard = 1
    · simp [h1]
    · by_cases h0 : shard = 0
      · simp [h0]
      · simp [h0, h1]
  rw [hmem, Int32.le_iff_toInt_le, Int32.lt_iff_toInt_lt, ← Int32.toInt_inj, ← Int32.toInt_inj,
    show (0 : Int32).toInt = 0 from rfl, show (1 : Int32).toInt = 1 from rfl,
    show (2 : Int32).toInt = 2 from rfl]
  omega

omit [DecidableEq ι] [DecidableEq κ] in
theorem routes_twoRows {eps0 eps1 : List Str} (h0 : eps0 ≠ []) (h1 : eps1 ≠ [])
    (o0 : ∀ ep ∈ eps0, D.Owns 0 ep) (o1 : ∀ ep ∈ eps1, D.Owns 1 ep) :
    D.Routes 2 (twoRows eps0 eps1) := by
  have hrow : ∀ shard eps, (twoRows eps0 eps1).lookup shard = some eps →
      eps ≠ [] ∧ ∀ ep ∈ eps, D.Owns shard ep := by
    intro shard eps hl
    rw [lookup_twoRows] at hl
    split at hl
    · rename_i hs; subst hs; cases hl; exact ⟨h1, o1⟩
    · split at hl
      · rename_i hs; subst hs; cases hl; exact ⟨h0, o0⟩
      · cases hl
  exact ⟨hasShards_twoRows eps0 eps1, fun shard eps hl => (hrow shard eps hl).1,
    fun shard eps hl => (hrow shard eps hl).2⟩

/-- Two nodes, one of each shard, that know each other, and one client, whose `char` is unsigned
and theirs is not. -/
def Deployment.shardedSample : Deployment (Fin 2) (Fin 1) where
  pf _ := .sample
  clientPf _ := { Platform.sample with charSigned := false }
  cfg i :=
    { Deployment.sample.cfg i with
      initialPeers := List.ofFn fun j : Fin 2 =>
        { nodeId := [UInt8.ofNat j]
          host := str "h"
          shardId := Int32.ofNat j
          clientPort := Int32.ofNat j
          gossipPullPort := Int32.ofNat (10 + j)
          discoveryPullPort := Int32.ofNat (20 + j) }
      shardId := Int32.ofNat i
      numShards := 2 }
  origin _ := [0]
  table _ := twoRows [endpoint (str "h") 0] [endpoint (str "h") 1]

theorem shardedSample_sharded : Deployment.shardedSample.Sharded 2 where
  positive := by decide
  numShards _ := rfl
  shardId := by decide
  addresses := by decide
  peers := by decide
  tables _ := by
    refine routes_twoRows (by simp) (by simp) (fun ep hep => ?_) fun ep hep => ?_
    · exact ⟨0, (List.mem_singleton.1 hep).symm, rfl⟩
    · exact ⟨1, (List.mem_singleton.1 hep).symm, rfl⟩

/-- Lists of both shards are created and gossiped, and the table is refreshed in between. -/
def shardedRun : List (Action (Fin 2) (Fin 1)) :=
  [.start 0 0, .start 1 0, .createShoppingList 0 [] (sampleUid 0) 1 0, .clientFrame 1 0 fun _ => 2,
    .reply 0 1, .createShoppingList 0 [] (sampleUid 1) 3 0, .noReply 0, .discoveryTimer 0 4 4,
    .discoveryFrame 1 3, .updateCloudNodes 0 5 0, .clientFrame 1 4 fun _ => 5, .nodesReply 0 5,
    .gossipState 0 6 fun _ => 0, .clientFrame 1 6 fun _ => 7, .clientFrame 0 7 fun _ => 8]

/-- **Clients never misroute, if the platforms read their UIDs alike.** In every state of a run of
a truthfully configured deployment whose clients ask only about UIDs that they and the nodes hash
alike, every endpoint table has exactly the shards as keys and leads to their nodes,
`gossipState` partitions the client's lists by shard, every request about lists is addressed to
exactly one node, which owns all of them, and no reply is `WRONG_SHARD`. -/
theorem clients_route (hD : D.Sharded shards)
    (h : Run (World.step D) (fun w a => a.Agrees D w) (World.init D) w) :
    (∀ k, D.Routes shards (w.client k).api.shardEndpoints) ∧
      (∀ k now pick c requests,
        (w.client k).api.gossipState (D.clientPf k) now pick c = some requests →
          Batched (D.clientPf k) shards ((w.client k).api.db.readAll c) requests) ∧
      (∀ k c dest frame, Packet.request k c dest frame ∈ w.net →
        ∃ m, frame = .packed m ∧ (m.op = .getNodes ∨ ∃! i, (D.cfg i).clientAddr = dest ∧ ∀ l ∈ m.lists,
          (w.node i).node.shardForList (D.pf i) l.uid = (w.node i).node.cfg.shardId)) ∧
      ∀ k c frame, Packet.reply k c frame ∈ w.net → frame ≠ .raw wrongShard := by
  obtain ⟨hm, hr⟩ := routed hD h
  have hw := agreed hD h
  refine ⟨hr.tables, fun k => (tables_route hD h k).2, ?_, ?_⟩
  · intro k c dest frame hmem
    exact hr.accepts hD hm hw hmem
  · intro k c frame hmem
    exact hw _ hmem

theorem shardedRun_routes : ∃ w : World (Fin 2) (Fin 1),
    Run (World.step .shardedSample) (fun w a => a.Agrees .shardedSample w) (World.init .shardedSample)
        w ∧
      w.net.length = 10 ∧ Deployment.shardedSample.Routes 2 (w.client 0).api.shardEndpoints ∧
      ∀ k c frame, Packet.reply k c frame ∈ w.net → frame ≠ .raw wrongShard := by
  obtain ⟨w, hw, hp⟩ := runList_of_any
    (checked (World.step .shardedSample) fun w a => a.Agrees Deployment.shardedSample w)
    (World.init Deployment.shardedSample) shardedRun (fun w => decide (w.net.length = 10))
    (by decide +kernel)
  have hrun : Run (World.step .shardedSample) (fun w a => a.Agrees Deployment.shardedSample w)
      (World.init .shardedSample) w := Run.of_checked hw
  obtain ⟨htables, -, -, hreplies⟩ := clients_route shardedSample_sharded hrun
  exact ⟨w, hrun, of_decide_eq_true hp, htables 0, hreplies⟩

/-- The call a packet refuses. -/
def Packet.refused : Packet κ → Option (κ × ℕ)
  | .reply k c (.raw bytes) => if bytes = wrongShard then some (k, c) else none
  | _ => none

omit [DecidableEq κ] in
theorem Packet.eq_of_refused {pkt : Packet κ} {k : κ} {c : ℕ} (h : pkt.refused = some (k, c)) :
    pkt = .reply k c (.raw wrongShard) := by
  unfold Packet.refused at h
  split at h
  · split at h
    · rename_i hbytes; cases h; rw [hbytes]
    · cases h
  · cases h

/-- The client asks for the list `öl`. -/
def umlautRun : List (Action (Fin 2) (Fin 1)) :=
  [.start 0 0, .start 1 0, .getShoppingList 0 Util.umlautUid 1 0, .clientFrame 1 0 fun _ => 2]

/-- The client takes the list to be of shard 1, whose node takes it to be of shard 0. -/
theorem umlaut_refused : Deployment.shardedSample.Sharded 2 ∧ ∃ w : World (Fin 2) (Fin 1),
    Run (World.step .shardedSample) (fun _ _ => True) (World.init .shardedSample) w ∧
      Packet.reply 0 0 (.raw wrongShard) ∈ w.net ∧
      (w.client 0).api.shardOf (Deployment.shardedSample.clientPf 0) Util.umlautUid = 1 ∧
      (w.node 1).node.cfg.shardId = 1 ∧
      (w.node 1).node.shardForList (Deployment.shardedSample.pf 1) Util.umlautUid = 0 := by
  obtain ⟨w, hw, hp⟩ := runList_of_any (World.step Deployment.shardedSample)
    (World.init Deployment.shardedSample) umlautRun
    (fun w => decide (w.net[1]?.bind Packet.refused = some (0, 0) ∧
      (w.client 0).api.shardOf (Deployment.shardedSample.clientPf 0) Util.umlautUid = 1 ∧
      (w.node 1).node.cfg.shardId = 1 ∧
      (w.node 1).node.shardForList (Deployment.shardedSample.pf 1) Util.umlautUid = 0))
    (by decide +kernel)
  obtain ⟨hrefused, hshards⟩ := of_decide_eq_true hp
  obtain ⟨pkt, hpkt, hrefused⟩ := Option.bind_eq_some_iff.1 hrefused
  have hmem := List.mem_of_getElem? hpkt
  rw [Packet.eq_of_refused hrefused] at hmem
  exact ⟨shardedSample_sharded, w, Run.of_list (fun _ _ _ => trivial) hw, hmem, hshards⟩

end Shopping
