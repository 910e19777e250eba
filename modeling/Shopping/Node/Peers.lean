import Shopping.Node.Turns

/-!
# What the discovery code does to a peer

An entry of `update_known_nodes`, and an eviction, are about one peer: nothing of any other
peer changes, however they end (`SameOf`). What a call that returns leaves is written out in
one lemma each (`updateKnownNode_turn`, `evictNode_eq_ok`), from what a join and a leave of
either socket do; on `known_nodes` alone, `update_known_nodes` keeps the newest entry of every
peer (`updateKnownNodes_known`).
-/

namespace Shopping

open Lib

namespace Node

/-- Nothing of the node `id` is different in `n'`. -/
structure SameOf (id : Str) (n n' : Node) : Prop where
  cfg : n'.cfg = n.cfg
  known : n'.knownNodes.lookup id = n.knownNodes.lookup id
  discovery : id ∈ n'.connectedDiscovery ↔ id ∈ n.connectedDiscovery
  shard : id ∈ n'.connectedShard ↔ id ∈ n.connectedShard

theorem SameOf.refl (id : Str) (n : Node) : SameOf id n n := ⟨rfl, rfl, Iff.rfl, Iff.rfl⟩

theorem SameOf.trans {id : Str} {a b c : Node} (h : SameOf id a b) (h' : SameOf id b c) :
    SameOf id a c where
  cfg := h'.cfg.trans h.cfg
  known := h'.known.trans h.known
  discovery := h'.discovery.trans h.discovery
  shard := h'.shard.trans h.shard

/-- What two steps leave of a peer, their sequence leaves. -/
theorem SameOf.bind {id : Str} {n : Node} {r : Method Node} {f : Node → Method Node}
    (hr : SameOf id n r.state) (hf : ∀ n', SameOf id n' (f n').state) :
    SameOf id n (Throws.state (r.bind f)) :=
  Throws.state_bind hr fun n' h => h.trans (hf n')

/-- A join or a leave of one peer changes nothing of another. -/
theorem Relinked.sameOf {k : Push} {id id' : Str} {n n' : Node} (h : Relinked k id' n n')
    (hid : id ≠ id') : SameOf id n n' := by
  obtain ⟨ids, endpoints, rfl, hids⟩ := h
  cases k with
  | discovery => exact ⟨rfl, rfl, hids id hid, Iff.rfl⟩
  | gossip => exact ⟨rfl, rfl, Iff.rfl, hids id hid⟩

theorem SameOf.connected {id : Str} {n n' : Node} (h : SameOf id n n') (k : Push) :
    id ∈ n'.connected k ↔ id ∈ n.connected k := by
  cases k with
  | discovery => exact h.discovery
  | gossip => exact h.shard

theorem stamp_sameOf (n : Node) {id id' : Str} (ts : UInt64) (hid : id ≠ id') :
    SameOf id n (n.stamp id' ts) := ⟨rfl, AList.lookup_insert_ne hid, Iff.rfl, Iff.rfl⟩

/-- **An entry of one peer leaves the others alone**, also when a connect throws. -/
theorem updateKnownNode_sameOf (pf : Platform) (n : Node) {info : NodeInfo} {id : Str}
    (hid : id ≠ info.nodeId) : SameOf id n (updateKnownNode pf n info).state := by
  have hins : SameOf id n { n with knownNodes := n.knownNodes.insert info.nodeId info } :=
    ⟨rfl, AList.lookup_insert_ne hid, Iff.rfl, Iff.rfl⟩
  unfold updateKnownNode
  split
  · exact SameOf.refl id n
  split
  · split
    · exact SameOf.refl id n
    · exact hins.trans (stamp_sameOf _ _ hid)
  · exact (hins.trans ((join_relinked .discovery pf _ info).sameOf hid)).bind fun n1 =>
      ((join_relinked .gossip pf n1 info).sameOf hid).bind fun n2 => stamp_sameOf n2 _ hid

theorem updateKnownNodes_sameOf (pf : Platform) {id : Str} (infos : List NodeInfo) :
    ∀ n : Node, (∀ info ∈ infos, info.nodeId ≠ id) →
      SameOf id n (updateKnownNodes pf n infos).state := by
  induction infos with
  | nil => intro n _; exact SameOf.refl id n
  | cons info infos ih =>
    intro n hinfos
    rw [List.forall_mem_cons] at hinfos
    exact (updateKnownNode_sameOf pf n (Ne.symm hinfos.1)).bind fun n' => ih n' hinfos.2

/-- A connection is one more in the list, also to an endpoint connected before. -/
theorem connect_eq_ok {pf : Platform} {ep : Str} {endpoints endpoints' : List Str}
    (h : connect pf ep endpoints = .ok endpoints') : endpoints' = ep :: endpoints := by
  unfold connect at h
  split at h
  · cases h; rfl
  · cases h

/-- A disconnection ends all connections to its endpoint. -/
theorem disconnect_eq_ok {ep : Str} {endpoints endpoints' : List Str}
    (h : disconnect ep endpoints = .ok endpoints') :
    endpoints' = endpoints.filter (· ≠ ep) := by
  unfold disconnect at h
  split at h
  · cases h; rfl
  · cases h

/-- What a join that returns leaves. -/
theorem join_eq_ok {k : Push} {pf : Platform} {n n' : Node} {info : NodeInfo}
    (h : join k pf n info = .ok n') :
    n' = n.setLinks
      (if k.Takes n.cfg info then insert info.nodeId (n.connected k) else n.connected k)
      (if k.Takes n.cfg info ∧ info.nodeId ∉ n.connected k then k.endpoint info :: n.links k
        else n.links k) k := by
  unfold join at h
  split at h
  · rename_i hjoin
    rw [if_pos hjoin.1, if_pos hjoin]
    dsimp only at h
    split at h
    · rename_i push hpush
      cases h
      rw [connect_eq_ok hpush]
    · cases h
  · rename_i hjoin
    cases h
    rw [if_neg hjoin]
    -- a peer that is not joined is not one for this socket, or is connected already
    have hids : (if k.Takes n.cfg info then insert info.nodeId (n.connected k)
        else n.connected k) = n.connected k := by
      split
      · rename_i htakes
        exact Finset.insert_eq_self.2 (not_not.1 fun hnot => hjoin ⟨htakes, hnot⟩)
      · rfl
    rw [hids]
    cases k <;> rfl

/-- The forms the result of `update_known_nodes` takes for one entry, when it returns. -/
inductive LearnTurn (n : Node) (info : NodeInfo) : Node → Prop
  | own (hid : info.nodeId = n.cfg.nodeId) : LearnTurn n info n
  | stale (known : NodeInfo) (hid : info.nodeId ≠ n.cfg.nodeId)
      (hl : n.knownNodes.lookup info.nodeId = some known)
      (hts : info.lastSeenTs < known.lastSeenTs) : LearnTurn n info n
  | renewed (known : NodeInfo) (hid : info.nodeId ≠ n.cfg.nodeId)
      (hl : n.knownNodes.lookup info.nodeId = some known)
      (hts : ¬ info.lastSeenTs < known.lastSeenTs) :
      LearnTurn n info { n with knownNodes := n.knownNodes.insert info.nodeId info }
  | joined (hid : info.nodeId ≠ n.cfg.nodeId) (hl : n.knownNodes.lookup info.nodeId = none) :
      LearnTurn n info
        { n with
          knownNodes := n.knownNodes.insert info.nodeId info
          connectedDiscovery := insert info.nodeId n.connectedDiscovery
          discoveryPush := if info.nodeId ∈ n.connectedDiscovery then n.discoveryPush
            else endpoint info.host info.discoveryPullPort :: n.discoveryPush
          connectedShard := if info.shardId = n.cfg.shardId then insert info.nodeId n.connectedShard
            else n.connectedShard
          gossipPush := if info.shardId = n.cfg.shardId ∧ info.nodeId ∉ n.connectedShard then
              endpoint info.host info.gossipPullPort :: n.gossipPush
            else n.gossipPush }

/-- Stamping an entry just stored with its own time changes nothing. -/
theorem stamp_insert {n n1 : Node} {info : NodeInfo}
    (h : n1.knownNodes = n.knownNodes.insert info.nodeId info) :
    n1.stamp info.nodeId info.lastSeenTs =
      { n1 with knownNodes := n.knownNodes.insert info.nodeId info } := by
  unfold stamp
  rw [h, AList.lookup_insert]
  dsimp only [Option.getD_some]
  rw [AList.insert_insert]

theorem updateKnownNode_turn {pf : Platform} {n n' : Node} {info : NodeInfo}
    (h : updateKnownNode pf n info = .ok n') : LearnTurn n info n' := by
  unfold updateKnownNode at h
  split at h
  · rename_i hid
    cases h; exact .own hid
  rename_i hid
  split at h
  · rename_i known hl
    split at h
    · rename_i hts
      cases h; exact .stale known hid hl hts
    · rename_i hts
      cases h
      rw [stamp_insert (n := n) rfl]
      exact .renewed known hid hl hts
  · rename_i hl
    obtain ⟨n1, h1, h⟩ := Throws.bind_eq_ok.1 h
    obtain ⟨n2, h2, h⟩ := Throws.bind_eq_ok.1 h
    cases h
    rw [join_eq_ok h1] at h2
    have hn2 := join_eq_ok h2
    simp only [setLinks, connected, links, Push.Takes, Push.endpoint, true_and, ite_not] at hn2
    rw [stamp_insert (n := n) (by rw [hn2]), hn2]
    exact .joined hid hl

/-- **One entry, on `known_nodes`**: the newer of the two stays. -/
theorem LearnTurn.known {n n' : Node} {info : NodeInfo} (h : LearnTurn n info n') :
    n'.knownNodes = if info.nodeId = n.cfg.nodeId then n.knownNodes
      else UMap.renew (fun i : NodeInfo => i.lastSeenTs.toNat) n.knownNodes info.nodeId info := by
  cases h with
  | own hid => rw [if_pos hid]
  | stale known hid hl hts =>
    rw [if_neg hid, UMap.renew, hl]
    exact (if_pos (UInt64.lt_iff_toNat_lt.1 hts)).symm
  | renewed known hid hl hts =>
    rw [if_neg hid, UMap.renew, hl]
    exact (if_neg (mt UInt64.lt_iff_toNat_lt.2 hts)).symm
  | joined hid hl => rw [if_neg hid, UMap.renew, hl]

/-- The entries of a message about other nodes, under their node ids. -/
def offers (n : Node) (infos : List NodeInfo) : List (Str × NodeInfo) :=
  (infos.filter fun info => info.nodeId ≠ n.cfg.nodeId).map fun info => (info.nodeId, info)

/-- **A message, on `known_nodes`**: the newest entry of every other node stays. -/
theorem updateKnownNodes_known {pf : Platform} (infos : List NodeInfo) : ∀ {n n' : Node},
    updateKnownNodes pf n infos = .ok n' →
      n'.cfg = n.cfg ∧ n'.knownNodes =
        UMap.renewAll (fun i : NodeInfo => i.lastSeenTs.toNat) n.knownNodes (n.offers infos) := by
  induction infos with
  | nil => intro n n' h; cases h; exact ⟨rfl, rfl⟩
  | cons info infos ih =>
    intro n n' h
    rw [updateKnownNodes] at h
    obtain ⟨n1, hu, h⟩ := Throws.bind_eq_ok.1 h
    obtain ⟨hcfg, hknown⟩ := ih h
    have hcfg1 : n1.cfg = n.cfg := by
      have := updateKnownNode_same pf n info
      rw [hu] at this; exact this.cfg
    have hoffers : n1.offers infos = n.offers infos := by unfold offers; rw [hcfg1]
    refine ⟨hcfg.trans hcfg1, ?_⟩
    rw [hknown, hoffers, (updateKnownNode_turn hu).known]
    by_cases hown : info.nodeId = n.cfg.nodeId
    · rw [if_pos hown, show n.offers (info :: infos) = n.offers infos by
        unfold offers; rw [List.filter_cons_of_neg (by simpa using hown)]]
    · rw [if_neg hown, show n.offers (info :: infos) = (info.nodeId, info) :: n.offers infos by
        unfold offers; rw [List.filter_cons_of_pos (by simpa using hown)]; rfl]
      rfl

/-- **An eviction leaves the other peers alone**, also when a disconnect throws. -/
theorem evictNode_sameOf (now : UInt64) (n : Node) {id id' : Str} (info : NodeInfo)
    (hid : id ≠ id') : SameOf id n (evictNode now n id' info).state := by
  unfold evictNode
  split
  · exact SameOf.refl id n
  split
  · exact SameOf.refl id n
  · exact ((leave_relinked .discovery n id' info).sameOf hid).bind fun n1 =>
      ((leave_relinked .gossip n1 id' info).sameOf hid).bind fun n2 =>
        ⟨rfl, AList.lookup_erase_ne hid, Iff.rfl, Iff.rfl⟩

/-- What a leave that returns leaves. -/
theorem leave_eq_ok {k : Push} {n n' : Node} {id : Str} {info : NodeInfo}
    (h : leave k n id info = .ok n') :
    n' = n.setLinks
      (if k.Takes n.cfg info then (n.connected k).erase id else n.connected k)
      (if k.Takes n.cfg info ∧ id ∈ n.connected k then
          (n.links k).filter (· ≠ k.endpoint info)
        else n.links k) k := by
  unfold leave at h
  split at h
  · rename_i hleave
    rw [if_pos hleave.1, if_pos hleave]
    dsimp only at h
    split at h
    · rename_i push hpush
      cases h
      rw [disconnect_eq_ok hpush]
    · cases h
  · rename_i hleave
    cases h
    rw [if_neg hleave]
    have hids : (if k.Takes n.cfg info then (n.connected k).erase id else n.connected k) =
        n.connected k := by
      split
      · rename_i htakes
        exact Finset.erase_eq_of_notMem fun hmem => hleave ⟨htakes, hmem⟩
      · rfl
    rw [hids]
    cases k <;> rfl

/-- The test of `evict_dead_nodes`. -/
def Expired (now : UInt64) (cfg : NodeConfig) (id : Str) (info : NodeInfo) : Prop :=
  id ≠ cfg.nodeId ∧ ¬ now - info.lastSeenTs ≤ UInt64.ofInt cfg.discoveryTimeoutMs.toInt

instance (now : UInt64) (cfg : NodeConfig) (id : Str) (info : NodeInfo) :
    Decidable (Expired now cfg id info) := inferInstanceAs (Decidable (_ ∧ _))

/-- An expired peer is disconnected and then forgotten. -/
theorem evictNode_of_expired {now : UInt64} {n : Node} {id : Str} {info : NodeInfo}
    (h : Expired now n.cfg id info) :
    evictNode now n id info = (leaveDiscovery n id info).bind fun n =>
      (leaveShard n id info).bind fun n => .ok { n with knownNodes := n.knownNodes.erase id } := by
  unfold evictNode
  rw [if_neg h.1, if_neg h.2]

/-- A peer that is not expired stays as it is. -/
theorem evictNode_of_not_expired {now : UInt64} {n : Node} {id : Str} {info : NodeInfo}
    (h : ¬ Expired now n.cfg id info) : evictNode now n id info = .ok n := by
  unfold evictNode
  by_cases hid : id = n.cfg.nodeId
  · rw [if_pos hid]
  · rw [if_neg hid, if_pos]
    by_contra hold
    exact h ⟨hid, hold⟩

/-- **One eviction**: what it leaves when it returns. -/
theorem evictNode_eq_ok {now : UInt64} {n n' : Node} {id : Str} {info : NodeInfo}
    (h : evictNode now n id info = .ok n') :
    n' = if Expired now n.cfg id info then
        { n with
          knownNodes := n.knownNodes.erase id
          connectedDiscovery := n.connectedDiscovery.erase id
          discoveryPush := if id ∈ n.connectedDiscovery then
              n.discoveryPush.filter (· ≠ endpoint info.host info.discoveryPullPort)
            else n.discoveryPush
          connectedShard := if info.shardId = n.cfg.shardId then n.connectedShard.erase id
            else n.connectedShard
          gossipPush := if info.shardId = n.cfg.shardId ∧ id ∈ n.connectedShard then
              n.gossipPush.filter (· ≠ endpoint info.host info.gossipPullPort)
            else n.gossipPush }
      else n := by
  by_cases hexp : Expired now n.cfg id info
  · rw [evictNode_of_expired hexp] at h
    obtain ⟨n1, h1, h⟩ := Throws.bind_eq_ok.1 h
    obtain ⟨n2, h2, h⟩ := Throws.bind_eq_ok.1 h
    cases h
    rw [leave_eq_ok h1] at h2
    rw [if_pos hexp, leave_eq_ok h2]
    simp only [setLinks, connected, links, Push.Takes, Push.endpoint, true_and]
    rfl
  · rw [evictNode_of_not_expired hexp] at h
    cases h
    rw [if_neg hexp]

end Node

end Shopping
