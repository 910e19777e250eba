import Shopping.Lib.Mirror
import Shopping.Proof.Evictions

/-!
# Known nodes and connections

A node keeps what it knows of its peers, whom it is connected to, and the connections
themselves in different places. `update_known_nodes` connects to a peer it did not know, and
overwrites the entry of one it knew; `evict_dead_nodes` disconnects from the endpoint that
the entry spells by then. So the places agree (`InStep`) as long as a peer is announced as it
was when it was joined (`connections_kept`).
-/

namespace Shopping

open Lib

namespace Node

def discoveryEndpoint (info : NodeInfo) : Str := endpoint info.host info.discoveryPullPort

def gossipEndpoint (info : NodeInfo) : Str := endpoint info.host info.gossipPullPort

/-- The entry is another node's. -/
def IsPeer (cfg : NodeConfig) (id : Str) (_ : NodeInfo) : Prop := id ≠ cfg.nodeId

/-- The entry is another node's, of the own shard. -/
def IsShardPeer (cfg : NodeConfig) (id : Str) (info : NodeInfo) : Prop :=
  id ≠ cfg.nodeId ∧ info.shardId = cfg.shardId

instance (cfg : NodeConfig) (id : Str) (info : NodeInfo) : Decidable (IsPeer cfg id info) :=
  inferInstanceAs (Decidable (_ ≠ _))

instance (cfg : NodeConfig) (id : Str) (info : NodeInfo) : Decidable (IsShardPeer cfg id info) :=
  inferInstanceAs (Decidable (_ ∧ _))

/-- **Membership and connections agree**: the node is connected to exactly the peers it
knows, and in the shard to those of its own, at the endpoints their entries spell. -/
structure InStep (n : Node) : Prop where
  discovery : Mirror (IsPeer n.cfg) discoveryEndpoint n.knownNodes n.connectedDiscovery
    n.discoveryPush
  shard : Mirror (IsShardPeer n.cfg) gossipEndpoint n.knownNodes n.connectedShard n.gossipPush

theorem new_inStep (cfg : NodeConfig) (db : SqliteDb) (now : UInt64) : (new cfg db now).InStep := by
  have hself : ∀ id, ((new cfg db now).knownNodes.lookup id).isSome = true → id = cfg.nodeId := by
    intro id h
    exact List.mem_singleton.1 (AList.lookup_isSome.1 h)
  have hnobody : ∀ id info, (new cfg db now).knownNodes.lookup id = some info →
      ¬ IsPeer (new cfg db now).cfg id info := by
    intro id info hl hpeer
    exact hpeer (hself id (by rw [hl]; rfl))
  refine ⟨⟨fun id => ?_, ?_⟩, ⟨fun id => ?_, ?_⟩⟩
  · exact iff_of_false (Finset.notMem_empty id) fun ⟨info, hl, hp⟩ => hnobody id info hl hp
  · refine (Multiset.eq_zero_of_forall_notMem fun ep hep => ?_).symm
    obtain ⟨id, info, hl, hp, -⟩ := UMap.mem_collect.1 hep
    exact hnobody id info hl hp
  · exact iff_of_false (Finset.notMem_empty id) fun ⟨info, hl, hp⟩ => hnobody id info hl hp.1
  · refine (Multiset.eq_zero_of_forall_notMem fun ep hep => ?_).symm
    obtain ⟨id, info, hl, hp, -⟩ := UMap.mem_collect.1 hep
    exact hnobody id info hl hp.1

/-- The entry can be taken in: a new peer can be connected to, and one that is known is
announced as before, or the entry is older than the one held. -/
def Fits (pf : Platform) (n : Node) (info : NodeInfo) : Prop :=
  info.nodeId ≠ n.cfg.nodeId →
    match n.knownNodes.lookup info.nodeId with
    | none => Joinable pf n info
    | some known => info.lastSeenTs < known.lastSeenTs ∨
        discoveryEndpoint known = discoveryEndpoint info ∧
          (known.shardId = n.cfg.shardId ↔ info.shardId = n.cfg.shardId) ∧
            (info.shardId = n.cfg.shardId → gossipEndpoint known = gossipEndpoint info)

instance (pf : Platform) (n : Node) (info : NodeInfo) : Decidable (Fits pf n info) := by
  unfold Fits
  cases n.knownNodes.lookup info.nodeId <;> infer_instance

/-- **An entry that fits** is taken in, and the connections stay in step. -/
theorem InStep.updateKnownNode {pf : Platform} {n : Node} {info : NodeInfo} (h : n.InStep)
    (hfits : Fits pf n info) : ∃ n', updateKnownNode pf n info = .ok n' ∧ n'.InStep := by
  obtain ⟨n', hn'⟩ : ∃ n', Node.updateKnownNode pf n info = .ok n' := by
    rw [updateKnownNode_isOk]
    intro hid hnew
    have := hfits hid
    rwa [AList.lookup_eq_none.2 hnew] at this
  refine ⟨n', hn', ?_⟩
  have ht := updateKnownNode_turn hn'
  cases ht with
  | own hid => exact h
  | stale known hid hl hts => exact h
  | renewed known hid hl hts =>
    have hsame := hfits hid
    rw [hl] at hsame
    obtain ⟨hep, hshard, hgossip⟩ := hsame.resolve_left hts
    refine ⟨h.discovery.replace hl Iff.rfl fun _ => hep, ?_⟩
    exact h.shard.replace hl (and_congr_right fun _ => hshard) fun hp => hgossip hp.2
  | joined hid hl =>
    have hnew : info.nodeId ∉ n.knownNodes := AList.lookup_eq_none.1 hl
    -- whoever is not known is not connected to
    have hd : info.nodeId ∉ n.connectedDiscovery := by
      rw [h.discovery.keys]; simp [hl]
    have hs : info.nodeId ∉ n.connectedShard := by
      rw [h.shard.keys]; simp [hl]
    have hdiscovery := h.discovery.insert (v := info) hnew
    have hshard := h.shard.insert (v := info) hnew
    rw [if_pos (show IsPeer n.cfg info.nodeId info from hid),
      if_pos (show IsPeer n.cfg info.nodeId info from hid)] at hdiscovery
    simp only [show IsShardPeer n.cfg info.nodeId info ↔ info.shardId = n.cfg.shardId from
      and_iff_right hid] at hshard
    refine ⟨?_, ?_⟩
    · simp only [if_neg hd]; exact hdiscovery
    · simp only [hs, not_false_iff, and_true]; exact hshard

/-- Every entry fits when its turn comes. -/
def FitAll (pf : Platform) : Node → List NodeInfo → Prop
  | _, [] => True
  | n, info :: infos =>
    Fits pf n info ∧ ∀ n', updateKnownNode pf n info = .ok n' → FitAll pf n' infos

theorem InStep.updateKnownNodes {pf : Platform} (infos : List NodeInfo) : ∀ {n : Node},
    n.InStep → FitAll pf n infos → ∃ n', updateKnownNodes pf n infos = .ok n' ∧ n'.InStep := by
  induction infos with
  | nil => intro n h _; exact ⟨n, rfl, h⟩
  | cons info infos ih =>
    intro n h hfit
    obtain ⟨n1, h1, hstep⟩ := h.updateKnownNode hfit.1
    obtain ⟨n', h2, hstep'⟩ := ih hstep (hfit.2 n1 h1)
    exact ⟨n', Throws.bind_eq_ok.2 ⟨n1, h1, h2⟩, hstep'⟩

/-- No other peer has an endpoint of this one. -/
def Unshared (n : Node) (id : Str) (info : NodeInfo) : Prop :=
  ∀ other ∈ n.knownNodes.entries, other.1 ≠ id → other.1 ≠ n.cfg.nodeId →
    discoveryEndpoint other.2 ≠ discoveryEndpoint info ∧
      (info.shardId = n.cfg.shardId → other.2.shardId = n.cfg.shardId →
        gossipEndpoint other.2 ≠ gossipEndpoint info)

instance (n : Node) (id : Str) (info : NodeInfo) : Decidable (Unshared n id info) := by
  unfold Unshared; infer_instance

/-- The peers evicted at time `now` share no endpoint. -/
def CanEvict (now : UInt64) (n : Node) : Prop :=
  ∀ e ∈ n.knownNodes.entries, Expired now n.cfg e.1 e.2 → Unshared n e.1 e.2

instance (now : UInt64) (n : Node) : Decidable (CanEvict now n) := by
  unfold CanEvict; infer_instance

/-- **One eviction** of a peer that shares no endpoint: it returns, and the connections stay in
step. -/
theorem InStep.evictNode {now : UInt64} {n : Node} {id : Str} {info : NodeInfo} (h : n.InStep)
    (hl : n.knownNodes.lookup id = some info)
    (hun : Expired now n.cfg id info → Unshared n id info) :
    ∃ n', evictNode now n id info = .ok n' ∧ n'.InStep := by
  by_cases hexp : Expired now n.cfg id info
  · have hpeer : IsPeer n.cfg id info := hexp.1
    have hsp : IsShardPeer n.cfg id info ↔ info.shardId = n.cfg.shardId := and_iff_right hexp.1
    have hd : id ∈ n.connectedDiscovery := (h.discovery.keys id).2 ⟨info, hl, hpeer⟩
    have hs : info.shardId = n.cfg.shardId → id ∈ n.connectedShard := fun hs =>
      (h.shard.keys id).2 ⟨info, hl, hsp.2 hs⟩
    -- a peer in step is linked, so both disconnects return
    obtain ⟨n', hn'⟩ : ∃ n', Node.evictNode now n id info = .ok n' := by
      rw [evictNode_isOk]
      intro _ k htakes _
      cases k with
      | discovery => exact h.discovery.mem_links hl hpeer
      | gossip => exact h.shard.mem_links hl (hsp.2 htakes)
    refine ⟨n', hn', ?_⟩
    have hdiscovery := h.discovery.erase hl fun _ id' info' hl' hid hp =>
      (hun hexp ⟨id', info'⟩ (AList.mem_lookup_iff.1 hl') hid hp).1
    have hshard := h.shard.erase hl fun hp id' info' hl' hid hp' =>
      (hun hexp ⟨id', info'⟩ (AList.mem_lookup_iff.1 hl') hid hp'.1).2 hp.2 hp'.2
    rw [if_pos hpeer, if_pos hpeer] at hdiscovery
    simp only [hsp] at hshard
    have hcond : info.shardId = n.cfg.shardId ∧ id ∈ n.connectedShard ↔
        info.shardId = n.cfg.shardId := and_iff_left_of_imp hs
    rw [evictNode_eq_ok hn', if_pos hexp]
    refine ⟨?_, ?_⟩
    · simp only [if_pos hd]; exact hdiscovery
    · simp only [hcond]; exact hshard
  · exact ⟨n, evictNode_of_not_expired hexp, h⟩

/-- **The loop of `evict_dead_nodes`**, over entries the node has. -/
theorem InStep.evictAll {now : UInt64} (es : List (Sigma fun _ : Str => NodeInfo)) :
    ∀ {n : Node}, n.InStep → es.NodupKeys → (∀ e ∈ es, n.knownNodes.lookup e.1 = some e.2) →
      CanEvict now n → ∃ n', evictAll now n es = .ok n' ∧ n'.InStep := by
  induction es with
  | nil => intro n h _ _ _; exact ⟨n, rfl, h⟩
  | cons e es ih =>
    intro n h hnodup hes hcan
    rw [List.forall_mem_cons] at hes
    obtain ⟨n1, h1, hstep⟩ := h.evictNode hes.1 (hcan e (AList.mem_lookup_iff.1 hes.1))
    have hev := evictNode_evicted h1
    -- evictions add no entries, so the rest can still be evicted
    have hsub : ∀ e' ∈ n1.knownNodes.entries, e' ∈ n.knownNodes.entries := by
      intro e' he'
      rw [← AList.mem_lookup_iff] at he' ⊢
      rcases hev.known e'.1 with ⟨hnone, -⟩ | ⟨hsame, -⟩
      · rw [hnone] at he'; cases he'
      · rw [← hsame]; exact he'
    have hes1 : ∀ e' ∈ es, n1.knownNodes.lookup e'.1 = some e'.2 := by
      intro e' he'
      have hne : e'.1 ≠ e.1 := by
        intro heq
        refine (List.nodupKeys_cons.1 hnodup).1 ?_
        rw [← heq]; exact List.mem_map_of_mem he'
      rcases hev.known e'.1 with ⟨-, heq, -⟩ | ⟨hsame, -⟩
      · exact absurd heq hne
      · rw [hsame]; exact hes.2 e' he'
    have hcan1 : CanEvict now n1 := by
      intro e' he' hexp other hother hid hown
      rw [hev.cfg] at hexp hown ⊢
      exact hcan e' (hsub e' he') hexp other (hsub other hother) hid hown
    obtain ⟨n', h2, hstep'⟩ := ih hstep (List.nodupKeys_cons.1 hnodup).2 hes1 hcan1
    exact ⟨n', Throws.bind_eq_ok.2 ⟨n1, h1, h2⟩, hstep'⟩

theorem InStep.evictDeadNodes {now : UInt64} {n : Node} (h : n.InStep) (hcan : CanEvict now n) :
    ∃ n', evictDeadNodes now n = .ok n' ∧ n'.InStep :=
  h.evictAll _ n.knownNodes.nodupKeys (fun _ he => AList.mem_lookup_iff.2 he) hcan

/-- The two operations on what a node knows of its peers. -/
inductive Discovery
  | update (infos : List NodeInfo)
  | evict (now : UInt64)

def discover (pf : Platform) (n : Node) : Discovery → Method Node
  | .update infos => Node.updateKnownNodes pf n infos
  | .evict now => Node.evictDeadNodes now n

def discoverAll (pf : Platform) : Node → List Discovery → Method Node
  | n, [] => .ok n
  | n, d :: ds => (discover pf n d).bind fun n => discoverAll pf n ds

/-- The operation keeps announcements and evictions in order. -/
def Orderly (pf : Platform) (n : Node) : Discovery → Prop
  | .update infos => FitAll pf n infos
  | .evict now => CanEvict now n

/-- Every operation is in order when its turn comes. -/
def OrderlyRun (pf : Platform) : Node → List Discovery → Prop
  | _, [] => True
  | n, d :: ds => Orderly pf n d ∧ ∀ n', discover pf n d = .ok n' → OrderlyRun pf n' ds

theorem InStep.discover {pf : Platform} {n : Node} (h : n.InStep) {d : Discovery}
    (hd : Orderly pf n d) : ∃ n', discover pf n d = .ok n' ∧ n'.InStep := by
  cases d with
  | update infos => exact h.updateKnownNodes infos hd
  | evict now => exact h.evictDeadNodes hd

/-- Every operation returns, and leaves membership and connections in agreement. -/
def StaysInStep (pf : Platform) (n : Node) (ds : List Discovery) : Prop :=
  ∀ pre post, ds = pre ++ post → ∃ n', discoverAll pf n pre = .ok n' ∧ n'.InStep

theorem InStep.discoverAll {pf : Platform} (ds : List Discovery) : ∀ {n : Node}, n.InStep →
    OrderlyRun pf n ds → StaysInStep pf n ds := by
  induction ds with
  | nil =>
    intro n h _ pre post hpre
    obtain ⟨rfl, -⟩ := List.append_eq_nil_iff.1 hpre.symm
    exact ⟨n, rfl, h⟩
  | cons d ds ih =>
    intro n h hds pre post hpre
    cases pre with
    | nil => exact ⟨n, rfl, h⟩
    | cons d' pre =>
      obtain ⟨rfl, rfl⟩ := List.cons_eq_cons.1 hpre
      obtain ⟨n1, h1, hstep⟩ := h.discover hds.1
      obtain ⟨n', h2, hstep'⟩ := ih hstep (hds.2 n1 h1) pre post rfl
      exact ⟨n', Throws.bind_eq_ok.2 ⟨n1, h1, h2⟩, hstep'⟩

instance decidableFitAll (pf : Platform) : ∀ infos n, Decidable (FitAll pf n infos)
  | [], _ => isTrue trivial
  | info :: infos, n =>
    have hrest : Decidable (∀ n', updateKnownNode pf n info = .ok n' → FitAll pf n' infos) :=
      match h : updateKnownNode pf n info with
      | .ok n' =>
        have := decidableFitAll pf infos n'
        decidable_of_iff (FitAll pf n' infos) (by simp)
      | .error _ => isTrue (by simp)
    inferInstanceAs (Decidable (_ ∧ _))

instance (pf : Platform) (n : Node) (d : Discovery) : Decidable (Orderly pf n d) := by
  cases d <;> unfold Orderly <;> infer_instance

instance decidableOrderlyRun (pf : Platform) : ∀ ds n, Decidable (OrderlyRun pf n ds)
  | [], _ => isTrue trivial
  | d :: ds, n =>
    have hrest : Decidable (∀ n', discover pf n d = .ok n' → OrderlyRun pf n' ds) :=
      match h : discover pf n d with
      | .ok n' =>
        have := decidableOrderlyRun pf ds n'
        decidable_of_iff (OrderlyRun pf n' ds) (by simp)
      | .error _ => isTrue (by simp)
    inferInstanceAs (Decidable (_ ∧ _))

/-- **Membership and connections agree** in every run in which peers are announced as they were
joined and those evicted share no endpoint: no connect and no disconnect throws. -/
theorem connections_kept (pf : Platform) (cfg : NodeConfig) (db : SqliteDb) (now : UInt64)
    (ds : List Discovery) (h : OrderlyRun pf (new cfg db now) ds) :
    StaysInStep pf (new cfg db now) ds := (new_inStep cfg db now).discoverAll ds h

/-- A node of the sample deployment before it enters its loop. -/
def sampleNew : Node := new (Deployment.sample.cfg 0) {} 0

/-- The peer as it announces itself at time `ts`, with discovery port `port`. -/
def announced (id : UInt8) (port : Int32) (ts : UInt64) : NodeInfo :=
  { nodeId := [id], host := str "h", gossipPullPort := 17, discoveryPullPort := port,
    lastSeenTs := ts }

/-- A peer announced again as before, evicted, and back at another port beside a second one. -/
def orderlyRun : List Discovery :=
  [.update [announced 7 27 0, announced 7 27 1], .update [announced 7 27 1], .evict 9000,
    .update [announced 8 28 9000, announced 7 29 9001], .evict 9002]

theorem orderlyRun_inStep : StaysInStep samplePf sampleNew orderlyRun :=
  connections_kept samplePf (Deployment.sample.cfg 0) {} 0 orderlyRun (by decide +kernel)

/-- A peer that is announced with another port. -/
def driftRun : List Discovery := [.update [announced 7 27 0], .update [announced 7 28 1]]

/-- The node stays connected to the old port, and the eviction of the peer throws. -/
theorem connections_drift : ¬ StaysInStep samplePf sampleNew driftRun ∧
    (discoverAll samplePf sampleNew (driftRun ++ [.evict 9002])).returned = false := by
  refine ⟨fun h => ?_, by decide +kernel⟩
  obtain ⟨n', hok, hstep⟩ := h driftRun [] rfl
  have hstate : (discoverAll samplePf sampleNew driftRun).state = n' := by rw [hok]; rfl
  have hknown : n'.knownNodes.lookup [7] = some (announced 7 28 1) := by
    rw [← hstate]; decide +kernel
  have hcfg : n'.cfg.nodeId = [0] := by rw [← hstate]; decide +kernel
  have hpush := hstep.discovery.mem_links hknown (by unfold IsPeer; rw [hcfg]; decide)
  rw [← hstate] at hpush
  revert hpush
  decide +kernel

end Node

end Shopping
