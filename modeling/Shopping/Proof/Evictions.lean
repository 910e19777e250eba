import Shopping.Node.Peers
import Shopping.Proof.Frames

/-!
# Evictions

`evict_dead_nodes` drops the peers whose last sign of life is too old.

* `evict_exact`: it drops exactly those, unless a peer's clock is ahead of its own: the
  difference of two `uint64_t`s wraps, and the peer seen last is the first to go. It returns
  iff each endpoint it disconnects from is connected and is disconnected from once.
* `evicted_stays_away`: with the entry goes the time it was compared by, so any entry about
  an evicted peer, however old, brings it back.
-/

namespace Shopping

open Lib

namespace Node

/-- What an eviction that returns leaves of a node. -/
structure Evicted (gone : Str → Prop) (n n' : Node) : Prop where
  cfg : n'.cfg = n.cfg
  known : ∀ id, n'.knownNodes.lookup id = none ∧ gone id ∨
    n'.knownNodes.lookup id = n.knownNodes.lookup id ∧ ¬ gone id
  discovery : ∀ id, id ∈ n'.connectedDiscovery ↔ id ∈ n.connectedDiscovery ∧ ¬ gone id

theorem evictNode_evicted {now : UInt64} {n n' : Node} {id : Str} {info : NodeInfo}
    (h : evictNode now n id info = .ok n') :
    Evicted (fun id' => id' = id ∧ Expired now n.cfg id info) n n' := by
  rw [evictNode_eq_ok h]
  split
  · rename_i hexp
    refine ⟨rfl, fun id' => ?_, fun id' => ?_⟩
    · by_cases hid : id' = id
      · subst hid; exact Or.inl ⟨AList.lookup_erase _ _, rfl, hexp⟩
      · exact Or.inr ⟨AList.lookup_erase_ne hid, fun hg => hid hg.1⟩
    · dsimp only
      rw [Finset.mem_erase, and_iff_left hexp]
      exact and_comm
  · rename_i hexp
    exact ⟨rfl, fun id' => Or.inr ⟨rfl, fun hg => hexp hg.2⟩, fun id' => by simp [hexp]⟩

theorem evictAll_eq_ok {now : UInt64} (es : List (Sigma fun _ : Str => NodeInfo)) :
    ∀ {n n' : Node}, evictAll now n es = .ok n' →
      Evicted (fun id => ∃ e ∈ es, id = e.1 ∧ Expired now n.cfg e.1 e.2) n n' := by
  induction es with
  | nil =>
    intro n n' h
    cases h
    exact ⟨rfl, fun id => Or.inr ⟨rfl, by simp⟩, fun id => by simp⟩
  | cons e es ih =>
    intro n n' h
    obtain ⟨n1, h1, h⟩ := Throws.bind_eq_ok.1 h
    have hone := evictNode_evicted h1
    have hrest := ih h
    rw [hone.cfg] at hrest
    refine ⟨hrest.cfg.trans hone.cfg, fun id => ?_, fun id => ?_⟩
    · rw [List.exists_mem_cons_iff]
      rcases hrest.known id with ⟨hnone, hgone⟩ | ⟨hsame, hstay⟩
      · exact Or.inl ⟨hnone, Or.inr hgone⟩
      · rw [hsame]
        rcases hone.known id with ⟨hnone, hgone⟩ | ⟨hsame1, hstay1⟩
        · exact Or.inl ⟨hnone, Or.inl hgone⟩
        · exact Or.inr ⟨hsame1, not_or.2 ⟨hstay1, hstay⟩⟩
    · rw [hrest.discovery, hone.discovery, List.exists_mem_cons_iff, not_or, and_assoc]

/-- The node evicts peer `id` at time `now`. -/
def Evicts (now : UInt64) (n : Node) (id : Str) : Prop :=
  ∃ info ∈ n.knownNodes.lookup id, Expired now n.cfg id info

instance (now : UInt64) (n : Node) (id : Str) : Decidable (Evicts now n id) := by
  unfold Evicts; infer_instance

/-- **What `evict_dead_nodes` leaves**, when it returns. -/
theorem evictDeadNodes_eq_ok {now : UInt64} {n n' : Node} (h : evictDeadNodes now n = .ok n') :
    Evicted (Evicts now n) n n' := by
  have hgone : (fun id => ∃ e ∈ n.knownNodes.entries, id = e.1 ∧ Expired now n.cfg e.1 e.2) =
      Evicts now n := by
    funext id
    apply propext
    constructor
    · rintro ⟨e, he, rfl, hexp⟩; exact ⟨e.2, AList.mem_lookup_iff.2 he, hexp⟩
    · rintro ⟨info, hinfo, hexp⟩; exact ⟨⟨id, info⟩, AList.mem_lookup_iff.1 hinfo, rfl, hexp⟩
  rw [← hgone]
  exact evictAll_eq_ok _ h

/-- The endpoints of one socket that the evictions among `es` disconnect from. -/
def leaves (k : Push) (now : UInt64) (n : Node) (es : List (Sigma fun _ : Str => NodeInfo)) :
    List Str :=
  (es.filter fun e => Expired now n.cfg e.1 e.2 ∧ k.Takes n.cfg e.2 ∧ e.1 ∈ n.connected k).map
    fun e => k.endpoint e.2

/-- Those of the discovery socket. -/
def discoveryLeaves (now : UInt64) (n : Node) (es : List (Sigma fun _ : Str => NodeInfo)) :
    List Str := leaves .discovery now n es

/-- Those of the gossip socket. -/
def shardLeaves (now : UInt64) (n : Node) (es : List (Sigma fun _ : Str => NodeInfo)) :
    List Str := leaves .gossip now n es

/-- The endpoints to disconnect from are connected, and differ. -/
def Leavable (leaves connected : List Str) : Prop := leaves.Nodup ∧ ∀ ep ∈ leaves, ep ∈ connected

instance (leaves connected : List Str) : Decidable (Leavable leaves connected) :=
  inferInstanceAs (Decidable (_ ∧ _))

theorem leaves_cons (k : Push) (now : UInt64) (n : Node) (e : Sigma fun _ : Str => NodeInfo)
    (es : List (Sigma fun _ : Str => NodeInfo)) :
    leaves k now n (e :: es) =
      if Expired now n.cfg e.1 e.2 ∧ k.Takes n.cfg e.2 ∧ e.1 ∈ n.connected k then
        k.endpoint e.2 :: leaves k now n es
      else leaves k now n es := by
  unfold leaves
  rw [List.filter_cons]
  simp only [decide_eq_true_eq]
  split <;> rfl

/-- The first disconnect closes every connection to its endpoint. -/
theorem leavable_cons (ep : Str) (leaves connected : List Str) :
    Leavable (ep :: leaves) connected ↔
      ep ∈ connected ∧ Leavable leaves (connected.filter (· ≠ ep)) := by
  unfold Leavable
  rw [List.nodup_cons, List.forall_mem_cons]
  have hrest : (∀ ep' ∈ leaves, ep' ∈ connected.filter (· ≠ ep)) ↔
      ep ∉ leaves ∧ ∀ ep' ∈ leaves, ep' ∈ connected := by
    simp only [List.mem_filter, decide_eq_true_eq]
    constructor
    · intro h; exact ⟨fun hin => (h ep hin).2 rfl, fun ep' hin => (h ep' hin).1⟩
    · rintro ⟨hnot, h⟩ ep' hin
      exact ⟨h ep' hin, fun heq => hnot (heq ▸ hin)⟩
  rw [hrest]
  tauto

/-- The same where the first disconnect may not be made. -/
theorem leavable_ite (p : Prop) [Decidable p] (ep : Str) (leaves connected : List Str) :
    Leavable (if p then ep :: leaves else leaves) connected ↔
      (p → ep ∈ connected) ∧
        Leavable leaves (if p then connected.filter (· ≠ ep) else connected) := by
  by_cases hp : p
  · rw [if_pos hp, if_pos hp, leavable_cons, forall_prop_of_true hp]
  · rw [if_neg hp, if_neg hp, and_iff_right fun h => absurd h hp]

/-- A leave returns iff the endpoint it disconnects from is connected. -/
theorem leave_isOk (k : Push) (n : Node) (id : Str) (info : NodeInfo) :
    (∃ n', leave k n id info = .ok n') ↔
      (k.Takes n.cfg info → id ∈ n.connected k → k.endpoint info ∈ n.links k) := by
  unfold leave disconnect
  by_cases ht : k.Takes n.cfg info
  · by_cases hmem : id ∈ n.connected k
    · by_cases hep : k.endpoint info ∈ n.links k
      · simp [ht, hmem, hep]
      · simp [ht, hmem, hep]
    · simp [hmem]
  · simp [ht]

theorem Push.forall {P : Push → Prop} : (∀ k, P k) ↔ P .discovery ∧ P .gossip := by
  constructor
  · intro h; exact ⟨h .discovery, h .gossip⟩
  · rintro ⟨hd, hg⟩ k
    cases k with
    | discovery => exact hd
    | gossip => exact hg

/-- **One eviction** returns iff the endpoints it disconnects from are connected. -/
theorem evictNode_isOk (now : UInt64) (n : Node) (id : Str) (info : NodeInfo) :
    (∃ n', evictNode now n id info = .ok n') ↔ (Expired now n.cfg id info →
      ∀ k : Push, k.Takes n.cfg info → id ∈ n.connected k → k.endpoint info ∈ n.links k) := by
  by_cases hexp : Expired now n.cfg id info
  · rw [evictNode_of_expired hexp, forall_prop_of_true hexp, Push.forall, ← leave_isOk]
    unfold leaveDiscovery leaveShard
    cases hd : leave .discovery n id info with
    | error x => simp [Except.bind]
    | ok n1 =>
      -- leaving the discovery socket does not touch the gossip socket
      have hshard := leave_isOk .gossip n1 id info
      rw [show n1.cfg = n.cfg by rw [leave_eq_ok hd]; rfl,
        show n1.connected .gossip = n.connected .gossip by rw [leave_eq_ok hd]; rfl,
        show n1.links .gossip = n.links .gossip by rw [leave_eq_ok hd]; rfl] at hshard
      rw [← hshard]
      simp only [Except.bind, Except.ok.injEq, exists_eq', true_and]
      cases leave .gossip n1 id info with
      | error x => simp
      | ok n2 => simp
  · rw [evictNode_of_not_expired hexp]
    exact iff_of_true ⟨n, rfl⟩ fun h => absurd h hexp

/-- The disconnects after that of `e`, when `e` has been evicted. -/
theorem leaves_tail {now : UInt64} {n n1 : Node} {e : Sigma fun _ : Str => NodeInfo}
    {es : List (Sigma fun _ : Str => NodeInfo)} (hnodup : (e :: es).NodupKeys)
    (h : evictNode now n e.1 e.2 = .ok n1) (k : Push) : leaves k now n1 es = leaves k now n es := by
  have hsame : ∀ e' ∈ es, SameOf e'.1 n n1 := by
    intro e' he'
    have hne : e'.1 ≠ e.1 := by
      rintro heq
      refine (List.nodupKeys_cons.1 hnodup).1 ?_
      rw [← heq]; exact List.mem_map_of_mem he'
    have := evictNode_sameOf now n e.2 hne
    rwa [h] at this
  unfold leaves
  congr 1
  refine List.filter_congr fun e' he' => ?_
  simp only [(hsame e' he').cfg, (hsame e' he').connected k]

/-- What an eviction leaves of a socket's endpoints. -/
theorem evictNode_links {now : UInt64} {n n' : Node} {id : Str} {info : NodeInfo}
    (h : evictNode now n id info = .ok n') (k : Push) :
    n'.links k = if Expired now n.cfg id info ∧ k.Takes n.cfg info ∧ id ∈ n.connected k then
        (n.links k).filter (· ≠ k.endpoint info)
      else n.links k := by
  rw [evictNode_eq_ok h]
  by_cases hexp : Expired now n.cfg id info
  · cases k with
    | discovery =>
      simp only [hexp, links, connected, Push.Takes, Push.endpoint, true_and, if_true]
      split <;> rfl
    | gossip => simp only [hexp, true_and]; rfl
  · simp [hexp]

/-- **The loop of `evict_dead_nodes` returns** iff what it disconnects from is connected, and
disconnected from once. -/
theorem evictAll_isOk (now : UInt64) (es : List (Sigma fun _ : Str => NodeInfo)) : ∀ n : Node,
    es.NodupKeys → ((∃ n', evictAll now n es = .ok n') ↔
      ∀ k, Leavable (leaves k now n es) (n.links k)) := by
  induction es with
  | nil => intro n _; simp [evictAll, leaves, Leavable]
  | cons e es ih =>
    intro n hnodup
    have hisOk := evictNode_isOk now n e.1 e.2
    simp only [evictAll, leaves_cons, leavable_ite]
    cases he : evictNode now n e.1 e.2 with
    | error x =>
      rw [he] at hisOk
      simp only [Except.bind, reduceCtorEq, exists_false, false_iff] at hisOk ⊢
      intro h
      exact hisOk fun hexp k htakes hmem => (h k).1 ⟨hexp, htakes, hmem⟩
    | ok n1 =>
      have hok := hisOk.1 ⟨n1, he⟩
      rw [show (Except.ok n1 : Method Node).bind (fun n => evictAll now n es) =
          evictAll now n1 es from rfl, ih n1 (List.nodupKeys_cons.1 hnodup).2]
      refine forall_congr' fun k => ?_
      rw [leaves_tail hnodup he, evictNode_links he]
      exact iff_and_self.2 fun _ hp => hok hp.1 k hp.2.1 hp.2.2

theorem evictDeadNodes_isOk (now : UInt64) (n : Node) :
    (∃ n', evictDeadNodes now n = .ok n') ↔
      Leavable (discoveryLeaves now n n.knownNodes.entries) n.discoveryPush ∧
        Leavable (shardLeaves now n n.knownNodes.entries) n.gossipPush :=
  (evictAll_isOk now _ n n.knownNodes.nodupKeys).trans Push.forall

/-- The last sign of life is not older than the timeout, as exact integers. -/
def SeenWithin (now : UInt64) (cfg : NodeConfig) (info : NodeInfo) : Prop :=
  (now.toNat : ℤ) ≤ info.lastSeenTs.toNat + cfg.discoveryTimeoutMs.toInt

/-- The peer's clock is not ahead, or so far that the difference wraps to the timeout again. -/
def ClockFits (now : UInt64) (cfg : NodeConfig) (info : NodeInfo) : Prop :=
  info.lastSeenTs ≤ now ∨
    (2 : ℤ) ^ 64 ≤ info.lastSeenTs.toNat - now.toNat + cfg.discoveryTimeoutMs.toInt

/-- The comparison of the code, on the numbers. -/
theorem age_le_iff (now last : UInt64) {timeout : Int32} (h : 0 ≤ timeout.toInt) :
    now - last ≤ UInt64.ofInt timeout.toInt ↔
      ((2 ^ 64 - last.toNat + now.toNat) % 2 ^ 64 : ℤ) ≤ timeout.toInt := by
  have hlt := timeout.toInt_lt
  have hlast := last.toNat_lt_size
  simp only [UInt64.size] at hlast
  have hto : (UInt64.ofInt timeout.toInt).toNat = timeout.toInt.toNat := by
    rw [UInt64.ofInt, UInt64.toNat_ofNat']; omega
  rw [UInt64.le_iff_toNat_le, hto, UInt64.toNat_sub]
  omega

/-- The test is right about a peer iff its clock fits. -/
theorem expired_iff {now : UInt64} {cfg : NodeConfig} {id : Str} {info : NodeInfo}
    (h : 0 ≤ cfg.discoveryTimeoutMs.toInt) (hid : id ≠ cfg.nodeId) :
    (¬ Expired now cfg id info ↔ SeenWithin now cfg info) ↔ ClockFits now cfg info := by
  have hlt := cfg.discoveryTimeoutMs.toInt_lt
  have hnow := now.toNat_lt_size
  have hlast := info.lastSeenTs.toNat_lt_size
  simp only [UInt64.size] at hnow hlast
  have hexp : ¬ Expired now cfg id info ↔
      ((2 ^ 64 - info.lastSeenTs.toNat + now.toNat) % 2 ^ 64 : ℤ) ≤ cfg.discoveryTimeoutMs.toInt := by
    rw [← age_le_iff now info.lastSeenTs h]
    simp [Expired, hid]
  rw [hexp, SeenWithin, ClockFits, UInt64.le_iff_toNat_le]
  omega

/-- The entries that remain are the node's own and those of peers seen within the timeout. -/
def Exact (now : UInt64) (n n' : Node) : Prop :=
  ∀ id info, n'.knownNodes.lookup id = some info ↔
    n.knownNodes.lookup id = some info ∧ (id = n.cfg.nodeId ∨ SeenWithin now n.cfg info)

theorem Evicted.exact_iff {now : UInt64} {n n' : Node} (h : Evicted (Evicts now n) n n')
    (htimeout : 0 ≤ n.cfg.discoveryTimeoutMs.toInt) :
    Exact now n n' ↔ ∀ id info, n.knownNodes.lookup id = some info → id ≠ n.cfg.nodeId →
      ClockFits now n.cfg info := by
  -- an entry stays iff it is not expired
  have hstays : ∀ id info, n.knownNodes.lookup id = some info →
      (n'.knownNodes.lookup id = some info ↔ ¬ Expired now n.cfg id info) := by
    intro id info hl
    rcases h.known id with ⟨hnone, info', hl', hexp⟩ | ⟨hsame, hstay⟩
    · rw [hl] at hl'
      cases hl'
      simp [hnone, hexp]
    · rw [hsame]
      exact iff_of_true hl fun hexp => hstay ⟨info, hl, hexp⟩
  constructor
  · intro hexact id info hl hid
    rw [← expired_iff htimeout hid, ← hstays id info hl, hexact id info, and_iff_right hl,
      or_iff_right hid]
  · intro hfits id info
    by_cases hl : n.knownNodes.lookup id = some info
    · rw [hstays id info hl, and_iff_right hl]
      by_cases hid : id = n.cfg.nodeId
      · exact iff_of_true (fun hexp => hexp.1 hid) (Or.inl hid)
      · rw [or_iff_right hid]
        exact (expired_iff htimeout hid).2 (hfits id info hl hid)
    · refine iff_of_false (fun hl' => hl ?_) fun hand => hl hand.1
      rcases h.known id with ⟨hnone, -⟩ | ⟨hsame, -⟩
      · rw [hnone] at hl'; cases hl'
      · rw [← hsame]; exact hl'

/-- **Eviction removes exactly the expired peers** iff no peer's clock is ahead; and it returns
iff each endpoint it leaves is connected and left once. -/
theorem evict_exact (now : UInt64) (n : Node) (htimeout : 0 ≤ n.cfg.discoveryTimeoutMs.toInt) :
    (∃ n', evictDeadNodes now n = .ok n' ∧ Exact now n n') ↔
      (∀ id info, n.knownNodes.lookup id = some info → id ≠ n.cfg.nodeId →
        ClockFits now n.cfg info) ∧
      Leavable (discoveryLeaves now n n.knownNodes.entries) n.discoveryPush ∧
        Leavable (shardLeaves now n n.knownNodes.entries) n.gossipPush := by
  rw [← evictDeadNodes_isOk]
  constructor
  · rintro ⟨n', hok, hexact⟩
    exact ⟨((evictDeadNodes_eq_ok hok).exact_iff htimeout).1 hexact, n', hok⟩
  · rintro ⟨hfits, n', hok⟩
    exact ⟨n', hok, ((evictDeadNodes_eq_ok hok).exact_iff htimeout).2 hfits⟩

/-- Everyone the sample node knows is long gone. -/
theorem sampleLoop_evicts :
    ∃ n', evictDeadNodes 9000 sampleLoop = .ok n' ∧ Exact 9000 sampleLoop n' := by
  refine (evict_exact 9000 sampleLoop (by decide +kernel)).2 ⟨?_, by decide +kernel⟩
  have hall : ∀ e ∈ sampleLoop.knownNodes.entries, e.2.lastSeenTs ≤ 9000 := by decide +kernel
  intro id info hl _
  exact Or.inl (hall ⟨id, info⟩ (AList.mem_lookup_iff.1 hl))

/-- A peer whose clock shows 5000. -/
def aheadPeer : NodeInfo :=
  { nodeId := [7], host := str "h", shardId := 1, discoveryPullPort := 27, lastSeenTs := 5000 }

/-- The sample node once it has heard of that peer. -/
def aheadLoop : Node := (updateKnownNodes samplePf sampleLoop [aheadPeer]).state

/-- At 4999 the peer was seen a millisecond from now; it is evicted. -/
theorem ahead_evicted : 0 ≤ aheadLoop.cfg.discoveryTimeoutMs.toInt ∧
    ¬ ∃ n', evictDeadNodes 4999 aheadLoop = .ok n' ∧ Exact 4999 aheadLoop n' := by
  refine ⟨by decide +kernel, ?_⟩
  rintro ⟨n', hok, hexact⟩
  have hgone : ((evictDeadNodes 4999 aheadLoop).state.knownNodes.lookup [7]).isSome = false := by
    decide +kernel
  have hknown : aheadLoop.knownNodes.lookup [7] = some aheadPeer := by decide +kernel
  have hstays := (hexact [7] aheadPeer).2 ⟨hknown, Or.inr (by unfold SeenWithin; decide +kernel)⟩
  rw [hok, Throws.state, hstays] at hgone
  cases hgone

/-- The turn takes up a discovery message with an entry of the node `id`. -/
def Announces (pf : Platform) (id : Str) : Wake → Prop
  | .discoveryFrame frame =>
    ∃ m ∈ frame.decode pf, m.op = .gossipNodes ∧ ∃ info ∈ m.nodes, info.nodeId = id
  | _ => False

instance (pf : Platform) (id : Str) : DecidablePred (Announces pf id)
  | .clientFrame _ _ => isFalse not_false
  | .gossipFrame _ _ => isFalse not_false
  | .discoveryFrame _ => by unfold Announces; infer_instance
  | .stateTimer _ _ => isFalse not_false
  | .discoveryTimer _ _ => isFalse not_false

theorem evictAll_sameOf (now : UInt64) {id : Str} (es : List (Sigma fun _ : Str => NodeInfo)) :
    ∀ n : Node, (∀ e ∈ es, e.1 ≠ id) → SameOf id n (evictAll now n es).state := by
  induction es with
  | nil => intro n _; exact SameOf.refl id n
  | cons e es ih =>
    intro n hes
    rw [List.forall_mem_cons] at hes
    exact (evictNode_sameOf now n e.2 (Ne.symm hes.1)).bind fun n' => ih n' hes.2

/-- **A turn that does not announce a node that is not known** leaves it alone. -/
theorem wake_sameOf (pf : Platform) {n : Node} {id : Str} (hid : id ≠ n.cfg.nodeId)
    (hknown : id ∉ n.knownNodes) {w : Wake} (hw : ¬ Announces pf id w) :
    SameOf id n (wake pf n w).state := by
  have hsame : ∀ n' : Node, n'.cfg = n.cfg → n'.knownNodes = n.knownNodes →
      n'.connectedDiscovery = n.connectedDiscovery → n'.connectedShard = n.connectedShard →
        SameOf id n n' := by
    intro n' h1 h2 h3 h4
    exact ⟨h1, by rw [h2], by rw [h3], by rw [h4]⟩
  cases w with
  | clientFrame env frame =>
    obtain ⟨db, new, hs, -⟩ := (handleClientFrame_turn pf env n frame).state_eq
    show SameOf id n (handleClientFrame pf env n frame).state
    rw [hs]; exact hsame _ rfl rfl rfl rfl
  | gossipFrame env frame =>
    obtain ⟨db, hs, -⟩ := handleGossipFrame_state pf env n frame
    show SameOf id n (handleGossipFrame pf env n frame).state
    rw [hs]; exact hsame _ rfl rfl rfl rfl
  | discoveryFrame frame =>
    show SameOf id n (handleDiscoveryFrame pf n frame).state
    unfold handleDiscoveryFrame
    cases hd : frame.decode pf with
    | none => exact SameOf.refl id n
    | some m =>
      dsimp only
      split
      · exact SameOf.refl id n
      · rename_i hop
        refine updateKnownNodes_sameOf pf m.nodes n fun info hin heq => hw ?_
        exact ⟨m, hd, not_not.1 hop, info, hin, heq⟩
  | stateTimer now c =>
    obtain ⟨new, he, -⟩ := performShardGossip_eq now c n
    show SameOf id n (performShardGossip now c n)
    rw [he]; exact hsame _ rfl rfl rfl rfl
  -- a peer that is not known is not evicted, and the timer stamps the own entry only
  | discoveryTimer evictNow gossipNow =>
    have hevict : SameOf id n (evictDeadNodes evictNow n).state := by
      refine evictAll_sameOf evictNow _ n fun e he heq => hknown ?_
      rw [← heq, ← AList.lookup_isSome, AList.mem_lookup_iff.2 he]; rfl
    let K := fun n' : Node => SameOf id n n'
    refine Throws.state_bind (P := K) hevict fun n1 h1 => h1.trans ?_
    have hstamp : SameOf id n1 (n1.stamp n1.cfg.nodeId gossipNow) :=
      stamp_sameOf n1 gossipNow (by rw [h1.cfg]; exact hid)
    show SameOf id n1 (performDiscoveryGossip gossipNow n1)
    unfold performDiscoveryGossip
    dsimp only
    split
    · exact hstamp
    · exact hstamp.trans ⟨rfl, rfl, Iff.rfl, Iff.rfl⟩

/-- **Without an announcement** a node that is not known stays so. -/
theorem runLoop_sameOf (pf : Platform) {id : Str} (ws : List Wake) : ∀ {n : Node},
    id ≠ n.cfg.nodeId → id ∉ n.knownNodes → (∀ w ∈ ws, ¬ Announces pf id w) →
      SameOf id n (runLoop pf n ws).state := by
  induction ws with
  | nil => intro n _ _ _; exact SameOf.refl id n
  | cons w ws ih =>
    intro n hid hknown hws
    rw [List.forall_mem_cons] at hws
    have hfirst := wake_sameOf pf hid hknown hws.1
    rw [runLoop]
    cases hw : wake pf n w with
    | error x => rw [hw] at hfirst; exact hfirst
    | ok n1 =>
      rw [hw] at hfirst
      refine hfirst.trans (ih (n := n1) ?_ ?_ hws.2)
      · rw [show n1.cfg = n.cfg from hfirst.cfg]; exact hid
      · rw [← AList.lookup_eq_none] at hknown ⊢
        exact hfirst.known.trans hknown

/-- **An announcement makes a node known**, whatever time it carries. -/
theorem announced_known {pf : Platform} {n n' : Node} {id : Str} {w : Wake}
    (hid : id ≠ n.cfg.nodeId) (hw : Announces pf id w) (h : wake pf n w = .ok n') :
    id ∈ n'.knownNodes := by
  cases w with
  | discoveryFrame frame =>
    obtain ⟨m, hd, hop, info, hin, rfl⟩ := hw
    have hd : frame.decode pf = some m := hd
    have h : handleDiscoveryFrame pf n frame = .ok n' := h
    unfold handleDiscoveryFrame at h
    rw [hd] at h
    dsimp only at h
    rw [if_neg (not_not.2 hop)] at h
    rw [(updateKnownNodes_known _ h).2, UMap.mem_renewAll]
    refine Or.inr ⟨(info.nodeId, info), List.mem_map.2 ⟨info, ?_, rfl⟩, rfl⟩
    exact List.mem_filter.2 ⟨hin, by simpa using hid⟩
  | _ => exact hw.elim

/-- The peer is neither known nor connected to, and not connected to in the shard either
unless it was in `n`. -/
def Away (id : Str) (n n' : Node) : Prop :=
  id ∉ n'.knownNodes ∧ id ∉ n'.connectedDiscovery ∧
    (id ∈ n'.connectedShard → id ∈ n.connectedShard)

instance (id : Str) (n n' : Node) : Decidable (Away id n n') := inferInstanceAs (Decidable (_ ∧ _))

/-- The peer is away in every state that the loop passes through after `n`. -/
def StaysAway (pf : Platform) (id : Str) (n : Node) (ws : List Wake) : Prop :=
  ∀ pre post, ws = pre ++ post → Away id n (runLoop pf n pre).state

/-- What the discovery timer leaves of an evicted peer. -/
theorem discoveryTimer_away {pf : Platform} {n0 n : Node} {id : Str} {evictNow gossipNow : UInt64}
    (h : wake pf n0 (.discoveryTimer evictNow gossipNow) = .ok n) (hev : Evicts evictNow n0 id) :
    id ≠ n.cfg.nodeId ∧ id ∉ n.knownNodes ∧ id ∉ n.connectedDiscovery := by
  have hid : id ≠ n0.cfg.nodeId := by
    obtain ⟨info, -, hexp⟩ := hev; exact hexp.1
  cases he : evictDeadNodes evictNow n0 with
  | error x => simp only [wake, he] at h; cases h
  | ok n1 =>
    simp only [wake, he] at h
    cases h
    have hleft := evictDeadNodes_eq_ok he
    have hknown : n1.knownNodes.lookup id = none :=
      (hleft.known id).elim (fun h => h.1) fun h => absurd hev h.2
    have hconn : id ∉ n1.connectedDiscovery := fun hin => ((hleft.discovery id).1 hin).2 hev
    have hid1 : id ≠ n1.cfg.nodeId := by rw [hleft.cfg]; exact hid
    have hstamp : id ∉ (n1.stamp n1.cfg.nodeId gossipNow).knownNodes := by
      rw [← AList.lookup_eq_none, (stamp_sameOf n1 gossipNow hid1).known]; exact hknown
    unfold performDiscoveryGossip
    dsimp only
    split
    · exact ⟨hid1, hstamp, hconn⟩
    · exact ⟨hid1, hstamp, hconn⟩

/-- Whoever stays unknown through a run that returns was not announced in it. -/
theorem not_announced {pf : Platform} {id : Str} (ws : List Wake) : ∀ {n : Node},
    id ≠ n.cfg.nodeId → id ∉ n.knownNodes → (runLoop pf n ws).returned = true →
      (∀ pre post, ws = pre ++ post → id ∉ (runLoop pf n pre).state.knownNodes) →
        ∀ w ∈ ws, ¬ Announces pf id w := by
  induction ws with
  | nil => intro n _ _ _ _ w hw; cases hw
  | cons w ws ih =>
    intro n hid hknown hret haway
    cases hw : wake pf n w with
    | error x => rw [runLoop, hw] at hret; cases hret
    | ok n1 =>
      have hrun : ∀ pre, runLoop pf n (w :: pre) = runLoop pf n1 pre := by
        intro pre; rw [runLoop, hw]; rfl
      -- an announcement makes it known after this turn
      have hfirst : ¬ Announces pf id w := by
        intro ha
        refine haway [w] ws rfl ?_
        rw [hrun]; exact announced_known hid ha hw
      have hsame := wake_sameOf pf hid hknown hfirst
      rw [hw] at hsame
      rw [List.forall_mem_cons]
      refine ⟨hfirst, ih (n := n1) ?_ ?_ ?_ ?_⟩
      · rw [show n1.cfg = n.cfg from hsame.cfg]; exact hid
      · rw [← AList.lookup_eq_none] at hknown ⊢
        exact hsame.known.trans hknown
      · rw [← hrun]; exact hret
      · intro pre post hpre
        rw [← hrun]
        exact haway (w :: pre) post (by rw [hpre]; rfl)

/-- **An evicted peer stays away** as long as no message taken up has an entry of it; and in a
run that returns, no longer: the time in the entry plays no part. -/
theorem evicted_stays_away {pf : Platform} {n0 n : Node} {id : Str} {evictNow gossipNow : UInt64}
    (h : wake pf n0 (.discoveryTimer evictNow gossipNow) = .ok n) (hev : Evicts evictNow n0 id)
    (ws : List Wake) :
    ((∀ w ∈ ws, ¬ Announces pf id w) → StaysAway pf id n ws) ∧
      ((runLoop pf n ws).returned = true → StaysAway pf id n ws →
        ∀ w ∈ ws, ¬ Announces pf id w) := by
  obtain ⟨hid, hknown, hconn⟩ := discoveryTimer_away h hev
  constructor
  · intro hws pre post hpre
    have hsame := runLoop_sameOf pf pre hid hknown fun w hw =>
      hws w (by rw [hpre]; exact List.mem_append_left post hw)
    refine ⟨?_, fun hin => hconn (hsame.discovery.1 hin), hsame.shard.1⟩
    rw [← AList.lookup_eq_none, hsame.known, AList.lookup_eq_none]; exact hknown
  · intro hret haway
    exact not_announced ws hid hknown hret fun pre post hpre => (haway pre post hpre).1

/-- The turn in which the sample node evicts its peer, last seen at time 0. -/
def evictingTurn : Wake := .discoveryTimer 9000 9000

/-- The sample node after it. -/
def evictedLoop : Node := (wake samplePf sampleLoop evictingTurn).state

theorem evictedLoop_eq : wake samplePf sampleLoop evictingTurn = .ok evictedLoop := by
  have hret : (wake samplePf sampleLoop evictingTurn).returned = true := by decide +kernel
  unfold evictedLoop
  cases h : wake samplePf sampleLoop evictingTurn with
  | ok n => rfl
  | error x => rw [h] at hret; cases hret

/-- A message with one entry of the peer, last seen at `ts`. -/
def lateEntry (ts : UInt64) : Wake :=
  .discoveryFrame (.packed (Message.gossipNodes [2] 9001
    [{ nodeId := [1], host := str "h", gossipPullPort := 11, discoveryPullPort := 21,
       lastSeenTs := ts }]))

/-- Requests, timers and news of another peer leave it away. -/
theorem evictedLoop_stays_away : StaysAway samplePf [1] evictedLoop
    [sampleEnsure (str "a") (str "a"), samplePeer 27, evictingTurn] :=
  (evicted_stays_away evictedLoop_eq (by decide +kernel) _).1 (by decide +kernel)

/-- A copy of the entry by which it was evicted brings it back. -/
theorem evicted_returns : Evicts 9000 sampleLoop [1] ∧
    (sampleLoop.knownNodes.lookup [1]).map (fun info => info.lastSeenTs) = some 0 ∧
      ¬ StaysAway samplePf [1] evictedLoop [lateEntry 0] := by
  refine ⟨by decide +kernel, by decide +kernel, fun h => ?_⟩
  have haway := h [lateEntry 0] [] rfl
  revert haway
  decide +kernel

end Node

end Shopping
