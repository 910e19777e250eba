import Shopping.Cluster.Console
import Shopping.Proof.Routing

/-!
# What the console can build

Whatever lines it is given: `exec_obeys` inverts a line once, `WF` is what holds at every
prompt. The configuration of the `k`-th node is `make_config(k, ..)` for one of the shards, and
from the third one on its only peer is an earlier node of its shard.

So ports are different until a node gossips at the port at which another one discovers
(`console_endpoints`).
-/

namespace Shopping

open Lib

namespace Cluster

/-- What `onFirst` changes is the first that meets the test. -/
theorem onFirst_some {p : RunningNode → Bool} {f : RunningNode → RunningNode} :
    ∀ {rns rns' : List RunningNode} {i : ℕ}, onFirst p f rns = some (i, rns') →
      ∃ l1 rn l2, rns = l1 ++ rn :: l2 ∧ rns' = l1 ++ f rn :: l2 ∧ i = l1.length ∧ p rn = true ∧
        rns.find? p = some rn := by
  intro rns
  induction rns with
  | nil => intro rns' i h; cases h
  | cons rn rns ih =>
    intro rns' i h
    unfold onFirst at h
    split at h
    · rename_i hp
      cases h
      exact ⟨[], rn, rns, rfl, rfl, rfl, hp, List.find?_cons_of_pos hp⟩
    · rename_i hp
      rw [Option.map_eq_some_iff] at h
      obtain ⟨⟨j, rest⟩, hrest, heq⟩ := h
      cases heq
      obtain ⟨l1, rn', l2, rfl, rfl, rfl, hp', hfind⟩ := ih hrest
      exact ⟨rn :: l1, rn', l2, rfl, rfl, rfl, hp', by rw [List.find?_cons_of_neg hp, hfind]⟩

/-- What a line can make of the nodes, and what it makes one of them do. -/
inductive Obeys (free : Str → Bool) (c : Cluster) : Cluster → Option Call → Prop
  | idle : Obeys free c c none
  | added (shardId : Int32) (rn : RunningNode) (h0 : 0 ≤ shardId) (h1 : shardId < numShards)
      (hmem : rn ∈ c.nodes) (halive : rn.alive = true) (hshard : rn.cfg.shardId = shardId)
      (hbinds : c.Binds free { config c.nextNodeIdx shardId with initialPeers := [rn.cfg.info] }) :
      Obeys free c
        ⟨c.nodes ++ [⟨{ config c.nextNodeIdx shardId with initialPeers := [rn.cfg.info] }, true⟩],
          c.nextNodeIdx + 1⟩ (some (.start c.nodes.length))
  | started (l1 l2 : List RunningNode) (rn : RunningNode) (hn : c.nodes = l1 ++ rn :: l2)
      (hdead : rn.alive = false) (hbinds : c.Binds free rn.cfg) :
      Obeys free c { c with nodes := l1 ++ { rn with alive := true } :: l2 }
        (some (.start l1.length))
  | stopped (l1 l2 : List RunningNode) (rn : RunningNode) (hn : c.nodes = l1 ++ rn :: l2)
      (halive : rn.alive = true) :
      Obeys free c { c with nodes := l1 ++ { rn with alive := false } :: l2 }
        (some (.stop l1.length))

/-- A node is added with the next index, and with one that is alive as its peer. -/
theorem add_obeys {env : LineEnv} {c c' : Cluster} {rest out : Str} {call : Option Call}
    (h : c.add env rest = .goes c' call out) : Obeys env.free c c' call := by
  unfold add at h
  split at h
  · cases h; exact .idle
  · rename_i shardId _
    split at h
    · cases h; exact .idle
    · rename_i hrange
      rw [not_or, Int32.not_lt, Int32.not_le] at hrange
      split at h
      · cases h; exact .idle
      · rename_i rn hfind
        dsimp only at h
        split at h
        · rename_i hbinds
          cases h
          have hp := List.find?_some hfind
          rw [Bool.and_eq_true, beq_iff_eq] at hp
          have hmem := List.mem_of_find?_eq_some hfind
          exact .added shardId rn hrange.1 hrange.2 hmem hp.1 hp.2 hbinds
        · cases h

theorem stop_obeys {free : Str → Bool} {c c' : Cluster} {rest out : Str} {call : Option Call}
    (h : c.stop rest = .goes c' call out) : Obeys free c c' call := by
  unfold stop at h
  dsimp only at h
  split at h
  · rename_i i nodes hfirst
    cases h
    obtain ⟨l1, rn, l2, hn, rfl, rfl, hp, -⟩ := onFirst_some hfirst
    rw [Bool.and_eq_true] at hp
    exact .stopped l1 l2 rn hn hp.2
  · cases h; exact .idle

/-- A node that is started is one that was dead. -/
theorem start_obeys {env : LineEnv} {c c' : Cluster} {rest out : Str} {call : Option Call}
    (h : c.start env rest = .goes c' call out) : Obeys env.free c c' call := by
  unfold start at h
  dsimp only at h
  split at h
  · rename_i rn i nodes hfind hfirst
    split at h
    · rename_i hbinds
      cases h
      obtain ⟨l1, rn', l2, hn, rfl, rfl, hp, hfind'⟩ := onFirst_some hfirst
      obtain rfl : rn' = rn := Option.some.inj (hfind'.symm.trans hfind)
      rw [Bool.and_eq_true, Bool.not_eq_true'] at hp
      exact .started l1 l2 rn' hn hp.2 hbinds
    · cases h
  · cases h; exact .idle

theorem remove_obeys {free : Str → Bool} {c c' : Cluster} {rest out : Str} {call : Option Call}
    (h : c.remove rest = .goes c' call out) : Obeys free c c' call := by
  unfold remove at h
  dsimp only at h
  split at h
  · rename_i rn i nodes hfind hfirst
    obtain ⟨l1, rn', l2, hn, rfl, rfl, -, hfind'⟩ := onFirst_some hfirst
    obtain rfl : rn' = rn := Option.some.inj (hfind'.symm.trans hfind)
    cases h
    cases halive : rn'.alive with
    | true => exact .stopped l1 l2 rn' hn halive
    | false =>
      -- removing a node that is not alive changes nothing
      have hsame : ({ rn' with alive := false } : RunningNode) = rn' := by rw [← halive]
      rw [hsame, ← hn]
      exact .idle
  · cases h; exact .idle

/-- **What a line can do.** -/
theorem exec_obeys {pf : Platform} {env : LineEnv} {c c' : Cluster} {line out : Str}
    {call : Option Call} (h : c.exec pf env line = .goes c' call out) :
    Obeys env.free c c' call := by
  unfold exec at h
  dsimp only at h
  split at h
  · exact add_obeys h
  split at h
  · exact stop_obeys h
  split at h
  · exact start_obeys h
  split at h
  · exact remove_obeys h
  split at h
  · cases h; exact .idle
  split at h
  · unfold peers at h
    dsimp only at h
    split at h
    · cases h; exact .idle
    · split at h
      · cases h; exact .idle
      · split at h
        · cases h
        · cases h; exact .idle
  split at h
  · cases h
  · cases h; exact .idle

/-- The configurations, in their order. -/
def cfgs (c : Cluster) : List ClusterConfig := c.nodes.map RunningNode.cfg

/-- The `k`-th node is configured by `make_config`, for one of the shards, and its peers are other
nodes as these are; from the third one on it has one peer, an earlier node of its shard. -/
structure WellPlaced (cfgs : List ClusterConfig) (k : ℕ) (cfg : ClusterConfig) : Prop where
  shard : 0 ≤ cfg.shardId ∧ cfg.shardId < numShards
  config : cfg = { config k cfg.shardId with initialPeers := cfg.initialPeers }
  peers : ∀ peer ∈ cfg.initialPeers, ∃ j other, j ≠ k ∧ cfgs[j]? = some other ∧ peer = other.info
  contact : 2 ≤ k → ∃ j other, j < k ∧ cfgs[j]? = some other ∧ other.shardId = cfg.shardId ∧
    cfg.initialPeers = [other.info]

/-- What holds of the cluster at the prompt. -/
structure WF (c : Cluster) : Prop where
  count : c.nextNodeIdx = c.nodes.length
  bootstrapped : ∃ more, c.cfgs = bootstrap.cfgs ++ more
  placed : ∀ k cfg, c.cfgs[k]? = some cfg → WellPlaced c.cfgs k cfg

/-- Later nodes change nothing for an earlier one. -/
theorem WellPlaced.append {cfgs : List ClusterConfig} {k : ℕ} {cfg : ClusterConfig}
    (h : WellPlaced cfgs k cfg) (more : List ClusterConfig) : WellPlaced (cfgs ++ more) k cfg := by
  have hmono : ∀ {j : ℕ} {other}, cfgs[j]? = some other → (cfgs ++ more)[j]? = some other := by
    intro j other hj
    rw [List.getElem?_append_left (List.getElem?_eq_some_iff.1 hj).1, hj]
  refine ⟨h.shard, h.config, fun peer hpeer => ?_, fun hk => ?_⟩
  · obtain ⟨j, other, hne, hj, hinfo⟩ := h.peers peer hpeer
    exact ⟨j, other, hne, hmono hj, hinfo⟩
  · obtain ⟨j, other, hlt, hj, hshard, hpeers⟩ := h.contact hk
    exact ⟨j, other, hlt, hmono hj, hshard, hpeers⟩

theorem bootstrap_wf : bootstrap.WF where
  count := rfl
  bootstrapped := ⟨[], (List.append_nil _).symm⟩
  placed := by
    intro k cfg hk
    have hlt : k < 2 := (List.getElem?_eq_some_iff.1 hk).1
    obtain rfl | rfl : k = 0 ∨ k = 1 := by omega
    · cases hk
      refine ⟨by decide, rfl, fun peer hpeer => ⟨1, _, by decide, rfl, ?_⟩, by omega⟩
      exact List.mem_singleton.1 hpeer
    · cases hk
      refine ⟨by decide, rfl, fun peer hpeer => ⟨0, _, by decide, rfl, ?_⟩, by omega⟩
      exact List.mem_singleton.1 hpeer

/-- The configuration that `add` makes, for a contact among the nodes. -/
structure Extends (c c' : Cluster) (shardId : Int32) (other : ClusterConfig) : Prop where
  range : 0 ≤ shardId ∧ shardId < numShards
  mem : other ∈ c.cfgs
  shard : other.shardId = shardId
  idx : c'.nextNodeIdx = c.nextNodeIdx + 1
  cfgs : c'.cfgs = c.cfgs ++ [{ config c.nextNodeIdx shardId with initialPeers := [other.info] }]

/-- **One node more** keeps the cluster well formed. -/
theorem WF.extends {c c' : Cluster} {shardId : Int32} {other : ClusterConfig} (hc : c.WF)
    (h : c.Extends c' shardId other) : c'.WF := by
  have hlen : ∀ c : Cluster, c.nodes.length = c.cfgs.length := fun c => (List.length_map _).symm
  obtain ⟨hcount, hboot, hplaced⟩ := hc
  obtain ⟨hrange, hmem, hshard, hidx, hmore⟩ := h
  rw [hlen] at hcount
  have hlen' : c'.cfgs.length = c.cfgs.length + 1 := by rw [hmore, List.length_append]; rfl
  obtain ⟨more, hboot⟩ := hboot
  refine ⟨by rw [hlen, hlen', hidx, hcount], ⟨_, by rw [hmore, hboot, List.append_assoc]⟩,
    fun k cfg hk => ?_⟩
  rw [hmore, hcount] at hk ⊢
  by_cases hlt : k < c.cfgs.length
  · rw [List.getElem?_append_left hlt] at hk
    exact (hplaced k cfg hk).append _
  · have hk' : k < c.cfgs.length + 1 := by
      have := (List.getElem?_eq_some_iff.1 hk).1
      rwa [List.length_append] at this
    obtain rfl : k = c.cfgs.length := by omega
    rw [List.getElem?_append_right le_rfl, Nat.sub_self] at hk
    cases hk
    obtain ⟨j, hj, hother⟩ := List.getElem_of_mem hmem
    have hget : ∀ more : List ClusterConfig, (c.cfgs ++ more)[j]? = some other := by
      intro more
      rw [List.getElem?_append_left hj, List.getElem?_eq_getElem hj, hother]
    refine ⟨hrange, rfl, fun peer hpeer => ?_, fun _ => ⟨j, other, hj, hget _, hshard, rfl⟩⟩
    exact ⟨j, other, by omega, hget _, List.mem_singleton.1 hpeer⟩

/-- Configurations stay; a new one comes at the end. -/
theorem Obeys.cfgs_eq {free : Str → Bool} {c c' : Cluster} {call : Option Call}
    (h : Obeys free c c' call) : c'.cfgs = c.cfgs ∧ c'.nextNodeIdx = c.nextNodeIdx ∨
      ∃ shardId other, c.Extends c' shardId other := by
  cases h with
  | idle => exact Or.inl ⟨rfl, rfl⟩
  | added shardId rn h0 h1 hmem halive hshard =>
    refine Or.inr ⟨shardId, rn.cfg, ⟨h0, h1⟩, List.mem_map_of_mem hmem, hshard, rfl, ?_⟩
    rw [cfgs, List.map_append]; rfl
  | started l1 l2 rn hn => exact Or.inl ⟨by simp [cfgs, hn], rfl⟩
  | stopped l1 l2 rn hn => exact Or.inl ⟨by simp [cfgs, hn], rfl⟩

/-- Every line keeps the console well formed. -/
theorem WF.obeys {free : Str → Bool} {c c' : Cluster} {call : Option Call} (hc : c.WF)
    (h : Obeys free c c' call) : c'.WF := by
  rcases h.cfgs_eq with ⟨hsame, hidx⟩ | ⟨shardId, other, hext⟩
  · have hlen : ∀ c : Cluster, c.nodes.length = c.cfgs.length := fun c => (List.length_map _).symm
    obtain ⟨hcount, hboot, hplaced⟩ := hc
    rw [hlen, ← hsame] at hcount
    exact ⟨by rw [hlen, hidx, hcount], hsame ▸ hboot, hsame ▸ hplaced⟩
  · exact hc.extends hext

end Cluster

theorem toStr_natCast (n : ℕ) : toStr n = (Nat.toDigits 10 n).map fun c => UInt8.ofNat c.toNat := by
  rw [toStr, str]
  congr 1
  show (Nat.repr n).toList = _
  exact Nat.toList_repr

/-- Different numbers are written differently. -/
theorem toStr_inj {m n : ℕ} (h : toStr m = toStr n) : m = n := by
  have hback : ∀ k : ℕ, (toStr k).map (fun b => Char.ofNat b.toNat) = Nat.toDigits 10 k := by
    intro k
    rw [toStr_natCast, List.map_map]
    refine (List.map_congr_left ?_).trans (List.map_id _)
    intro c hc
    have hd := Nat.isDigit_of_mem_toDigits (by decide) (by decide) hc
    simp only [Char.isDigit, Bool.and_eq_true, decide_eq_true_eq] at hd
    have hle : c.toNat ≤ 57 := hd.2
    rw [Function.comp_apply, UInt8.toNat_ofNat', Nat.mod_eq_of_lt (by omega), Char.ofNat_toNat]; rfl
  rw [← Nat.ofDigitChars_ten_toDigits (n := m), ← hback m, h, hback, Nat.ofDigitChars_ten_toDigits]

/-- Different ports make different endpoints. -/
theorem endpoint_inj {host : Str} {p q : ℕ} (hp : p < 2 ^ 31) (hq : q < 2 ^ 31)
    (h : endpoint host (Int32.ofNat p) = endpoint host (Int32.ofNat q)) : p = q := by
  unfold endpoint at h
  have h := List.append_cancel_left h
  rw [Int32.toInt_ofNat_of_lt hp, Int32.toInt_ofNat_of_lt hq] at h
  exact toStr_inj h

namespace Cluster

/-- The endpoints of the `k`-th node. -/
theorem WellPlaced.endpoints {cfgs : List ClusterConfig} {k : ℕ} {cfg : ClusterConfig}
    (h : WellPlaced cfgs k cfg) : cfg.toNodeConfig.endpoints =
      [5000 + k, 7000 + k, 8000 + k].map fun p => endpoint (str "127.0.0.1") (Int32.ofNat p) := by
  rw [h.config, NodeConfig.endpoints]
  simp only [List.map_cons, List.map_nil, Int32.ofNat_add]
  rfl

theorem WellPlaced.clientAddr {cfgs : List ClusterConfig} {k : ℕ} {cfg : ClusterConfig}
    (h : WellPlaced cfgs k cfg) :
    cfg.toNodeConfig.clientAddr = endpoint (str "127.0.0.1") (Int32.ofNat (5000 + k)) :=
  (List.cons.inj h.endpoints).1

/-- All endpoints that the nodes of a cluster bind while they are alive. -/
def endpoints (c : Cluster) : List Str := c.cfgs.flatMap fun cfg => cfg.toNodeConfig.endpoints

/-- The three ports of every node. -/
def ports (n : ℕ) : List ℕ := (List.range n).flatMap fun k => [5000 + k, 7000 + k, 8000 + k]

/-- All endpoints, by their ports. -/
theorem WF.endpoints_eq {c : Cluster} (hc : c.WF) : c.endpoints =
    (ports c.nodes.length).map fun p => endpoint (str "127.0.0.1") (Int32.ofNat p) := by
  have hmap : (c.cfgs.map fun cfg => cfg.toNodeConfig.endpoints) =
      (List.range c.nodes.length).map fun k => [5000 + k, 7000 + k, 8000 + k].map fun p =>
        endpoint (str "127.0.0.1") (Int32.ofNat p) := by
    have hlen : c.cfgs.length = c.nodes.length := List.length_map _
    refine List.ext_getElem (by simp [hlen]) fun k h1 h2 => ?_
    rw [List.getElem_map, List.getElem_map, List.getElem_range]
    exact (hc.placed k _ (List.getElem?_eq_getElem (by simpa using h1))).endpoints
  rw [endpoints, List.flatMap_def, hmap, ports, List.map_flatMap, List.flatMap_def]

theorem ports_lt {n p : ℕ} (h : p ∈ ports n) : p < n + 8000 := by
  obtain ⟨k, hk, hp⟩ := List.mem_flatMap.1 h
  have hk := List.mem_range.1 hk
  simp only [List.mem_cons, List.not_mem_nil, or_false] at hp
  omega

/-- **The ports of the first thousand nodes are different**; the gossip port of the next is the
discovery port of node 0. -/
theorem ports_nodup (n : ℕ) : (ports n).Nodup ↔ n ≤ 1000 := by
  rw [ports, List.nodup_flatMap]
  constructor
  · rintro ⟨-, hpair⟩
    by_contra hn
    -- node 1000 gossips where node 0 discovers
    have h := (List.pairwise_iff_getElem.1 hpair) 0 1000 (by simp; omega) (by simp; omega)
      (by omega)
    rw [List.getElem_range, List.getElem_range] at h
    exact h (a := 8000) (by simp) (by simp)
  · intro hn
    refine ⟨fun k _ => ?_, ?_⟩
    · simp only [List.nodup_cons, List.mem_cons, List.not_mem_nil, or_false, not_false_eq_true,
        List.nodup_nil, and_true]
      omega
    · rw [List.pairwise_iff_getElem]
      intro i j hi hj hij
      rw [List.length_range] at hi hj
      rw [List.getElem_range, List.getElem_range]
      intro p h1 h2
      simp only [List.mem_cons, List.not_mem_nil, or_false] at h1 h2
      omega

/-- **A thousand nodes and no more**: node 1000 gossips at the port at which node 0 discovers. -/
theorem WF.endpoints_nodup {c : Cluster} (hc : c.WF) (hports : c.nodes.length + 8000 ≤ 2 ^ 31) :
    c.endpoints.Nodup ↔ c.nodes.length ≤ 1000 := by
  rw [hc.endpoints_eq, ← ports_nodup]
  refine ⟨List.Nodup.of_map _, fun h => (List.nodup_map_iff_inj_on h).2 ?_⟩
  intro p hp q hq heq
  have := ports_lt hp
  have := ports_lt hq
  exact endpoint_inj (by omega) (by omega) heq

/-- A line that ends the program asked for a node that cannot bind, or got a reply that is no
message. -/
theorem exec_throws {pf : Platform} {env : LineEnv} {c : Cluster} {line : Str}
    (h : c.exec pf env line = .throws) :
    (∃ shardId, ∃ rn ∈ c.nodes, 0 ≤ shardId ∧ shardId < numShards ∧ rn.alive = true ∧
      rn.cfg.shardId = shardId ∧ ¬ c.Binds env.free
        { config c.nextNodeIdx shardId with initialPeers := [rn.cfg.info] }) ∨
    (∃ l1 rn l2, c.nodes = l1 ++ rn :: l2 ∧ rn.alive = false ∧ ¬ c.Binds env.free rn.cfg) ∨
    ∃ frame ∈ env.reply, frame.decode pf = none := by
  unfold exec at h
  dsimp only at h
  split at h
  · refine Or.inl ?_
    unfold add at h
    split at h
    · cases h
    · rename_i shardId _
      split at h
      · cases h
      · rename_i hrange
        rw [not_or, Int32.not_lt, Int32.not_le] at hrange
        split at h
        · cases h
        · rename_i rn hfind
          dsimp only at h
          split at h
          · cases h
          · rename_i hbinds
            have hp := List.find?_some hfind
            rw [Bool.and_eq_true, beq_iff_eq] at hp
            have hmem := List.mem_of_find?_eq_some hfind
            exact ⟨shardId, rn, hmem, hrange.1, hrange.2, hp.1, hp.2, hbinds⟩
  split at h
  · unfold stop at h
    dsimp only at h
    split at h <;> cases h
  split at h
  · refine Or.inr (Or.inl ?_)
    unfold start at h
    dsimp only at h
    split at h
    · rename_i rn i nodes hfind hfirst
      split at h
      · cases h
      · rename_i hbinds
        obtain ⟨l1, rn', l2, hn, -, -, hp, hfind'⟩ := onFirst_some hfirst
        obtain rfl : rn' = rn := Option.some.inj (hfind'.symm.trans hfind)
        rw [Bool.and_eq_true, Bool.not_eq_true'] at hp
        exact ⟨l1, rn', l2, hn, hp.2, hbinds⟩
    · cases h
  split at h
  · unfold remove at h
    dsimp only at h
    split at h <;> cases h
  split at h
  · cases h
  split at h
  · refine Or.inr (Or.inr ?_)
    unfold peers at h
    dsimp only at h
    split at h
    · cases h
    · split at h
      · cases h
      · rename_i frame hreply
        split at h
        · rename_i hd; exact ⟨frame, hreply, hd⟩
        · cases h
  split at h <;> cases h

/-- A node that shares no endpoint with the others can be constructed. -/
theorem binds_of_nodup {free : Str → Bool} {c : Cluster} {cfg : ClusterConfig}
    {l1 l2 : List RunningNode} (hfree : ∀ ep, free ep = true)
    (hnodup : ((l1.map RunningNode.cfg ++ cfg :: l2.map RunningNode.cfg).flatMap
      fun cfg => cfg.toNodeConfig.endpoints).Nodup)
    (hheld : ∀ rn ∈ c.nodes, rn.alive = true → rn ∈ l1 ∨ rn ∈ l2) : c.Binds free cfg := by
  rw [List.flatMap_append, List.flatMap_cons] at hnodup
  obtain ⟨-, h2, hdis1⟩ := List.nodup_append.1 hnodup
  obtain ⟨hown, -, hdis2⟩ := List.nodup_append.1 h2
  refine ⟨hown, fun ep hep => ⟨hfree ep, fun hin => ?_⟩⟩
  obtain ⟨rn, hrn, hin⟩ := List.mem_flatMap.1 hin
  rw [List.mem_filter] at hrn
  rcases hheld rn hrn.1 hrn.2 with hmem | hmem
  · exact hdis1 ep (List.mem_flatMap.2 ⟨rn.cfg, List.mem_map_of_mem hmem, hin⟩) ep
      (List.mem_append_left _ hep) rfl
  · exact hdis2 ep hep ep (List.mem_flatMap.2 ⟨rn.cfg, List.mem_map_of_mem hmem, hin⟩) rfl

/-- One turn of the console, if it goes on. -/
def line (pf : Platform) (c : Cluster) (x : LineEnv × Str) : Option Cluster :=
  match c.exec pf x.1 x.2 with
  | .goes c' _ _ => some c'
  | _ => none

theorem line_obeys {pf : Platform} {c c' : Cluster} {x : LineEnv × Str}
    (h : c.line pf x = some c') : ∃ call, Obeys x.1.free c c' call := by
  unfold line at h
  split at h
  · rename_i c1 call out hexec
    cases h
    exact ⟨call, exec_obeys hexec⟩
  · cases h

/-- The cluster is well formed after any lines. -/
theorem wf {pf : Platform} {c : Cluster}
    (h : Run (line pf) (fun _ _ => True) bootstrap c) : c.WF :=
  h.inv (I := WF) bootstrap_wf fun _ _ _ hI _ hs => by
    obtain ⟨call, hcall⟩ := line_obeys hs
    exact hI.obeys hcall

/-- **What the console can manage**: the endpoints of its nodes are different as long as there are at
most a thousand nodes. Until the thousandth is there, no line ends the program when the other
programs leave the endpoints free and nodes reply with messages; and then no line adds one while
node 0 is alive. -/
theorem console_endpoints {pf : Platform} {c : Cluster}
    (h : Run (line pf) (fun _ _ => True) bootstrap c) (hports : c.nodes.length + 8000 ≤ 2 ^ 31) :
    (c.endpoints.Nodup ↔ c.nodes.length ≤ 1000) ∧
    (c.nodes.length < 1000 → ∀ env cmd, (∀ ep, env.free ep = true) →
      (∀ frame ∈ env.reply, frame.decode pf ≠ none) → c.exec pf env cmd ≠ .throws) ∧
    (c.nodes.length = 1000 → (∀ rn ∈ c.nodes.head?, rn.alive = true) → ∀ env cmd c' call out,
      c.exec pf env cmd = .goes c' call out → c'.nodes.length = 1000) := by
  have hc := wf h
  refine ⟨hc.endpoints_nodup hports, fun hlt env cmd hfree hreply hthrows => ?_,
    fun hlen halive env cmd c' call out hexec => ?_⟩
  · rcases exec_throws hthrows with ⟨shardId, rn, hmem, h0, h1, halive, hshard, hno⟩ |
      ⟨l1, rn, l2, hn, hdead, hno⟩ | ⟨frame, hframe, hd⟩
    · set cfg : ClusterConfig := { config c.nextNodeIdx shardId with initialPeers := [rn.cfg.info] }
      have hext : c.Extends ⟨c.nodes ++ [⟨cfg, true⟩], c.nextNodeIdx + 1⟩ shardId rn.cfg :=
        ⟨⟨h0, h1⟩, List.mem_map_of_mem hmem, hshard, rfl, by rw [cfgs, List.map_append]; rfl⟩
      have hsize : (c.nodes ++ [(⟨cfg, true⟩ : RunningNode)]).length = c.nodes.length + 1 := by
        rw [List.length_append]; rfl
      have hnodup := ((hc.extends hext).endpoints_nodup (by dsimp only; omega)).2
        (by dsimp only; omega)
      rw [endpoints, hext.cfgs] at hnodup
      exact hno (@binds_of_nodup _ _ _ c.nodes [] hfree hnodup fun rn hrn _ => Or.inl hrn)
    · have hnodup := (hc.endpoints_nodup hports).2 (by omega)
      rw [endpoints, cfgs, hn, List.map_append, List.map_cons] at hnodup
      refine hno (binds_of_nodup hfree hnodup fun rn' hrn' halive => ?_)
      rw [hn, List.mem_append, List.mem_cons] at hrn'
      rcases hrn' with h1 | rfl | h2
      · exact Or.inl h1
      · rw [hdead] at halive; cases halive
      · exact Or.inr h2
    · exact hreply frame hframe hd
  · cases exec_obeys hexec with
    | idle => exact hlen
    | started l1 l2 rn hn hdead hbinds => rw [← hlen, hn]; simp
    | stopped l1 l2 rn hn halive => rw [← hlen, hn]; simp
    | added shardId rn h0 h1 hmem halive' hshard hbinds =>
      exfalso
      obtain ⟨rn0, rest, hnodes⟩ : ∃ rn0 rest, c.nodes = rn0 :: rest := by
        cases hn : c.nodes with
        | nil => rw [hn] at hlen; cases hlen
        | cons rn0 rest => exact ⟨rn0, rest, rfl⟩
      have hup : rn0.alive = true := halive rn0 (by rw [hnodes]; rfl)
      have hplaced := hc.placed 0 rn0.cfg (by rw [cfgs, hnodes]; rfl)
      -- node 1000 gossips where node 0, which is alive, discovers
      refine (hbinds.2 (endpoint (str "127.0.0.1") (Int32.ofNat 8000)) ?_).2 ?_
      · rw [hc.count, hlen]
        exact List.mem_cons_of_mem _ List.mem_cons_self
      · refine List.mem_flatMap.2 ⟨rn0, List.mem_filter.2 ⟨?_, hup⟩, ?_⟩
        · rw [hnodes]; exact List.mem_cons_self
        · rw [hplaced.endpoints]; simp

/-- A session that adds a node to a shard whose first node is then stopped. -/
theorem console_endpoints_session : ∃ c : Cluster,
    Run (line Platform.sample) (fun _ _ => True) bootstrap c ∧ c.nodes.length = 4 ∧
      c.endpoints.Nodup := by
  obtain ⟨c, hc, hp⟩ := runList_of_any (line Platform.sample) bootstrap
    (["add 1", "stop N1", "add 1", "start N0", "remove N0", "start N0", "list"].map
      fun s => ({}, str s))
    (fun c => decide (c.nodes.length = 4)) (by decide +kernel)
  have hrun : Run (line Platform.sample) (fun _ _ => True) bootstrap c :=
    Run.of_list (fun _ _ _ => trivial) hc
  have hlen := of_decide_eq_true hp
  exact ⟨c, hrun, hlen, (console_endpoints hrun (by omega)).1.2 (by omega)⟩

end Cluster

end Shopping
