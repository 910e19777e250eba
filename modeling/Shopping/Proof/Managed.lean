import Shopping.Proof.Console
import Shopping.Proof.Refresh
import Shopping.System.Matched

/-!
# The console and its nodes

A session of the interactive program, its nodes and their clients going on between the lines
(`Managed.step`), is a run of the world: the nodes it ever makes are the deployment, which is
`Configured` from the start because a configuration is for good. What `System/` and the
other modules say of runs holds of sessions (`console_session`).

The table that clients are constructed with is that of the other program, `node/cluster.cpp`
(`sixNodes_route`). With the nodes of the console it is wrong, and stays so
(`builtin_misroutes`).
-/

namespace Shopping

open Lib

variable {n : ℕ} {κ : Type*} [DecidableEq κ] {pf : Platform} {D : Deployment (Fin n) κ}

/-- The nodes of the deployment are those of the cluster, as many as it has, on its platform. -/
structure Configured (pf : Platform) (D : Deployment (Fin n) κ) (c : Cluster) : Prop where
  platform : ∀ i, D.pf i = pf
  cfg : ∀ (i : Fin n) cfg, c.cfgs[i.val]? = some cfg → D.cfg i = cfg.toNodeConfig

/-- Only nodes that are alive run. -/
def Supervised (m : Managed n κ) : Prop :=
  ∀ i, (m.world.node i).running = true → ∃ rn, m.cluster.nodes[i.val]? = some rn ∧ rn.alive = true

omit [DecidableEq κ] in
theorem Configured.before {c c' : Cluster} {free : Str → Bool} {call : Option Cluster.Call}
    (h : Configured pf D c') (ho : c.Obeys free c' call) : Configured pf D c := by
  refine ⟨h.platform, fun i cfg hi => h.cfg i cfg ?_⟩
  rcases ho.cfgs_eq with ⟨hsame, -⟩ | ⟨shardId, other, hext⟩
  · rw [hsame]; exact hi
  · rw [hext.cfgs, List.getElem?_append_left (List.getElem?_eq_some_iff.1 hi).1]; exact hi

/-- A node starts, if it is not running. -/
theorem call_start {c : Cluster} {w w' : World (Fin n) κ} {now : UInt64} {i : ℕ}
    (h : Managed.call pf c w now (some (.start i)) = some w') (hD : Configured pf D c)
    (hoff : ∀ hi : i < n, (w.node ⟨i, hi⟩).running = false) :
    ∃ hi : i < n, World.step D w (.start ⟨i, hi⟩ now) = some w' := by
  simp only [Managed.call] at h
  split at h
  · rename_i rn hrn
    split at h
    · rename_i hi
      refine ⟨hi, ?_⟩
      have hcfg : D.cfg ⟨i, hi⟩ = rn.cfg.toNodeConfig :=
        hD.cfg ⟨i, hi⟩ rn.cfg (by rw [Cluster.cfgs, List.getElem?_map, hrn]; rfl)
      rw [World.step, hoff hi, hcfg, hD.platform]
      exact h
    · cases h
  · cases h

theorem call_stop {c : Cluster} {w w' : World (Fin n) κ} {now : UInt64} {i : ℕ}
    (h : Managed.call pf c w now (some (.stop i)) = some w') :
    ∃ hi : i < n, World.step D w (.stop ⟨i, hi⟩) = some w' := by
  simp only [Managed.call] at h
  split at h
  · rename_i hi; exact ⟨hi, h⟩
  · cases h

omit [DecidableEq κ] in
/-- The world after a handler of node `i`. -/
theorem settle_running (w : World (Fin n) κ) (i : Fin n) (call : Option (κ × ℕ)) (r : Method Node)
    (j : Fin n) :
    ((w.settle i call r).node j).running = if j = i then r.returned else (w.node j).running := by
  rw [settle_eq_place, World.place]
  dsimp only
  rw [Function.update_apply]
  split <;> rfl

/-- Only `start` makes a node run that did not. -/
theorem step_running {w w' : World (Fin n) κ} {a : Action (Fin n) κ} (ha : ¬ a.IsControl)
    (h : World.step D w a = some w') {j : Fin n} (hj : (w'.node j).running = true) :
    (w.node j).running = true := by
  have hsettle : ∀ (i : Fin n) (call : Option (κ × ℕ)) (r : Method Node),
      (w.node i).running = true → ((w.settle i call r).node j).running = true → (w.node j).running = true := by
    intro i call r hi hj
    rw [settle_running] at hj
    split at hj
    · rename_i hij; exact hij ▸ hi
    · exact hj
  cases step_moves h with
  | start => exact absurd trivial ha
  | stop => exact absurd trivial ha
  | clientFrame i p now k c dest frame hp hr hd => exact hsettle i _ _ hr hj
  | gossipFrame i p now dests frame hp hr hd => exact hsettle i _ _ hr hj
  | discoveryFrame i p dests frame hp hr hd => exact hsettle i _ _ hr hj
  | stateTimer i now hr => exact hsettle i _ _ hr hj
  | discoveryTimer i evictNow gossipNow hr => exact hsettle i _ _ hr hj
  | reply k p call pending frame hc hp => rwa [(finish_ends w k pending _).node] at hj
  | noReply k call pending hc => rwa [(finish_ends w k pending _).node] at hj
  | _ => exact hj

omit [DecidableEq κ] in
/-- A step that is about node `i` only. -/
theorem Supervised.about {m m' : Managed n κ} (hs : Supervised m) (i : ℕ)
    (hrun : ∀ j : Fin n, j.val ≠ i → (m'.world.node j).running = (m.world.node j).running)
    (hnodes : ∀ j, j ≠ i → m'.cluster.nodes[j]? = m.cluster.nodes[j]?)
    (hi : ∀ j : Fin n, j.val = i → (m'.world.node j).running = true →
      ∃ rn, m'.cluster.nodes[i]? = some rn ∧ rn.alive = true) : Supervised m' := by
  intro j hj
  by_cases hji : j.val = i
  · rw [hji]; exact hi j hji hj
  · rw [hrun j hji] at hj
    rw [hnodes _ hji]
    exact hs j hj

theorem getElem?_other {α : Type*} (l1 l2 : List α) (x y : α) {j : ℕ} (hj : j ≠ l1.length) :
    (l1 ++ x :: l2)[j]? = (l1 ++ y :: l2)[j]? := by
  rw [List.getElem?_append, List.getElem?_append]
  split
  · rfl
  · obtain ⟨d, hd⟩ : ∃ d, j - l1.length = d + 1 := ⟨j - l1.length - 1, by omega⟩
    rw [hd, List.getElem?_cons_succ, List.getElem?_cons_succ]

/-- **What a line makes a node do is a step of the world**, and only nodes that are alive run. -/
theorem line_moves {c c' : Cluster} {free : Str → Bool} {w w' : World (Fin n) κ} {now : UInt64}
    {call : Option Cluster.Call} (ho : c.Obeys free c' call)
    (h : Managed.call pf c' w now call = some w') (hD : Configured pf D c')
    (hs : Supervised ⟨c, w⟩) :
    Run (World.step D) (fun _ _ => True) w w' ∧ Supervised ⟨c', w'⟩ := by
  -- a node that is started runs at most where the line has made it alive
  have hstart : ∀ i rn, call = some (.start i) → c'.nodes[i]? = some rn → rn.alive = true →
      (∀ rn, c.nodes[i]? = some rn → rn.alive = false) →
      (∀ j, j ≠ i → c'.nodes[j]? = c.nodes[j]?) →
      Run (World.step D) (fun _ _ => True) w w' ∧ Supervised ⟨c', w'⟩ := by
    rintro i rn rfl hrn halive hdead hothers
    have hoff : ∀ hi : i < n, (w.node ⟨i, hi⟩).running = false := by
      intro hi
      by_contra hon
      obtain ⟨rn', hrn', halive'⟩ := hs ⟨i, hi⟩ (by simpa using hon)
      rw [hdead rn' hrn'] at halive'; cases halive'
    obtain ⟨hi, hstep⟩ := call_start h hD hoff
    refine ⟨.single ⟨_, trivial, hstep⟩,
      hs.about i (fun j hj => ?_) hothers fun j hj _ => ⟨rn, hrn, halive⟩⟩
    cases step_moves hstep with
    | start =>
      rw [settle_running, if_neg]
      rintro rfl; exact hj rfl
    | begin _ _ _ _ _ _ _ _ _ hb => cases hb
  cases ho with
  | idle => cases h; exact ⟨.refl, hs⟩
  | added shardId rn h0 h1 hmem halive hshard hbinds =>
    refine hstart c.nodes.length _ rfl
      (by rw [List.getElem?_append_right le_rfl, Nat.sub_self]; rfl) rfl
      (fun rn' hrn' => ?_) fun j hj => ?_
    · exact absurd (List.getElem?_eq_some_iff.1 hrn').1 (lt_irrefl _)
    · rcases Nat.lt_or_gt_of_ne hj with hlt | hgt
      · exact List.getElem?_append_left hlt
      · rw [List.getElem?_eq_none (by rw [List.length_append, List.length_singleton]; omega),
          List.getElem?_eq_none (by omega)]
  | started l1 l2 rn hn hdead hbinds =>
    refine hstart l1.length { rn with alive := true } rfl (by simp) rfl
      (fun rn' hrn' => ?_) fun j hj => ?_
    · rw [hn, List.getElem?_append_right le_rfl, Nat.sub_self] at hrn'
      cases hrn'
      exact hdead
    · rw [hn]; exact getElem?_other _ _ _ _ hj
  | stopped l1 l2 rn hn halive =>
    obtain ⟨hi, hstep⟩ := call_stop h
    refine ⟨.single ⟨_, trivial, hstep⟩,
      hs.about l1.length (fun j hj => ?_) (fun j hj => ?_) fun j hj hrun => ?_⟩
    · cases step_moves hstep with
      | stop =>
        dsimp only [World.place]
        rw [Function.update_apply, if_neg]
        rintro rfl; exact hj rfl
      | begin _ _ _ _ _ _ _ _ _ hb => cases hb
    · rw [hn]; exact getElem?_other _ _ _ _ hj
    · exfalso
      cases step_moves hstep with
      | stop =>
        dsimp only [World.place] at hrun
        rw [Function.update_apply, if_pos (Fin.ext hj)] at hrun
        cases hrun
      | begin _ _ _ _ _ _ _ _ _ hb => cases hb

/-- The console, its nodes and the clients, from the first prompt on. -/
structure Session (D : Deployment (Fin n) κ) (m : Managed n κ) : Prop where
  wf : m.cluster.WF
  run : Run (World.step D) (fun _ _ => True) (World.init D) m.world
  supervised : Supervised m

/-- `main` starts the first two nodes, none of which is running. -/
theorem boot_session {m : Managed n κ} {now : ℕ → UInt64} (h : Managed.boot pf D now = some m)
    (hD : Configured pf D m.cluster) : Session D m := by
  unfold Managed.boot at h
  rw [Option.bind_eq_some_iff] at h
  obtain ⟨w, h0, h⟩ := h
  rw [Option.map_eq_some_iff] at h
  obtain ⟨w', h1, rfl⟩ := h
  have hD : Configured pf D Cluster.bootstrap := hD
  obtain ⟨hi0, hs0⟩ := call_start h0 hD fun _ => rfl
  have hw : ∀ j : Fin n, j.val ≠ 0 → (w.node j).running = false := by
    intro j hj
    cases step_moves hs0 with
    | start =>
      rw [settle_running, if_neg]
      · rfl
      · rintro rfl; exact hj rfl
    | begin _ _ _ _ _ _ _ _ _ hb => cases hb
  obtain ⟨hi1, hs1⟩ := call_start h1 hD fun _ => hw _ Nat.one_ne_zero
  refine ⟨Cluster.bootstrap_wf,
    (Relation.ReflTransGen.single ⟨_, trivial, hs0⟩).tail ⟨_, trivial, hs1⟩, ?_⟩
  intro j hj
  -- both are alive from the start
  have hlt : j.val < 2 := by
    by_contra hge
    cases step_moves hs1 with
    | start =>
      rw [settle_running, if_neg (by rintro rfl; exact hge Nat.one_lt_two), hw j (by omega)] at hj
      cases hj
    | begin _ _ _ _ _ _ _ _ _ hb => cases hb
  obtain hj0 | hj1 : j.val = 0 ∨ j.val = 1 := by omega
  · rw [hj0]; exact ⟨_, rfl, rfl⟩
  · rw [hj1]; exact ⟨_, rfl, rfl⟩

/-- A step is that of a line, or of the world alone. -/
theorem managed_cases {m m' : Managed n κ} {a : ManagedAction n κ}
    (h : Managed.step pf D m a = some m') :
    (∃ free call now, m.cluster.Obeys free m'.cluster call ∧
      Managed.call pf m'.cluster m.world now call = some m'.world) ∨
    m'.cluster = m.cluster ∧ ∃ a, ¬ a.IsControl ∧ World.step D m.world a = some m'.world := by
  cases a with
  | line env line now =>
    simp only [Managed.step] at h
    split at h
    · rename_i c call out hexec
      rw [Option.map_eq_some_iff] at h
      obtain ⟨w, hw, rfl⟩ := h
      exact Or.inl ⟨env.free, call, now, Cluster.exec_obeys hexec, hw⟩
    · cases h
  | other a =>
    simp only [Managed.step] at h
    split at h
    · cases h
    · rename_i ha
      rw [Option.map_eq_some_iff] at h
      obtain ⟨w, hw, rfl⟩ := h
      exact Or.inr ⟨rfl, a, ha, hw⟩

/-- A configuration is for good, so that of the end holds all along. -/
theorem Session.of_run {m0 m : Managed n κ} {now : ℕ → UInt64}
    (h0 : Managed.boot pf D now = some m0) (h : Run (Managed.step pf D) (fun _ _ => True) m0 m)
    (hD : Configured pf D m.cluster) : Session D m := by
  induction h with
  | refl => exact boot_session h0 hD
  | tail _ hm ih =>
    obtain ⟨a, -, hs⟩ := hm
    rcases managed_cases hs with ⟨free, call, now, ho, hcall⟩ | ⟨hsame, a, ha, hw⟩
    · have hb := ih (hD.before ho)
      obtain ⟨hrun, hsup⟩ := line_moves ho hcall hD hb.supervised
      exact ⟨hb.wf.obeys ho, hb.run.trans hrun, hsup⟩
    · have hb := ih (hsame ▸ hD)
      refine ⟨hsame ▸ hb.wf, hb.run.tail ⟨a, trivial, hw⟩, fun j hj => ?_⟩
      rw [hsame]
      exact hb.supervised j (step_running ha hw hj)

section

variable {c : Cluster} (hD : Configured pf D c) (hc : c.WF) (hn : c.nodes.length = n)

include hD hc hn

omit [DecidableEq κ]

/-- Every node of the deployment is one of the cluster. -/
theorem Configured.placed (i : Fin n) : ∃ cfg, c.cfgs[i.val]? = some cfg ∧
    D.cfg i = cfg.toNodeConfig ∧ Cluster.WellPlaced c.cfgs i cfg := by
  have hi : i.val < c.cfgs.length := by rw [Cluster.cfgs, List.length_map, hn]; exact i.isLt
  have hget := List.getElem?_eq_getElem hi
  exact ⟨_, hget, hD.cfg i _ hget, hc.placed i _ hget⟩

theorem Configured.numShards (i : Fin n) : (D.cfg i).numShards = 2 := by
  obtain ⟨cfg, -, hcfg, hp⟩ := hD.placed hc hn i
  rw [hcfg, hp.config]; rfl

theorem Configured.addresses (hports : n + 8000 ≤ 2 ^ 31) {i j : Fin n}
    (hij : (D.cfg i).clientAddr = (D.cfg j).clientAddr) : i = j := by
  obtain ⟨cfg, -, hcfg, hp⟩ := hD.placed hc hn i
  obtain ⟨cfg', -, hcfg', hp'⟩ := hD.placed hc hn j
  rw [hcfg, hcfg', hp.clientAddr, hp'.clientAddr] at hij
  have := endpoint_inj (by omega) (by omega) hij
  exact Fin.ext (by omega)

theorem Configured.shardId (i : Fin n) : 0 ≤ (D.cfg i).shardId ∧ (D.cfg i).shardId < 2 := by
  obtain ⟨cfg, -, hcfg, hp⟩ := hD.placed hc hn i
  rw [hcfg]; exact hp.shard

theorem Configured.peers (i : Fin n) : ∀ info ∈ (D.cfg i).initialPeers, D.Describes info := by
  obtain ⟨cfg, -, hcfg, hp⟩ := hD.placed hc hn i
  intro info hinfo
  rw [hcfg] at hinfo
  obtain ⟨j, other, -, hj, rfl⟩ := hp.peers info hinfo
  have hjn : j < n := by
    have := (List.getElem?_eq_some_iff.1 hj).1
    rwa [Cluster.cfgs, List.length_map, hn] at this
  have hcfg' := hD.cfg ⟨j, hjn⟩ other hj
  refine ⟨⟨j, hjn⟩, ?_, ?_, ?_⟩ <;> rw [hcfg'] <;> rfl

/-- **The nodes of a cluster have the shards, the addresses and the peers that routing needs.** -/
theorem Configured.placedNodes (hports : n + 8000 ≤ 2 ^ 31) : D.Placed 2 where
  positive := by decide
  numShards := hD.numShards hc hn
  shardId := hD.shardId hc hn
  addresses _ _ hij := hD.addresses hc hn hports hij
  peers := hD.peers hc hn

end

/-- **A console session is a run of the world.** Whatever lines the console is given while its
nodes and the clients go on, only nodes that are alive run, so that it never starts one that runs;
the nodes it has made have one number of shards, shards in its range, different addresses and
truthful peers, so that routing is right as soon as the clients' tables are. -/
theorem console_session {m0 m : Managed n κ} {now : ℕ → UInt64}
    (h0 : Managed.boot pf D now = some m0) (h : Run (Managed.step pf D) (fun _ _ => True) m0 m)
    (hD : Configured pf D m.cluster) :
    Run (World.step D) (fun _ _ => True) (World.init D) m.world ∧ Supervised m ∧
    (m.cluster.nodes.length = n → n + 8000 ≤ 2 ^ 31 → D.Placed 2 ∧
      ((∀ k, D.Routes 2 (D.table k)) → D.Sharded 2)) := by
  have hs := Session.of_run h0 h hD
  refine ⟨hs.run, hs.supervised, fun hn hports => ?_⟩
  have hplaced := hD.placedNodes hs.wf hn hports
  exact ⟨hplaced, fun ht => ⟨hplaced, ht⟩⟩

omit [DecidableEq κ] in
theorem configured_of_eq {c : Cluster} (hpf : ∀ i, D.pf i = pf)
    (h : c.cfgs.map ClusterConfig.toNodeConfig = List.ofFn D.cfg) : Configured pf D c := by
  refine ⟨hpf, fun i cfg hi => ?_⟩
  have hget := congrArg (fun l => l[i.val]?) h
  rw [List.getElem?_map, hi, List.getElem?_ofFn, dif_pos i.isLt] at hget
  exact (Option.some.inj hget).symm

/-- Three nodes as a session makes them, and a client that knows the first two. -/
def sessionDeployment : Deployment (Fin 3) (Fin 1) where
  pf _ := Platform.sample
  clientPf _ := Platform.sample
  cfg i := { (Cluster.config i (if i.val = 0 then 0 else 1)).toNodeConfig with
    initialPeers := [(if i.val = 1 then Cluster.config 0 0 else Cluster.config 1 1).info] }
  origin _ := [0]
  table _ := twoRows [endpoint (str "127.0.0.1") 5000] [endpoint (str "127.0.0.1") 5001]

/-- A node is added, and others are stopped, removed and started again, while it gossips. -/
def sessionLines : List (ManagedAction 3 (Fin 1)) :=
  [.line {} (str "add 1") 5, .line {} (str "stop N1") 6, .other (.discoveryTimer 2 7 7),
    .line {} (str "start N1") 8, .line {} (str "remove N0") 9, .line {} (str "start N0") 10]

theorem console_session_run : ∃ m : Managed 3 (Fin 1),
    Run (World.step sessionDeployment) (fun _ _ => True) (World.init sessionDeployment) m.world ∧
      Supervised m ∧ sessionDeployment.Placed 2 ∧ sessionDeployment.Sharded 2 := by
  have hboot : ((Managed.boot .sample sessionDeployment fun _ => 1).bind fun m0 =>
      runList (Managed.step .sample sessionDeployment) m0 sessionLines).any (fun m =>
        decide (m.cluster.cfgs.map ClusterConfig.toNodeConfig = List.ofFn sessionDeployment.cfg)) =
      true := by decide +kernel
  rw [Option.any_eq_true] at hboot
  obtain ⟨m, hm, hcfgs⟩ := hboot
  obtain ⟨m0, h0, hlines⟩ := Option.bind_eq_some_iff.1 hm
  have hcfgs := of_decide_eq_true hcfgs
  have hlen := congrArg List.length hcfgs
  rw [List.length_map, Cluster.cfgs, List.length_map, List.length_ofFn] at hlen
  obtain ⟨hrun, hsup, hplaced⟩ := console_session h0 (Run.of_list (fun _ _ _ => trivial) hlines)
    (configured_of_eq (fun _ => rfl) hcfgs)
  obtain ⟨hplaced, hsharded⟩ := hplaced hlen (by decide)
  refine ⟨m, hrun, hsup, hplaced, hsharded fun _ => routes_twoRows (by simp) (by simp) ?_ ?_⟩
  · intro ep hep
    exact ⟨0, by rw [List.mem_singleton.1 hep]; decide, by decide⟩
  · intro ep hep
    exact ⟨1, by rw [List.mem_singleton.1 hep]; decide, by decide⟩

/-- `shardEndpoints` as the constructor of `API` fills it. -/
def API.builtinEndpoints : UMap Int32 (List Str) :=
  let addr (port : Int32) : Str := endpoint (str "127.0.0.1") port
  twoRows [addr 5000, addr 5001, addr 5002] [addr 5003, addr 5004, addr 5005]

/-- The configuration of a node of `node/cluster.cpp`. -/
def sixNodeCfg (i : Fin 6) : NodeConfig := (sixNodes.get (i.cast (by decide))).toNodeConfig

/-- **The built-in table is that of the six nodes** of `node/cluster.cpp`: their clients route
rightly from the start, and for good. -/
theorem sixNodes_route {E : Deployment (Fin 6) κ} (hcfg : E.cfg = sixNodeCfg)
    (ht : ∀ k, E.table k = API.builtinEndpoints) {w : World (Fin 6) κ}
    (h : Run (World.step E) (fun _ _ => True) (World.init E) w) (k : κ) :
    E.Routes 2 (w.client k).api.shardEndpoints := by
  have howns : ∀ i : Fin 6, E.Owns (sixNodeCfg i).shardId (sixNodeCfg i).clientAddr :=
    fun i => ⟨i, by rw [hcfg], by rw [hcfg]⟩
  have hnodes : (∀ i, (sixNodeCfg i).numShards = 2) ∧
      (∀ i, 0 ≤ (sixNodeCfg i).shardId ∧ (sixNodeCfg i).shardId < 2) ∧
      (∀ i j, (sixNodeCfg i).clientAddr = (sixNodeCfg j).clientAddr → i = j) ∧
      ∀ i, ∀ info ∈ (sixNodeCfg i).initialPeers, ∃ j, info.host = (sixNodeCfg j).host ∧
        info.clientPort = (sixNodeCfg j).clientPort ∧ info.shardId = (sixNodeCfg j).shardId := by
    decide +kernel
  obtain ⟨hnum, hshard, haddr, hpeers⟩ := hnodes
  have htables : ∀ k, E.Routes 2 (E.table k) := by
    intro k
    rw [ht]
    refine routes_twoRows (by simp) (by simp) (fun ep hep => ?_) fun ep hep => ?_
    · simp only [List.mem_cons, List.not_mem_nil, or_false] at hep
      rcases hep with rfl | rfl | rfl
      exacts [howns 0, howns 1, howns 2]
    · simp only [List.mem_cons, List.not_mem_nil, or_false] at hep
      rcases hep with rfl | rfl | rfl
      exacts [howns 3, howns 4, howns 5]
  have hsharded : E.Sharded 2 := by
    refine ⟨⟨by decide, ?_, ?_, ?_, ?_⟩, htables⟩
    · rw [hcfg]; exact hnum
    · rw [hcfg]; exact hshard
    · rw [hcfg]; exact haddr
    · unfold Deployment.Describes; rw [hcfg]; exact hpeers
  exact (tables_route hsharded h k).1

section

variable {ι : Type*} [DecidableEq ι] {E : Deployment ι κ} {w w' : World ι κ}

/-- **Endpoints are for good**: no step takes one out of a client's table. -/
theorem step_endpoints {a : Action ι κ} (h : World.step E w a = some w') (k : κ) (shard : Int32)
    {ep : Str} (hep : ep ∈ (w.client k).api.endpoints shard) :
    ep ∈ (w'.client k).api.endpoints shard := by
  rcases step_table h k with heq | ⟨reply, -, heq⟩
  · rw [API.endpoints, heq]; exact hep
  · rw [API.endpoints, heq, ← API.endpoints]
    by_cases ho : ∀ m ∈ reply, m.op ≠ .nodesResponse
    · rw [API.finish_of_other ho]; exact hep
    · push Not at ho
      obtain ⟨m, hm, ho⟩ := ho
      rw [Option.mem_def.1 hm, API.endpoints_finish ho]
      exact List.mem_append_left _ hep

end

/-- The address of node 1 is in the row of shard 0. -/
theorem builtin_node1 : endpoint (str "127.0.0.1") (Int32.ofNat 5001) ∈
    (API.builtinEndpoints.lookup 0).getD [] := by decide

/-- **The built-in table and the interactive cluster.** Whatever the console is told, and however
often a client refreshes its table, the table of a client that starts with the built-in one has two
shards, and node 1, which is of shard 1, is in the row of shard 0. The client may send it every list
that it takes to be of shard 0; and the node refuses each whose UID the two hash alike. -/
theorem builtin_misroutes {m0 m : Managed n κ} {now : ℕ → UInt64}
    (h0 : Managed.boot pf D now = some m0) (h : Run (Managed.step pf D) (fun _ _ => True) m0 m)
    (hD : Configured pf D m.cluster) (hn : m.cluster.nodes.length = n) {k : κ}
    (ht : D.table k = API.builtinEndpoints) :
    Deployment.HasShards 2 (m.world.client k).api.shardEndpoints ∧ ∃ i, (D.cfg i).shardId = 1 ∧
      (D.cfg i).clientAddr ∈ (m.world.client k).api.endpoints 0 ∧
      ∀ listUid, (m.world.client k).api.shardOf (D.clientPf k) listUid = 0 →
        (∃ pick, (m.world.client k).api.getShardEndpoint (D.clientPf k) listUid pick =
          some (D.cfg i).clientAddr) ∧
        (D.Agrees k listUid → (m.world.node i).node.shardForList (D.pf i) listUid ≠
          (m.world.node i).node.cfg.shardId) := by
  have hs := Session.of_run h0 h hD
  have hpeers := hD.peers hs.wf hn
  have htable : ((World.init D).client k).api.shardEndpoints = API.builtinEndpoints := ht
  have hkeys : Deployment.HasShards 2 (m.world.client k).api.shardEndpoints := by
    refine hs.run.inv_over (I := fun w => Deployment.HasShards 2 (w.client k).api.shardEndpoints)
      (fun _ hw => informed hpeers hw) (htable ▸ hasShards_twoRows _ _) ?_
    rintro w a w' ⟨-, hi⟩ hI - hstep
    rcases hi.table hstep k with heq | ⟨reply, hreply, heq⟩
    · rw [heq]; exact hI
    · rw [heq]; exact hI.refresh (hD.shardId hs.wf hn) hreply
  obtain ⟨more, hboot⟩ := hs.wf.bootstrapped
  obtain ⟨cfg, hget, hshard⟩ : ∃ cfg, m.cluster.cfgs[1]? = some cfg ∧ cfg.shardId = 1 := by
    rw [hboot]; exact ⟨_, rfl, rfl⟩
  have h1 : 1 < n := by
    have := (List.getElem?_eq_some_iff.1 hget).1
    rwa [Cluster.cfgs, List.length_map, hn] at this
  have hcfg := hD.cfg ⟨1, h1⟩ cfg hget
  have haddr : (D.cfg ⟨1, h1⟩).clientAddr = endpoint (str "127.0.0.1") (Int32.ofNat 5001) := by
    rw [hcfg]; exact (hs.wf.placed 1 cfg hget).clientAddr
  have hrow : (D.cfg ⟨1, h1⟩).clientAddr ∈ (m.world.client k).api.endpoints 0 := by
    rw [haddr]
    refine hs.run.inv (I := fun w => _ ∈ (w.client k).api.endpoints 0) ?_
      fun _ _ _ hI _ hstep => step_endpoints hstep k 0 hI
    rw [API.endpoints, htable]
    exact builtin_node1
  refine ⟨hkeys, ⟨1, h1⟩, by rw [hcfg]; exact hshard, hrow,
    fun listUid hof => ⟨?_, fun hagrees => ?_⟩⟩
  · obtain ⟨pick, hpick⟩ := List.mem_iff_getElem?.1 hrow
    exact ⟨pick, by rw [API.getShardEndpoint, hof]; exact hpick⟩
  · -- the node computes the shard that the client does
    have hm := (matched hs.run).cfg ⟨1, h1⟩
    rw [hkeys.shardOf_eq, ← hagrees.home_eq ⟨1, h1⟩] at hof
    rw [Platform.shardForList_eq (hm ▸ hD.numShards hs.wf hn _) (by decide), hof, hm, hcfg, hshard]
    decide

/-- The same nodes, and a client as it is constructed, whose `char` is unsigned. -/
def builtinDeployment : Deployment (Fin 3) (Fin 1) :=
  { sessionDeployment with
    clientPf := fun _ => { Platform.sample with charSigned := false }
    table := fun _ => API.builtinEndpoints }

theorem builtin_misroutes_session : ∃ m : Managed 3 (Fin 1),
    Deployment.HasShards 2 (m.world.client 0).api.shardEndpoints ∧
    ∃ i, (builtinDeployment.cfg i).shardId = 1 ∧
      (builtinDeployment.cfg i).clientAddr ∈ (m.world.client 0).api.endpoints 0 ∧
      (∃ pick, (m.world.client 0).api.getShardEndpoint (builtinDeployment.clientPf 0) (sampleUid 1)
        pick = some (builtinDeployment.cfg i).clientAddr) ∧
      (m.world.node i).node.shardForList (builtinDeployment.pf i) (sampleUid 1) ≠
        (m.world.node i).node.cfg.shardId := by
  have hboot : ((Managed.boot .sample builtinDeployment fun _ => 1).bind fun m0 =>
      runList (Managed.step .sample builtinDeployment) m0 sessionLines).any (fun m =>
        decide (m.cluster.cfgs.map ClusterConfig.toNodeConfig = List.ofFn builtinDeployment.cfg ∧
          (m.world.client 0).api.shardOf (builtinDeployment.clientPf 0) (sampleUid 1) = 0)) =
      true := by decide +kernel
  rw [Option.any_eq_true] at hboot
  obtain ⟨m, hm, hdec⟩ := hboot
  obtain ⟨m0, h0, hlines⟩ := Option.bind_eq_some_iff.1 hm
  obtain ⟨hcfgs, hof⟩ := of_decide_eq_true hdec
  have hlen := congrArg List.length hcfgs
  rw [List.length_map, Cluster.cfgs, List.length_map, List.length_ofFn] at hlen
  obtain ⟨hkeys, i, hshard, hrow, hlists⟩ := builtin_misroutes h0
    (Run.of_list (fun _ _ _ => trivial) hlines) (configured_of_eq (fun _ => rfl) hcfgs) hlen
    (k := (0 : Fin 1)) rfl
  obtain ⟨hasked, hrefused⟩ := hlists (sampleUid 1) hof
  exact ⟨m, hkeys, i, hshard, hrow, hasked, hrefused fun _ => Or.inr (by decide +kernel)⟩

end Shopping
