import Shopping.Node.Turns

/-!
# The nodes a node knows

`known_nodes` only takes in entries that were in the configuration or in a discovery
message, and stamps them. So a property of entries that does not depend on the stamp, and
that all entries heard of have, holds of every entry known (`Knows`); and a node never
forgets itself.
-/

namespace Shopping

open Lib

namespace Node

variable {P : NodeInfo → Prop}

/-- The node knows itself, and `P` holds of all entries it knows. -/
structure Knows (P : NodeInfo → Prop) (n : Node) : Prop where
  self : n.cfg.nodeId ∈ n.knownNodes
  all : ∀ id info, n.knownNodes.lookup id = some info → P info

/-- The entries a node sends are those it knows. -/
theorem Knows.entries {n : Node} (h : n.Knows P) :
    ∀ info ∈ n.knownNodes.entries.map fun known => known.2, P info := by
  intro info hinfo
  obtain ⟨known, hmem, rfl⟩ := List.mem_map.1 hinfo
  exact h.all known.1 known.2 (AList.mem_lookup_iff.2 hmem)

theorem Knows.of_eq {n n' : Node} (h : n.Knows P) (hcfg : n'.cfg = n.cfg)
    (hknown : n'.knownNodes = n.knownNodes) : n'.Knows P := by
  refine ⟨by rw [hcfg, hknown]; exact h.self, ?_⟩
  rw [hknown]; exact h.all

/-- A node starts with its own entry. -/
theorem new_knows (cfg : NodeConfig) (db : SqliteDb) (now : UInt64) (h : P (selfInfo cfg now)) :
    (new cfg db now).Knows P := by
  refine ⟨List.mem_singleton.2 rfl, ?_⟩
  intro id info hl
  rw [show (new cfg db now).knownNodes.lookup id = if cfg.nodeId = id then some (selfInfo cfg now)
    else none from UMap.dlookup_cons id _ []] at hl
  split at hl
  · cases hl; exact h
  · cases hl

theorem Knows.insert {n : Node} (h : n.Knows P) (id : Str) {info : NodeInfo} (hi : P info) :
    Knows P { n with knownNodes := n.knownNodes.insert id info } := by
  refine ⟨(AList.mem_insert _).2 (Or.inr h.self), ?_⟩
  intro id' info' hl
  rw [UMap.lookup_insert_ite] at hl
  split at hl
  · cases hl; exact hi
  · exact h.all id' info' hl

/-- A stamp forgets nobody. -/
theorem mem_stamp {n : Node} {id id' : Str} {ts : UInt64} (h : id' ∈ n.knownNodes) :
    id' ∈ (n.stamp id ts).knownNodes := (AList.mem_insert _).2 (Or.inr h)

section

variable (hP : ∀ (info : NodeInfo) (ts : UInt64), P info → P { info with lastSeenTs := ts })
include hP

/-- The entry of an unknown node would be made up by `operator[]`: a stamp is only right on
a known one. -/
theorem Knows.stamp {n : Node} (h : n.Knows P) {id : Str} (hid : id ∈ n.knownNodes) (ts : UInt64) :
    (n.stamp id ts).Knows P := by
  obtain ⟨info, hl⟩ := Option.isSome_iff_exists.1 (AList.lookup_isSome.2 hid)
  have hstamp : n.stamp id ts =
      { n with knownNodes := n.knownNodes.insert id { info with lastSeenTs := ts } } := by
    unfold Node.stamp; rw [hl]; rfl
  rw [hstamp]
  exact h.insert id (hP info ts (h.all id info hl))

/-- What holds of an entry received holds of the table that takes it in. -/
theorem updateKnownNode_knows (pf : Platform) {n : Node} (h : n.Knows P) {info : NodeInfo}
    (hi : P info) : (updateKnownNode pf n info).state.Knows P := by
  have hinsert := h.insert info.nodeId hi
  have hmem : info.nodeId ∈ n.knownNodes.insert info.nodeId info :=
    (AList.mem_insert _).2 (Or.inl rfl)
  unfold updateKnownNode
  split
  · exact h
  split
  · split
    · exact h
    · exact hinsert.stamp hP hmem info.lastSeenTs
  · -- the node stays known while it is joined, so the stamp finds it
    have hjoin : ∀ (n' : Node) (k : Push), n'.Knows P ∧ info.nodeId ∈ n'.knownNodes →
        (join k pf n' info).state.Knows P ∧
          info.nodeId ∈ (join k pf n' info).state.knownNodes := by
      intro n' k hn'
      have hlinks := join_relinked k pf n' info
      exact ⟨hn'.1.of_eq hlinks.same.cfg hlinks.known, by rw [hlinks.known]; exact hn'.2⟩
    dsimp only
    let K := fun n : Node => n.Knows P ∧ info.nodeId ∈ n.knownNodes
    refine (Throws.state_bind (P := K) ?_ ?_).1
    · exact hjoin _ .discovery ⟨hinsert, hmem⟩
    · intro n1 h1
      refine Throws.state_bind (P := K) ?_ ?_
      · exact hjoin n1 .gossip h1
      · intro n2 h2
        exact ⟨h2.1.stamp hP h2.2 info.lastSeenTs, mem_stamp h2.2⟩

/-- **What holds of every entry learnt holds of every entry known.** -/
theorem updateKnownNodes_knows (pf : Platform) (infos : List NodeInfo) : ∀ {n : Node},
    n.Knows P → (∀ info ∈ infos, P info) → (updateKnownNodes pf n infos).state.Knows P := by
  induction infos with
  | nil => intro n h _; exact h
  | cons info infos ih =>
    intro n h hinfos
    rw [List.forall_mem_cons] at hinfos
    exact Throws.state_bind (updateKnownNode_knows hP pf h hinfos.1) fun n' hn' => ih hn' hinfos.2

theorem foldl_stamp_knows (now : UInt64) (ids : List Str) : ∀ {n : Node}, n.Knows P →
    (∀ id ∈ ids, id ∈ n.knownNodes) → (ids.foldl (fun n id => n.stamp id now) n).Knows P := by
  induction ids with
  | nil => intro n h _; exact h
  | cons id ids ih =>
    intro n h hids
    rw [List.forall_mem_cons] at hids
    exact ih (h.stamp hP hids.1 now) fun id' hid' => mem_stamp (hids.2 id' hid')

theorem enterLoop_knows (pf : Platform) (now : UInt64) {n : Node} (h : n.Knows P)
    (hpeers : ∀ info ∈ n.cfg.initialPeers, P info) : (enterLoop pf now n).state.Knows P :=
  Throws.state_bind (updateKnownNodes_knows hP pf _ h hpeers) fun _ hn' =>
    foldl_stamp_knows hP now _ hn' fun _ hid => hid

theorem handleDiscoveryFrame_knows (pf : Platform) {n : Node} (h : n.Knows P) {frame : Frame}
    (hframe : ∀ m, frame.decode pf = some m → ∀ info ∈ m.nodes, P info) :
    (handleDiscoveryFrame pf n frame).state.Knows P := by
  unfold handleDiscoveryFrame
  cases hd : frame.decode pf with
  | none => exact h
  | some m =>
    dsimp only
    split
    · exact h
    · exact updateKnownNodes_knows hP pf m.nodes h (hframe m hd)

omit hP in
/-- An eviction forgets another node, never the node itself. -/
theorem evictNode_knows (now : UInt64) {n : Node} (h : n.Knows P) (id : Str) (info : NodeInfo) :
    (evictNode now n id info).state.Knows P := by
  unfold evictNode
  split
  · exact h
  rename_i hself
  split
  · exact h
  let K := fun n' : Node => n'.Knows P ∧ n'.cfg = n.cfg
  refine (Throws.state_bind (P := K) ?_ ?_).1
  · have hlinks := leave_relinked .discovery n id info
    exact ⟨h.of_eq hlinks.same.cfg hlinks.known, hlinks.same.cfg⟩
  intro n1 h1
  refine Throws.state_bind (P := K) ?_ ?_
  · have hlinks := leave_relinked .gossip n1 id info
    exact ⟨h1.1.of_eq hlinks.same.cfg hlinks.known, hlinks.same.cfg.trans h1.2⟩
  rintro n2 ⟨h2, hcfg⟩
  refine ⟨⟨AList.mem_erase.2 ⟨?_, h2.self⟩, ?_⟩, hcfg⟩
  · show n2.cfg.nodeId ≠ id
    rw [hcfg]; exact Ne.symm hself
  · intro id' info' hl
    have hl : (n2.knownNodes.erase id).lookup id' = some info' := hl
    have hne : id' ≠ id := by
      rintro rfl
      rw [AList.lookup_erase] at hl; cases hl
    rw [AList.lookup_erase_ne hne] at hl
    exact h2.all id' info' hl

omit hP in
theorem evictDeadNodes_knows (now : UInt64) {n : Node} (h : n.Knows P) :
    (evictDeadNodes now n).state.Knows P := by
  unfold evictDeadNodes
  generalize n.knownNodes.entries = es
  induction es generalizing n with
  | nil => exact h
  | cons e es ih => exact Throws.state_bind (evictNode_knows now h e.1 e.2) fun n' hn' => ih hn'

/-- A discovery gossip stamps the node itself and sends what it knows. -/
theorem performDiscoveryGossip_knows (now : UInt64) {n : Node} (h : n.Knows P) :
    (performDiscoveryGossip now n).Knows P ∧
      ∀ s ∈ (performDiscoveryGossip now n).sent, s ∈ n.sent ∨
        ∃ dests m, s = .discovery dests (.packed m) ∧ ∀ info ∈ m.nodes, P info := by
  have hstamp := h.stamp hP h.self now
  unfold performDiscoveryGossip
  dsimp only
  split
  · exact ⟨hstamp, fun s hs => Or.inl hs⟩
  · refine ⟨hstamp.of_eq rfl rfl, ?_⟩
    intro s hs
    rcases List.mem_append.1 hs with hs | hs
    · exact Or.inl hs
    · refine Or.inr ⟨_, _, List.mem_singleton.1 hs, ?_⟩
      exact hstamp.entries

/-- The table is relayed as it is: what holds of its entries holds of those sent. -/
theorem discoveryTimer_knows (pf : Platform) (evictNow gossipNow : UInt64) {n : Node}
    (h : n.Knows P) :
    (wake pf n (.discoveryTimer evictNow gossipNow)).state.Knows P ∧
      ∀ s ∈ (wake pf n (.discoveryTimer evictNow gossipNow)).state.sent, s ∈ n.sent ∨
        ∃ dests m, s = .discovery dests (.packed m) ∧ ∀ info ∈ m.nodes, P info := by
  have hevict := evictDeadNodes_knows evictNow h
  have hsame := evictDeadNodes_same evictNow n
  cases hr : evictDeadNodes evictNow n with
  | error x =>
    have hw : wake pf n (.discoveryTimer evictNow gossipNow) = .error x := by
      simp only [wake, hr]; rfl
    rw [hr] at hevict hsame
    rw [hw]
    refine ⟨hevict, fun s hs => Or.inl ?_⟩
    rw [← hsame.sent]; exact hs
  | ok n' =>
    have hw : wake pf n (.discoveryTimer evictNow gossipNow) =
        .ok (performDiscoveryGossip gossipNow n') := by
      simp only [wake, hr]; rfl
    rw [hr] at hevict hsame
    rw [hw]
    obtain ⟨hk, hsent⟩ := performDiscoveryGossip_knows hP gossipNow hevict
    refine ⟨hk, fun s hs => ?_⟩
    rcases hsent s hs with hs | hs
    · exact Or.inl (hsame.sent ▸ hs)
    · exact Or.inr hs

end

theorem handleClientFrame_knows (pf : Platform) (env : Env) {n : Node} (h : n.Knows P)
    (frame : Frame) : (handleClientFrame pf env n frame).state.Knows P := by
  obtain ⟨db, new, hs, -⟩ := (handleClientFrame_turn pf env n frame).state_eq
  rw [hs]; exact h.of_eq rfl rfl

/-- **What the client socket sends**: gossip, `WRONG_SHARD`, and replies whose entries the node
knows. -/
theorem handleClientFrame_sent (pf : Platform) (env : Env) {n : Node} (hs : n.sent = [])
    (h : n.Knows P) (frame : Frame) :
    ∀ s ∈ (handleClientFrame pf env n frame).state.sent, (∃ dests m, s = .gossip dests (.packed m)) ∨
      s = .reply (.raw wrongShard) ∨ ∃ m, s = .reply (.packed m) ∧ ∀ info ∈ m.nodes, P info := by
  have ht := handleClientFrame_turn pf env n frame
  generalize handleClientFrame pf env n frame = r at ht ⊢
  have hreply : ∀ m : Message, (∀ info ∈ m.nodes, P info) → ∀ s ∈ (n.reply (.packed m)).sent,
      (∃ dests m, s = .gossip dests (.packed m)) ∨ s = .reply (.raw wrongShard) ∨
        ∃ m, s = .reply (.packed m) ∧ ∀ info ∈ m.nodes, P info := by
    intro m hm s hs'
    rw [reply_sent, hs, List.nil_append, List.mem_singleton] at hs'
    exact Or.inr (Or.inr ⟨m, hs', hm⟩)
  cases ht with
  | undecodable hd => intro s hs'; rw [Throws.state, hs] at hs'; cases hs'
  | nodes m hd hop => exact hreply _ h.entries
  | empty m hd hop hl => intro s hs'; rw [Throws.state, hs] at hs'; cases hs'
  | refused m l ls hd hop hl hsh =>
    intro s hs'
    rw [Throws.state, reply_sent, hs, List.nil_append, List.mem_singleton] at hs'
    exact Or.inr (Or.inl hs')
  | found m l ls row hd hop hl hsh hr => exact hreply _ (by simp [Message.listResponse])
  | absent m l ls hd hop hl hsh hr => exact hreply _ (by simp [Message.listResponse])
  | thrown m l ls e db hd hop hop' hl hsh ha =>
    intro s hs'
    rw [show (Throws.state (.error (e, { n with db }) : Method Node)).sent = n.sent from rfl, hs] at hs'
    cases hs'
  | applied m l ls db hd hop hop' hl hsh ha =>
    obtain ⟨new, he, hg⟩ := eagerFanout_eq env { n with db }
    rw [he]
    intro s hs'
    rw [Throws.state, reply_sent, hs, List.nil_append, List.mem_append, List.mem_singleton] at hs'
    rcases hs' with hs' | rfl
    · obtain ⟨now, c, rfl⟩ := hg s hs'
      exact Or.inl ⟨_, _, rfl⟩
    · exact Or.inr (Or.inr ⟨_, rfl, by simp [Message.listResponse]⟩)

/-- The reply is `WRONG_SHARD` only if the first list is of another shard. -/
theorem handleClientFrame_wrongShard (pf : Platform) (env : Env) {n : Node} (hs : n.sent = [])
    {frame : Frame}
    (h : .reply (.raw wrongShard) ∈ (handleClientFrame pf env n frame).state.sent) :
    ∃ m l, frame.decode pf = some m ∧ m.op ≠ .getNodes ∧ l ∈ m.lists ∧
      n.shardForList pf l.uid ≠ n.cfg.shardId := by
  have ht := handleClientFrame_turn pf env n frame
  generalize handleClientFrame pf env n frame = r at ht h
  have hreply : ∀ m : Message, .reply (.raw wrongShard) ∉ (n.reply (.packed m)).sent := by
    intro m; rw [reply_sent, hs]; simp
  cases ht with
  | undecodable hd => rw [Throws.state, hs] at h; cases h
  | nodes m hd hop => exact absurd h (hreply _)
  | empty m hd hop hl => rw [Throws.state, hs] at h; cases h
  | refused m l ls hd hop hl hsh => exact ⟨m, l, hd, hop, by simp [hl], hsh⟩
  | found m l ls row hd hop hl hsh hr => exact absurd h (hreply _)
  | absent m l ls hd hop hl hsh hr => exact absurd h (hreply _)
  | thrown m l ls e db hd hop hop' hl hsh ha =>
    rw [show (Throws.state (.error (e, { n with db }) : Method Node)).sent = n.sent from rfl, hs] at h
    cases h
  | applied m l ls db hd hop hop' hl hsh ha =>
    obtain ⟨new, he, hg⟩ := eagerFanout_eq env { n with db }
    rw [he, Throws.state, reply_sent, hs, List.nil_append, List.mem_append] at h
    rcases h with h | h
    · obtain ⟨now, c, h⟩ := hg _ h
      cases h
    · cases List.mem_singleton.1 h

end Node

end Shopping
