import Shopping.Lib.Rumour
import Shopping.Node.Members
import Shopping.System.Matched
import Shopping.Proof.Discovery
import Shopping.Proof.Evictions
import Shopping.Proof.SingleWriter

/-!
# Heartbeats

Who is thought to be alive. At its discovery timer a node stamps its own entry with the time
and gossips all entries it has; the others keep the newest stamp they hear of, and evict an
entry whose stamp is older than the timeout. So the stamps are heartbeats, relayed by any
number of nodes. Here all nodes read one clock (`Timed.step`): with clocks that differ the
code evicts too early (`Node.evict_exact`).

* `never_evicted`: a node that is reached by a heartbeat of a peer within each timeout
  never evicts the peer.
* `dead_forgotten`: once a node has been down for the timeout, no discovery message is sent
  that names it, and nobody knows it after the next timer unless by an older message, as long
  as no node restarts that is configured with it.
-/

namespace Shopping

open Lib

namespace Node

/-- **Learning**, when it returns: entries known or told, none of them older than before. -/
theorem updateKnownNodes_learns {pf : Platform} {n n' : Node} {infos : List NodeInfo}
    (h : updateKnownNodes pf n infos = .ok n') :
    (∀ id e, n'.knownNodes.lookup id = some e →
      n.knownNodes.lookup id = some e ∨ e ∈ infos ∧ e.nodeId = id) ∧
    (∀ id old, n.knownNodes.lookup id = some old →
      ∃ e, n'.knownNodes.lookup id = some e ∧ old.lastSeenTs ≤ e.lastSeenTs) ∧
    ∀ info ∈ infos, info.nodeId ≠ n.cfg.nodeId →
      ∃ e, n'.knownNodes.lookup info.nodeId = some e ∧ info.lastSeenTs ≤ e.lastSeenTs := by
  have hknown := (updateKnownNodes_known infos h).2
  have hmem : ∀ id, (id ∈ n.knownNodes ∨ ∃ offer ∈ n.offers infos, offer.1 = id) →
      ∃ e, n'.knownNodes.lookup id = some e := by
    intro id hid
    refine Option.isSome_iff_exists.1 (AList.lookup_isSome.2 ?_)
    rw [hknown, UMap.mem_renewAll]; exact hid
  refine ⟨fun id e he => ?_, fun id old hold => ?_, fun info hin hne => ?_⟩
  · rw [hknown] at he
    refine (UMap.renewAll_spec _ he).1.imp_right fun ho => ?_
    obtain ⟨hin, -, heq⟩ := mem_offers.1 ho
    exact ⟨hin, heq.symm⟩
  · obtain ⟨e, he⟩ := hmem id (Or.inl (AList.lookup_isSome.1 (by rw [hold]; rfl)))
    refine ⟨e, he, ?_⟩
    rw [hknown] at he
    exact UInt64.le_iff_toNat_le.2 ((UMap.renewAll_spec _ he).2.1 old hold)
  · have ho : (info.nodeId, info) ∈ n.offers infos := mem_offers.2 ⟨hin, hne, rfl⟩
    obtain ⟨e, he⟩ := hmem info.nodeId (Or.inr ⟨_, ho, rfl⟩)
    refine ⟨e, he, ?_⟩
    rw [hknown] at he
    exact UInt64.le_iff_toNat_le.2 ((UMap.renewAll_spec _ he).2.2 _ ho rfl)

theorem lookup_stamp {n : Node} {id : Str} {old : NodeInfo} (h : n.knownNodes.lookup id = some old)
    (ts : UInt64) (id' : Str) : (n.stamp id ts).knownNodes.lookup id' =
      if id' = id then some { old with lastSeenTs := ts } else n.knownNodes.lookup id' := by
  unfold stamp
  rw [h]
  exact UMap.lookup_insert_ite ..

/-- Stamping known entries, one after another. -/
theorem lookup_foldl_stamp (now : UInt64) (ids : List Str) :
    ∀ {n : Node} {id : Str} {info : NodeInfo}, (∀ id ∈ ids, id ∈ n.knownNodes) →
    (ids.foldl (fun n id => n.stamp id now) n).knownNodes.lookup id = some info →
    ∃ old ∈ n.knownNodes.lookup id,
      info = if id ∈ ids then { old with lastSeenTs := now } else old := by
  induction ids with
  | nil => intro n id info _ h; exact ⟨info, h, rfl⟩
  | cons id' ids ih =>
    intro n id info hids h
    rw [List.forall_mem_cons] at hids
    obtain ⟨old', hold'⟩ := Option.isSome_iff_exists.1 (AList.lookup_isSome.2 hids.1)
    obtain ⟨old, hold, rfl⟩ := ih (n := n.stamp id' now) (fun id'' h => mem_stamp (hids.2 id'' h)) h
    rw [Option.mem_def, lookup_stamp hold'] at hold
    by_cases hid : id = id'
    · subst hid
      rw [if_pos rfl] at hold
      cases hold
      refine ⟨old', hold', ?_⟩
      rw [if_pos List.mem_cons_self]
      split <;> rfl
    · rw [if_neg hid] at hold
      refine ⟨old, hold, ?_⟩
      simp only [List.mem_cons, hid, false_or]

/-- **A node that enters its loop** knows itself and the peers it is configured with, all of them
seen now. -/
theorem enterLoop_eq_ok {pf : Platform} {cfg : NodeConfig} {db : SqliteDb} {now : UInt64} {n : Node}
    (h : enterLoop pf now (new cfg db now) = .ok n) :
    cfg.nodeId ∈ n.knownNodes ∧ ∀ id info, n.knownNodes.lookup id = some info →
      ∃ peer ∈ selfInfo cfg now :: cfg.initialPeers, peer.nodeId = id ∧
        info = { peer with lastSeenTs := now } := by
  unfold enterLoop at h
  cases hu : updateKnownNodes pf (new cfg db now) (new cfg db now).cfg.initialPeers with
  | error x => rw [hu] at h; cases h
  | ok n1 =>
    rw [hu] at h
    cases h
    obtain ⟨hfrom, hold, -⟩ := updateKnownNodes_learns hu
    have hself : (new cfg db now).knownNodes.lookup cfg.nodeId = some (selfInfo cfg now) := by
      rw [show (new cfg db now).knownNodes.lookup cfg.nodeId = _ from
        UMap.dlookup_cons cfg.nodeId _ [], if_pos rfl]
    constructor
    · obtain ⟨e, he, -⟩ := hold _ _ hself
      have hmem : cfg.nodeId ∈ n1.knownNodes := AList.lookup_isSome.1 (by rw [he]; rfl)
      clear hu hfrom hold he
      generalize n1.knownNodes.keys = ids
      induction ids generalizing n1 with
      | nil => exact hmem
      | cons id ids ih => exact ih _ (mem_stamp hmem)
    · intro id info hl
      obtain ⟨old, ho, rfl⟩ := lookup_foldl_stamp now _ (fun _ hid => hid) hl
      have hid : id ∈ n1.knownNodes := AList.lookup_isSome.1 (by rw [Option.mem_def.1 ho]; rfl)
      rw [if_pos (show id ∈ n1.knownNodes.keys from hid)]
      rcases hfrom id old ho with hnew | ⟨hin, heq⟩
      · rw [show (new cfg db now).knownNodes.lookup id = _ from UMap.dlookup_cons id _ []] at hnew
        split at hnew
        · rename_i heq
          cases hnew
          exact ⟨_, List.mem_cons_self, heq, rfl⟩
        · cases hnew
      · exact ⟨old, List.mem_cons_of_mem _ hin, heq, rfl⟩

theorem mem_entries {n : Node} {id : Str} {info : NodeInfo}
    (h : n.knownNodes.lookup id = some info) :
    info ∈ n.knownNodes.entries.map fun known => known.2 :=
  List.mem_map.2 ⟨⟨id, info⟩, AList.mem_lookup_iff.1 h, rfl⟩

/-- What the node sends at a discovery timer: the entries it knows then. -/
theorem performDiscoveryGossip_tells (now : UInt64) (n : Node) :
    (performDiscoveryGossip now n).knownNodes = (n.stamp n.cfg.nodeId now).knownNodes ∧
      ∃ new, (performDiscoveryGossip now n).sent = n.sent ++ new ∧ ∀ s ∈ new, ∃ dests,
        s = .discovery dests (.packed (Message.gossipNodes n.cfg.nodeId now
          ((n.stamp n.cfg.nodeId now).knownNodes.entries.map fun known => known.2))) := by
  unfold performDiscoveryGossip
  dsimp only
  split
  · exact ⟨rfl, [], (List.append_nil _).symm, by simp⟩
  · exact ⟨rfl, [_], rfl, fun s hs => ⟨_, List.mem_singleton.1 hs⟩⟩

end Node

variable {ι κ : Type*} [DecidableEq ι] [DecidableEq κ]

/-- The action has node `i` start, gossip what it knows, or learn what another node knows. -/
def Action.Discovers (D : Deployment ι κ) (w : World ι κ) (i : ι) : Action ι κ → Prop
  | start j _ => j = i
  | discoveryTimer j _ _ => j = i
  | discoveryFrame j p => j = i ∧ ∃ dests frame m, w.net[p]? = some (.discovery dests frame) ∧
      frame.decode (D.pf i) = some m ∧ m.op = .gossipNodes
  | _ => False

/-- The steps by what they do to what running nodes know, and to discovery messages. A handler
that throws stops its node. -/
inductive Tells (D : Deployment ι κ) (w : World ι κ) : Action ι κ → World ι κ → Prop
  | quiet (a : Action ι κ) (w' : World ι κ) (ps : List (Packet κ)) (hnet : w'.net = w.net ++ ps)
      (hps : ∀ dests frame, Packet.discovery dests frame ∉ ps)
      (hnode : ∀ i, (w'.node i).running = true → (w.node i).running = true ∧
        (w'.node i).node.knownNodes = (w.node i).node.knownNodes ∧ ¬ a.Discovers D w i) :
      Tells D w a w'
  | start (i : ι) (now : UInt64) (n : Node) (hr : (w.node i).running = false)
      (hn : Node.enterLoop (D.pf i) now (Node.new (D.cfg i) (w.node i).node.db now) = .ok n)
      (hs : n.sent = []) : Tells D w (.start i now) (w.place i n true none)
  | heard (i : ι) (p : ℕ) (dests : List Str) (frame : Frame) (m : Message) (n : Node)
      (hp : w.net[p]? = some (.discovery dests frame)) (hr : (w.node i).running = true)
      (hd : frame.decode (D.pf i) = some m) (hop : m.op = .gossipNodes)
      (hn : Node.updateKnownNodes (D.pf i) (w.node i).node m.nodes = .ok n) (hs : n.sent = []) :
      Tells D w (.discoveryFrame i p) (w.place i n true none)
  | timer (i : ι) (evictNow gossipNow : UInt64) (n : Node) (hr : (w.node i).running = true)
      (hn : Node.evictDeadNodes evictNow (w.node i).node = .ok n) (hs : n.sent = []) :
      Tells D w (.discoveryTimer i evictNow gossipNow)
        (w.place i (Node.performDiscoveryGossip gossipNow n) true none)

variable {D : Deployment ι κ} {w w' : World ι κ} {a : Action ι κ}

omit [DecidableEq κ] in
/-- A handler that does not touch what its node knows, and sends no discovery message. -/
theorem Tells.place {D : Deployment ι κ} {i : ι} {n : Node} {running : Bool}
    {call : Option (κ × ℕ)} (hno : ∀ j, ¬ a.Discovers D w j)
    (hrun : running = true → (w.node i).running = true)
    (hknown : n.knownNodes = (w.node i).node.knownNodes)
    (hsent : ∀ s ∈ n.sent, ∀ dests frame, s ≠ .discovery dests frame) :
    Tells D w a (w.place i n running call) := by
  refine .quiet a _ _ rfl ?_ fun j hj => ?_
  · intro dests frame hmem
    obtain ⟨s, hs, hp⟩ := List.mem_filterMap.1 hmem
    cases s with
    | reply f => cases call <;> cases hp
    | gossip ds f => cases hp
    | discovery ds f => exact hsent _ hs ds f rfl
  · rw [World.place_node] at hj ⊢
    split at hj
    · rename_i hji
      subst hji
      rw [if_pos rfl]
      exact ⟨hrun hj, hknown, hno j⟩
    · rename_i hji
      rw [if_neg hji]; exact ⟨hj, rfl, hno j⟩

omit [DecidableEq κ] in
/-- A node that stops. -/
theorem Tells.stopped {D : Deployment ι κ} {i : ι} {n : Node} {call : Option (κ × ℕ)}
    (hno : ∀ j, j ≠ i → ¬ a.Discovers D w j) (hsent : n.sent = []) :
    Tells D w a (w.place i n false call) := by
  refine .quiet a _ _ rfl ?_ fun j hj => ?_
  · rw [hsent]; intro dests frame hmem; cases hmem
  · rw [World.place_node] at hj ⊢
    split at hj
    · cases hj
    · rename_i hji
      rw [if_neg hji]; exact ⟨hj, rfl, hno j hji⟩

/-- A step of a client. -/
theorem Tells.client {D : Deployment ι κ} {k : κ} {c : ClientState} {ps : List (Packet κ)}
    (hno : ∀ j, ¬ a.Discovers D w j)
    (hps : ∀ pkt ∈ ps, ∃ k c dest frame, pkt = .request k c dest frame) :
    Tells D w a { w with client := Function.update w.client k c, net := w.net ++ ps } := by
  refine .quiet a _ ps rfl ?_ fun j hj => ⟨hj, rfl, hno j⟩
  intro dests frame hmem
  obtain ⟨k, c, dest, f, h⟩ := hps _ hmem
  cases h

theorem Tells.setClient {D : Deployment ι κ} (hno : ∀ j, ¬ a.Discovers D w j) (k : κ)
    (c : ClientState) : Tells D w a (w.setClient k c) := by
  rw [World.setClient_eq]
  exact .client hno (by simp)

/-- **Every step is one of these.** -/
theorem step_tells (hm : Matched D w) (h : World.step D w a = some w') : Tells D w a w' := by
  have hguard : ∀ i now, a = .start i now → (w.node i).running = false := by
    rintro i now rfl
    simp only [World.step] at h
    split at h
    · cases h
    · rename_i hr; exact Bool.eq_false_iff.2 hr
  cases step_moves h with
  | start i now =>
    have hsame := Node.enterLoop_same (D.pf i) now (Node.new (D.cfg i) (w.node i).node.db now)
    rw [settle_eq_place]
    cases hr : Node.enterLoop (D.pf i) now (Node.new (D.cfg i) (w.node i).node.db now) with
    | error x => rw [hr] at hsame; exact .stopped (fun j hj h => hj h.symm) hsame.sent
    | ok n => rw [hr] at hsame; exact .start i now n (hguard i now rfl) hr hsame.sent
  | stop i => exact .stopped (fun _ _ => id) (hm.sent i)
  | clientFrame i p now k c dest frame hp hr hd =>
    obtain ⟨db, new, hstate, -⟩ :=
      (Node.handleClientFrame_turn (D.pf i) { now } (w.node i).node frame).state_eq
    obtain ⟨-, -, hsent⟩ :=
      Node.handleClientFrame_state (D.pf i) { now } (hm.sent i) (hm.nodeKey i) frame
    rw [settle_eq_place]
    refine .place (fun _ => id) (fun _ => hr) (by rw [hstate]) ?_
    rintro s hs dests f rfl
    rcases hsent _ hs with ⟨now, c, h⟩ | ⟨f', h, -⟩ <;> cases h
  | gossipFrame i p now dests frame hp hr hd =>
    obtain ⟨db, hstate, -⟩ := Node.handleGossipFrame_state (D.pf i) { now } (w.node i).node frame
    rw [settle_eq_place]
    refine .place (fun _ => id) (fun _ => hr) (by rw [hstate]) ?_
    rw [hstate]
    intro s hs
    dsimp only at hs
    rw [hm.sent] at hs; cases hs
  | discoveryFrame i p dests frame hp hr hd =>
    have hsame := Node.handleDiscoveryFrame_same (D.pf i) (w.node i).node frame
    have hother : ∀ j, j ≠ i → ¬ (Action.discoveryFrame i p).Discovers D w j :=
      fun j hj h => hj h.1.symm
    unfold Node.handleDiscoveryFrame at hsame ⊢
    cases hd : frame.decode (D.pf i) with
    | none => exact .stopped hother (hm.sent i)
    | some m =>
      rw [hd] at hsame
      dsimp only at hsame ⊢
      split
      · rename_i hop
        refine .place ?_ (fun _ => hr) rfl (by rw [hm.sent]; simp)
        rintro j ⟨rfl, dests', frame', m', hp', hd', hop'⟩
        rw [hp] at hp'
        cases hp'
        rw [hd] at hd'
        cases hd'
        exact hop hop'
      · rename_i hop
        rw [if_neg hop] at hsame
        rw [settle_eq_place]
        cases hn : Node.updateKnownNodes (D.pf i) (w.node i).node m.nodes with
        | error x =>
          rw [hn] at hsame
          exact .stopped hother (hsame.sent.trans (hm.sent i))
        | ok n =>
          rw [hn] at hsame
          exact .heard i p dests frame m n hp hr hd (not_not.1 hop) hn
            (hsame.sent.trans (hm.sent i))
  | stateTimer i now hr =>
    obtain ⟨new, he, hg⟩ := Node.performShardGossip_eq now .ok (w.node i).node
    rw [he]
    refine .place (fun _ => id) (fun _ => hr) rfl ?_
    rintro s hs dests f rfl
    rw [hm.sent, List.nil_append] at hs
    obtain ⟨now', c, h⟩ := hg _ hs
    cases h
  | discoveryTimer i evictNow gossipNow hr =>
    have hsame := Node.evictDeadNodes_same evictNow (w.node i).node
    rw [settle_eq_place]
    cases hn : Node.evictDeadNodes evictNow (w.node i).node with
    | error x =>
      rw [hn] at hsame
      simp only [Node.wake, hn]
      exact .stopped (fun j hj h => hj h.symm) (hsame.sent.trans (hm.sent i))
    | ok n =>
      rw [hn] at hsame
      simp only [Node.wake, hn]
      exact .timer i evictNow gossipNow n hr hn (hsame.sent.trans (hm.sent i))
  | begin k _ api listUid pick m pending ep hc hb he =>
    refine .client ?_ fun pkt hpkt => ⟨_, _, _, _, List.mem_singleton.1 hpkt⟩
    cases hb <;> exact fun _ => id
  | gossipState k now pick batches hb =>
    refine .client (fun _ => id) fun pkt hpkt => ?_
    obtain ⟨j, hj, rfl⟩ := List.mem_mapIdx.1 hpkt
    exact ⟨_, _, _, _, rfl⟩
  | updateCloudNodes k now pick ep hc he =>
    exact .client (fun _ => id) fun pkt hpkt => ⟨_, _, _, _, List.mem_singleton.1 hpkt⟩
  | reply k p call pending frame hc hp =>
    obtain ⟨c', hw, -⟩ := (finish_ends w k pending (frame.decode (D.clientPf k))).setClient
    rw [hw]; exact .setClient (fun _ => id) k c'
  | noReply k call pending hc =>
    obtain ⟨c', hw, -⟩ := (finish_ends w k pending none).setClient
    rw [hw]; exact .setClient (fun _ => id) k c'
  | nodesReply k p call frame hc hp => exact .setClient (fun _ => id) k _
  | noNodesReply k call hc => exact .setClient (fun _ => id) k _

/-- Running nodes know themselves, and `R` holds of all that is known and told. -/
structure Told (R : NodeInfo → Prop) (w : World ι κ) : Prop where
  self : ∀ i, (w.node i).running = true →
    (w.node i).node.cfg.nodeId ∈ (w.node i).node.knownNodes
  nodes : ∀ i, (w.node i).running = true → ∀ id info,
    (w.node i).node.knownNodes.lookup id = some info → info.nodeId = id ∧ R info
  net : ∀ dests frame, Packet.discovery dests frame ∈ w.net →
    ∃ m, frame = .packed m ∧ ∀ info ∈ m.nodes, R info

variable {R R' : NodeInfo → Prop}

omit [DecidableEq ι] [DecidableEq κ] in
theorem Told.init (D : Deployment ι κ) : Told R (World.init D) where
  self := by intro i h; cases h
  nodes := by intro i h; cases h
  net := by intro dests frame h; cases h

/-- A node does not evict itself. -/
theorem evictDeadNodes_own {n n' : Node} {now : UInt64} (he : n.evictDeadNodes now = .ok n')
    (hself : n.cfg.nodeId ∈ n.knownNodes) : ∃ own, n'.knownNodes.lookup n.cfg.nodeId = some own ∧
      n.knownNodes.lookup n.cfg.nodeId = some own := by
  obtain ⟨own, hown⟩ := Option.isSome_iff_exists.1 (AList.lookup_isSome.2 hself)
  rcases (Node.evictDeadNodes_eq_ok he).known n.cfg.nodeId with ⟨-, info, -, hexp⟩ | ⟨hsame, -⟩
  · exact absurd rfl hexp.1
  · exact ⟨own, by rw [hsame]; exact hown, hown⟩

/-- An entry known after an eviction and the stamp of a discovery timer. -/
theorem lookup_timer {n n' : Node} {now ts : UInt64} (he : n.evictDeadNodes now = .ok n')
    (hself : n.cfg.nodeId ∈ n.knownNodes) {id : Str} {info : NodeInfo}
    (hl : (n'.stamp n'.cfg.nodeId ts).knownNodes.lookup id = some info) :
    ∃ old, n.knownNodes.lookup id = some old ∧ ¬ n.Evicts now id ∧
      info = if id = n.cfg.nodeId then { old with lastSeenTs := ts } else old := by
  have hevicted := Node.evictDeadNodes_eq_ok he
  have hstays : ∀ {id info}, n'.knownNodes.lookup id = some info →
      n.knownNodes.lookup id = some info ∧ ¬ n.Evicts now id := by
    intro id info hl
    rcases hevicted.known id with ⟨hnone, -⟩ | ⟨hsame, hno⟩
    · rw [hnone] at hl; cases hl
    · exact ⟨hsame ▸ hl, hno⟩
  obtain ⟨own, hown, -⟩ := evictDeadNodes_own he hself
  rw [hevicted.cfg, Node.lookup_stamp hown] at hl
  split at hl
  · rename_i hid
    subst hid
    cases hl
    obtain ⟨hold, hno⟩ := hstays hown
    exact ⟨own, hold, hno, by rw [if_pos rfl]⟩
  · rename_i hid
    obtain ⟨hold, hno⟩ := hstays hl
    exact ⟨info, hold, hno, by rw [if_neg hid]⟩

omit [DecidableEq κ] in
/-- Node `i` after a step that returns, and sends only what it knows. -/
theorem Told.place {i : ι} {n : Node} (h : Told R w) (hmono : ∀ info, R info → R' info)
    (hself : n.cfg.nodeId ∈ n.knownNodes)
    (hnodes : ∀ id info, n.knownNodes.lookup id = some info → info.nodeId = id ∧ R' info)
    (hsent : ∀ s ∈ n.sent, ∃ dests m, s = .discovery dests (.packed m) ∧
      ∀ info ∈ m.nodes, R' info) :
    Told R' (w.place i n true none) where
  self j hj := by
    rw [World.place_node] at hj ⊢
    split
    · exact hself
    · rename_i hji
      rw [if_neg hji] at hj; exact h.self j hj
  nodes j hj id info hl := by
    rw [World.place_node] at hj hl
    split at hl
    · exact hnodes id info hl
    · rename_i hji
      rw [if_neg hji] at hj
      exact (h.nodes j hj id info hl).imp_right (hmono info)
  net dests frame hmem := by
    rcases List.mem_append.1 hmem with hmem | hmem
    · obtain ⟨m, hf, hm⟩ := h.net dests frame hmem
      exact ⟨m, hf, fun info hi => hmono info (hm info hi)⟩
    · obtain ⟨s, hs, hp⟩ := List.mem_filterMap.1 hmem
      obtain ⟨dests', m, rfl, hm⟩ := hsent s hs
      cases hp
      exact ⟨m, rfl, hm⟩

/-- **What a step tells**: entries already told, of a starting node those of its configuration,
and of a timer the node's own. -/
theorem Told.step (hm : Matched D w) (h : Told R w) (hstep : World.step D w a = some w')
    (hmono : ∀ info, R info → R' info)
    (hstart : ∀ i now, a = .start i now →
      ∀ info ∈ Node.selfInfo (D.cfg i) now :: (D.cfg i).initialPeers,
        R' { info with lastSeenTs := now })
    (htimer : ∀ i evictNow gossipNow, a = .discoveryTimer i evictNow gossipNow →
      (w.node i).running = true → ∀ info, info.nodeId = (D.cfg i).nodeId → R info →
        R' { info with lastSeenTs := gossipNow }) :
    Told R' w' := by
  have hm' := hm.step hstep
  cases step_tells hm hstep with
  | quiet _ _ ps hnet hps hnode =>
    refine ⟨fun i hi => ?_, fun i hi id info hl => ?_, fun dests frame hmem => ?_⟩
    · obtain ⟨hr, hk, -⟩ := hnode i hi
      rw [hk, (hm'.cfg i).trans (hm.cfg i).symm]; exact h.self i hr
    · obtain ⟨hr, hk, -⟩ := hnode i hi
      rw [hk] at hl
      exact (h.nodes i hr id info hl).imp_right (hmono info)
    · rw [hnet] at hmem
      rcases List.mem_append.1 hmem with hmem | hmem
      · obtain ⟨m, hf, hin⟩ := h.net dests frame hmem
        exact ⟨m, hf, fun info hi => hmono info (hin info hi)⟩
      · exact absurd hmem (hps dests frame)
  | start i now n hr hn hs =>
    obtain ⟨hself, hfrom⟩ := Node.enterLoop_eq_ok hn
    have hcfg : n.cfg = D.cfg i := by
      have := (Node.enterLoop_same (D.pf i) now (Node.new (D.cfg i) (w.node i).node.db now)).cfg
      rw [hn] at this; exact this
    refine h.place hmono (hcfg ▸ hself) (fun id info hl => ?_) (by rw [hs]; simp)
    obtain ⟨peer, hpeer, rfl, rfl⟩ := hfrom id info hl
    exact ⟨rfl, hstart i now rfl peer hpeer⟩
  | heard i p dests frame m n hp hr hd hop hn hs =>
    obtain ⟨hfrom, hold, -⟩ := Node.updateKnownNodes_learns hn
    have hcfg : n.cfg = (w.node i).node.cfg := by
      have := (Node.updateKnownNodes_same (D.pf i) m.nodes (w.node i).node).cfg
      rw [hn] at this; exact this
    obtain ⟨m', rfl, hin⟩ := h.net dests frame (List.mem_of_getElem? hp)
    rw [Frame.decode_packed, Option.some.injEq] at hd
    subst hd
    refine h.place hmono ?_ (fun id info hl => ?_) (by rw [hs]; simp)
    · obtain ⟨own, hown⟩ := Option.isSome_iff_exists.1 (AList.lookup_isSome.2 (h.self i hr))
      obtain ⟨e, he, -⟩ := hold _ own hown
      rw [hcfg]; exact AList.lookup_isSome.1 (by rw [he]; rfl)
    · rcases hfrom id info hl with hl | ⟨hmem, heq⟩
      · exact (h.nodes i hr id info hl).imp_right (hmono info)
      · exact ⟨heq, hmono info (hin info hmem)⟩
  | timer i evictNow gossipNow n hr hn hs =>
    obtain ⟨hknown, new, hsent, hnew⟩ := Node.performDiscoveryGossip_tells gossipNow n
    have hcfg : n.cfg = (w.node i).node.cfg := (Node.evictDeadNodes_eq_ok hn).cfg
    have hstamped : ∀ id info, (n.stamp n.cfg.nodeId gossipNow).knownNodes.lookup id = some info →
        info.nodeId = id ∧ R' info := by
      intro id info hl
      obtain ⟨old, hold, -, rfl⟩ := lookup_timer hn (h.self i hr) hl
      obtain ⟨hid, hR⟩ := h.nodes i hr id old hold
      split
      · rename_i hself
        rw [hm.cfg i] at hself
        exact ⟨hid, htimer i evictNow gossipNow rfl hr old (hid.trans hself) hR⟩
      · exact ⟨hid, hmono old hR⟩
    refine h.place hmono ?_ ?_ ?_
    · rw [hknown, (Node.performDiscoveryGossip_eq gossipNow n).choose_spec.2.2.2]
      exact (AList.mem_insert _).2 (Or.inl rfl)
    · rw [hknown]; exact hstamped
    · intro s hs'
      rw [hsent, hs, List.nil_append] at hs'
      obtain ⟨dests, rfl⟩ := hnew s hs'
      refine ⟨dests, _, rfl, ?_⟩
      intro info hinfo
      obtain ⟨known, hmem, rfl⟩ := List.mem_map.1 hinfo
      exact (hstamped known.1 known.2 (AList.mem_lookup_iff.2 hmem)).2

/-- The readings of the clock that a step stamps or evicts entries by, in their order. -/
def Action.readings : Action ι κ → List UInt64
  | start _ now => [now]
  | discoveryTimer _ evictNow gossipNow => [evictNow, gossipNow]
  | _ => []

abbrev Timed (ι κ : Type*) := World ι κ × UInt64

/-- The system with one clock, which all nodes read and which does not go back. -/
def Timed.step (D : Deployment ι κ) (s : Timed ι κ) (a : Action ι κ) : Option (Timed ι κ) :=
  if List.IsChain (· ≤ ·) (s.2 :: a.readings) then
    (World.step D s.1 a).map fun w => (w, a.readings.getLastD s.2)
  else none

def Timed.init (D : Deployment ι κ) : Timed ι κ := (World.init D, 0)

variable {s s' : Timed ι κ}

theorem timed_eq_some (h : Timed.step D s a = some s') :
    World.step D s.1 a = some s'.1 ∧ s.2 ≤ s'.2 ∧ ∀ t ∈ a.readings, s.2 ≤ t ∧ t ≤ s'.2 := by
  unfold Timed.step at h
  split at h
  · rename_i hchain
    rw [Option.map_eq_some_iff] at h
    obtain ⟨w, hw, rfl⟩ := h
    refine ⟨hw, ?_⟩
    cases a with
    | start i now =>
      have hle : s.2 ≤ now := by simpa [Action.readings] using hchain
      exact ⟨hle, by simp [Action.readings, hle]⟩
    | discoveryTimer i evictNow gossipNow =>
      obtain ⟨h1, h2⟩ : s.2 ≤ evictNow ∧ evictNow ≤ gossipNow := by
        simpa [Action.readings] using hchain
      have h3 := UInt64.le_trans h1 h2
      exact ⟨h3, by simp [Action.readings, h1, h2, h3]⟩
    | _ => exact ⟨UInt64.le_refl _, by simp [Action.readings]⟩
  · cases h

/-- No stamp is ahead of the clock. -/
structure InTime (D : Deployment ι κ) (s : Timed ι κ) : Prop where
  matched : Matched D s.1
  told : Told (fun info => info.lastSeenTs ≤ s.2) s.1

theorem InTime.step (hs : InTime D s) (h : Timed.step D s a = some s') : InTime D s' := by
  obtain ⟨hw, hle, hread⟩ := timed_eq_some h
  refine ⟨hs.matched.step hw,
    hs.told.step hs.matched hw (fun info hi => UInt64.le_trans hi hle) ?_ ?_⟩
  · rintro i now rfl info -
    exact (hread now (by simp [Action.readings])).2
  · rintro i evictNow gossipNow rfl - info - -
    exact (hread gossipNow (by simp [Action.readings])).2

/-- **In every reachable state the stamps are in time.** -/
theorem inTime {P : Timed ι κ → Action ι κ → Prop} (h : Run (Timed.step D) P (Timed.init D) s) :
    InTime D s :=
  h.inv (I := InTime D) ⟨Matched.init D, Told.init D⟩ fun _ _ _ hI _ hstep => hI.step hstep

/-- The age from which an entry is evicted. -/
def NodeConfig.timeout (cfg : NodeConfig) : ℕ := (UInt64.ofInt cfg.discoveryTimeoutMs.toInt).toNat

/-- Of an entry that is not ahead of the clock, the age is what the code computes. -/
theorem Node.expired_of_le {now : UInt64} {cfg : NodeConfig} {id : Str} {info : NodeInfo}
    (h : info.lastSeenTs ≤ now) : Expired now cfg id info ↔
      id ≠ cfg.nodeId ∧ info.lastSeenTs.toNat + cfg.timeout < now.toNat := by
  unfold Expired NodeConfig.timeout
  rw [UInt64.le_iff_toNat_le, UInt64.toNat_sub_of_le _ _ h]
  rw [UInt64.le_iff_toNat_le] at h
  refine and_congr_right fun _ => ?_
  omega

/-! ### Heartbeats arrive -/

/-- The channel of the heartbeat of time `T` of the node `id`: a node keeps it as long as it runs
and its evictions are within the timeout, and sends it at its discovery timer. -/
def heartbeats (D : Deployment ι κ) (id : Str) (T : UInt64) :
    Channel (Timed ι κ) (Action ι κ) ι where
  step := Timed.step D
  keeps i s a := (∀ s', Timed.step D s a = some s' → (s'.1.node i).running = true) ∧
    ∀ evictNow gossipNow, a = .discoveryTimer i evictNow gossipNow →
      evictNow.toNat ≤ T.toNat + (D.cfg i).timeout
  sends i p s a s' := (∃ evictNow gossipNow, a = .discoveryTimer i evictNow gossipNow) ∧
    s.1.net.length ≤ p ∧ p < s'.1.net.length
  delivers p i s a := a = .discoveryFrame i p ∧ (D.cfg i).nodeId ≠ id ∧
    ∀ s', Timed.step D s a = some s' → (s'.1.node i).running = true

/-- Node `i` runs, and knows the node `id` to have been alive at time `T`. -/
def KnowsAlive (id : Str) (T : UInt64) (i : ι) (s : Timed ι κ) : Prop :=
  (s.1.node i).running = true ∧
    ∃ info, (s.1.node i).node.knownNodes.lookup id = some info ∧ T ≤ info.lastSeenTs

/-- Packet `p` says so. -/
def CarriesAlive (id : Str) (T : UInt64) (p : ℕ) (s : Timed ι κ) : Prop :=
  ∃ dests m, s.1.net[p]? = some (.discovery dests (.packed m)) ∧ m.op = .gossipNodes ∧
    ∃ info ∈ m.nodes, info.nodeId = id ∧ T ≤ info.lastSeenTs

omit [DecidableEq κ] in
theorem place_net (w : World ι κ) (i : ι) (n : Node) (running : Bool) (call : Option (κ × ℕ)) :
    (w.place i n running call).net = w.net ++ n.sent.filterMap (World.packet call) := rfl

omit [DecidableEq κ] in
/-- Packets stay on the network. -/
theorem Tells.net (h : Tells D w a w') : ∃ ps, w'.net = w.net ++ ps := by
  cases h with
  | quiet _ _ ps hnet => exact ⟨ps, hnet⟩
  | _ => exact ⟨_, rfl⟩

omit [DecidableEq κ] in
theorem Tells.getElem?_net (h : Tells D w a w') {p : ℕ} {pkt : Packet κ}
    (hp : w.net[p]? = some pkt) : w'.net[p]? = some pkt := by
  obtain ⟨ps, hps⟩ := h.net
  rw [hps, List.getElem?_append_left (List.getElem?_eq_some_iff.1 hp).1]
  exact hp

omit [DecidableEq κ] in
/-- **The packets of a discovery timer** tell what its node knows after it. -/
theorem timer_sends {i : ι} {n : Node} {gossipNow : UInt64} (hs : n.sent = []) {p : ℕ}
    (hp : w.net.length ≤ p) {pkt : Packet κ}
    (hpkt : (w.place i (Node.performDiscoveryGossip gossipNow n) true none).net[p]? = some pkt) :
    ∃ dests, pkt = .discovery dests (.packed (Message.gossipNodes n.cfg.nodeId gossipNow
      ((n.stamp n.cfg.nodeId gossipNow).knownNodes.entries.map fun known => known.2))) := by
  obtain ⟨-, new, hsent, hnew⟩ := Node.performDiscoveryGossip_tells gossipNow n
  rw [place_net, List.getElem?_append_right hp] at hpkt
  obtain ⟨s, hmem, hp⟩ := List.mem_filterMap.1 (List.mem_of_getElem? hpkt)
  rw [hsent, hs, List.nil_append] at hmem
  obtain ⟨dests, rfl⟩ := hnew s hmem
  exact ⟨dests, (Option.some.inj hp).symm⟩

omit [DecidableEq ι] [DecidableEq κ] in
/-- What a node knows at its discovery timer it knows after it, if it is not too old. -/
theorem timer_keeps {i : ι} {n : Node} {evictNow gossipNow T : UInt64} {id : Str} (hs : InTime D s)
    (hr : (s.1.node i).running = true) (he : (s.1.node i).node.evictDeadNodes evictNow = .ok n)
    (hnow : s.2 ≤ evictNow) (hgossip : s.2 ≤ gossipNow)
    (hT : evictNow.toNat ≤ T.toNat + (D.cfg i).timeout) (hk : KnowsAlive id T i s) :
    ∃ info, (n.stamp n.cfg.nodeId gossipNow).knownNodes.lookup id = some info ∧
      info.nodeId = id ∧ T ≤ info.lastSeenTs := by
  obtain ⟨-, info, hl, hTi⟩ := hk
  obtain ⟨hkey, hin⟩ := hs.told.nodes i hr id info hl
  have hkept : n.knownNodes.lookup id = some info := by
    rcases (Node.evictDeadNodes_eq_ok he).known id with ⟨-, info', hl', hexp⟩ | ⟨hsame, -⟩
    · rw [hl] at hl'
      cases hl'
      rw [Node.expired_of_le (UInt64.le_trans hin hnow), hs.matched.cfg] at hexp
      rw [UInt64.le_iff_toNat_le] at hTi
      omega
    · rw [hsame]; exact hl
  by_cases hid : id = n.cfg.nodeId
  · subst hid
    refine ⟨{ info with lastSeenTs := gossipNow }, by rw [Node.lookup_stamp hkept, if_pos rfl],
      hkey, ?_⟩
    exact UInt64.le_trans hTi (UInt64.le_trans hin hgossip)
  · refine ⟨info, ?_, hkey, hTi⟩
    unfold Node.stamp
    exact (AList.lookup_insert_ne hid).trans hkept

/-- **A heartbeat is a rumour.** -/
theorem heartbeat_rumour (D : Deployment ι κ) (id : Str) (T : UInt64) :
    Rumour (heartbeats D id T) (InTime D) (KnowsAlive id T) (CarriesAlive id T) where
  inv hI h := hI.step h
  kept := by
    intro s a s' i hI hk hkeep h
    obtain ⟨hup, hlate⟩ := hkeep
    have hr := hup s' h
    obtain ⟨hw, -, hread⟩ := timed_eq_some h
    obtain ⟨w', t'⟩ := s'
    refine ⟨hr, ?_⟩
    obtain ⟨hrun, info, hl, hT⟩ := hk
    dsimp only at hr hw ⊢
    cases step_tells hI.matched hw with
    | quiet _ _ ps _ _ hnode => exact ⟨info, by rw [(hnode i hr).2.1]; exact hl, hT⟩
    | start j now n hstop hn hs =>
      rw [World.place_node]
      split
      · rename_i hji
        subst hji
        rw [hstop] at hrun; cases hrun
      · exact ⟨info, hl, hT⟩
    | heard j p dests frame m n hp _ hd hop hn hs =>
      rw [World.place_node]
      split
      · rename_i hji
        subst hji
        obtain ⟨e, he, hle⟩ := (Node.updateKnownNodes_learns hn).2.1 id info hl
        exact ⟨e, he, UInt64.le_trans hT hle⟩
      · exact ⟨info, hl, hT⟩
    | timer j evictNow gossipNow n _ hn hs =>
      rw [World.place_node]
      split
      · rename_i hji
        subst hji
        rw [(Node.performDiscoveryGossip_tells gossipNow n).1]
        obtain ⟨e, he, -, hle⟩ := timer_keeps hI hrun hn
          (hread evictNow (by simp [Action.readings])).1
          (hread gossipNow (by simp [Action.readings])).1 (hlate evictNow gossipNow rfl)
          ⟨hrun, info, hl, hT⟩
        exact ⟨e, he, hle⟩
      · exact ⟨info, hl, hT⟩
  sent := by
    intro s a s' i p hI hk hkeep hsend h
    obtain ⟨⟨evictNow, gossipNow, rfl⟩, hp, hlt⟩ := hsend
    have hr := hkeep.1 s' h
    have hlate := hkeep.2 evictNow gossipNow rfl
    obtain ⟨hw, -, hread⟩ := timed_eq_some h
    obtain ⟨w', t'⟩ := s'
    dsimp only at hw hr hlt ⊢
    obtain ⟨pkt, hpkt⟩ : ∃ pkt, w'.net[p]? = some pkt := ⟨_, List.getElem?_eq_getElem hlt⟩
    cases step_tells hI.matched hw with
    | quiet _ _ ps hnet hps hnode => exact absurd rfl (hnode i hr).2.2
    | timer j _ _ n _ hn hs =>
      obtain ⟨dests, rfl⟩ := timer_sends hs hp hpkt
      obtain ⟨info, hl, hkey, hT⟩ := timer_keeps hI hk.1 hn
        (hread evictNow (by simp [Action.readings])).1
        (hread gossipNow (by simp [Action.readings])).1 hlate hk
      exact ⟨dests, _, hpkt, rfl, info, Node.mem_entries hl, hkey, hT⟩
  carried := by
    rintro s a s' p hI ⟨dests, m, hp, hm⟩ h
    obtain ⟨hw, -, -⟩ := timed_eq_some h
    exact ⟨dests, m, (step_tells hI.matched hw).getElem?_net hp, hm⟩
  learned := by
    rintro s a s' i p hI ⟨dests, m, hp, hop, info, hin, rfl, hT⟩ ⟨rfl, hne, hup⟩ h
    have h : Timed.step D s (.discoveryFrame i p) = some s' := h
    have hr := hup s' h
    obtain ⟨hw, -, -⟩ := timed_eq_some h
    obtain ⟨w', t'⟩ := s'
    refine ⟨hr, ?_⟩
    dsimp only at hr hw ⊢
    cases step_tells hI.matched hw with
    | quiet _ _ ps _ _ hnode =>
      exact absurd ⟨rfl, dests, .packed m, m, hp, rfl, hop⟩ (hnode i hr).2.2
    | heard j p dests' frame m' n hp' _ hd hop' hn hs =>
      rw [hp] at hp'
      cases hp'
      rw [Frame.decode_packed, Option.some.injEq] at hd
      subst hd
      rw [World.place_node, if_pos rfl]
      obtain ⟨e, he, hle⟩ := (Node.updateKnownNodes_learns hn).2.2 info hin
        (by rw [hI.matched.cfg]; exact hne.symm)
      exact ⟨e, he, UInt64.le_trans hT hle⟩

/-- A heartbeat that node `x` sent at time `T` has come to node `i`, which knows it. -/
def Heard (D : Deployment ι κ) (x i : ι) (T : UInt64) (s : Timed ι κ) : Prop :=
  ∃ s0 s1 evictNow p, Run (Timed.step D) (fun _ _ => True) (Timed.init D) s0 ∧
    Timed.step D s0 (.discoveryTimer x evictNow T) = some s1 ∧
    (s1.1.node x).running = true ∧ s0.1.net.length ≤ p ∧ p < s1.1.net.length ∧
    Arrived (heartbeats D (D.cfg x).nodeId T) p s1 i s

/-- **A heartbeat that is sent carries its time.** -/
theorem beat_carries {x : ι} {evictNow T : UInt64} (hs : InTime D s)
    (h : Timed.step D s (.discoveryTimer x evictNow T) = some s')
    (hup : (s'.1.node x).running = true) {p : ℕ}
    (hp : s.1.net.length ≤ p) (hlt : p < s'.1.net.length) :
    CarriesAlive (D.cfg x).nodeId T p s' := by
  obtain ⟨hw, -, -⟩ := timed_eq_some h
  obtain ⟨w', t'⟩ := s'
  dsimp only at hw hlt hup ⊢
  obtain ⟨pkt, hpkt⟩ : ∃ pkt, w'.net[p]? = some pkt := ⟨_, List.getElem?_eq_getElem hlt⟩
  cases step_tells hs.matched hw with
  | quiet _ _ ps hnet hps hnode => exact absurd rfl (hnode x hup).2.2
  | timer _ _ _ n hr hn hsent =>
    obtain ⟨dests, rfl⟩ := timer_sends hsent hp hpkt
    have hcfg : n.cfg = D.cfg x := (Node.evictDeadNodes_eq_ok hn).cfg.trans (hs.matched.cfg x)
    obtain ⟨own, hown, hbefore⟩ := evictDeadNodes_own hn (hs.told.self x hr)
    have hkey := (hs.told.nodes x hr _ own hbefore).1
    rw [hs.matched.cfg x] at hown hkey
    have hl : (n.stamp n.cfg.nodeId T).knownNodes.lookup (D.cfg x).nodeId =
        some { own with lastSeenTs := T } := by
      rw [hcfg, Node.lookup_stamp hown, if_pos rfl]
    exact ⟨dests, _, hpkt, rfl, _, Node.mem_entries hl, hkey, UInt64.le_refl _⟩

/-- **A heartbeat that arrives is known**, and is not ahead of the clock. -/
theorem Heard.knows {x i : ι} {T : UInt64} (h : Heard D x i T s) :
    KnowsAlive (D.cfg x).nodeId T i s := by
  obtain ⟨s0, s1, evictNow, p, hrun, hbeat, hup, hp, hlt, harr⟩ := h
  have hs0 := inTime hrun
  exact (harr.spreads (heartbeat_rumour D _ T) (hs0.step hbeat)
    (beat_carries hs0 hbeat hup hp hlt)).2

/-- The evictions of node `i` are each within the timeout of a heartbeat of `x` it has heard. -/
def Beats (D : Deployment ι κ) (x i : ι) (s : Timed ι κ) (a : Action ι κ) : Prop :=
  ∀ evictNow gossipNow, a = .discoveryTimer i evictNow gossipNow →
    ∃ T, Heard D x i T s ∧ evictNow.toNat ≤ T.toNat + (D.cfg i).timeout

/-- **A node whose heartbeats keep arriving is never evicted.** -/
theorem never_evicted {x i : ι} (h0 : Run (Timed.step D) (fun _ _ => True) (Timed.init D) s)
    (hknown : (D.cfg x).nodeId ∈ (s.1.node i).node.knownNodes)
    (h : Run (Timed.step D) (fun t a => Beats D x i t a ∧ ∀ now, a ≠ .start i now) s s')
    (hup : (s'.1.node i).running = true) :
    (D.cfg x).nodeId ∈ (s'.1.node i).node.knownNodes := by
  have hinv := h.inv (I := fun t => InTime D t ∧
    ((t.1.node i).running = true → (D.cfg x).nodeId ∈ (t.1.node i).node.knownNodes))
    ⟨inTime h0, fun _ => hknown⟩ ?_
  · exact hinv.2 hup
  rintro t a ⟨w', t'⟩ ⟨hI, hk⟩ ⟨hbeats, hno⟩ hstep
  refine ⟨hI.step hstep, fun hr => ?_⟩
  obtain ⟨hw, -, hread⟩ := timed_eq_some hstep
  dsimp only at hw hr ⊢
  cases step_tells hI.matched hw with
  | quiet _ _ ps _ _ hnode =>
    obtain ⟨hr0, hsame, -⟩ := hnode i hr
    rw [hsame]; exact hk hr0
  | start j now n hstop hn hs =>
    rw [World.place_node] at hr ⊢
    split
    · rename_i hji
      subst hji
      exact absurd rfl (hno now)
    · rename_i hji
      rw [if_neg hji] at hr; exact hk hr
  | heard j p dests frame m n hp hr0 hd hop hn hs =>
    rw [World.place_node] at hr ⊢
    split
    · rename_i hji
      subst hji
      obtain ⟨old, hold⟩ := Option.isSome_iff_exists.1 (AList.lookup_isSome.2 (hk hr0))
      obtain ⟨e, he, -⟩ := (Node.updateKnownNodes_learns hn).2.1 _ old hold
      exact AList.lookup_isSome.1 (by rw [he]; rfl)
    · rename_i hji
      rw [if_neg hji] at hr; exact hk hr
  | timer j evictNow gossipNow n hr0 hn hs =>
    rw [World.place_node] at hr ⊢
    split
    · rename_i hji
      subst hji
      -- the newest heartbeat heard is what the node knows, and not too old
      obtain ⟨T, hheard, hT⟩ := hbeats evictNow gossipNow rfl
      obtain ⟨info, hl, -⟩ := timer_keeps hI hr0 hn (hread evictNow (by simp [Action.readings])).1
        (hread gossipNow (by simp [Action.readings])).1 hT hheard.knows
      rw [(Node.performDiscoveryGossip_tells gossipNow n).1]
      exact AList.lookup_isSome.1 (by rw [hl]; rfl)
    · rename_i hji
      rw [if_neg hji] at hr; exact hk hr

/-- Node 0 of the sample hears the heartbeat of node 1, and does not evict it when the time of the
start is too long ago. -/
theorem sample_never_evicted : ∃ s s' : Timed (Fin 2) (Fin 2),
    Run (Timed.step .sample) (fun t a => Beats .sample 1 0 t a ∧ ∀ now, a ≠ .start 0 now) s s' ∧
      s.2.toNat + (Deployment.sample.cfg 0).timeout < s'.2.toNat ∧
      (Deployment.sample.cfg 1).nodeId ∈ (s'.1.node 0).node.knownNodes := by
  obtain ⟨s, hs, hp⟩ := runList_of_any (Timed.step Deployment.sample)
    (Timed.init Deployment.sample) [.start 0 1, .start 1 1]
    (fun s => decide (((s.1.node 0).node.knownNodes.lookup [1]).isSome = true ∧ s.1.net = [] ∧
        s.2 = 1) &&
      (Timed.step .sample s (.discoveryTimer 1 5000 5000)).any fun (s1 : Timed (Fin 2) (Fin 2)) =>
        decide ((s1.1.node 1).running = true ∧ 0 < s1.1.net.length) &&
        (Timed.step .sample s1 (.discoveryFrame 0 0)).any fun (s2 : Timed (Fin 2) (Fin 2)) =>
          decide ((s2.1.node 0).running = true) &&
          (Timed.step .sample s2 (.discoveryTimer 0 9000 9000)).any
              fun (s3 : Timed (Fin 2) (Fin 2)) =>
            decide ((s3.1.node 0).running = true ∧ s3.2 = 9000))
    (by decide +kernel)
  simp only [Bool.and_eq_true, decide_eq_true_eq, Option.any_eq_true] at hp
  obtain ⟨⟨hknown, hnet, hs2⟩, s1, h1, ⟨hup1, hlen⟩, s2, h2, hup2, s3, h3, hup3, hnow⟩ := hp
  have h0 : Run (Timed.step .sample) (fun _ _ => True) (Timed.init .sample) s :=
    Run.of_list (fun _ _ _ => trivial) hs
  have hheard : Heard .sample (1 : Fin 2) 0 5000 s2 := by
    refine ⟨s, s1, 5000, 0, h0, h1, hup1, by rw [hnet]; exact le_rfl, hlen, 0, s1, s2,
      .discoveryFrame 0 0, Relation.ReflTransGen.refl, ⟨rfl, by decide, ?_⟩, h2, .here⟩
    intro s' hs'
    obtain rfl : s2 = s' := Option.some.inj (h2.symm.trans hs')
    exact hup2
  have hrun : Run (Timed.step .sample)
      (fun t a => Beats .sample (1 : Fin 2) 0 t a ∧ ∀ now, a ≠ .start 0 now) s s3 := by
    have hquiet : ∀ (t : Timed (Fin 2) (Fin 2)) a, (∀ e g, a ≠ Action.discoveryTimer 0 e g) →
        Beats .sample (1 : Fin 2) 0 t a := fun t a h e g ha => absurd ha (h e g)
    refine ((Relation.ReflTransGen.single ⟨_, ⟨hquiet _ _ (by simp), by simp⟩, h1⟩).tail
      ⟨_, ⟨hquiet _ _ (by simp), by simp⟩, h2⟩).tail ⟨_, ⟨?_, by simp⟩, h3⟩
    intro evictNow gossipNow ha
    cases ha
    exact ⟨5000, hheard, by decide⟩
  refine ⟨s, s3, hrun, by rw [hs2, hnow]; decide, never_evicted h0 ?_ hrun hup3⟩
  exact AList.lookup_isSome.1 hknown

/-! ### The dead are forgotten -/

/-- The action starts the node `id`, or a node that is configured with it. -/
def Action.Revives (D : Deployment ι κ) (id : Str) (a : Action ι κ) : Prop :=
  ∃ i now, a = .start i now ∧ ∃ peer ∈ Node.selfInfo (D.cfg i) now :: (D.cfg i).initialPeers,
    peer.nodeId = id

/-- The node `id` is down, and was last seen at time `B` at the latest. -/
structure Dead (D : Deployment ι κ) (id : Str) (B : UInt64) (s : Timed ι κ) : Prop where
  matched : Matched D s.1
  down : ∀ i, (s.1.node i).running = true → (D.cfg i).nodeId ≠ id
  told : Told (fun info => info.nodeId = id → info.lastSeenTs ≤ B) s.1

theorem Dead.step {id : Str} {B : UInt64} (hs : Dead D id B s) (hno : ¬ a.Revives D id)
    (h : Timed.step D s a = some s') : Dead D id B s' := by
  obtain ⟨hw, -, -⟩ := timed_eq_some h
  refine ⟨hs.matched.step hw, ?_, hs.told.step hs.matched hw (fun _ h => h) ?_ ?_⟩
  · obtain ⟨w', t'⟩ := s'
    dsimp only at hw ⊢
    intro i hi
    cases step_tells hs.matched hw with
    | quiet _ _ ps _ _ hnode => exact hs.down i (hnode i hi).1
    | start j now n hstop hn hsent =>
      rw [World.place_node] at hi
      split at hi
      · rename_i hij
        subst hij
        exact fun heq => hno ⟨i, now, rfl, _, List.mem_cons_self, heq⟩
      · exact hs.down i hi
    | heard j p dests frame m n hp hr hd hop hn hsent =>
      rw [World.place_node] at hi
      split at hi
      · rename_i hij; subst hij; exact hs.down i hr
      · exact hs.down i hi
    | timer j evictNow gossipNow n hr hn hsent =>
      rw [World.place_node] at hi
      split at hi
      · rename_i hij; subst hij; exact hs.down i hr
      · exact hs.down i hi
  · rintro i now rfl info hinfo heq
    exact absurd ⟨i, now, rfl, info, hinfo, heq⟩ hno
  · rintro i evictNow gossipNow rfl hr info hid - heq
    exact absurd (hid.symm.trans heq) (hs.down i hr)

/-- The node `id` has been down for the timeout, and no message from packet `p0` on names it. -/
structure Silent (D : Deployment ι κ) (id : Str) (B : UInt64) (p0 : ℕ) (s : Timed ι κ) : Prop where
  dead : Dead D id B s
  late : ∀ i, B.toNat + (D.cfg i).timeout < s.2.toNat
  silent : ∀ p, p0 ≤ p → ∀ dests m, s.1.net[p]? = some (.discovery dests (.packed m)) →
    ∀ info ∈ m.nodes, info.nodeId ≠ id

omit [DecidableEq ι] [DecidableEq κ] in
/-- **A discovery timer forgets the dead.** -/
theorem Silent.timer {id : Str} {B : UInt64} {p0 : ℕ} (hs : Silent D id B p0 s) {i : ι}
    (hr : (s.1.node i).running = true) {n : Node} {evictNow : UInt64}
    (hnow : s.2 ≤ evictNow) (he : (s.1.node i).node.evictDeadNodes evictNow = .ok n)
    (gossipNow : UInt64) :
    id ∉ (n.stamp n.cfg.nodeId gossipNow).knownNodes := by
  intro hmem
  obtain ⟨info, hl⟩ := Option.isSome_iff_exists.1 (AList.lookup_isSome.2 hmem)
  obtain ⟨old, hold, hstays, -⟩ := lookup_timer he (hs.dead.told.self i hr) hl
  obtain ⟨hkey, hB⟩ := hs.dead.told.nodes i hr id old hold
  have hB := hB hkey
  have hlate := hs.late i
  rw [UInt64.le_iff_toNat_le] at hB hnow
  refine hstays ⟨old, hold, ?_⟩
  rw [Node.expired_of_le (UInt64.le_iff_toNat_le.2 (by omega)), hs.dead.matched.cfg]
  exact ⟨Ne.symm (hs.dead.down i hr), by omega⟩

theorem Silent.step {id : Str} {B : UInt64} {p0 : ℕ} (hs : Silent D id B p0 s)
    (hno : ¬ a.Revives D id) (h : Timed.step D s a = some s') : Silent D id B p0 s' := by
  obtain ⟨hw, hle, hread⟩ := timed_eq_some h
  refine ⟨hs.dead.step hno h, fun i => ?_, fun p hp dests m hpkt info hinfo => ?_⟩
  · have hlate := hs.late i
    rw [UInt64.le_iff_toNat_le] at hle
    omega
  obtain ⟨w', t'⟩ := s'
  dsimp only at hw hpkt
  have hold : s.1.net[p]? = some (.discovery dests (.packed m)) → info.nodeId ≠ id :=
    fun hpkt => hs.silent p hp dests m hpkt info hinfo
  cases step_tells hs.dead.matched hw with
  | quiet _ _ ps hnet hps hnode =>
    rw [hnet, List.getElem?_append] at hpkt
    split at hpkt
    · exact hold hpkt
    · exact absurd (List.mem_of_getElem? hpkt) (hps _ _)
  | start j now n hstop hn hsent =>
    rw [place_net, hsent, List.filterMap_nil, List.append_nil] at hpkt
    exact hold hpkt
  | heard j p' dests' frame m' n hp' hr hd hop hn hsent =>
    rw [place_net, hsent, List.filterMap_nil, List.append_nil] at hpkt
    exact hold hpkt
  | timer j evictNow gossipNow n hr hn hsent =>
    by_cases hlt : p < s.1.net.length
    · rw [place_net, List.getElem?_append_left hlt] at hpkt
      exact hold hpkt
    · obtain ⟨dests', heq⟩ := timer_sends hsent (not_lt.1 hlt) hpkt
      cases heq
      have hgone := hs.timer hr (hread evictNow (by simp [Action.readings])).1 hn gossipNow
      obtain ⟨known, hmem, rfl⟩ := List.mem_map.1 hinfo
      have hl := AList.mem_lookup_iff.2 hmem
      obtain ⟨old, hold, -, hsame⟩ := lookup_timer hn (hs.dead.told.self j hr) hl
      have hkey := (hs.dead.told.nodes j hr known.1 old hold).1
      intro heq
      refine hgone (AList.lookup_isSome.1 ?_)
      rw [show id = known.1 by rw [← heq, hsame, ← hkey]; split <;> rfl, hl]
      rfl

/-- The action hands node `i` no discovery message older than packet `p0`. -/
def Action.Recent (i : ι) (p0 : ℕ) (a : Action ι κ) : Prop :=
  ∀ p, a = .discoveryFrame i p → p0 ≤ p

/-- **A node forgets the dead node** at its timer, and learns of it again by an old message only. -/
theorem Silent.unknown {id : Str} {B : UInt64} {p0 : ℕ} {i : ι} (hs : Silent D id B p0 s)
    (hk : (∀ evictNow gossipNow, a ≠ .discoveryTimer i evictNow gossipNow) →
      (s.1.node i).running = true → id ∉ (s.1.node i).node.knownNodes)
    (hno : ¬ a.Revives D id) (hrec : a.Recent i p0) (h : Timed.step D s a = some s')
    (hup : (s'.1.node i).running = true) : id ∉ (s'.1.node i).node.knownNodes := by
  obtain ⟨hw, -, hread⟩ := timed_eq_some h
  obtain ⟨w', t'⟩ := s'
  dsimp only at hw hup ⊢
  cases step_tells hs.dead.matched hw with
  | quiet _ _ ps _ _ hnode =>
    obtain ⟨hr, hsame, hquiet⟩ := hnode i hup
    rw [hsame]
    exact hk (fun _ _ ha => hquiet (by rw [ha]; rfl)) hr
  | start j now n hstop hn hsent =>
    rw [World.place_node] at hup ⊢
    split
    · rename_i hji
      subst hji
      intro hmem
      obtain ⟨info, hl⟩ := Option.isSome_iff_exists.1 (AList.lookup_isSome.2 hmem)
      obtain ⟨peer, hpeer, heq, -⟩ := (Node.enterLoop_eq_ok hn).2 id info hl
      exact hno ⟨i, now, rfl, peer, hpeer, heq⟩
    · rename_i hji
      rw [if_neg hji] at hup; exact hk nofun hup
  | heard j p dests frame m n hp hr hd hop hn hsent =>
    rw [World.place_node] at hup ⊢
    split
    · rename_i hji
      subst hji
      intro hmem
      obtain ⟨info, hl⟩ := Option.isSome_iff_exists.1 (AList.lookup_isSome.2 hmem)
      rcases (Node.updateKnownNodes_learns hn).1 id info hl with hl | ⟨hin, heq⟩
      · exact hk nofun hr (AList.lookup_isSome.1 (by rw [hl]; rfl))
      · obtain ⟨m', rfl, -⟩ := hs.dead.told.net dests frame (List.mem_of_getElem? hp)
        rw [Frame.decode_packed, Option.some.injEq] at hd
        subst hd
        exact hs.silent p (hrec p rfl) dests m' hp info hin heq
    · rename_i hji
      rw [if_neg hji] at hup; exact hk nofun hup
  | timer j evictNow gossipNow n hr hn hsent =>
    rw [World.place_node] at hup ⊢
    split
    · rename_i hji
      subst hji
      rw [(Node.performDiscoveryGossip_tells gossipNow n).1]
      exact hs.timer hr (hread evictNow (by simp [Action.readings])).1 hn gossipNow
    · rename_i hji
      rw [if_neg hji] at hup
      exact hk (fun _ _ ha => hji (by cases ha; rfl)) hup

/-- **A dead node is forgotten.** From when it has been down for every node's timeout, no discovery
message names it; and a node does not know it from its next discovery timer on, unless it gets an
older message. -/
theorem dead_forgotten {s0 s1 : Timed ι κ} {id : Str}
    (h0 : Run (Timed.step D) (fun _ _ => True) (Timed.init D) s0)
    (hdown : ∀ i, (s0.1.node i).running = true → (D.cfg i).nodeId ≠ id)
    (h1 : Run (Timed.step D) (fun _ a => ¬ a.Revives D id) s0 s1)
    (hlate : ∀ i, s0.2.toNat + (D.cfg i).timeout < s1.2.toNat)
    (h : Run (Timed.step D) (fun _ a => ¬ a.Revives D id) s1 s) :
    (∀ p, s1.1.net.length ≤ p → ∀ dests m, s.1.net[p]? = some (.discovery dests (.packed m)) →
      ∀ info ∈ m.nodes, info.nodeId ≠ id) ∧
    ∀ i evictNow gossipNow s' s'',
      Timed.step D s (.discoveryTimer i evictNow gossipNow) = some s' →
      Run (Timed.step D) (fun _ a => ¬ a.Revives D id ∧ a.Recent i s1.1.net.length) s' s'' →
      (s''.1.node i).running = true → id ∉ (s''.1.node i).node.knownNodes := by
  have hs0 := inTime h0
  have hdead0 : Dead D id s0.2 s0 :=
    ⟨hs0.matched, hdown, ⟨hs0.told.self, fun i hi id' info hl =>
      (hs0.told.nodes i hi id' info hl).imp_right fun hle _ => hle, fun dests frame hmem => by
        obtain ⟨m, hf, hin⟩ := hs0.told.net dests frame hmem
        exact ⟨m, hf, fun info hi _ => hin info hi⟩⟩⟩
  have hdead1 := h1.inv hdead0 fun _ _ _ hI hno hstep => hI.step hno hstep
  have hsilent1 : Silent D id s0.2 s1.1.net.length s1 := by
    refine ⟨hdead1, hlate, fun p hp dests m hpkt => ?_⟩
    rw [List.getElem?_eq_none hp] at hpkt; cases hpkt
  have hsilent := h.inv hsilent1 fun _ _ _ hI hno hstep => hI.step hno hstep
  refine ⟨hsilent.silent, fun i evictNow gossipNow s' s'' hstep hrun hup => ?_⟩
  have hrev : ¬ (Action.discoveryTimer i evictNow gossipNow : Action ι κ).Revives D id := by
    rintro ⟨j, now, h, -⟩; cases h
  refine (hrun.inv (I := fun t => Silent D id s0.2 s1.1.net.length t ∧
    ((t.1.node i).running = true → id ∉ (t.1.node i).node.knownNodes))
    ⟨hsilent.step hrev hstep, ?_⟩ ?_).2 hup
  · exact hsilent.unknown (fun hno => absurd rfl (hno evictNow gossipNow)) hrev nofun hstep
  · rintro t a t' ⟨hI, hk⟩ ⟨hno, hrec⟩ ht
    exact ⟨hI.step hno ht, hI.unknown (fun _ => hk) hno hrec ht⟩

/-- Node 1 of the sample stops, and node 0 forgets it. -/
theorem sample_forgotten : ∃ s0 s1 s' : Timed (Fin 2) (Fin 2),
    (Deployment.sample.cfg 1).nodeId ∈ (s0.1.node 0).node.knownNodes ∧
      Timed.step .sample s1 (.discoveryTimer 0 9001 9001) = some s' ∧
      Run (Timed.step .sample) (fun _ a => ¬ a.Revives .sample [1]) s0 s1 ∧
      (Deployment.sample.cfg 1).nodeId ∉ (s'.1.node 0).node.knownNodes := by
  obtain ⟨s0, hs0, hp⟩ := runList_of_any (Timed.step Deployment.sample)
    (Timed.init Deployment.sample) [.start 0 1, .start 1 1, .stop 1]
    (fun s0 => decide (((s0.1.node 0).node.knownNodes.lookup [1]).isSome = true ∧ s0.2 = 1 ∧
        ∀ i, (s0.1.node i).running = true → (Deployment.sample.cfg i).nodeId ≠ [1]) &&
      (Timed.step .sample s0 (.discoveryTimer 0 2 9000)).any fun (s1 : Timed (Fin 2) (Fin 2)) =>
        decide (s1.2 = 9000) &&
        (Timed.step .sample s1 (.discoveryTimer 0 9001 9001)).any
            fun (s' : Timed (Fin 2) (Fin 2)) =>
          decide ((s'.1.node 0).running = true))
    (by decide +kernel)
  simp only [Bool.and_eq_true, decide_eq_true_eq, Option.any_eq_true] at hp
  obtain ⟨⟨hknown, h0, hdown⟩, s1, h1, hnow, s', h', hup⟩ := hp
  have hrun : Run (Timed.step .sample) (fun _ a => ¬ a.Revives .sample [1]) s0 s1 := by
    refine Relation.ReflTransGen.single ⟨_, ?_, h1⟩
    rintro ⟨i, now, h, -⟩
    cases h
  have hlate : ∀ i : Fin 2, s0.2.toNat + (Deployment.sample.cfg i).timeout < s1.2.toNat := by
    rw [h0, hnow]; decide
  have hgone := (dead_forgotten (Run.of_list (fun _ _ _ => trivial) hs0) hdown hrun hlate
    Relation.ReflTransGen.refl).2 0 9001 9001 s' s' h' Relation.ReflTransGen.refl hup
  exact ⟨s0, s1, s', AList.lookup_isSome.1 hknown, h', hrun, hgone⟩

end Shopping
