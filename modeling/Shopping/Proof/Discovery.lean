import Shopping.Node.Peers
import Shopping.Proof.Frames

/-!
# Delivery of discovery messages

`update_known_nodes` keeps, for every other node, the newest entry it was given, so what a
node knows in the end does not depend on how the entries came (`discovery_order`): not on
their order, their batching, or how often they came. That is so as long as it gets through
the messages: it connects to a new peer before it goes on, and ZMQ throws on an endpoint
that is not valid.
-/

namespace Shopping

open Lib

namespace Node

/-- One call of `update_known_nodes` after another. -/
def deliver (pf : Platform) : Node → List (List NodeInfo) → Method Node
  | n, [] => .ok n
  | n, batch :: batches => (updateKnownNodes pf n batch).bind fun n => deliver pf n batches

theorem updateKnownNodes_append (pf : Platform) (infos infos' : List NodeInfo) : ∀ n : Node,
    updateKnownNodes pf n (infos ++ infos') =
      (updateKnownNodes pf n infos).bind fun n => updateKnownNodes pf n infos' := by
  induction infos with
  | nil => intro n; rfl
  | cons info infos ih =>
    intro n
    rw [List.cons_append, updateKnownNodes, updateKnownNodes]
    cases updateKnownNode pf n info with
    | error x => rfl
    | ok n1 => exact ih n1

/-- The batches play no part. -/
theorem deliver_eq (pf : Platform) (batches : List (List NodeInfo)) : ∀ n : Node,
    deliver pf n batches = updateKnownNodes pf n batches.flatten := by
  induction batches with
  | nil => intro n; rfl
  | cons batch batches ih =>
    intro n
    rw [deliver, List.flatten_cons, updateKnownNodes_append]
    cases updateKnownNodes pf n batch with
    | error x => rfl
    | ok n1 => exact ih n1

/-- `n'` knows the nodes `n` does and those of `infos`, each other one by its newest entry. -/
structure Newest (n n' : Node) (infos : List NodeInfo) : Prop where
  keys : ∀ id, id ∈ n'.knownNodes ↔ id ∈ n.knownNodes ∨ ∃ info ∈ infos, info.nodeId = id
  newest : ∀ id ≠ n.cfg.nodeId, ∀ e, n'.knownNodes.lookup id = some e →
    (n.knownNodes.lookup id = some e ∨ e ∈ infos ∧ e.nodeId = id) ∧
      (∀ old ∈ n.knownNodes.lookup id, old.lastSeenTs ≤ e.lastSeenTs) ∧
        ∀ info ∈ infos, info.nodeId = id → info.lastSeenTs ≤ e.lastSeenTs
  own : n'.knownNodes.lookup n.cfg.nodeId = n.knownNodes.lookup n.cfg.nodeId

/-- The node knows itself, or is not told about itself. -/
def SelfKnown (n : Node) (infos : List NodeInfo) : Prop :=
  (∃ info ∈ infos, info.nodeId = n.cfg.nodeId) → n.cfg.nodeId ∈ n.knownNodes

theorem mem_offers {n : Node} {infos : List NodeInfo} {offer : Str × NodeInfo} :
    offer ∈ n.offers infos ↔
      offer.2 ∈ infos ∧ offer.2.nodeId ≠ n.cfg.nodeId ∧ offer.1 = offer.2.nodeId := by
  obtain ⟨id, info⟩ := offer
  unfold offers
  simp only [List.mem_map, List.mem_filter, decide_eq_true_eq, Prod.mk.injEq]
  constructor
  · rintro ⟨info', ⟨hmem, hne⟩, rfl, rfl⟩; exact ⟨hmem, hne, rfl⟩
  · rintro ⟨hmem, hne, rfl⟩; exact ⟨info, ⟨hmem, hne⟩, rfl, rfl⟩

/-- **What `update_known_nodes` leaves**, when it returns. -/
theorem updateKnownNodes_newest {pf : Platform} {n n' : Node} {infos : List NodeInfo}
    (h : updateKnownNodes pf n infos = .ok n') (hself : n.SelfKnown infos) :
    Newest n n' infos := by
  have hknown := (updateKnownNodes_known infos h).2
  -- the loop renews the entries with the offers, which leave out the node itself
  have hmem : ∀ id, id ∈ n'.knownNodes ↔
      id ∈ n.knownNodes ∨ id ≠ n.cfg.nodeId ∧ ∃ info ∈ infos, info.nodeId = id := by
    intro id
    rw [hknown, UMap.mem_renewAll]
    refine or_congr Iff.rfl ?_
    constructor
    · rintro ⟨offer, ho, rfl⟩
      obtain ⟨hin, hne, heq⟩ := mem_offers.1 ho
      exact ⟨heq ▸ hne, offer.2, hin, heq.symm⟩
    · rintro ⟨hne, info, hin, rfl⟩
      exact ⟨(info.nodeId, info), mem_offers.2 ⟨hin, hne, rfl⟩, rfl⟩
  refine ⟨fun id => ?_, fun id hid e he => ?_, ?_⟩
  · rw [hmem]
    refine or_congr_right' fun hnew => ⟨fun h => h.2, fun hin => ⟨?_, hin⟩⟩
    rintro rfl; exact hnew (hself hin)
  · rw [hknown] at he
    obtain ⟨hfrom, hold, hoffer⟩ := UMap.renewAll_spec _ he
    refine ⟨hfrom.imp_right fun ho => ?_, fun old ho => ?_, fun info hin heq => ?_⟩
    · obtain ⟨hin, -, heq⟩ := mem_offers.1 ho
      exact ⟨hin, heq.symm⟩
    · exact UInt64.le_iff_toNat_le.2 (hold old ho)
    · subst heq
      exact UInt64.le_iff_toNat_le.2 (hoffer (_, info) (mem_offers.2 ⟨hin, hid, rfl⟩) rfl)
  · -- no entry is offered under the node's own id
    cases he : n'.knownNodes.lookup n.cfg.nodeId with
    | some e =>
      rw [hknown] at he
      rcases (UMap.renewAll_spec _ he).1 with hfrom | ho
      · exact hfrom.symm
      · obtain ⟨-, hne, heq⟩ := mem_offers.1 ho
        exact absurd heq.symm hne
    | none =>
      rw [AList.lookup_eq_none, hmem] at he
      rw [eq_comm, AList.lookup_eq_none]
      exact fun h => he (Or.inl h)

/-- The times at which the nodes were last seen. -/
def lastSeen (n : Node) (id : Str) : Option UInt64 :=
  (n.knownNodes.lookup id).map fun info => info.lastSeenTs

/-- **What was delivered before changes nothing.** -/
theorem Newest.redelivered {n n' n'' : Node} {infos again : List NodeInfo}
    (h : Newest n n' infos) (hcfg : n'.cfg = n.cfg) (hsub : ∀ info ∈ again, info ∈ infos)
    (h' : Newest n' n'' again) (id : Str) : n''.lastSeen id = n'.lastSeen id := by
  unfold lastSeen
  by_cases hid : id = n.cfg.nodeId
  · rw [hid, ← hcfg, h'.own]
  · cases he : n''.knownNodes.lookup id with
    | none =>
      have hout : n'.knownNodes.lookup id = none := by
        rw [AList.lookup_eq_none] at he ⊢
        exact fun hin => he ((h'.keys id).2 (Or.inl hin))
      rw [hout]
    | some e'' =>
      obtain ⟨hfrom, hold, -⟩ := h'.newest id (by rw [hcfg]; exact hid) e'' he
      rcases hfrom with hsame | ⟨hin, heq⟩
      · rw [hsame]
      · -- the entry was delivered before, so the one known is at least as new
        obtain ⟨e, hl⟩ := Option.isSome_iff_exists.1 (AList.lookup_isSome.2
          ((h.keys id).2 (Or.inr ⟨e'', hsub e'' hin, heq⟩)))
        have hle := (h.newest id hid e hl).2.2 e'' (hsub e'' hin) heq
        rw [hl]
        simp only [Option.map_some, Option.some.injEq]
        exact UInt64.le_antisymm hle (hold e hl)

/-- **The order does not matter**: with the same entries, however they come, the same nodes
are known and last seen at the same times. -/
theorem Newest.lastSeen_eq {n n1 n2 : Node} {infos1 infos2 : List NodeInfo}
    (h1 : Newest n n1 infos1) (h2 : Newest n n2 infos2) (hsame : ∀ info, info ∈ infos1 ↔ info ∈ infos2)
    (id : Str) : n1.lastSeen id = n2.lastSeen id := by
  have hkeys : id ∈ n1.knownNodes ↔ id ∈ n2.knownNodes := by
    rw [h1.keys, h2.keys]; simp only [hsame]
  have hle : ∀ {a b : Node} {is js : List NodeInfo}, Newest n a is → Newest n b js →
      (∀ info ∈ is, info ∈ js) → ∀ e e', id ≠ n.cfg.nodeId → a.knownNodes.lookup id = some e →
        b.knownNodes.lookup id = some e' → e.lastSeenTs ≤ e'.lastSeenTs := by
    intro a b is js ha hb hsub e e' hid he he'
    obtain ⟨-, hold, hinfo⟩ := hb.newest id hid e' he'
    rcases (ha.newest id hid e he).1 with hfrom | ⟨hin, heq⟩
    · exact hold e hfrom
    · exact hinfo e (hsub e hin) heq
  unfold lastSeen
  by_cases hid : id = n.cfg.nodeId
  · rw [hid, h1.own, h2.own]
  · cases he1 : n1.knownNodes.lookup id with
    | none =>
      rw [AList.lookup_eq_none, hkeys, ← AList.lookup_eq_none] at he1
      rw [he1]
    | some e1 =>
      obtain ⟨e2, he2⟩ := Option.isSome_iff_exists.1 (AList.lookup_isSome.2
        (hkeys.1 (AList.lookup_isSome.1 (by rw [he1]; rfl))))
      rw [he2]
      simp only [Option.map_some, Option.some.injEq]
      exact UInt64.le_antisymm (hle h1 h2 (fun info => (hsame info).1) e1 e2 hid he1 he2)
        (hle h2 h1 (fun info => (hsame info).2) e2 e1 hid he2 he1)

/-- The batches are delivered, and leave what their entries say; delivered again, each of them
changes no key and no time. -/
def Settled (pf : Platform) (n : Node) (batches : List (List NodeInfo)) : Prop :=
  ∃ n', deliver pf n batches = .ok n' ∧ Newest n n' batches.flatten ∧
    ∀ batch ∈ batches, ∃ n'', updateKnownNodes pf n' batch = .ok n'' ∧
      ∀ id, n''.lastSeen id = n'.lastSeen id

/-- **Discovery depends on what is delivered only**, iff the first entry of every new node can
be connected to. -/
theorem discovery_order (pf : Platform) (n : Node) (batches : List (List NodeInfo)) :
    Settled pf n batches ↔ Connectable pf n batches.flatten ∧ n.SelfKnown batches.flatten := by
  constructor
  · rintro ⟨n', hok, hnew, -⟩
    rw [deliver_eq] at hok
    refine ⟨(updateKnownNodes_isOk pf _ n).1 ⟨n', hok⟩, fun hin => ?_⟩
    have hmem := (hnew.keys n.cfg.nodeId).2 (Or.inr hin)
    rwa [← AList.lookup_isSome, hnew.own, AList.lookup_isSome] at hmem
  · rintro ⟨hconn, hself⟩
    obtain ⟨n', hok⟩ := (updateKnownNodes_isOk pf _ n).2 hconn
    have hnew := updateKnownNodes_newest hok hself
    have hcfg := (updateKnownNodes_known _ hok).1
    refine ⟨n', by rw [deliver_eq]; exact hok, hnew, fun batch hbatch => ?_⟩
    have hsub : ∀ info ∈ batch, info ∈ batches.flatten := fun info hin =>
      List.mem_flatten.2 ⟨batch, hbatch, hin⟩
    have hall : ∀ info ∈ batch, info.nodeId ∈ n'.knownNodes := fun info hin =>
      (hnew.keys _).2 (Or.inr ⟨info, hsub info hin, rfl⟩)
    obtain ⟨n'', hagain⟩ := (updateKnownNodes_isOk pf batch n').2
      fun info hin _ hnot _ => absurd (hall info hin) hnot
    have hself' : n'.SelfKnown batch := by
      rintro ⟨info, hin, heq⟩
      rw [← heq]; exact hall info hin
    exact ⟨n'', hagain, hnew.redelivered hcfg hsub (updateKnownNodes_newest hagain hself')⟩

/-- A peer of the sample deployment, in another shard. -/
def peerInfo (id : UInt8) (port : Int32) : NodeInfo :=
  { nodeId := [id], host := str "h", shardId := 1, discoveryPullPort := port }

/-- After a peer with a negative port the rest of the message is lost; delivered before it, the
same entry is taken in. -/
theorem delivery_order_matters :
    ¬ Settled samplePf sampleLoop [[peerInfo 7 (-1), peerInfo 8 28]] ∧
      [8] ∉ (deliver samplePf sampleLoop [[peerInfo 7 (-1), peerInfo 8 28]]).state.knownNodes ∧
      [8] ∈ (deliver samplePf sampleLoop [[peerInfo 8 28, peerInfo 7 (-1)]]).state.knownNodes := by
  refine ⟨?_, by decide +kernel, by decide +kernel⟩
  rintro ⟨n', h, -⟩
  have hthrown : (deliver samplePf sampleLoop [[peerInfo 7 (-1), peerInfo 8 28]]).returned = false := by
    decide +kernel
  rw [h] at hthrown
  cases hthrown

end Node

end Shopping
