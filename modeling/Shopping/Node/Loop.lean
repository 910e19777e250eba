import Shopping.Node.Node

/-!
# `run_loop`

The loop of a node (`Node::run_loop`): a turn polls the three sockets, takes one frame from
each that has one, and then looks at the clock for each of its two timers. A timer that has
gone off is set anew, with a random jitter (`next_gossip_ts`).

The readings of the clock, the jitters and the frames that wait are those of a `Turn`. The
sequence of handlers a turn calls does not depend on the node, only on the deadlines
(`Turn.wakes`, `Loop.turn_node`).
-/

namespace Shopping

open Lib

/-- The fields of `struct NodeConfig` that only `run_loop` reads. -/
structure Intervals where
  gossipIntervalMs : Int32
  discoveryIntervalMs : Int32

/-- What one turn of the loop reads from outside. -/
structure Turn where
  client : Option (Env × Frame) := none
  gossip : Option (Env × Frame) := none
  discovery : Option Frame := none
  /-- The reading compared with `nextStateGossipTs`. -/
  stateCheck : UInt64
  stateNow : UInt64
  stateScan : Calls := .ok
  /-- The reading in `next_gossip_ts`. -/
  stateRearm : UInt64
  stateJitter : Int32
  /-- The reading compared with `nextDiscoveryGossipTs`. -/
  discoveryCheck : UInt64
  evictNow : UInt64
  gossipNow : UInt64
  discoveryRearm : UInt64
  discoveryJitter : Int32

/-- What `run_loop` reads before its loop: for the two deadlines, and to stamp what it knows. -/
structure Entry where
  stateArm : UInt64
  stateJitter : Int32
  discoveryArm : UInt64
  discoveryJitter : Int32
  now : UInt64

/-- The state of `run_loop` between two turns. -/
structure Loop where
  node : Node
  nextStateGossipTs : UInt64
  nextDiscoveryGossipTs : UInt64

namespace Node

/-- `uint64_t next_gossip_ts(uint64_t interval) const`. -/
def nextGossipTs (now interval : UInt64) (jitter : Int32) : UInt64 :=
  now + interval + UInt64.ofInt jitter.toInt

/-- What `Util::rand_int(-i / 3, i / 3)` may return, `i` being the interval as an `int`. -/
def IsJitter (interval : UInt64) (jitter : Int32) : Prop :=
  let i := Int32.ofNat interval.toNat;
  -i / 3 ≤ jitter ∧ jitter ≤ i / 3

instance (interval : UInt64) (jitter : Int32) : Decidable (IsJitter interval jitter) :=
  inferInstanceAs (Decidable (-Int32.ofNat interval.toNat / 3 ≤ jitter ∧ _))

end Node

/-- An interval of the configuration, as `next_gossip_ts` takes it. -/
def msToUInt64 (interval : Int32) : UInt64 := UInt64.ofInt interval.toInt

namespace Loop

open Node

/-- A method of the node as a part of the loop. -/
def onNode (l : Loop) : Method Node → Method Loop
  | .ok node => .ok { l with node }
  | .error (e, node) => .error (e, { l with node })

/-- `if (items[0].revents & ZMQ_POLLIN)`. -/
def pollClient (pf : Platform) (l : Loop) (t : Turn) : Method Loop :=
  match t.client with
  | some (env, frame) => l.onNode (l.node.handleClientFrame pf env frame)
  | none => .ok l

/-- `if (items[1].revents & ZMQ_POLLIN)`. -/
def pollGossip (pf : Platform) (l : Loop) (t : Turn) : Method Loop :=
  match t.gossip with
  | some (env, frame) => l.onNode (l.node.handleGossipFrame pf env frame)
  | none => .ok l

/-- `if (items[2].revents & ZMQ_POLLIN)`. -/
def pollDiscovery (pf : Platform) (l : Loop) (t : Turn) : Method Loop :=
  match t.discovery with
  | some frame => l.onNode (l.node.handleDiscoveryFrame pf frame)
  | none => .ok l

/-- `if (Util::now_ms() >= nextStateGossipTs)`. -/
def stateTimer (c : Intervals) (l : Loop) (t : Turn) : Loop :=
  if t.stateCheck ≥ l.nextStateGossipTs then
    { l with
      node := l.node.performShardGossip t.stateNow t.stateScan
      nextStateGossipTs :=
        nextGossipTs t.stateRearm (msToUInt64 c.gossipIntervalMs) t.stateJitter }
  else l

/-- `if (Util::now_ms() >= nextDiscoveryGossipTs)`. -/
def discoveryTimer (c : Intervals) (l : Loop) (t : Turn) : Method Loop :=
  if t.discoveryCheck ≥ l.nextDiscoveryGossipTs then
    (l.onNode (l.node.evictDeadNodes t.evictNow)).bind fun l =>
      .ok { l with
        node := l.node.performDiscoveryGossip t.gossipNow
        nextDiscoveryGossipTs :=
          nextGossipTs t.discoveryRearm (msToUInt64 c.discoveryIntervalMs) t.discoveryJitter }
  else .ok l

/-- One turn of the `while` of `run_loop`. -/
def turn (pf : Platform) (c : Intervals) (l : Loop) (t : Turn) : Method Loop :=
  (l.pollClient pf t).bind fun l =>
    (l.pollGossip pf t).bind fun l =>
      (l.pollDiscovery pf t).bind fun l => (l.stateTimer c t).discoveryTimer c t

/-- The turns of the loop: it ends with the first that throws. -/
def run (pf : Platform) (c : Intervals) : Loop → List Turn → Method Loop
  | l, [] => .ok l
  | l, t :: ts => (l.turn pf c t).bind fun l => run pf c l ts

/-- `run_loop` up to its loop. -/
def enter (pf : Platform) (c : Intervals) (e : Entry) (n : Node) : Method Loop :=
  let l : Loop :=
    { node := n
      nextStateGossipTs := nextGossipTs e.stateArm (msToUInt64 c.gossipIntervalMs) e.stateJitter
      nextDiscoveryGossipTs :=
        nextGossipTs e.discoveryArm (msToUInt64 c.discoveryIntervalMs) e.discoveryJitter }
  l.onNode (n.enterLoop pf e.now)

/-- The node of a loop that returned or threw. -/
def toNode : Method Loop → Method Node
  | .ok l => .ok l.node
  | .error (e, l) => .error (e, l.node)

end Loop

namespace Turn

/-- The turn finds the deadline of the state gossip passed. -/
def StateDue (t : Turn) (deadline : UInt64) : Prop := deadline ≤ t.stateCheck

instance (t : Turn) (deadline : UInt64) : Decidable (t.StateDue deadline) :=
  inferInstanceAs (Decidable (deadline ≤ _))

/-- The turn finds the deadline of the discovery gossip passed. -/
def DiscoveryDue (t : Turn) (deadline : UInt64) : Prop := deadline ≤ t.discoveryCheck

instance (t : Turn) (deadline : UInt64) : Decidable (t.DiscoveryDue deadline) :=
  inferInstanceAs (Decidable (deadline ≤ _))

/-- The frames the turn finds, in the order of its `if`s. -/
def frames (t : Turn) : List Node.Wake :=
  (t.client.map fun x => .clientFrame x.1 x.2).toList ++
    ((t.gossip.map fun x => .gossipFrame x.1 x.2).toList ++
      (t.discovery.map fun frame => .discoveryFrame frame).toList)

/-- What the turn finds to do, given the two deadlines. -/
def wakes (t : Turn) (stateTs discoveryTs : UInt64) : List Node.Wake :=
  t.frames ++
    ((if t.StateDue stateTs then [.stateTimer t.stateNow t.stateScan] else []) ++
      if t.DiscoveryDue discoveryTs then [.discoveryTimer t.evictNow t.gossipNow] else [])

/-- The deadline of the state gossip after the turn. -/
def nextState (t : Turn) (c : Intervals) (stateTs : UInt64) : UInt64 :=
  if t.StateDue stateTs then
    Node.nextGossipTs t.stateRearm (msToUInt64 c.gossipIntervalMs) t.stateJitter
  else stateTs

/-- The deadline of the discovery gossip after the turn. -/
def nextDiscovery (t : Turn) (c : Intervals) (discoveryTs : UInt64) : UInt64 :=
  if t.DiscoveryDue discoveryTs then
    Node.nextGossipTs t.discoveryRearm (msToUInt64 c.discoveryIntervalMs) t.discoveryJitter
  else discoveryTs

end Turn

namespace Node

/-- A run stops where its first part stops. -/
theorem runLoop_append (pf : Platform) (ws ws' : List Wake) : ∀ n : Node,
    runLoop pf n (ws ++ ws') = (runLoop pf n ws).bind fun n => runLoop pf n ws' := by
  induction ws with
  | nil => intro n; rfl
  | cons w ws ih =>
    intro n
    rw [List.cons_append, runLoop, runLoop]
    cases hw : wake pf n w with
    | ok n' => exact ih n'
    | error x => rfl

theorem runLoop_singleton (pf : Platform) (n : Node) (w : Wake) : runLoop pf n [w] = wake pf n w := by
  rw [runLoop]
  cases wake pf n w <;> rfl

end Node

namespace Loop

open Node

variable {pf : Platform} {c : Intervals} {l : Loop} {r : Method Loop} {f : Loop → Method Loop}
  {ws ws' : List Wake} {s d s' d' : UInt64}

/-- The part `r` of a turn from `l` does to the node what handling `ws` does, and if it returns
it leaves the deadlines `s` and `d`. -/
structure Handles (pf : Platform) (l : Loop) (r : Method Loop) (ws : List Wake) (s d : UInt64) :
    Prop where
  node : toNode r = runLoop pf l.node ws
  deadlines : ∀ l', r = .ok l' → l'.nextStateGossipTs = s ∧ l'.nextDiscoveryGossipTs = d

/-- Two parts of a turn, one after the other, handle their frames in that order. -/
theorem Handles.bind (h : Handles pf l r ws s d)
    (hf : ∀ l' : Loop, l'.nextStateGossipTs = s → l'.nextDiscoveryGossipTs = d →
      Handles pf l' (f l') ws' s' d') : Handles pf l (r.bind f) (ws ++ ws') s' d' := by
  obtain ⟨hnode, hdead⟩ := h
  cases r with
  | error x => exact ⟨by rw [runLoop_append, ← hnode]; rfl, fun l' hl' => by cases hl'⟩
  | ok l1 =>
    obtain ⟨hs, hd⟩ := hdead l1 rfl
    have h' := hf l1 hs hd
    exact ⟨by rw [runLoop_append, ← hnode]; exact h'.node, h'.deadlines⟩

/-- What happens to the node leaves the timers of the loop alone. -/
theorem onNode_eq_ok {l' : Loop} {r : Method Node} (h : l.onNode r = .ok l') :
    r = .ok l'.node ∧ l'.nextStateGossipTs = l.nextStateGossipTs ∧
      l'.nextDiscoveryGossipTs = l.nextDiscoveryGossipTs := by
  cases r with
  | ok n => cases h; exact ⟨rfl, rfl, rfl⟩
  | error x => cases h

theorem Handles.nothing : Handles pf l (.ok l) [] l.nextStateGossipTs l.nextDiscoveryGossipTs :=
  ⟨rfl, fun l' h => by cases h; exact ⟨rfl, rfl⟩⟩

theorem Handles.onNode (w : Wake) : Handles pf l (l.onNode (wake pf l.node w)) [w]
    l.nextStateGossipTs l.nextDiscoveryGossipTs := by
  rw [show l.onNode (wake pf l.node w) = l.onNode (runLoop pf l.node [w]) by rw [runLoop_singleton]]
  cases h : runLoop pf l.node [w] with
  | ok n => exact ⟨h.symm, fun l' hl' => by cases hl'; exact ⟨rfl, rfl⟩⟩
  | error x => exact ⟨h.symm, fun l' hl' => by cases hl'⟩

theorem pollClient_handles (t : Turn) : Handles pf l (l.pollClient pf t)
    (t.client.map fun x => Wake.clientFrame x.1 x.2).toList
    l.nextStateGossipTs l.nextDiscoveryGossipTs := by
  unfold pollClient
  cases t.client with
  | none => exact .nothing
  | some x => exact .onNode (.clientFrame x.1 x.2)

theorem pollGossip_handles (t : Turn) : Handles pf l (l.pollGossip pf t)
    (t.gossip.map fun x => Wake.gossipFrame x.1 x.2).toList
    l.nextStateGossipTs l.nextDiscoveryGossipTs := by
  unfold pollGossip
  cases t.gossip with
  | none => exact .nothing
  | some x => exact .onNode (.gossipFrame x.1 x.2)

theorem pollDiscovery_handles (t : Turn) : Handles pf l (l.pollDiscovery pf t)
    (t.discovery.map fun frame => Wake.discoveryFrame frame).toList
    l.nextStateGossipTs l.nextDiscoveryGossipTs := by
  unfold pollDiscovery
  cases t.discovery with
  | none => exact .nothing
  | some frame => exact .onNode (.discoveryFrame frame)

theorem stateTimer_handles (t : Turn) : Handles pf l (.ok (l.stateTimer c t))
    (if t.StateDue l.nextStateGossipTs then [.stateTimer t.stateNow t.stateScan] else [])
    (t.nextState c l.nextStateGossipTs) l.nextDiscoveryGossipTs := by
  unfold stateTimer Turn.nextState
  by_cases hdue : t.StateDue l.nextStateGossipTs
  · rw [if_pos hdue, if_pos hdue, if_pos (show _ ≥ _ from hdue)]
    exact ⟨rfl, fun l' h => by cases h; exact ⟨rfl, rfl⟩⟩
  · rw [if_neg hdue, if_neg hdue, if_neg (show ¬_ ≥ _ from hdue)]
    exact .nothing

theorem discoveryTimer_handles (t : Turn) : Handles pf l (l.discoveryTimer c t)
    (if t.DiscoveryDue l.nextDiscoveryGossipTs then [.discoveryTimer t.evictNow t.gossipNow] else [])
    l.nextStateGossipTs (t.nextDiscovery c l.nextDiscoveryGossipTs) := by
  unfold discoveryTimer Turn.nextDiscovery
  by_cases hdue : t.DiscoveryDue l.nextDiscoveryGossipTs
  · rw [if_pos hdue, if_pos hdue, if_pos (show _ ≥ _ from hdue)]
    have hrun : runLoop pf l.node [.discoveryTimer t.evictNow t.gossipNow] =
        (l.node.evictDeadNodes t.evictNow).bind fun n =>
          .ok (n.performDiscoveryGossip t.gossipNow) := by
      rw [runLoop_singleton]; rfl
    cases he : l.node.evictDeadNodes t.evictNow with
    | ok n =>
      rw [he] at hrun
      exact ⟨hrun.symm, fun l' h => by cases h; exact ⟨rfl, rfl⟩⟩
    | error x =>
      rw [he] at hrun
      exact ⟨hrun.symm, fun l' h => by cases h⟩
  · rw [if_neg hdue, if_neg hdue, if_neg (show ¬_ ≥ _ from hdue)]
    exact .nothing

/-- **A turn handles what it finds to do**, and sets the timers that have gone off. -/
theorem turn_handles (l : Loop) (t : Turn) : Handles pf l (l.turn pf c t)
    (t.wakes l.nextStateGossipTs l.nextDiscoveryGossipTs)
    (t.nextState c l.nextStateGossipTs) (t.nextDiscovery c l.nextDiscoveryGossipTs) := by
  unfold turn Turn.wakes Turn.frames
  rw [List.append_assoc, List.append_assoc]
  refine (pollClient_handles t).bind fun l1 hs1 hd1 => ?_
  refine (hs1 ▸ hd1 ▸ pollGossip_handles t).bind fun l2 hs2 hd2 => ?_
  refine (hs2 ▸ hd2 ▸ pollDiscovery_handles t).bind fun l3 hs3 hd3 => ?_
  have hstate := @stateTimer_handles pf c l3 t
  refine @Handles.bind pf l3 _ (fun l => l.discoveryTimer c t) _ _ _ _ _ _
    (hs3 ▸ hd3 ▸ hstate) fun l4 hs4 hd4 => ?_
  exact hs4 ▸ hd4 ▸ discoveryTimer_handles t

end Loop

/-- What the turns find to do, given the two first deadlines. -/
def wakesOf (c : Intervals) : UInt64 → UInt64 → List Turn → List Node.Wake
  | _, _, [] => []
  | stateTs, discoveryTs, t :: ts =>
    t.wakes stateTs discoveryTs ++
      wakesOf c (t.nextState c stateTs) (t.nextDiscovery c discoveryTs) ts

/-- **The loop handles what its turns find to do, in order**, as long as nothing is thrown. -/
theorem Loop.run_node (pf : Platform) (c : Intervals) (ts : List Turn) : ∀ l : Loop,
    toNode (run pf c l ts) =
      Node.runLoop pf l.node (wakesOf c l.nextStateGossipTs l.nextDiscoveryGossipTs ts) := by
  induction ts with
  | nil => intro l; rfl
  | cons t ts ih =>
    intro l
    obtain ⟨hnode, hdead⟩ := @turn_handles pf c l t
    rw [wakesOf, Node.runLoop_append, ← hnode, run]
    cases hr : l.turn pf c t with
    | error x => rfl
    | ok l' =>
      obtain ⟨hs, hd⟩ := hdead l' hr
      rw [← hs, ← hd]
      exact ih l'

end Shopping
