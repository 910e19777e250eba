import Shopping.Node.Loop
import Shopping.System.World

/-!
# The cluster programs

The interactive program (`cluster.cpp`): it starts one node for each shard and then obeys the
lines it is given, starting and stopping nodes in its own process. A line is a word and an
argument, read with `>>`. A node is constructed by binding its three endpoints, which throws
when one is in use; nobody catches that.

`node/cluster.cpp` starts six nodes that all know each other (`sixNodes`).
-/

namespace Shopping

open Lib

/-- `isspace`, in the "C" locale. -/
def isSpace (c : UInt8) : Bool := c == 32 || (9 ≤ c && c ≤ 13)

def isDigit (c : UInt8) : Bool := 48 ≤ c && c ≤ 57

/-- `ss >> word`: the word, empty if there is none, and what is left. -/
def readWord (s : Str) : Str × Str :=
  (s.dropWhile isSpace).span fun c => !isSpace c

/-- The value of a row of decimal digits. -/
def digitsValue (digits : Str) : ℕ := digits.foldl (fun n d => 10 * n + (d.toNat - 48)) 0

/-- `ss >> n` for an `int`; `none` if the stream fails: there is no digit, or the number is out
of range. What follows the digits stays unread. -/
def readInt (s : Str) : Option Int32 :=
  let s := s.dropWhile isSpace
  let (negative, s) := match s with
    | 45 :: rest => (true, rest)
    | 43 :: rest => (false, rest)
    | _ => (false, s)
  let digits := s.takeWhile isDigit
  let z : ℤ := if negative then -digitsValue digits else digitsValue digits
  if digits ≠ [] ∧ -2 ^ 31 ≤ z ∧ z < 2 ^ 31 then some (Int32.ofInt z) else none

deriving instance DecidableEq for NodeConfig

/-- `struct NodeConfig`, with the fields that `run_loop` and the constructor read. The push ports
are never read. -/
structure ClusterConfig extends NodeConfig, Intervals where
  dbPath : Str

/-- `NodeConfig make_config(...)`. -/
def makeConfig (idx : ℕ) (shardId numShards baseClientPort baseGossipPullPort
    baseDiscoveryPullPort : Int32) : ClusterConfig where
  nodeId := str "N" ++ toStr idx
  host := str "127.0.0.1"
  clientPort := baseClientPort + Int32.ofNat idx
  gossipPullPort := baseGossipPullPort + Int32.ofNat idx
  discoveryPullPort := baseDiscoveryPullPort + Int32.ofNat idx
  initialPeers := []
  numShards := numShards
  shardId := shardId
  gossipIntervalMs := 500
  discoveryIntervalMs := 1000
  discoveryTimeoutMs := 10000
  dbPath := str "db/" ++ toStr idx ++ str "test.db"

/-- The entry by which others are told of the node. -/
def ClusterConfig.info (c : ClusterConfig) : NodeInfo where
  nodeId := c.nodeId
  host := c.host
  shardId := c.shardId
  clientPort := c.clientPort
  gossipPullPort := c.gossipPullPort
  discoveryPullPort := c.discoveryPullPort
  lastSeenTs := 0

/-- The endpoints the constructor binds, in this order. -/
def NodeConfig.endpoints (c : NodeConfig) : List Str :=
  [c.clientAddr, c.gossipAddr, c.discoveryAddr]

/-- `struct RunningNode`; the node is null iff it is not alive. -/
structure RunningNode where
  cfg : ClusterConfig
  alive : Bool

/-- The local variables of `main`. -/
structure Cluster where
  nodes : List RunningNode
  nextNodeIdx : ℕ

namespace Cluster

def numShards : Int32 := 2
def baseClientPort : Int32 := 5000
def baseGossipPullPort : Int32 := 7000
def baseDiscoveryPullPort : Int32 := 8000

/-- The configuration of the `idx`-th node, without peers. -/
def config (idx : ℕ) (shardId : Int32) : ClusterConfig :=
  makeConfig idx shardId numShards baseClientPort baseGossipPullPort baseDiscoveryPullPort

/-- The endpoints that the nodes which are alive have bound. -/
def held (c : Cluster) : List Str :=
  (c.nodes.filter fun rn => rn.alive).flatMap fun rn => rn.cfg.toNodeConfig.endpoints

/-- `make_unique<Node>(cfg)` returns: each endpoint is left by the other programs (`free`), and
is bound by no node of this one. -/
def Binds (free : Str → Bool) (c : Cluster) (cfg : ClusterConfig) : Prop :=
  cfg.toNodeConfig.endpoints.Nodup ∧ ∀ ep ∈ cfg.toNodeConfig.endpoints, free ep = true ∧ ep ∉ c.held

instance (free : Str → Bool) (c : Cluster) (cfg : ClusterConfig) : Decidable (c.Binds free cfg) :=
  inferInstanceAs (Decidable (_ ∧ ∀ ep ∈ cfg.toNodeConfig.endpoints, free ep = true ∧ ep ∉ c.held))

/-- `main` up to its loop: one node for each shard, which know each other. -/
def bootstrap : Cluster where
  nodes := (List.range 2).map fun i =>
    { cfg :=
        { config i (Int32.ofNat i) with
          initialPeers :=
            ((List.range 2).map fun j => (config j (Int32.ofNat j)).info).filter fun peer =>
              peer.nodeId ≠ (config i (Int32.ofNat i)).nodeId }
      alive := true }
  nextNodeIdx := 2

/-- The loops over `nodes`: the first that meets `p` becomes what `f` makes of it; `none` if there
is none. -/
def onFirst (p : RunningNode → Bool) (f : RunningNode → RunningNode) :
    List RunningNode → Option (ℕ × List RunningNode)
  | [] => none
  | rn :: rns =>
    if p rn then some (0, f rn :: rns)
    else (onFirst p f rns).map fun r => (r.1 + 1, rn :: r.2)

/-- What a line makes a node do, by its place in `nodes`. -/
inductive Call
  | start (i : ℕ)
  | stop (i : ℕ)
  deriving DecidableEq

/-- What one turn of the loop of `main` ends in. -/
inductive Outcome
  /-- It goes on, having printed `out`. -/
  | goes (c : Cluster) (call : Option Call) (out : Str)
  | quits
  /-- An exception leaves `main`. -/
  | throws

/-- What a line reads from outside: the endpoints that other programs leave, and the reply of the
node that is asked for its peers. -/
structure LineEnv where
  free : Str → Bool := fun _ => true
  reply : Option Frame := none

def putLine (parts : List Str) : Str := parts.flatten ++ [10]

/-- `add <shardId>`. -/
def add (env : LineEnv) (c : Cluster) (rest : Str) : Outcome :=
  match readInt rest with
  | none => .goes c none (putLine [str "[ERROR] Usage: add <shardId>"])
  | some shardId =>
    if shardId < 0 ∨ numShards ≤ shardId then
      .goes c none (putLine [str "[ERROR] Usage: add <shardId>"])
    else
      match c.nodes.find? fun rn => rn.alive && rn.cfg.shardId == shardId with
      | none =>
        .goes c none (putLine [str "[ERROR] No alive node in shard ", toStr shardId.toInt])
      | some rn =>
        let cfg := { config c.nextNodeIdx shardId with initialPeers := [rn.cfg.info] }
        if c.Binds env.free cfg then
          .goes ⟨c.nodes ++ [⟨cfg, true⟩], c.nextNodeIdx + 1⟩ (some (.start c.nodes.length))
            (putLine [str "[CLUSTER] Added node ", cfg.nodeId, str " to shard ",
              toStr shardId.toInt])
        else .throws

/-- `stop <nodeId>`. -/
def stop (c : Cluster) (rest : Str) : Outcome :=
  let nodeId := (readWord rest).1
  match onFirst (fun rn => rn.cfg.nodeId == nodeId && rn.alive) ({ · with alive := false })
    c.nodes with
  | some (i, nodes) =>
    .goes { c with nodes } (some (.stop i)) (putLine [str "[CLUSTER] Stopped node ", nodeId])
  | none => .goes c none (putLine [str "[ERROR] Node not found or already stopped"])

/-- `start <nodeId>`. -/
def start (env : LineEnv) (c : Cluster) (rest : Str) : Outcome :=
  let nodeId := (readWord rest).1
  let p (rn : RunningNode) : Bool := rn.cfg.nodeId == nodeId && !rn.alive
  match c.nodes.find? p, onFirst p ({ · with alive := true }) c.nodes with
  | some rn, some (i, nodes) =>
    if c.Binds env.free rn.cfg then
      .goes { c with nodes } (some (.start i)) (putLine [str "[CLUSTER] Started node ", nodeId])
    else .throws
  | _, _ => .goes c none (putLine [str "[ERROR] Node not found or already running"])

/-- `remove <nodeId>`: the node stays in `nodes`. -/
def remove (c : Cluster) (rest : Str) : Outcome :=
  let nodeId := (readWord rest).1
  let p (rn : RunningNode) : Bool := rn.cfg.nodeId == nodeId
  match c.nodes.find? p, onFirst p ({ · with alive := false }) c.nodes with
  | some rn, some (i, nodes) =>
    .goes { c with nodes } (if rn.alive then some (.stop i) else none)
      (putLine [str "[CLUSTER] Removed node ", nodeId])
  | _, _ => .goes c none (putLine [str "[ERROR] Node not found"])

/-- `list`. -/
def list (c : Cluster) : Outcome :=
  .goes c none (c.nodes.flatMap fun rn =>
    putLine [rn.cfg.nodeId, str " shard=", toStr rn.cfg.shardId.toInt, str " alive=",
      str (if rn.alive then "yes" else "no")])

/-- `peers <nodeId>`. -/
def peers (pf : Platform) (env : LineEnv) (c : Cluster) (rest : Str) : Outcome :=
  let nodeId := (readWord rest).1
  match c.nodes.find? fun rn => rn.cfg.nodeId == nodeId && rn.alive with
  | none => .goes c none (putLine [str "[ERROR] Node not alive"])
  | some _ =>
    match env.reply with
    | none => .goes c none (putLine [str "[ERROR] No response"])
    | some frame =>
      match frame.decode pf with
      | none => .throws
      | some resp =>
        .goes c none (resp.nodes.flatMap fun n =>
          putLine [str "  ", n.nodeId, str " shard=", toStr n.shardId.toInt, str " lastSeenTs=",
            toStr n.lastSeenTs.toNat])

/-- One turn of the interactive loop, on the line that `getline` read. -/
def exec (pf : Platform) (env : LineEnv) (c : Cluster) (line : Str) : Outcome :=
  let (cmd, rest) := readWord line
  if cmd = str "add" then c.add env rest
  else if cmd = str "stop" then c.stop rest
  else if cmd = str "start" then c.start env rest
  else if cmd = str "remove" then c.remove rest
  else if cmd = str "list" then c.list
  else if cmd = str "peers" then c.peers pf env rest
  else if cmd = str "quit" then .quits
  else .goes c none (putLine [str "[ERROR] Unknown command"])

end Cluster

/-- The configurations of the six nodes. -/
def sixNodes : List ClusterConfig :=
  let cfgs := (List.range 6).map fun i =>
    { makeConfig i (Int32.ofNat (i / 3)) 2 5000 7000 8000 with
      gossipIntervalMs := 300
      discoveryIntervalMs := 1000
      discoveryTimeoutMs := 5000 }
  (List.range 6).zipWith (fun i cfg =>
    { cfg with initialPeers := (cfgs.eraseIdx i).map ClusterConfig.info }) cfgs

/-- The console, and the world its nodes are in: `n` is how many nodes there ever are. -/
structure Managed (n : ℕ) (κ : Type*) where
  cluster : Cluster
  world : World (Fin n) κ

/-- A line, with a clock reading for the node that it starts; or anything else. -/
inductive ManagedAction (n : ℕ) (κ : Type*)
  | line (env : Cluster.LineEnv) (line : Str) (now : UInt64)
  | other (a : Action (Fin n) κ)

/-- The action starts or stops a node. -/
def Action.IsControl {ι κ : Type*} : Action ι κ → Prop
  | start .. => True
  | stop _ => True
  | _ => False

instance {ι κ : Type*} : (a : Action ι κ) → Decidable a.IsControl
  | .start .. | .stop _ => inferInstanceAs (Decidable True)
  | .clientFrame .. | .gossipFrame .. | .discoveryFrame .. | .stateTimer .. | .discoveryTimer ..
  | .createShoppingList .. | .getShoppingList .. | .addItem .. | .updateItem .. | .removeItem ..
  | .deleteShoppingList .. | .gossipState .. | .updateCloudNodes .. | .reply .. | .noReply _
  | .nodesReply .. | .noNodesReply _ => inferInstanceAs (Decidable False)

namespace Managed

variable {n : ℕ} {κ : Type*} [DecidableEq κ]

/-- What a line makes a node do: a new `Node` enters its loop, or one is stopped and destroyed. -/
def call (pf : Platform) (c : Cluster) (w : World (Fin n) κ) (now : UInt64) :
    Option Cluster.Call → Option (World (Fin n) κ)
  | none => some w
  | some (.start i) =>
    match c.nodes[i]? with
    | some rn =>
      if h : i < n then
        let node := Node.new rn.cfg.toNodeConfig (w.node ⟨i, h⟩).node.db now
        some (w.settle ⟨i, h⟩ none (Node.enterLoop pf now node))
      else none
    | none => none
  | some (.stop i) =>
    if h : i < n then some (w.place ⟨i, h⟩ (w.node ⟨i, h⟩).node false none) else none

/-- One step. Only lines start and stop nodes. All nodes are in the console's process, on its
platform. -/
def step (pf : Platform) (D : Deployment (Fin n) κ) (m : Managed n κ) :
    ManagedAction n κ → Option (Managed n κ)
  | .line env line now =>
    match m.cluster.exec pf env line with
    | .goes cluster call _ =>
      (Managed.call pf cluster m.world now call).map fun world => { cluster, world }
    | _ => none
  | .other a => if a.IsControl then none else (World.step D m.world a).map ({ m with world := · })

/-- After `main` has started the first two nodes. -/
def boot (pf : Platform) (D : Deployment (Fin n) κ) (now : ℕ → UInt64) : Option (Managed n κ) :=
  (call pf Cluster.bootstrap (World.init D) (now 0) (some (.start 0))).bind fun w =>
    (call pf Cluster.bootstrap w (now 1) (some (.start 1))).map fun world =>
      { cluster := Cluster.bootstrap, world }

end Managed

example : readInt (str " 1abc") = some 1 ∧ readInt (str "x") = none ∧
    readInt (str "-99999999999") = none := by decide

end Shopping
