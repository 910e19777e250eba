import Shopping.Util
import Shopping.Message.Message
import Shopping.Persistence.SqliteDb

/-!
# `Node`

A cloud node (`node/node.{hpp,cpp}`): the handlers of its three sockets and its two
timers, as methods of the node's state. A handler that throws leaves the node as the
throw does; the only `catch` that sees it is the one around the loop of `run_loop`.
Frames handed to the sockets are collected in `sent`, oldest first.
-/

namespace Shopping

open Lib

/-- The fields of `struct NodeConfig` that a running node reads. -/
structure NodeConfig where
  nodeId : Str
  host : Str
  clientPort : Int32
  gossipPullPort : Int32
  discoveryPullPort : Int32
  initialPeers : List NodeInfo
  shardId : Int32
  numShards : Int32
  discoveryTimeoutMs : Int32

/-- A frame handed to a socket. A push socket hands it to one of the endpoints it is
connected to. -/
inductive Sent
  | reply (frame : Frame)
  | gossip (endpoints : List Str) (frame : Frame)
  | discovery (endpoints : List Str) (frame : Frame)

/-- `class Node`. -/
structure Node where
  cfg : NodeConfig
  knownNodes : UMap Str NodeInfo := ∅
  connectedDiscovery : Finset Str := ∅
  connectedShard : Finset Str := ∅
  /-- Endpoints `gossipPushSock` is connected to. -/
  gossipPush : List Str := []
  /-- Endpoints `discoveryPushSock` is connected to. -/
  discoveryPush : List Str := []
  db : SqliteDb := {}
  sent : List Sent := []

/-- What a handler reads from outside: the successive clock readings and the outcomes of
the calls on the statements of `apply_message` and of `perform_shard_gossip`. -/
structure Env where
  now : ℕ → UInt64
  stmt : ℕ → Calls := fun _ => .ok
  scan : ℕ → Calls := fun _ => .ok

namespace Node

/-- The node's own entry of `knownNodes`. -/
def selfInfo (cfg : NodeConfig) (now : UInt64) : NodeInfo where
  nodeId := cfg.nodeId
  host := cfg.host
  shardId := cfg.shardId
  clientPort := cfg.clientPort
  gossipPullPort := cfg.gossipPullPort
  discoveryPullPort := cfg.discoveryPullPort
  lastSeenTs := now

/-- `Node(const NodeConfig& c)`, over the database file it opens. -/
def new (cfg : NodeConfig) (db : SqliteDb) (now : UInt64) : Node where
  cfg := cfg
  knownNodes := AList.singleton cfg.nodeId (selfInfo cfg now)
  db := db

def send (n : Node) (s : Sent) : Node := { n with sent := n.sent ++ [s] }

def reply (n : Node) (frame : Frame) : Node := n.send (.reply frame)

/-- `Util::getHash(listId) % cfg.numShards`, in `size_t`, converted to `int`. -/
def shardForList (pf : Platform) (n : Node) (listId : Str) : Int32 :=
  Int32.ofNat (Util.getHash pf.charSigned listId % (n.cfg.numShards.toInt % 2 ^ 64).toNat)

/-- Read, merge, write back: what `apply_message` does with one incoming list. A list
that is not stored, or not readable, counts as an empty one without a name. -/
def mergeIncoming (readCalls writeCalls : Calls) (db : SqliteDb) (incoming : ShoppingList) :
    Method SqliteDb :=
  let existing := (db.read incoming.getUid readCalls).getD (ShoppingList.new incoming.getUid [])
  match existing.merge incoming with
  | .ok merged => .ok (db.write merged writeCalls).1
  | .error (e, _) => .error (e, db)

/-- The loop of `GOSSIP_LISTS`, `i` lists having been handled. -/
def mergeAll (stmt : ℕ → Calls) : ℕ → SqliteDb → List ShoppingList → Method SqliteDb
  | _, db, [] => .ok db
  | i, db, l :: ls =>
    match mergeIncoming (stmt (2 * i)) (stmt (2 * i + 1)) db l with
    | .ok db => mergeAll stmt (i + 1) db ls
    | .error e => .error e

/-- `void apply_message(const Message& m)`, on the database. -/
def applyMessage (stmt : ℕ → Calls) (db : SqliteDb) (m : Message) : Method SqliteDb :=
  match m.op, m.lists with
  | .ensureList, l :: _ => mergeIncoming (stmt 0) (stmt 1) db l
  | .deleteList, l :: _ => .ok (db.deleteList l.getUid (stmt 0)).1
  | .ensureList, [] => .error (.emptyIndex, db)
  | .deleteList, [] => .error (.emptyIndex, db)
  | .gossipLists, lists => mergeAll stmt 0 db lists
  | _, _ => .ok db

/-- `void perform_shard_gossip()`. Without a connected peer the non-blocking send gives
up (`EAGAIN`), which is caught. -/
def performShardGossip (now : UInt64) (c : Calls) (n : Node) : Node :=
  let m := Message.gossipLists n.cfg.nodeId now (n.db.readAll c)
  if n.gossipPush = [] then n else n.send (.gossip n.gossipPush (.packed m))

/-- `void eager_fanout()`. -/
def eagerFanout (env : Env) (n : Node) : Node :=
  let n := performShardGossip (env.now 1) (env.scan 0) n
  let n := performShardGossip (env.now 2) (env.scan 1) n
  performShardGossip (env.now 3) (env.scan 2) n

/-- `void handle_client_frame()`. -/
def handleClientFrame (pf : Platform) (env : Env) (n : Node) (frame : Frame) : Method Node :=
  match frame.decode pf with
  | none => .error (.msgpackError, n)
  | some m =>
    if m.op = .getNodes then
      let nodes := n.knownNodes.entries.map fun known => known.2
      .ok (n.reply (.packed (Message.nodesResponse n.cfg.nodeId (env.now 0) nodes)))
    else
      match m.lists with
      | [] => .error (.emptyIndex, n)
      | l :: _ =>
        if n.shardForList pf l.getUid ≠ n.cfg.shardId then .ok (n.reply (.raw wrongShard))
        else if m.op = .getList then
          let resp := match n.db.read l.getUid (env.stmt 0) with
            | some found => Message.listResponse true n.cfg.nodeId (env.now 0) found
            | none =>
              Message.listResponse false n.cfg.nodeId (env.now 0) (ShoppingList.new l.getUid [])
          .ok (n.reply (.packed resp))
        else
          match applyMessage env.stmt n.db { m with origin := n.cfg.nodeId, ts := env.now 0 } with
          | .error (e, db) => .error (e, { n with db })
          | .ok db =>
            let n := eagerFanout env { n with db }
            -- the reply carries the list as it came, not as it is stored now
            .ok (n.reply (.packed (Message.listResponse (m.op ≠ .deleteList) n.cfg.nodeId
              (env.now 4) l)))

/-- `void handle_gossip_frame()`. -/
def handleGossipFrame (pf : Platform) (env : Env) (n : Node) (frame : Frame) : Method Node :=
  match frame.decode pf with
  | none => .error (.msgpackError, n)
  | some m =>
    if m.op = .gossipLists then
      match applyMessage env.stmt n.db m with
      | .ok db => .ok { n with db }
      | .error (e, db) => .error (e, { n with db })
    else .ok n

/-- `socket.connect(ep)`: ZMQ throws on an endpoint it does not accept. -/
def connect (pf : Platform) (ep : Str) (endpoints : List Str) : Except Exn (List Str) :=
  if pf.validEndpoint ep then .ok (ep :: endpoints) else .error .zmqError

/-- `socket.disconnect(ep)`: ZMQ closes every connection to the endpoint, and throws if there
is none. -/
def disconnect (ep : Str) (endpoints : List Str) : Except Exn (List Str) :=
  if ep ∈ endpoints then .ok (endpoints.filter (· ≠ ep)) else .error .zmqError

/-- The sockets that push to peers: `discoveryPushSock` and `gossipPushSock`. -/
inductive Push
  | discovery
  | gossip

/-- The endpoint of a peer that the socket connects to. -/
def Push.endpoint (info : NodeInfo) : Push → Str
  | .discovery => Shopping.endpoint info.host info.discoveryPullPort
  | .gossip => Shopping.endpoint info.host info.gossipPullPort

/-- Lists are gossiped within the node's shard (`shardId == cfg.shardId`), discovery is not
limited to it. -/
def Push.Takes (cfg : NodeConfig) (info : NodeInfo) : Push → Prop
  | .discovery => True
  | .gossip => info.shardId = cfg.shardId

instance (cfg : NodeConfig) (info : NodeInfo) : (k : Push) → Decidable (k.Takes cfg info)
  | .discovery => isTrue trivial
  | .gossip => inferInstanceAs (Decidable (info.shardId = cfg.shardId))

/-- The peers connected through the socket. -/
def connected (n : Node) : Push → Finset Str
  | .discovery => n.connectedDiscovery
  | .gossip => n.connectedShard

/-- The endpoints the socket is connected to. -/
def links (n : Node) : Push → List Str
  | .discovery => n.discoveryPush
  | .gossip => n.gossipPush

def setLinks (n : Node) (ids : Finset Str) (endpoints : List Str) : Push → Node
  | .discovery => { n with connectedDiscovery := ids, discoveryPush := endpoints }
  | .gossip => { n with connectedShard := ids, gossipPush := endpoints }

/-- `if (connected.insert(id).second)`: connect to the peer. The id stays inserted when the
connect throws. -/
def join (k : Push) (pf : Platform) (n : Node) (info : NodeInfo) : Method Node :=
  if k.Takes n.cfg info ∧ info.nodeId ∉ n.connected k then
    let ids := insert info.nodeId (n.connected k)
    match connect pf (k.endpoint info) (n.links k) with
    | .ok endpoints => .ok (n.setLinks ids endpoints k)
    | .error e => .error (e, n.setLinks ids (n.links k) k)
  else .ok n

/-- `if (connectedDiscovery.insert(id).second)`: connect to the peer's discovery port. -/
def joinDiscovery (pf : Platform) (n : Node) (info : NodeInfo) : Method Node :=
  join .discovery pf n info

/-- `if (shardId == cfg.shardId && connectedShard.insert(id).second)`: connect to the
peer's gossip port. -/
def joinShard (pf : Platform) (n : Node) (info : NodeInfo) : Method Node :=
  join .gossip pf n info

/-- `knownNodes[id].lastSeenTs = ts`. -/
def stamp (n : Node) (id : Str) (ts : UInt64) : Node :=
  let info := (n.knownNodes.lookup id).getD {}
  { n with knownNodes := n.knownNodes.insert id { info with lastSeenTs := ts } }

/-- The body of the loop of `update_known_nodes`. -/
def updateKnownNode (pf : Platform) (n : Node) (info : NodeInfo) : Method Node :=
  if info.nodeId = n.cfg.nodeId then .ok n
  else
    match n.knownNodes.lookup info.nodeId with
    | some known =>
      if known.lastSeenTs > info.lastSeenTs then .ok n
      else
        let n := { n with knownNodes := n.knownNodes.insert info.nodeId info }
        .ok (n.stamp info.nodeId info.lastSeenTs)
    | none =>
      let n := { n with knownNodes := n.knownNodes.insert info.nodeId info }
      (joinDiscovery pf n info).bind fun n =>
        (joinShard pf n info).bind fun n => .ok (n.stamp info.nodeId info.lastSeenTs)

/-- `void update_known_nodes(const vector<NodeInfo>& nodes)`. -/
def updateKnownNodes (pf : Platform) : Node → List NodeInfo → Method Node
  | n, [] => .ok n
  | n, info :: infos => (updateKnownNode pf n info).bind fun n => updateKnownNodes pf n infos

/-- `void handle_discovery_frame()`. -/
def handleDiscoveryFrame (pf : Platform) (n : Node) (frame : Frame) : Method Node :=
  match frame.decode pf with
  | none => .error (.msgpackError, n)
  | some m => if m.op ≠ .gossipNodes then .ok n else updateKnownNodes pf n m.nodes

/-- `void perform_discovery_gossip()`. -/
def performDiscoveryGossip (now : UInt64) (n : Node) : Node :=
  let n := n.stamp n.cfg.nodeId now
  let m := Message.gossipNodes n.cfg.nodeId now (n.knownNodes.entries.map fun known => known.2)
  if n.discoveryPush = [] then n else n.send (.discovery n.discoveryPush (.packed m))

/-- `if (connected.erase(id))`: disconnect from the peer. The id stays erased when the
disconnect throws. -/
def leave (k : Push) (n : Node) (nodeId : Str) (info : NodeInfo) : Method Node :=
  if k.Takes n.cfg info ∧ nodeId ∈ n.connected k then
    let ids := (n.connected k).erase nodeId
    match disconnect (k.endpoint info) (n.links k) with
    | .ok endpoints => .ok (n.setLinks ids endpoints k)
    | .error e => .error (e, n.setLinks ids (n.links k) k)
  else .ok n

/-- `if (connectedDiscovery.erase(id))`: disconnect from the peer's discovery port. -/
def leaveDiscovery (n : Node) (nodeId : Str) (info : NodeInfo) : Method Node :=
  leave .discovery n nodeId info

/-- `if (shardId == cfg.shardId && connectedShard.erase(id))`: disconnect from the peer's
gossip port. -/
def leaveShard (n : Node) (nodeId : Str) (info : NodeInfo) : Method Node :=
  leave .gossip n nodeId info

/-- The body of the loop of `evict_dead_nodes`, at the entry of `nodeId`. The comparison
is of `uint64_t`s: the timeout is converted. -/
def evictNode (now : UInt64) (n : Node) (nodeId : Str) (info : NodeInfo) : Method Node :=
  if nodeId = n.cfg.nodeId then .ok n
  else if now - info.lastSeenTs ≤ UInt64.ofInt n.cfg.discoveryTimeoutMs.toInt then .ok n
  else
    (leaveDiscovery n nodeId info).bind fun n =>
      (leaveShard n nodeId info).bind fun n =>
        .ok { n with knownNodes := n.knownNodes.erase nodeId }

/-- The loop of `evict_dead_nodes` over the entries still to be visited. -/
def evictAll (now : UInt64) : Node → List (Sigma fun _ : Str => NodeInfo) → Method Node
  | n, [] => .ok n
  | n, known :: rest => (evictNode now n known.1 known.2).bind fun n => evictAll now n rest

/-- `void evict_dead_nodes()`. -/
def evictDeadNodes (now : UInt64) (n : Node) : Method Node := evictAll now n n.knownNodes.entries

/-- `run_loop` up to its loop: learn the configured peers and stamp every entry. -/
def enterLoop (pf : Platform) (now : UInt64) (n : Node) : Method Node :=
  (updateKnownNodes pf n n.cfg.initialPeers).bind fun n =>
    .ok (n.knownNodes.keys.foldl (fun n id => n.stamp id now) n)

/-- What one turn of the loop finds to do. -/
inductive Wake
  | clientFrame (env : Env) (frame : Frame)
  | gossipFrame (env : Env) (frame : Frame)
  | discoveryFrame (frame : Frame)
  | stateTimer (now : UInt64) (c : Calls)
  | discoveryTimer (evictNow gossipNow : UInt64)

/-- One `if` of the loop's body. -/
def wake (pf : Platform) (n : Node) : Wake → Method Node
  | .clientFrame env frame => handleClientFrame pf env n frame
  | .gossipFrame env frame => handleGossipFrame pf env n frame
  | .discoveryFrame frame => handleDiscoveryFrame pf n frame
  | .stateTimer now c => .ok (performShardGossip now c n)
  | .discoveryTimer evictNow gossipNow =>
    (evictDeadNodes evictNow n).bind fun n => .ok (performDiscoveryGossip gossipNow n)

/-- The loop of `run_loop` over what it finds to do: it goes on as long as nothing is
thrown. -/
def runLoop (pf : Platform) : Node → List Wake → Method Node
  | n, [] => .ok n
  | n, w :: ws => (wake pf n w).bind fun n => runLoop pf n ws

end Node

end Shopping
