import Shopping.Message.Packing
import Shopping.System.World

/-!
# The system on bytes

`System/World.lean` once more, with the encodings in place: a row of a database is a blob, a
packet is the bytes of a frame, and whatever is read or received is unpacked first. The sources
are the same functions; what touches neither a database nor a frame (the peers of a node, the
endpoint table of a client) is taken over as it is.

A step also takes from outside in which orders its maps and sets are listed where they are packed,
and what `from_zmq` finds in a fresh `Message`. `bound` keeps every blob that a `write` has bound,
for the conditions on the sizes; no code reads it.
-/

namespace Shopping.Wire

open Lib Lib.Msgpack

/-- What one step takes from outside for its encodings: the orders in the `i`-th blob
that it packs, and in the `j`-th list of its `i`-th frame; and the fields of a fresh `Message`
that have no default. -/
structure Format where
  blob : ℕ → ListOrder
  frame : ℕ → ℕ → ListOrder
  op : OpType
  ts : UInt64

/-- `Message::from_zmq`. -/
def Format.decode (f : Format) (frame : Bytes) : Option Message := Message.fromZmq f.op f.ts frame

/-- A database, with the blobs bound so far. -/
structure Store where
  db : BlobDb := {}
  bound : List Bytes := []

/-- `db.write(list)`. -/
def Store.write (s : Store) (order : ListOrder) (list : ShoppingList) : Store where
  db := (s.db.write order list .ok).1
  bound := s.bound ++ [list.pack order]

/-- `db.delete_list(listId)`. -/
def Store.deleteList (s : Store) (listId : Str) : Store :=
  { s with db := (s.db.deleteList listId .ok).1 }

/-- The bytes handed to a socket. -/
inductive Sent
  | reply (frame : Bytes)
  | gossip (endpoints : List Str) (frame : Bytes)
  | discovery (endpoints : List Str) (frame : Bytes)

/-- `class Node`. The database and the frames of `peers` are not used. -/
structure Node where
  peers : Shopping.Node
  store : Store := {}
  sent : List Sent := []

namespace Node

def send (n : Node) (s : Sent) : Node := { n with sent := n.sent ++ [s] }

/-- A method that is about the peers only. -/
def onPeers (n : Node) : Method Shopping.Node → Method Node
  | .ok peers => .ok { n with peers }
  | .error (e, peers) => .error (e, { n with peers })

/-- Read, merge, write back. -/
def mergeIncoming (order : ListOrder) (s : Store) (incoming : ShoppingList) :
    Method Store :=
  match s.db.read incoming.getUid .ok with
  | .error e => .error (e, s)
  | .ok found =>
    match (found.getD (ShoppingList.new incoming.getUid [])).merge incoming with
    | .ok merged => .ok (s.write order merged)
    | .error (e, _) => .error (e, s)

/-- The loop of `GOSSIP_LISTS`, `i` lists having been handled. -/
def mergeAll (f : Format) : ℕ → Store → List ShoppingList → Method Store
  | _, s, [] => .ok s
  | i, s, l :: ls =>
    match mergeIncoming (f.blob i) s l with
    | .ok s => mergeAll f (i + 1) s ls
    | .error x => .error x

/-- `void apply_message(const Message& m)`, on the database. -/
def applyMessage (f : Format) (s : Store) (m : Message) : Method Store :=
  match m.op, m.lists with
  | .ensureList, l :: _ => mergeIncoming (f.blob 0) s l
  | .deleteList, l :: _ => .ok (s.deleteList l.getUid)
  | .ensureList, [] => .error (.emptyIndex, s)
  | .deleteList, [] => .error (.emptyIndex, s)
  | .gossipLists, lists => mergeAll f 0 s lists
  | _, _ => .ok s

/-- `void perform_shard_gossip()`, `i` being the number of the frame. -/
def performShardGossip (f : Format) (i : ℕ) (now : UInt64) (n : Node) : Method Node :=
  match n.store.db.readAll .ok with
  | .error e => .error (e, n)
  | .ok lists =>
    let m := Message.gossipLists n.peers.cfg.nodeId now lists
    .ok (if n.peers.gossipPush = [] then n
      else n.send (.gossip n.peers.gossipPush (m.toZmq (f.frame i))))

/-- `void eager_fanout()`. -/
def eagerFanout (f : Format) (now : ℕ → UInt64) (n : Node) : Method Node :=
  (performShardGossip f 0 (now 1) n).bind fun n =>
    (performShardGossip f 1 (now 2) n).bind fun n => performShardGossip f 2 (now 3) n

/-- `void handle_client_frame()`. -/
def handleClientFrame (pf : Platform) (f : Format) (now : ℕ → UInt64) (n : Node) (frame : Bytes) :
    Method Node :=
  match f.decode frame with
  | none => .error (.msgpackError, n)
  | some m =>
    let reply (n : Node) (m : Message) : Node := n.send (.reply (m.toZmq (f.frame 3)))
    if m.op = .getNodes then
      let nodes := n.peers.knownNodes.entries.map fun known => known.2
      .ok (reply n (Message.nodesResponse n.peers.cfg.nodeId (now 0) nodes))
    else
      match m.lists with
      | [] => .error (.emptyIndex, n)
      | l :: _ =>
        if n.peers.shardForList pf l.getUid ≠ n.peers.cfg.shardId then
          .ok (n.send (.reply wrongShard))
        else if m.op = .getList then
          match n.store.db.read l.getUid .ok with
          | .error e => .error (e, n)
          | .ok (some found) =>
            .ok (reply n (Message.listResponse true n.peers.cfg.nodeId (now 0) found))
          | .ok none => .ok (reply n (Message.listResponse false n.peers.cfg.nodeId (now 0)
              (ShoppingList.new l.getUid [])))
        else
          match applyMessage f n.store { m with origin := n.peers.cfg.nodeId, ts := now 0 } with
          | .error (e, store) => .error (e, { n with store })
          | .ok store =>
            (eagerFanout f now { n with store }).bind fun n =>
              .ok (reply n (Message.listResponse (m.op ≠ .deleteList) n.peers.cfg.nodeId (now 4) l))

/-- `void handle_gossip_frame()`. -/
def handleGossipFrame (f : Format) (n : Node) (frame : Bytes) : Method Node :=
  match f.decode frame with
  | none => .error (.msgpackError, n)
  | some m =>
    if m.op = .gossipLists then
      match applyMessage f n.store m with
      | .ok store => .ok { n with store }
      | .error (e, store) => .error (e, { n with store })
    else .ok n

/-- `void handle_discovery_frame()`. -/
def handleDiscoveryFrame (pf : Platform) (f : Format) (n : Node) (frame : Bytes) : Method Node :=
  match f.decode frame with
  | none => .error (.msgpackError, n)
  | some m =>
    if m.op ≠ .gossipNodes then .ok n
    else n.onPeers (Shopping.Node.updateKnownNodes pf n.peers m.nodes)

/-- `void perform_discovery_gossip()`. -/
def performDiscoveryGossip (f : Format) (now : UInt64) (n : Node) : Node :=
  let n := { n with peers := n.peers.stamp n.peers.cfg.nodeId now }
  let m := Message.gossipNodes n.peers.cfg.nodeId now
    (n.peers.knownNodes.entries.map fun known => known.2)
  if n.peers.discoveryPush = [] then n
  else n.send (.discovery n.peers.discoveryPush (m.toZmq (f.frame 0)))

/-- `evict_dead_nodes()`, then `perform_discovery_gossip()`. -/
def discoveryTimer (f : Format) (evictNow gossipNow : UInt64) (n : Node) : Method Node :=
  (n.onPeers (n.peers.evictDeadNodes evictNow)).bind fun n =>
    .ok (n.performDiscoveryGossip f gossipNow)

end Node

/-- `class API`, without its socket. The database of `base` is not used. -/
structure Api where
  base : API
  store : Store := {}

namespace Api

/-- What `createUID()` may return. -/
def IsNewUid (a : Api) (uid : Str) : Prop :=
  uid.length = 32 ∧ (∀ c ∈ uid, c ∈ API.uidChars) ∧
    (match a.store.db.read uid .ok with
      | .ok found => found.isNone
      | .error _ => false) = true

instance (a : Api) (uid : Str) : Decidable (a.IsNewUid uid) :=
  inferInstanceAs (Decidable (_ ∧ _ ∧ _))

/-- What the calls that change a stored list have in common. -/
def edit (a : Api) (listUid : Str) (change : ShoppingList → Except Exn ShoppingList) :
    Except Exn ShoppingList :=
  match a.store.db.read listUid .ok with
  | .error e => .error e
  | .ok none => .error (.runtimeError "List not found")
  | .ok (some lst) => change lst

/-- `addItem(..)` up to the request. -/
def addItem (a : Api) (listUid itemName : Str) (desiredQuantity currentQuantity : Int32)
    (itemUid tag : Str) : Except Exn ShoppingList :=
  a.edit listUid fun lst => lst.add (ShoppingItem.new a.base.origin itemUid itemName
    desiredQuantity.toUInt32 currentQuantity.toUInt32) tag

/-- `updateItem(..)` up to the request. -/
def updateItem (a : Api) (listUid itemUid itemName : Str) (desiredQuantity currentQuantity : Int32)
    (tag : Str) : Except Exn ShoppingList :=
  a.edit listUid fun lst =>
    API.editItem lst a.base.origin itemUid itemName desiredQuantity currentQuantity tag

/-- `removeItem(..)` up to the request. -/
def removeItem (a : Api) (listUid itemUid : Str) : Except Exn ShoppingList :=
  a.edit listUid fun lst => API.dropItem lst itemUid

/-- The end of a call: the list that it returns is the one that it has written. -/
def stored (f : Format) (a : Api) (r : Except Exn (ShoppingList × API)) : Except Exn Api :=
  r.map fun x => { a with store := a.store.write (f.blob 0) x.1 }

/-- `gossipState()`: the requests. -/
def gossipState (pf : Platform) (a : Api) (now : UInt64) (pick : Int32 → ℕ) :
    Option (List (Str × Message)) :=
  match a.store.db.readAll .ok with
  | .error _ => none
  | .ok allLists =>
    (API.gossipBatches pf a.base allLists).entries.mapM fun batch => do
      let first ← batch.2.head?
      let ep ← a.base.getShardEndpoint pf first.getUid (pick batch.1)
      pure (ep, Message.gossipLists a.base.origin now batch.2)

end Api

structure NodeState where
  node : Node
  running : Bool

structure ClientState where
  api : Api
  call : Option (ℕ × Pending) := none
  refresh : Option ℕ := none
  calls : ℕ := 0

inductive Packet (κ : Type*)
  | request (client : κ) (call : ℕ) (dest : Str) (frame : Bytes)
  | reply (client : κ) (call : ℕ) (frame : Bytes)
  | gossip (dests : List Str) (frame : Bytes)
  | discovery (dests : List Str) (frame : Bytes)

structure World (ι κ : Type*) where
  node : ι → NodeState
  client : κ → ClientState
  net : List (Packet κ)

variable {ι κ : Type*}

/-- All nodes stopped over empty databases, all clients fresh, nothing sent. -/
def World.init (D : Deployment ι κ) : World ι κ where
  node i := ⟨{ peers := Shopping.Node.new (D.cfg i) {} 0 }, false⟩
  client k := { api := { base := { origin := D.origin k, shardEndpoints := D.table k } } }
  net := []

namespace World

variable [DecidableEq ι] [DecidableEq κ]

def packet (call : Option (κ × ℕ)) : Sent → Option (Packet κ)
  | .reply frame => call.map fun c => .reply c.1 c.2 frame
  | .gossip dests frame => some (.gossip dests frame)
  | .discovery dests frame => some (.discovery dests frame)

/-- Node `i` after a handler: what it sent is on the network. -/
def place (w : World ι κ) (i : ι) (n : Node) (running : Bool) (call : Option (κ × ℕ)) : World ι κ :=
  { w with
    node := Function.update w.node i ⟨{ n with sent := [] }, running⟩
    net := w.net ++ n.sent.filterMap (packet call) }

/-- Node `i` after a handler that returned or threw. -/
def settle (w : World ι κ) (i : ι) (call : Option (κ × ℕ)) (r : Method Node) : World ι κ :=
  w.place i r.state r.returned call

/-- What node `i` does if it is running. -/
def turn (w : World ι κ) (i : ι) (call : Option (κ × ℕ)) (r : Node → Method Node) :
    Option (World ι κ) :=
  if (w.node i).running then some (w.settle i call (r (w.node i).node)) else none

/-- A client's call begins its exchange. -/
def exchange (D : Deployment ι κ) (f : Format) (w : World ι κ) (k : κ) (api : Api) (listUid : Str)
    (pick : ℕ) (m : Message) (pending : Pending) : Option (World ι κ) :=
  let c := w.client k
  (api.base.getShardEndpoint (D.clientPf k) listUid pick).map fun ep =>
    { w with
      client := Function.update w.client k
        { c with api, call := some (c.calls, pending), calls := c.calls + 1 }
      net := w.net ++ [.request k c.calls ep (m.toZmq (f.frame 0))] }

/-- The exchange of `addItem`, `updateItem` and `removeItem`, once the list is changed. -/
def exchangeEdit (D : Deployment ι κ) (f : Format) (w : World ι κ) (k : κ)
    (edited : Except Exn ShoppingList) (now : UInt64) (pick : ℕ) : Option (World ι κ) :=
  match edited with
  | .error _ => none
  | .ok lst =>
    let api := (w.client k).api
    exchange D f w k api lst.getUid pick (Message.ensureList api.base.origin now lst) (.edit lst)

/-- The requests of a `gossipState`, numbered from the client's next exchange. -/
def gossipRequests (f : Format) (k : κ) (calls : ℕ) (batches : List (Str × Message)) :
    List (Packet κ) :=
  batches.mapIdx fun j batch => .request k (calls + j) batch.1 (batch.2.toZmq (f.frame j))

/-- The end of a client's call, with the outcome of its exchange. -/
def finish (f : Format) (w : World ι κ) (k : κ) (pending : Pending) (reply : Option Message) :
    World ι κ :=
  let c := w.client k
  let done (r : Except Exn (ShoppingList × API)) : World ι κ :=
    match c.api.stored f r with
    | .ok api => { w with client := Function.update w.client k { c with api, call := none } }
    | .error _ => { w with client := Function.update w.client k { c with call := none } }
  match pending with
  | .create => { w with client := Function.update w.client k { c with call := none } }
  | .delete => { w with client := Function.update w.client k { c with call := none } }
  | .edit lst => done (c.api.base.finishEdit lst reply .ok)
  | .get _ found => done (c.api.base.finishGet found reply .ok)

/-- The end of a refresh. -/
def refreshed (w : World ι κ) (k : κ) (reply : Option Message) : World ι κ :=
  let c := w.client k
  let api := { c.api with base := c.api.base.finishUpdateCloudNodes reply }
  { w with client := Function.update w.client k { c with api, refresh := none } }

/-- One step; `none` if the action is not possible. -/
def step (D : Deployment ι κ) (w : World ι κ) (a : Action ι κ × Format) : Option (World ι κ) :=
  let f := a.2
  match a.1 with
  | .start i now =>
    let s := w.node i
    if s.running then none
    else
      let n : Node := { peers := Shopping.Node.new (D.cfg i) {} now, store := s.node.store }
      some (w.settle i none (n.onPeers (Shopping.Node.enterLoop (D.pf i) now n.peers)))
  | .stop i => some (w.place i (w.node i).node false none)
  | .clientFrame i p now =>
    match w.net[p]? with
    | some (.request k c dest frame) =>
      if dest = (w.node i).node.peers.cfg.clientAddr then
        w.turn i (some (k, c)) fun n => n.handleClientFrame (D.pf i) f now frame
      else none
    | _ => none
  | .gossipFrame i p _ =>
    match w.net[p]? with
    | some (.gossip dests frame) =>
      if (w.node i).node.peers.cfg.gossipAddr ∈ dests then
        w.turn i none fun n => n.handleGossipFrame f frame
      else none
    | _ => none
  | .discoveryFrame i p =>
    match w.net[p]? with
    | some (.discovery dests frame) =>
      if (w.node i).node.peers.cfg.discoveryAddr ∈ dests then
        w.turn i none fun n => n.handleDiscoveryFrame (D.pf i) f frame
      else none
    | _ => none
  | .stateTimer i now => w.turn i none fun n => n.performShardGossip f 0 now
  | .discoveryTimer i evictNow gossipNow => w.turn i none fun n => n.discoveryTimer f evictNow gossipNow
  | .createShoppingList k name uid now pick =>
    let c := w.client k
    if c.call.isNone ∧ c.api.IsNewUid uid then
      let lst := ShoppingList.new uid name
      let api := { c.api with store := c.api.store.write (f.blob 0) lst }
      exchange D f w k api lst.getUid pick (Message.ensureList api.base.origin now lst) .create
    else none
  | .getShoppingList k listUid now pick =>
    let c := w.client k
    if c.call.isNone then
      match c.api.store.db.read listUid .ok with
      | .error _ => none
      | .ok found =>
        exchange D f w k c.api listUid pick (Message.getList c.api.base.origin now listUid)
          (.get listUid found)
    else none
  | .addItem k listUid itemName desired current itemUid clock now pick =>
    let c := w.client k
    if c.call.isNone ∧ c.api.IsNewUid itemUid then
      exchangeEdit D f w k
        (c.api.addItem listUid itemName desired current itemUid (ORSet.genTag clock)) now pick
    else none
  | .updateItem k listUid itemUid itemName desired current clock now pick =>
    let c := w.client k
    if c.call.isNone then
      exchangeEdit D f w k
        (c.api.updateItem listUid itemUid itemName desired current (ORSet.genTag clock)) now pick
    else none
  | .removeItem k listUid itemUid now pick =>
    let c := w.client k
    if c.call.isNone then exchangeEdit D f w k (c.api.removeItem listUid itemUid) now pick
    else none
  | .deleteShoppingList k listUid now pick =>
    let c := w.client k
    if c.call.isNone then
      exchange D f w k { c.api with store := c.api.store.deleteList listUid } listUid pick
        (Message.deleteList c.api.base.origin now listUid) .delete
    else none
  | .gossipState k now pick =>
    let c := w.client k
    (c.api.gossipState (D.clientPf k) now pick).map fun batches =>
      { w with
        client := Function.update w.client k { c with calls := c.calls + batches.length }
        net := w.net ++ gossipRequests f k c.calls batches }
  | .updateCloudNodes k now pick =>
    let c := w.client k
    if c.refresh.isNone then
      (c.api.base.getAnyEndpoint pick).map fun ep =>
        { w with
          client := Function.update w.client k
            { c with refresh := some c.calls, calls := c.calls + 1 }
          net := w.net ++ [.request k c.calls ep
            ((Message.getNodes c.api.base.origin now).toZmq (f.frame 0))] }
    else none
  | .reply k p =>
    match (w.client k).call, w.net[p]? with
    | some (call, pending), some (.reply k' call' frame) =>
      if k' = k ∧ call' = call then some (w.finish f k pending (f.decode frame)) else none
    | _, _ => none
  | .noReply k =>
    match (w.client k).call with
    | some (_, pending) => some (w.finish f k pending none)
    | none => none
  | .nodesReply k p =>
    match (w.client k).refresh, w.net[p]? with
    | some call, some (.reply k' call' frame) =>
      if k' = k ∧ call' = call then some (w.refreshed k (f.decode frame)) else none
    | _, _ => none
  | .noNodesReply k => if (w.client k).refresh.isSome then some (w.refreshed k none) else none

end World

end Shopping.Wire
