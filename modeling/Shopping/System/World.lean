import Shopping.Node.Node
import Shopping.Client.Api
import Shopping.Lib.Run

/-!
# The system

Any number of nodes `ι` and clients `κ` and the network between them. The network is
the list of all packets ever sent: a packet can be delivered at any later step, any
number of times, or never. A request goes to an address and its reply to the call it
answers, as REQ and REP sockets route them; a gossip packet goes to one of the
endpoints its sender was connected to.

An action carries what the code takes from outside (clock readings, random choices,
which packet arrives). A node whose handler throws leaves its loop and stops; `start`
constructs a node over the same database file.

No SQLite call fails here.
-/

namespace Shopping

open Lib

/-- The nodes and clients of a deployment, each on a platform of its own, with the endpoint table
each client starts with. -/
structure Deployment (ι κ : Type*) where
  pf : ι → Platform
  clientPf : κ → Platform
  cfg : ι → NodeConfig
  origin : κ → Str
  table : κ → UMap Int32 (List Str)

/-- The address a node serves clients at. -/
def NodeConfig.clientAddr (c : NodeConfig) : Str := endpoint c.host c.clientPort

def NodeConfig.gossipAddr (c : NodeConfig) : Str := endpoint c.host c.gossipPullPort

def NodeConfig.discoveryAddr (c : NodeConfig) : Str := endpoint c.host c.discoveryPullPort

/-- What a client's call in progress does with the outcome of its exchange. -/
inductive Pending
  | create
  | edit (lst : ShoppingList)
  | get (listUid : Str) (found : Option ShoppingList)
  | delete

/-- A packet. Requests and replies carry the client and the number of its exchange. -/
inductive Packet (κ : Type*)
  | request (client : κ) (call : ℕ) (dest : Str) (frame : Frame)
  | reply (client : κ) (call : ℕ) (frame : Frame)
  | gossip (dests : List Str) (frame : Frame)
  | discovery (dests : List Str) (frame : Frame)

structure NodeState where
  node : Node
  running : Bool

/-- A client: its state, the API call it is serving, the `updateCloudNodes` exchange of
its refresh thread, and how many exchanges it has begun. -/
structure ClientState where
  api : API
  call : Option (ℕ × Pending) := none
  refresh : Option ℕ := none
  calls : ℕ := 0

structure World (ι κ : Type*) where
  node : ι → NodeState
  client : κ → ClientState
  net : List (Packet κ)

/-- Everything the system can do next. -/
inductive Action (ι κ : Type*)
  | start (i : ι) (now : UInt64)
  | stop (i : ι)
  | clientFrame (i : ι) (p : ℕ) (now : ℕ → UInt64)
  | gossipFrame (i : ι) (p : ℕ) (now : ℕ → UInt64)
  | discoveryFrame (i : ι) (p : ℕ)
  | stateTimer (i : ι) (now : UInt64)
  | discoveryTimer (i : ι) (evictNow gossipNow : UInt64)
  | createShoppingList (k : κ) (name uid : Str) (now : UInt64) (pick : ℕ)
  | getShoppingList (k : κ) (listUid : Str) (now : UInt64) (pick : ℕ)
  | addItem (k : κ) (listUid itemName : Str) (desired current : Int32) (itemUid : Str)
      (clock : ℤ) (now : UInt64) (pick : ℕ)
  | updateItem (k : κ) (listUid itemUid itemName : Str) (desired current : Int32)
      (clock : ℤ) (now : UInt64) (pick : ℕ)
  | removeItem (k : κ) (listUid itemUid : Str) (now : UInt64) (pick : ℕ)
  | deleteShoppingList (k : κ) (listUid : Str) (now : UInt64) (pick : ℕ)
  | gossipState (k : κ) (now : UInt64) (pick : Int32 → ℕ)
  | updateCloudNodes (k : κ) (now : UInt64) (pick : ℕ)
  | reply (k : κ) (p : ℕ)
  | noReply (k : κ)
  | nodesReply (k : κ) (p : ℕ)
  | noNodesReply (k : κ)

/-- The action is a `deleteShoppingList`. -/
def Action.IsDelete {ι κ : Type*} : Action ι κ → Prop
  | deleteShoppingList .. => True
  | _ => False

/-- The action creates a list or begins a change of one. -/
def Action.IsEdit {ι κ : Type*} : Action ι κ → Prop
  | createShoppingList .. => True
  | addItem .. => True
  | updateItem .. => True
  | removeItem .. => True
  | _ => False

variable {ι κ : Type*} [DecidableEq ι] [DecidableEq κ]

/-- All nodes stopped over empty databases, all clients fresh, nothing sent. -/
def World.init (D : Deployment ι κ) : World ι κ where
  node i := ⟨Node.new (D.cfg i) {} 0, false⟩
  client k := { api := { origin := D.origin k, shardEndpoints := D.table k } }
  net := []

namespace World

/-- The packet of a frame handed to a socket, `call` being the exchange a reply answers. -/
def packet (call : Option (κ × ℕ)) : Sent → Option (Packet κ)
  | .reply frame => call.map fun c => .reply c.1 c.2 frame
  | .gossip dests frame => some (.gossip dests frame)
  | .discovery dests frame => some (.discovery dests frame)

/-- Node `i` after a handler: what it sent is on the network. -/
def place (w : World ι κ) (i : ι) (n : Node) (running : Bool) (call : Option (κ × ℕ)) : World ι κ :=
  { w with
    node := Function.update w.node i ⟨{ n with sent := [] }, running⟩
    net := w.net ++ n.sent.filterMap (packet call) }

omit [DecidableEq κ] in
@[simp] theorem place_node (w : World ι κ) (i : ι) (n : Node) (running : Bool)
    (call : Option (κ × ℕ)) (j : ι) : (w.place i n running call).node j =
      if j = i then ⟨{ n with sent := [] }, running⟩ else w.node j := Function.update_apply _ _ _ _

/-- Node `i` after a handler that returned or threw. -/
def settle (w : World ι κ) (i : ι) (call : Option (κ × ℕ)) (r : Method Node) : World ι κ :=
  match r with
  | .ok n => w.place i n true call
  | .error (_, n) => w.place i n false call

def setClient (w : World ι κ) (k : κ) (c : ClientState) : World ι κ :=
  { w with client := Function.update w.client k c }

omit [DecidableEq ι] in
@[simp] theorem setClient_client (w : World ι κ) (k : κ) (c : ClientState) (k' : κ) :
    (w.setClient k c).client k' = if k' = k then c else w.client k' := Function.update_apply _ _ _ _

omit [DecidableEq ι] in
/-- A client that sends no packets. -/
theorem setClient_eq (w : World ι κ) (k : κ) (c : ClientState) :
    w.setClient k c = { w with client := Function.update w.client k c, net := w.net ++ [] } := by
  rw [List.append_nil]; rfl

/-- The client's state when a call begins its exchange, and the request. -/
def exchange (D : Deployment ι κ) (w : World ι κ) (k : κ) (api : API) (listUid : Str) (pick : ℕ)
    (m : Message) (pending : Pending) : Option (World ι κ) :=
  let c := w.client k
  (api.getShardEndpoint (D.clientPf k) listUid pick).map fun ep =>
    { w with
      client := Function.update w.client k
        { c with api, call := some (c.calls, pending), calls := c.calls + 1 }
      net := w.net ++ [.request k c.calls ep (.packed m)] }

/-- The exchange of `addItem`, `updateItem` and `removeItem`, once the list is changed. -/
def exchangeEdit (D : Deployment ι κ) (w : World ι κ) (k : κ) (edited : Except Exn ShoppingList)
    (now : UInt64) (pick : ℕ) : Option (World ι κ) :=
  match edited with
  | .error _ => none
  | .ok lst =>
    let api := (w.client k).api
    exchange D w k api lst.getUid pick (Message.ensureList api.origin now lst) (.edit lst)

/-- The requests of a `gossipState`, numbered from the client's next exchange. -/
def gossipRequests (k : κ) (calls : ℕ) (batches : List (Str × Message)) : List (Packet κ) :=
  batches.mapIdx fun j batch => .request k (calls + j) batch.1 (.packed batch.2)

/-- The end of a client's call, with the outcome of its exchange. -/
def finish (w : World ι κ) (k : κ) (pending : Pending) (reply : Option Message) : World ι κ :=
  let c := w.client k
  let done (r : Except Exn (ShoppingList × API)) : World ι κ :=
    match r with
    | .ok (_, api) => w.setClient k { c with api, call := none }
    | .error _ => w.setClient k { c with call := none }
  match pending with
  | .create => w.setClient k { c with call := none }
  | .delete => w.setClient k { c with call := none }
  | .edit lst => done (c.api.finishEdit lst reply .ok)
  | .get _ found => done (c.api.finishGet found reply .ok)

/-- One step; `none` if the action is not possible. -/
def step (D : Deployment ι κ) (w : World ι κ) : Action ι κ → Option (World ι κ)
  | .start i now =>
    let s := w.node i
    if s.running then none
    else some (w.settle i none (Node.enterLoop (D.pf i) now (Node.new (D.cfg i) s.node.db now)))
  | .stop i => some (w.place i (w.node i).node false none)
  | .clientFrame i p now =>
    let s := w.node i
    match w.net[p]? with
    | some (.request k c dest frame) =>
      if s.running ∧ dest = s.node.cfg.clientAddr then
        some (w.settle i (some (k, c)) (s.node.handleClientFrame (D.pf i) { now } frame))
      else none
    | _ => none
  | .gossipFrame i p now =>
    let s := w.node i
    match w.net[p]? with
    | some (.gossip dests frame) =>
      if s.running ∧ s.node.cfg.gossipAddr ∈ dests then
        some (w.settle i none (s.node.handleGossipFrame (D.pf i) { now } frame))
      else none
    | _ => none
  | .discoveryFrame i p =>
    let s := w.node i
    match w.net[p]? with
    | some (.discovery dests frame) =>
      if s.running ∧ s.node.cfg.discoveryAddr ∈ dests then
        some (w.settle i none (s.node.handleDiscoveryFrame (D.pf i) frame))
      else none
    | _ => none
  | .stateTimer i now =>
    let s := w.node i
    if s.running then some (w.settle i none (s.node.wake (D.pf i) (.stateTimer now .ok))) else none
  | .discoveryTimer i evictNow gossipNow =>
    let s := w.node i
    if s.running then
      some (w.settle i none (s.node.wake (D.pf i) (.discoveryTimer evictNow gossipNow)))
    else none
  | .createShoppingList k name uid now pick =>
    let c := w.client k
    if c.call.isNone ∧ c.api.IsNewUid uid then
      let (lst, api) := c.api.createShoppingList name uid .ok
      exchange D w k api lst.getUid pick (Message.ensureList api.origin now lst) .create
    else none
  | .getShoppingList k listUid now pick =>
    let c := w.client k
    if c.call.isNone then
      exchange D w k c.api listUid pick (Message.getList c.api.origin now listUid)
        (.get listUid (c.api.db.read listUid .ok))
    else none
  | .addItem k listUid itemName desired current itemUid clock now pick =>
    let c := w.client k
    if c.call.isNone ∧ c.api.IsNewUid itemUid then
      exchangeEdit D w k
        (c.api.addItem listUid itemName desired current itemUid (ORSet.genTag clock) .ok) now pick
    else none
  | .updateItem k listUid itemUid itemName desired current clock now pick =>
    let c := w.client k
    if c.call.isNone then
      exchangeEdit D w k
        (c.api.updateItem listUid itemUid itemName desired current (ORSet.genTag clock) .ok) now pick
    else none
  | .removeItem k listUid itemUid now pick =>
    let c := w.client k
    if c.call.isNone then exchangeEdit D w k (c.api.removeItem listUid itemUid .ok) now pick
    else none
  | .deleteShoppingList k listUid now pick =>
    let c := w.client k
    if c.call.isNone then
      exchange D w k (c.api.deleteShoppingList listUid .ok) listUid pick
        (Message.deleteList c.api.origin now listUid) .delete
    else none
  | .gossipState k now pick =>
    let c := w.client k
    (c.api.gossipState (D.clientPf k) now pick .ok).map fun batches =>
      { w with
        client := Function.update w.client k { c with calls := c.calls + batches.length }
        net := w.net ++ gossipRequests k c.calls batches }
  | .updateCloudNodes k now pick =>
    let c := w.client k
    if c.refresh.isNone then
      (c.api.getAnyEndpoint pick).map fun ep =>
        { w with
          client := Function.update w.client k
            { c with refresh := some c.calls, calls := c.calls + 1 }
          net := w.net ++ [.request k c.calls ep (.packed (Message.getNodes c.api.origin now))] }
    else none
  | .reply k p =>
    match (w.client k).call, w.net[p]? with
    | some (call, pending), some (.reply k' call' frame) =>
      if k' = k ∧ call' = call then some (w.finish k pending (frame.decode (D.clientPf k))) else none
    | _, _ => none
  | .noReply k =>
    match (w.client k).call with
    | some (_, pending) => some (w.finish k pending none)
    | none => none
  | .nodesReply k p =>
    let c := w.client k
    match c.refresh, w.net[p]? with
    | some call, some (.reply k' call' frame) =>
      if k' = k ∧ call' = call then
        some (w.setClient k
          { c with api := c.api.finishUpdateCloudNodes (frame.decode (D.clientPf k)), refresh := none })
      else none
    | _, _ => none
  | .noNodesReply k =>
    let c := w.client k
    if c.refresh.isSome then
      some (w.setClient k
        { c with api := c.api.finishUpdateCloudNodes none, refresh := none })
    else none

end World

instance neZeroTwo : NeZero 2 := inferInstance

/-- Signed characters; ZMQ takes every endpoint. -/
def Platform.sample : Platform := ⟨true, fun _ => none, rfl, fun _ => true⟩

/-- Two nodes of one shard that know each other, and two clients. -/
def Deployment.sample : Deployment (Fin 2) (Fin 2) where
  pf _ := .sample
  clientPf _ := .sample
  cfg i :=
    { nodeId := [UInt8.ofNat i]
      host := str "h"
      clientPort := Int32.ofNat i
      gossipPullPort := Int32.ofNat (10 + i)
      discoveryPullPort := Int32.ofNat (20 + i)
      initialPeers := List.ofFn fun j : Fin 2 =>
        { nodeId := [UInt8.ofNat j]
          host := str "h"
          clientPort := Int32.ofNat j
          gossipPullPort := Int32.ofNat (10 + j)
          discoveryPullPort := Int32.ofNat (20 + j) }
      shardId := 0
      numShards := 1
      discoveryTimeoutMs := 8000 }
  origin k := [UInt8.ofNat k]
  table _ := AList.singleton 0 [endpoint (str "h") 0, endpoint (str "h") 1]

/-- A UID that `createUID` may return. -/
def sampleUid (n : ℕ) : Str := List.replicate 31 97 ++ [UInt8.ofNat (97 + n)]

end Shopping
