import Shopping.Lib.Threads
import Shopping.Client.Api
import Shopping.Client.Socket

/-!
# The client's threads

`main` of `client/client.cpp` runs three threads on one `API`: the worker that serves the HTTP
requests one by one, one that gossips and one that refreshes the endpoint table. Here the methods
of `API` (`client/api.cpp`) are code of such threads: every access to a member is a step of its
own, every ZMQ call one on `clientSocket`, and the locks are those of the source.

What a call takes from outside (clock readings, random choices, how its ZMQ calls go) is an argument
of it; each of these is taken to return, and no SQLite call fails. Code is `undefined` where the
source divides by the size of an empty table, draws an endpoint from an empty row or reads
`lists[0]` of no lists, and where `createUID` is given no free string.
-/

namespace Shopping

open Lib

namespace Client

/-- `std::mutex socketMutex, dbMutex` and `std::shared_mutex shardMutex`. -/
inductive Mutex
  | socketMutex
  | dbMutex
  | shardMutex
  deriving DecidableEq

/-- The members of `API` that change. `clientSocket` goes with `currentEndpoint`. -/
inductive Object
  | clientSocket
  | db
  | shardEndpoints
  | randomEngine
  deriving DecidableEq

/-- Nothing of `randomEngine` is kept: what is drawn from it is an argument. -/
abbrev Object.Ty : Object → Type
  | clientSocket => API.Socket
  | db => SqliteDb
  | shardEndpoints => UMap Int32 (List Str)
  | randomEngine => Unit

abbrev Code := Proc Mutex Object.Ty

/-- Code that may throw. -/
abbrev Throwing := ExceptT Exn Code

/-- What a method that may throw returns, and the object it leaves. -/
def outcome {σ α : Type} : Throws σ (α × σ) → Except Exn α × σ
  | .ok (a, s) => (.ok a, s)
  | .error (e, s) => (.error e, s)

def readDb : Code SqliteDb := Proc.get Object.db

def readTable : Code (UMap Int32 (List Str)) := Proc.get Object.shardEndpoints

/-- An access to the socket that may throw. -/
def onSocket {α : Type} (f : API.Socket → Throws API.Socket (α × API.Socket)) : Throwing α :=
  ExceptT.mk (Proc.modifyGet .clientSocket fun a => outcome (f a))

/-- One that returns nothing. -/
def withSocket (f : API.Socket → Throws API.Socket API.Socket) : Throwing Unit :=
  onSocket fun a => (f a).map fun a => ((), a)

def currentEndpoint : Throwing Str := onSocket fun a => .ok (a.currentEndpoint, a)

section

variable (pf : Platform) (answer : Request Str Message → Frame) (origin : Str)

/-- `void setNodeEndpoint(const std::string& nodeEndpoint)`. -/
def setNodeEndpoint (nodeEndpoint : Str) (o : API.CloudCalls) : Throwing Unit := do
  let current ← currentEndpoint
  if current = nodeEndpoint then pure ()
  else do
    (if current = [] then pure ()
      else withSocket fun a => a.zmq (a.clientSocket.disconnect current o.disconnect))
    withSocket fun a => a.connect pf nodeEndpoint o.connect
    withSocket fun a => pure { a with currentEndpoint := nodeEndpoint }

/-- `void resetSocket()`. -/
def resetSocket (o : API.ResetCalls) : Throwing Unit := do
  withSocket fun a => a.zmq (a.clientSocket.set o.setLinger)
  withSocket fun a => pure { a with clientSocket := a.clientSocket.close }
  withSocket fun a => a.zmq (a.clientSocket.create o.create)
  withSocket fun a => a.zmq (a.clientSocket.set o.setSndtimeo)
  withSocket fun a => a.zmq (a.clientSocket.set o.setRcvtimeo)
  let current ← currentEndpoint
  if current = [] then pure () else withSocket fun a => a.connect pf current o.connect

/-- The `try` block of `sendCloudMessage` from the receive on. -/
def received (receiverAddress : Str) (m : Message) (o : API.CloudCalls) :
    Option (Request Str Message) → Throwing Message
  | none => do
    resetSocket pf o.timeoutReset
    throw (.runtimeError (API.Socket.errMsg m receiverAddress))
  | some request =>
    match (answer request).decode pf with
    | none => throw .msgpackError
    | some reply => pure reply

/-- The `try` block of `sendCloudMessage`. -/
def exchange (receiverAddress : Str) (m : Message) (o : API.CloudCalls) : Throwing Message := do
  let _ ← onSocket fun a => a.zmqGet (a.clientSocket.send m o.send)
  let result ← onSocket fun a => a.zmqGet (a.clientSocket.recv o.recv)
  received pf answer receiverAddress m o result

/-- The handlers of `sendCloudMessage`. -/
def caught (o : API.CloudCalls) : Except Exn Message → Throwing Message
  | .ok reply => pure reply
  | .error .zmqError => do
    resetSocket pf o.handlerReset
    throw (.runtimeError o.what)
  | .error (.runtimeError what) => throw (.runtimeError what)
  | .error _ => throw (.runtimeError o.what)

/-- The block that holds `socketMutex`. -/
def sendCloudMessageBlock (receiverAddress : Str) (m : Message) (o : API.CloudCalls) :
    Throwing Message := do
  setNodeEndpoint pf receiverAddress o
  let r ← ExceptT.lift (exchange pf answer receiverAddress m o).run
  caught pf o r

/-- `Message sendCloudMessage(std::string receiverAddress, const Message& m)`. -/
def sendCloudMessage (receiverAddress : Str) (m : Message) (o : API.CloudCalls) :
    Code (Except Exn Message) :=
  Proc.locked .socketMutex .exclusive (sendCloudMessageBlock pf answer receiverAddress m o).run

/-- A draw from `randomEngine`. -/
def draw : Code Unit := .update .randomEngine id fun _ => .ret ()

/-- `endpoints[dist(randomEngine)]`, where `dist` ranges over the indices of `endpoints`, if there
are any. -/
def drawn (endpoints : List Str) (pick : ℕ) : Code Str :=
  match endpoints[pick % endpoints.length]? with
  | some ep => do
    draw
    pure ep
  | none => .undefined

/-- The table with an empty row for the shard, if it has none. -/
def insertRow (shard : Int32) (table : UMap Int32 (List Str)) : UMap Int32 (List Str) :=
  if shard ∈ table then table else table.insert shard []

/-- `shardEndpoints[shard]`: a row that is not found is inserted, and is empty. -/
def row (shard : Int32) : Code (List Str) := do
  let table ← readTable
  match table.lookup shard with
  | some endpoints => pure endpoints
  | none => Proc.modifyGet .shardEndpoints fun table => ([], insertRow shard table)

/-- `string getShardEndpoint(const string& listUID)`. -/
def getShardEndpoint (listUid : Str) (pick : ℕ) : Code Str :=
  Proc.locked .shardMutex .shared do
    let table ← readTable
    if table.keys = [] then .undefined
    else
      let endpoints ← row (({ origin, shardEndpoints := table } : API).shardOf pf listUid)
      drawn endpoints pick

/-- `string getShardEndpoint()`. -/
def getAnyEndpoint (pick : ℕ) : Code Str :=
  Proc.locked .shardMutex .shared do
    let table ← readTable
    drawn (table.entries.flatMap fun shard => shard.2) pick

/-- `string createUID(size_t length = 32)`, given the strings it draws, of which one is free. -/
def createUID : List Str → Code Str
  | [] => .undefined
  | id :: ids => do
    draw
    let db ← readDb
    if (db.read id .ok).isSome then createUID ids else pure id

/-- What one exchange of a call takes from outside. -/
structure Ask where
  now : UInt64
  pick : ℕ
  calls : API.CloudCalls

/-- `sendCloudMessage(getShardEndpoint(listUID), m)`, with an empty handler of all exceptions. -/
def ask (listUid : Str) (m : Message) (x : Ask) : Code (Option Message) := do
  let ep ← getShardEndpoint pf origin listUid x.pick
  let reply ← sendCloudMessage pf answer ep m x.calls
  pure reply.toOption

/-- `reply.lists[0]` of a `LIST_RESPONSE`. -/
def cloudList : Option Message → Code (Option ShoppingList)
  | none => pure none
  | some reply =>
    if reply.op = .listResponse then
      match reply.lists with
      | [] => .undefined
      | l :: _ => pure (some l)
    else pure none

/-- `db->write(lst)` in its block. -/
def write (lst : ShoppingList) : Code Unit :=
  Proc.locked .dbMutex .exclusive (Proc.modifyGet .db fun db => ((), (db.write lst .ok).1))

/-- What an HTTP call returns, or throws; no list where the method is `void`. -/
abbrev Result := Except Exn (Option ShoppingList)

/-- `return lst`, once it is stored. -/
def stored (lst : ShoppingList) : Code Result := do
  write lst
  pure (.ok (some lst))

/-- `addItem`, `updateItem` and `removeItem` from the exchange on. -/
def finishEdit (lst : ShoppingList) (x : Ask) : Code Result := do
  let reply ← ask pf answer origin lst.getUid (Message.ensureList origin x.now lst) x
  match ← cloudList reply with
  | some l => stored (Throws.state (lst.merge l))
  | none => stored lst

/-- The same, once the list is changed. -/
def edit (x : Ask) : Except Exn ShoppingList → Code Result
  | .error e => pure (.error e)
  | .ok lst => finishEdit pf answer origin lst x

/-- `ShoppingList createShoppingList(const string& name)`. -/
def createShoppingList (name : Str) (ids : List Str) (x : Ask) : Code Result := do
  let uid ← createUID ids
  let lst := ShoppingList.new uid name
  write lst
  let _ ← ask pf answer origin lst.getUid (Message.ensureList origin x.now lst) x
  pure (.ok (some lst))

/-- `ShoppingList getShoppingList(const string& listUID)`. -/
def getShoppingList (listUid : Str) (x : Ask) : Code Result := do
  let db ← readDb
  let reply ← ask pf answer origin listUid (Message.getList origin x.now listUid) x
  match ← cloudList reply, db.read listUid .ok with
  | none, none => pure (.error (.runtimeError "List not found"))
  | some l, some mine =>
    match mine.merge l with
    | .ok lst => stored lst
    | .error (e, _) => pure (.error e)
  | some l, none => stored l
  | none, some mine => stored mine

/-- `ShoppingList addItem(..)`. -/
def addItem (listUid itemName : Str) (desiredQuantity currentQuantity : Int32) (ids : List Str)
    (tag : Str) (x : Ask) : Code Result := do
  let db ← readDb
  match db.read listUid .ok with
  | none => pure (.error (.runtimeError "List not found"))
  | some lst => do
    let itemUid ← createUID ids
    edit pf answer origin x (lst.add (ShoppingItem.new origin itemUid itemName
      desiredQuantity.toUInt32 currentQuantity.toUInt32) tag)

/-- `ShoppingList updateItem(..)`. -/
def updateItem (listUid itemUid itemName : Str) (desiredQuantity currentQuantity : Int32)
    (tag : Str) (x : Ask) : Code Result := do
  let db ← readDb
  edit pf answer origin x
    (({ origin, db } : API).updateItem listUid itemUid itemName desiredQuantity currentQuantity tag
      .ok)

/-- `ShoppingList removeItem(..)`. -/
def removeItem (listUid itemUid : Str) (x : Ask) : Code Result := do
  let db ← readDb
  edit pf answer origin x (({ origin, db } : API).removeItem listUid itemUid .ok)

/-- `void deleteShoppingList(const string& listUID)`. -/
def deleteShoppingList (listUid : Str) (x : Ask) : Code Result := do
  Proc.locked .dbMutex .exclusive
    (Proc.modifyGet .db fun db => ((), (db.deleteList listUid .ok).1))
  let _ ← ask pf answer origin listUid (Message.deleteList origin x.now listUid) x
  pure (.ok none)

/-- The loop that fills `shardLists`. It reads the size of the table without the lock. -/
def groupLists : List ShoppingList → UMap Int32 (List ShoppingList) →
    Code (UMap Int32 (List ShoppingList))
  | [], shardLists => pure shardLists
  | lst :: rest, shardLists => do
    let table ← readTable
    if table.keys = [] then .undefined
    else
      let shard := ({ origin, shardEndpoints := table } : API).shardOf pf lst.getUid
      groupLists rest (shardLists.insert shard ((shardLists.lookup shard).getD [] ++ [lst]))

/-- The loop that sends the batches. -/
def sendBatches (x : Int32 → Ask) : List (Int32 × List ShoppingList) → Code Unit
  | [] => pure ()
  | (_, []) :: _ => .undefined
  | (shard, first :: lists) :: rest => do
    let ep ← getShardEndpoint pf origin first.getUid (x shard).pick
    let m := Message.gossipLists origin (x shard).now (first :: lists)
    let _ ← sendCloudMessage pf answer ep m (x shard).calls
    sendBatches x rest

/-- `void gossipState()`. -/
def gossipState (x : Int32 → Ask) : Code Result := do
  let db ← Proc.locked .dbMutex .exclusive readDb
  let shardLists ← groupLists pf origin (db.readAll .ok) ∅
  sendBatches pf answer origin x (shardLists.entries.map fun batch => (batch.1, batch.2))
  pure (.ok none)

/-- `shardEndpoints[nodeInfo.shardId].push_back(addr)`. -/
def addNode (table : UMap Int32 (List Str)) (info : NodeInfo) : UMap Int32 (List Str) :=
  table.insert info.shardId
    ((table.lookup info.shardId).getD [] ++ [endpoint info.host info.clientPort])

/-- The loop over the nodes of a `NODES_RESPONSE`. -/
def addNodes : List NodeInfo → Code Unit
  | [] => pure ()
  | info :: rest => do
    Proc.modifyGet .shardEndpoints fun table => ((), addNode table info)
    addNodes rest

/-- What `updateCloudNodes` does with the reply, or the exception. -/
def useNodes : Except Exn Message → Code Unit
  | .ok reply => if reply.op = .nodesResponse then addNodes reply.nodes else pure ()
  | .error _ => pure ()

/-- `void updateCloudNodes()`. The loop that clears the endpoints runs over copies of the rows. -/
def updateCloudNodes (x : Ask) : Code Result := do
  let ep ← getAnyEndpoint x.pick
  Proc.locked .shardMutex .exclusive do
    let _ ← readTable
    let reply ← sendCloudMessage pf answer ep (Message.getNodes origin x.now) x.calls
    useNodes reply
  pure (.ok none)

end

inductive Thread
  | http
  | gossip
  | nodeUpdate
  deriving DecidableEq

instance : Fintype Thread := ⟨{.http, .gossip, .nodeUpdate}, fun t => by cases t <;> decide⟩

/-- The calls of `API` that its threads make. -/
inductive Call
  | createShoppingList (name : Str) (ids : List Str) (x : Ask)
  | getShoppingList (listUid : Str) (x : Ask)
  | addItem (listUid itemName : Str) (desiredQuantity currentQuantity : Int32) (ids : List Str)
      (clock : ℤ) (x : Ask)
  | updateItem (listUid itemUid itemName : Str) (desiredQuantity currentQuantity : Int32)
      (clock : ℤ) (x : Ask)
  | removeItem (listUid itemUid : Str) (x : Ask)
  | deleteShoppingList (listUid : Str) (x : Ask)
  | gossipState (x : Int32 → Ask)
  | updateCloudNodes (x : Ask)

namespace Call

def thread : Call → Thread
  | gossipState _ => .gossip
  | updateCloudNodes _ => .nodeUpdate
  | _ => .http

def code (pf : Platform) (answer : Request Str Message → Frame) (origin : Str) :
    Call → Code Result
  | createShoppingList name ids x => Client.createShoppingList pf answer origin name ids x
  | getShoppingList listUid x => Client.getShoppingList pf answer origin listUid x
  | addItem listUid itemName desiredQuantity currentQuantity ids clock x =>
    Client.addItem pf answer origin listUid itemName desiredQuantity currentQuantity ids
      (ORSet.genTag clock) x
  | updateItem listUid itemUid itemName desiredQuantity currentQuantity clock x =>
    Client.updateItem pf answer origin listUid itemUid itemName desiredQuantity currentQuantity
      (ORSet.genTag clock) x
  | removeItem listUid itemUid x => Client.removeItem pf answer origin listUid itemUid x
  | deleteShoppingList listUid x => Client.deleteShoppingList pf answer origin listUid x
  | gossipState x => Client.gossipState pf answer origin x
  | updateCloudNodes x => Client.updateCloudNodes pf answer origin x

end Call

/-- A client. -/
abbrev State := Pool Thread Mutex Object.Ty Result

/-- Before the first call: an open socket, the database of a file, the constructor's table. -/
def State.start (db : SqliteDb) (table : UMap Int32 (List Str)) : State where
  proc _ := .ret (.ok none)
  held _ _ := none
  mem
    | .clientSocket => API.Socket.new
    | .db => db
    | .shardEndpoints => table
    | .randomEngine => ()

/-- What a client can do next: one of its threads begins a call, or takes a turn. -/
inductive Act
  | call (c : Call)
  | turn (t : Thread)

def State.step (pf : Platform) (answer : Request Str Message → Frame) (origin : Str) (s : State) :
    Act → Option State
  | .call c => s.call c.thread (c.code pf answer origin)
  | .turn t => s.turn t

end Client

end Shopping
