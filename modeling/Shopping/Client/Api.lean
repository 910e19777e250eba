import Shopping.Util
import Shopping.Message.Message
import Shopping.Persistence.SqliteDb

/-!
# `API`

The client (`client/api.{hpp,cpp}`). A call that goes to the cloud is split at
`sendCloudMessage`: what it does before the request is sent, and what it does with the
outcome, `none` standing for any exception (a timeout, a ZMQ error, a reply msgpack
refuses). Random choices (UIDs, the endpoint within a shard) and clock readings are
arguments.
-/

namespace Shopping

open Lib

/-- `class API`, without its socket. -/
structure API where
  origin : Str
  db : SqliteDb := {}
  shardEndpoints : UMap Int32 (List Str) := ∅

namespace API

/-- The alphabet of `createUID`. -/
def uidChars : Str := str "abcdefghijklmnopqrstuvwxyzABCDEFGHIJKLMNOPQRSTUVWXYZ0123456789"

/-- What `createUID()` may return: 32 letters and digits, under which no list is stored. -/
def IsNewUid (a : API) (uid : Str) : Prop :=
  uid.length = 32 ∧ (∀ c ∈ uid, c ∈ uidChars) ∧ (a.db.read uid .ok).isNone = true

instance (a : API) (uid : Str) : Decidable (a.IsNewUid uid) :=
  inferInstanceAs (Decidable (_ ∧ _ ∧ _))

/-- `Util::getHash(uid) % shardEndpoints.size()`, converted to `int`. -/
def shardOf (pf : Platform) (a : API) (listUid : Str) : Int32 :=
  Int32.ofNat (Util.getHash pf.charSigned listUid % a.shardEndpoints.keys.length)

/-- `string getShardEndpoint(const string& listUID)`, `pick` being the random index; `none`
where the code divides by zero or draws from an empty range. -/
def getShardEndpoint (pf : Platform) (a : API) (listUid : Str) (pick : ℕ) : Option Str :=
  ((a.shardEndpoints.lookup (a.shardOf pf listUid)).getD [])[pick]?

/-- `string getShardEndpoint()`: any endpoint of any shard. -/
def getAnyEndpoint (a : API) (pick : ℕ) : Option Str :=
  (a.shardEndpoints.entries.flatMap fun shard => shard.2)[pick]?

/-- `createShoppingList(name)` up to the request: the list, and the store after the write. -/
def createShoppingList (a : API) (name uid : Str) (c : Calls) : ShoppingList × API :=
  let lst := ShoppingList.new uid name
  (lst, { a with db := (a.db.write lst c).1 })

/-- `addItem(..)` up to the request: the list with the new item. -/
def addItem (a : API) (listUid itemName : Str) (desiredQuantity currentQuantity : Int32)
    (itemUid tag : Str) (c : Calls) : Except Exn ShoppingList :=
  match a.db.read listUid c with
  | none => .error (.runtimeError "List not found")
  | some lst =>
    lst.add (ShoppingItem.new a.origin itemUid itemName desiredQuantity.toUInt32
      currentQuantity.toUInt32) tag

/-- The changes `updateItem` makes to a list: through the reference to the item, then
`update`, which tags it again. -/
def editItem (lst : ShoppingList) (origin itemUid itemName : Str)
    (desiredQuantity currentQuantity : Int32) (tag : Str) : Except Exn ShoppingList := do
  let (key, item) ← lst.getItem itemUid
  let item := item.setName itemName
  let item := item.setDesiredQuantity origin desiredQuantity.toUInt32
  let item := item.setCurrentQuantity origin currentQuantity.toUInt32
  (lst.setItem key item).update item tag

/-- `updateItem(..)` up to the request. -/
def updateItem (a : API) (listUid itemUid itemName : Str) (desiredQuantity currentQuantity : Int32)
    (tag : Str) (c : Calls) : Except Exn ShoppingList :=
  match a.db.read listUid c with
  | none => .error (.runtimeError "List not found")
  | some lst => editItem lst a.origin itemUid itemName desiredQuantity currentQuantity tag

/-- The change `removeItem` makes to a list. -/
def dropItem (lst : ShoppingList) (itemUid : Str) : Except Exn ShoppingList := do
  let (_, item) ← lst.getItem itemUid
  pure (lst.remove item)

/-- `removeItem(..)` up to the request. -/
def removeItem (a : API) (listUid itemUid : Str) (c : Calls) : Except Exn ShoppingList :=
  match a.db.read listUid c with
  | none => .error (.runtimeError "List not found")
  | some lst => dropItem lst itemUid

/-- The end of `addItem`, `updateItem` and `removeItem`: merge the list of a
`LIST_RESPONSE`, write, return. A throw of the merge is caught and its partial result
written. -/
def finishEdit (a : API) (lst : ShoppingList) (reply : Option Message) (c : Calls) :
    Except Exn (ShoppingList × API) :=
  let store (lst : ShoppingList) := (lst, { a with db := (a.db.write lst c).1 })
  match reply with
  | some m =>
    if m.op = .listResponse then
      match m.lists with
      | [] => .error .emptyIndex
      | l :: _ =>
        match lst.merge l with
        | .ok merged => .ok (store merged)
        | .error (_, merged) => .ok (store merged)
    else .ok (store lst)
  | none => .ok (store lst)

/-- The end of `getShoppingList`, `found` being what the store held before the request. -/
def finishGet (a : API) (found : Option ShoppingList) (reply : Option Message) (c : Calls) :
    Except Exn (ShoppingList × API) :=
  let store (lst : ShoppingList) := (lst, { a with db := (a.db.write lst c).1 })
  let cloud : Except Exn (Option ShoppingList) := match reply with
    | some m =>
      if m.op = .listResponse then
        match m.lists with
        | [] => .error .emptyIndex
        | l :: _ => .ok (some l)
      else .ok none
    | none => .ok none
  match cloud with
  | .error e => .error e
  | .ok cloud =>
    match cloud, found with
    | none, none => .error (.runtimeError "List not found")
    | some l, some mine =>
      match mine.merge l with
      | .ok merged => .ok (store merged)
      | .error (e, _) => .error e
    | some l, none => .ok (store l)
    | none, some mine => .ok (store mine)

/-- `deleteShoppingList(listUID)` up to the request. -/
def deleteShoppingList (a : API) (listUid : Str) (c : Calls) : API :=
  { a with db := (a.db.deleteList listUid c).1 }

/-- The grouping of `gossipState`: `shardLists[shard].push_back(lst)` for every list. -/
def gossipBatches (pf : Platform) (a : API) (allLists : List ShoppingList) :
    UMap Int32 (List ShoppingList) :=
  allLists.foldl
    (fun shardLists lst =>
      let shard := a.shardOf pf lst.getUid
      shardLists.insert shard ((shardLists.lookup shard).getD [] ++ [lst])) ∅

/-- `gossipState()`: the requests, with the endpoint of the shard of each batch's first
list. -/
def gossipState (pf : Platform) (a : API) (now : UInt64) (pick : Int32 → ℕ) (c : Calls) :
    Option (List (Str × Message)) :=
  (gossipBatches pf a (a.db.readAll c)).entries.mapM fun batch => do
    let first ← batch.2.head?
    let ep ← a.getShardEndpoint pf first.getUid (pick batch.1)
    pure (ep, Message.gossipLists a.origin now batch.2)

/-- `updateCloudNodes()` after the exchange. The loop that clears the endpoints runs over
copies of the entries, so the table still holds all of them here. -/
def finishUpdateCloudNodes (a : API) (reply : Option Message) : API :=
  match reply with
  | some m =>
    if m.op = .nodesResponse then
      { a with
        shardEndpoints := m.nodes.foldl
          (fun table info =>
            table.insert info.shardId
              ((table.lookup info.shardId).getD [] ++ [endpoint info.host info.clientPort]))
          a.shardEndpoints }
    else a
  | none => a

/-- `void updateCloudNodes()`: a `GET_NODES` to any endpoint of the table, `exchange` being
what `sendCloudMessage` makes of it. -/
def updateCloudNodes (a : API) (now : UInt64) (pick : ℕ)
    (exchange : Str → Message → Option Message) : Option API :=
  (a.getAnyEndpoint pick).map fun ep =>
    a.finishUpdateCloudNodes (exchange ep (Message.getNodes a.origin now))

end API

end Shopping
