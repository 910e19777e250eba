import Shopping.Lib.Msgpack
import Shopping.Message.Message
import Shopping.Persistence.SqliteDb

/-!
# Packing

What `MSGPACK_DEFINE` makes of the classes: each is packed as the array of its fields, in the
order listed, and converted field by field. In which orders maps and sets are listed is an
argument.

`toZmq` and `fromZmq` carry a message (`message/message.cpp`), the blobs of `BlobDb` a list
(`persistence/sqlite_db.cpp`). SQLite gives back the bytes of a blob it has stored.
-/

namespace Shopping

open Lib Lib.Msgpack

/-- An order for every set: that in which an `unordered_set` happens to list it, or an
`unordered_map` its keys. -/
structure SetOrder where
  list : Finset Str → List Str
  nodup : ∀ s, (list s).Nodup
  toFinset : ∀ s, (list s).toFinset = s

/-- The entries of a map in the order of their keys. -/
def SetOrder.entries {V : Type} (order : SetOrder) (m : UMap Str V) :
    List (Sigma fun _ : Str => V) :=
  (order.list m.keys.toFinset).filterMap fun k => (m.lookup k).map fun v => ⟨k, v⟩

/-- The orders in which a list is packed: of the items, of the UIDs in `addSet` (`false`) and
`removeSet` (`true`) and of the tags of each, and of the origins in the `pos` (`false`) and `neg`
(`true`) of an item's `desiredQuantity` (`false`) and `currentQuantity` (`true`). -/
structure ListOrder where
  elements : SetOrder
  uids : Bool → SetOrder
  tags : Bool → Str → SetOrder
  counts : Str → Bool → Bool → SetOrder

def packUInt64 (n : UInt64) : Bytes := packInt n.toNat

def convertUInt64 : Converter UInt64 := convertInt 0 (2 ^ 64) fun z => UInt64.ofNat z.toNat

def packInt32 (n : Int32) : Bytes := packInt n.toInt

def convertInt32 : Converter Int32 := convertInt (-2 ^ 31) (2 ^ 31) Int32.ofInt

/-- `static_cast<OpType>(code)`. -/
def OpType.ofCode (code : UInt8) : OpType :=
  if h : code = 0 ∨ 9 < code then .other code h
  else if code = 1 then .ensureList
  else if code = 2 then .deleteList
  else if code = 3 then .getList
  else if code = 4 then .listResponse
  else if code = 5 then .noListResponse
  else if code = 6 then .gossipLists
  else if code = 7 then .gossipNodes
  else if code = 8 then .getNodes
  else .nodesResponse

/-- `MSGPACK_ADD_ENUM(message::OpType)`. -/
def OpType.pack (op : OpType) : Bytes := packInt op.code.toNat

def OpType.convert : Converter OpType :=
  convertInt 0 (2 ^ 8) fun z => OpType.ofCode (UInt8.ofNat z.toNat)

namespace PNCounter

def packCounts (order : SetOrder) (m : UMap Str UInt64) : Bytes :=
  packMap ((order.entries m).map fun e => (packStr e.1, packUInt64 e.2))

/-- `MSGPACK_DEFINE(pos, neg)`. -/
def pack (order : Bool → SetOrder) (c : PNCounter) : Bytes :=
  packArr [packCounts (order false) c.pos, packCounts (order true) c.neg]

def convert : Converter PNCounter := fun v c => do
  let vs ← fields v
  let pos ← convertField (convertMap convertUInt64) vs 0 c.pos
  let neg ← convertField (convertMap convertUInt64) vs 1 c.neg
  some { pos, neg }

end PNCounter

namespace ShoppingItem

/-- `MSGPACK_DEFINE(uid, name, desiredQuantity, currentQuantity)`. -/
def pack (order : Bool → Bool → SetOrder) (it : ShoppingItem) : Bytes :=
  packArr [packStr it.uid, packStr it.name, it.desiredQuantity.pack (order false),
    it.currentQuantity.pack (order true)]

def convert : Converter ShoppingItem := fun v it => do
  let vs ← fields v
  let uid ← convertField convertStr vs 0 it.uid
  let name ← convertField convertStr vs 1 it.name
  let desiredQuantity ← convertField PNCounter.convert vs 2 it.desiredQuantity
  let currentQuantity ← convertField PNCounter.convert vs 3 it.currentQuantity
  some { uid, name, desiredQuantity, currentQuantity }

end ShoppingItem

namespace ORSet

def packElements {T : Type} (packT : Str → T → Bytes) (order : SetOrder) (m : UMap Str T) : Bytes :=
  packMap ((order.entries m).map fun e => (packStr e.1, packT e.1 e.2))

def packTags (uids : SetOrder) (tags : Str → SetOrder) (m : UMap Str (Finset Str)) : Bytes :=
  packMap ((uids.entries m).map fun e =>
    (packStr e.1, packArr (((tags e.1).list e.2).map packStr)))

variable {T : Type}

/-- `MSGPACK_DEFINE(elements, addSet, removeSet)`. -/
def pack (packT : Str → T → Bytes) (order : ListOrder) (s : ORSet T) : Bytes :=
  packArr [packElements packT order.elements s.elements,
    packTags (order.uids false) (order.tags false) s.addSet,
    packTags (order.uids true) (order.tags true) s.removeSet]

def convert [Inhabited T] (convT : Converter T) : Converter (ORSet T) := fun v s => do
  let vs ← fields v
  let elements ← convertField (convertMap convT) vs 0 s.elements
  let addSet ← convertField (convertMap convertSet) vs 1 s.addSet
  let removeSet ← convertField (convertMap convertSet) vs 2 s.removeSet
  some { elements, addSet, removeSet }

end ORSet

namespace ShoppingList

/-- `MSGPACK_DEFINE(uid, name, items)`. -/
def pack (order : ListOrder) (l : ShoppingList) : Bytes :=
  packArr [packStr l.uid, packStr l.name,
    l.items.pack (fun uid => ShoppingItem.pack (order.counts uid)) order]

def convert : Converter ShoppingList := fun v l => do
  let vs ← fields v
  let uid ← convertField convertStr vs 0 l.uid
  let name ← convertField convertStr vs 1 l.name
  let items ← convertField (ORSet.convert ShoppingItem.convert) vs 2 l.items
  some { uid, name, items }

end ShoppingList

namespace NodeInfo

/-- `MSGPACK_DEFINE(nodeId, host, shardId, clientPort, gossipPullPort, discoveryPullPort,
lastSeenTs)`. -/
def pack (info : NodeInfo) : Bytes :=
  packArr [packStr info.nodeId, packStr info.host, packInt32 info.shardId, packInt32 info.clientPort,
    packInt32 info.gossipPullPort, packInt32 info.discoveryPullPort, packUInt64 info.lastSeenTs]

def convert : Converter NodeInfo := fun v info => do
  let vs ← fields v
  let nodeId ← convertField convertStr vs 0 info.nodeId
  let host ← convertField convertStr vs 1 info.host
  let shardId ← convertField convertInt32 vs 2 info.shardId
  let clientPort ← convertField convertInt32 vs 3 info.clientPort
  let gossipPullPort ← convertField convertInt32 vs 4 info.gossipPullPort
  let discoveryPullPort ← convertField convertInt32 vs 5 info.discoveryPullPort
  let lastSeenTs ← convertField convertUInt64 vs 6 info.lastSeenTs
  some { nodeId, host, shardId, clientPort, gossipPullPort, discoveryPullPort, lastSeenTs }

end NodeInfo

namespace Message

/-- `MSGPACK_DEFINE(op, origin, ts, lists, nodes)`; `order i` is for the `i`-th list. -/
def pack (order : ℕ → ListOrder) (m : Message) : Bytes :=
  packArr [m.op.pack, packStr m.origin, packUInt64 m.ts,
    packArr (m.lists.mapIdx fun i l => l.pack (order i)), packArr (m.nodes.map NodeInfo.pack)]

def convert : Converter Message := fun v m => do
  let vs ← fields v
  let op ← convertField OpType.convert vs 0 m.op
  let origin ← convertField convertStr vs 1 m.origin
  let ts ← convertField convertUInt64 vs 2 m.ts
  let lists ← convertField (convertVec ShoppingList.convert) vs 3 m.lists
  let nodes ← convertField (convertVec NodeInfo.convert) vs 4 m.nodes
  some { op, origin, ts, lists, nodes }

/-- `zmq::message_t to_zmq() const`, by its bytes. -/
def toZmq (order : ℕ → ListOrder) (m : Message) : Bytes := m.pack order

/-- `static Message from_zmq(const zmq::message_t &frame)`; `none` if msgpack throws. `Message m;`
leaves `op` and `ts` as they happen to be. -/
def fromZmq (op : OpType) (ts : UInt64) (frame : Bytes) : Option Message :=
  (unpack frame).bind fun v => convert v { op, origin := [], ts }

end Message

/-- `class SqliteDb`, by the blobs of its table. -/
structure BlobDb where
  rows : UMap Str Bytes := ∅

namespace BlobDb

/-- What `read` makes of a blob. -/
def readBlob (blob : Bytes) : Except Exn (Option ShoppingList) :=
  if blob = [] then .ok none
  else
    match (unpack blob).bind fun v => ShoppingList.convert v {} with
    | some list => .ok (some list)
    | none => .error .msgpackError

/-- `SQLITE_MAX_LENGTH`. -/
def maxLength : ℕ := 1000000000

/-- `sqlite3_bind_blob`, which takes the size as an `int`. A blob above the limit, or of a
negative size, which stands for one from `2^31` on, is refused, and NULL stays bound. -/
def bindBlob (blob : Bytes) : Option Bytes :=
  let size := blob.length % 2 ^ 32
  if size ≤ maxLength then some (blob.take size) else none

/-- `bool write(const ShoppingList& list)`. NULL is no `data`: the step fails. -/
def write (db : BlobDb) (order : ListOrder) (list : ShoppingList) (c : Calls) :
    BlobDb × Bool :=
  match bindBlob (list.pack order) with
  | some blob =>
    if c.both then ({ rows := db.rows.insert (cstr list.getUid) blob }, true) else (db, false)
  | none => (db, false)

/-- `optional<ShoppingList> read(const string& listId)`. -/
def read (db : BlobDb) (listId : Str) (c : Calls) : Except Exn (Option ShoppingList) :=
  if c.both then
    match db.rows.lookup (cstr listId) with
    | some blob => readBlob blob
    | none => .ok none
  else .ok none

/-- `bool delete_list(const string& listId)`. -/
def deleteList (db : BlobDb) (listId : Str) (c : Calls) : BlobDb × Bool :=
  if c.both then ({ rows := db.rows.erase (cstr listId) }, true) else (db, false)

/-- `vector<ShoppingList> read_all()`. The first blob that is refused ends it. -/
def readAll (db : BlobDb) (c : Calls) : Except Exn (List ShoppingList) :=
  if c.prepare then
    ((SqliteDb.scan c.step 0 (db.rows.entries.map fun row => row.2)).mapM readBlob).map
      List.reduceOption
  else .ok []

end BlobDb

end Shopping
