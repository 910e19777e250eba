import Shopping.Model.ShoppingList

/-!
# Messages

The messages between clients and nodes (`message/message.{hpp,cpp}`) and the
frames that carry them. A frame is either a packed message or bytes of another
origin; `Frame.decode` is `from_zmq`, with msgpack's reading of foreign bytes as a
parameter.
-/

namespace Shopping

/-- `enum class OpType : uint8_t`. The wire may carry any value of the underlying
type. -/
inductive OpType
  | ensureList
  | deleteList
  | getList
  | listResponse
  | noListResponse
  | gossipLists
  | gossipNodes
  | getNodes
  | nodesResponse
  | other (code : UInt8) (unlisted : code = 0 ∨ 9 < code)
  deriving DecidableEq

/-- The value of the underlying type. -/
def OpType.code : OpType → UInt8
  | ensureList => 1
  | deleteList => 2
  | getList => 3
  | listResponse => 4
  | noListResponse => 5
  | gossipLists => 6
  | gossipNodes => 7
  | getNodes => 8
  | nodesResponse => 9
  | other code _ => code

/-- `struct NodeInfo`. -/
structure NodeInfo where
  nodeId : Str := []
  host : Str := []
  shardId : Int32 := 0
  clientPort : Int32 := 0
  gossipPullPort : Int32 := 0
  discoveryPullPort : Int32 := 0
  lastSeenTs : UInt64 := 0
  deriving DecidableEq

instance : Inhabited NodeInfo := ⟨{}⟩

/-- `struct Message`. -/
structure Message where
  op : OpType
  origin : Str
  ts : UInt64
  lists : List ShoppingList := []
  nodes : List NodeInfo := []

namespace Message

def ensureList (origin : Str) (ts : UInt64) (list : ShoppingList) : Message where
  op := .ensureList
  origin := origin
  ts := ts
  lists := [list]

def deleteList (origin : Str) (ts : UInt64) (listUid : Str) : Message where
  op := .deleteList
  origin := origin
  ts := ts
  lists := [ShoppingList.new listUid []]

def getList (origin : Str) (ts : UInt64) (listUid : Str) : Message where
  op := .getList
  origin := origin
  ts := ts
  lists := [ShoppingList.new listUid []]

def listResponse (isValidList : Bool) (origin : Str) (ts : UInt64) (list : ShoppingList) :
    Message where
  op := if isValidList then .listResponse else .noListResponse
  origin := origin
  ts := ts
  lists := [list]

def gossipLists (origin : Str) (ts : UInt64) (lists : List ShoppingList) : Message where
  op := .gossipLists
  origin := origin
  ts := ts
  lists := lists

def gossipNodes (origin : Str) (ts : UInt64) (nodes : List NodeInfo) : Message where
  op := .gossipNodes
  origin := origin
  ts := ts
  nodes := nodes

def getNodes (origin : Str) (ts : UInt64) : Message where
  op := .getNodes
  origin := origin
  ts := ts

def nodesResponse (origin : Str) (ts : UInt64) (nodes : List NodeInfo) : Message where
  op := .nodesResponse
  origin := origin
  ts := ts
  nodes := nodes

end Message

/-- The raw reply of a node that does not own the list. -/
def wrongShard : Str := str "WRONG_SHARD"

/-- What the sources leave to the platform and to third parties: the signedness of
`char`, how msgpack reads bytes that `to_zmq` did not pack (`none` if it throws; the
bytes of `WRONG_SHARD` start with an integer, which is no message), and the
endpoints ZMQ accepts. -/
structure Platform where
  charSigned : Bool
  unpack : Str → Option Message
  unpack_wrongShard : unpack wrongShard = none
  validEndpoint : Str → Bool

/-- A ZMQ frame: the bytes of a packed message, or others. -/
inductive Frame
  | packed (m : Message)
  | raw (bytes : Str)

/-- `Message::from_zmq`; `none` if msgpack throws. -/
def Frame.decode (pf : Platform) : Frame → Option Message
  | packed m => some m
  | raw bytes => pf.unpack bytes

@[simp] theorem Frame.decode_packed (pf : Platform) (m : Message) :
    (Frame.packed m).decode pf = some m := rfl

@[simp] theorem Frame.decode_wrongShard (pf : Platform) :
    (Frame.raw wrongShard).decode pf = none := pf.unpack_wrongShard

/-- The lists in a frame. -/
def Frame.lists : Frame → List ShoppingList
  | packed m => m.lists
  | raw _ => []

/-- A frame the program itself sends: a packed message or the raw reply. A `LIST_RESPONSE`
has a list. -/
def Frame.Proper (frame : Frame) : Prop :=
  frame = .raw wrongShard ∨ ∃ m, frame = .packed m ∧ (m.op = .listResponse → m.lists ≠ [])

/-- `"tcp://" + host + ":" + std::to_string(port)`. -/
def endpoint (host : Str) (port : Int32) : Str := str "tcp://" ++ host ++ str ":" ++ toStr port.toInt

end Shopping
