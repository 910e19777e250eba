import Shopping.Lib.ReqSocket
import Shopping.Message.Message

/-!
# The client's socket

`sendCloudMessage` and what it calls (`client/api.cpp`): the request socket of class `API` and
the endpoint it is believed to be connected to. `socketMutex` admits one call at a time, so a
run is a sequence of calls. How each call of ZMQ goes is an argument (`CloudCalls`); what a
request is answered with, if at all, is a function of the request. A reply is one frame, as
the nodes send it. Every ZMQ call is taken to return, also after a timeout could not be set.
-/

namespace Shopping

open Lib

/-- The bytes of a string as the characters of an error text. -/
def text (s : Str) : String := String.ofList (s.map fun c => Char.ofNat c.toNat)

namespace API

/-- The socket of `class API`. -/
structure Socket where
  clientSocket : ReqSocket Str Message
  currentEndpoint : Str := []

/-- How the ZMQ calls of a `resetSocket()` go; `close` does not throw. -/
structure ResetCalls where
  setLinger : Bool := true
  create : Bool := true
  setSndtimeo : Bool := true
  setRcvtimeo : Bool := true
  connect : Bool := true

/-- How the ZMQ calls of a `sendCloudMessage(..)` go. -/
structure CloudCalls where
  disconnect : Bool := true
  connect : Bool := true
  send : Sending := .goes 0
  recv : Receiving := .waits []
  /-- The reset after a receive that timed out. -/
  timeoutReset : ResetCalls := {}
  /-- The reset in the handler of `zmq::error_t`. -/
  handlerReset : ResetCalls := {}
  /-- `e.what()` of an exception of ZMQ or msgpack. -/
  what : String := ""

/-- A call of `sendCloudMessage`. -/
structure CloudCall where
  receiverAddress : Str
  m : Message
  calls : CloudCalls := {}

/-- The endpoints `connect` takes. -/
def Accepted (pf : Platform) (e : Str) : Prop := e ≠ [] ∧ pf.validEndpoint e = true

instance (pf : Platform) (e : Str) : Decidable (Accepted pf e) :=
  inferInstanceAs (Decidable (_ ∧ _))

namespace Socket

/-- After the constructor of `API`. -/
def new : Socket where
  clientSocket := { handle := some 0, opened := 1 }

/-- A ZMQ call that leaves the socket as given, or throws. -/
def zmq (a : Socket) : Option (ReqSocket Str Message) → Throws Socket Socket
  | some s => .ok { a with clientSocket := s }
  | none => .error (.zmqError, a)

/-- A ZMQ call with a result. -/
def zmqGet {α : Type} (a : Socket) :
    Option (α × ReqSocket Str Message) → Throws Socket (α × Socket)
  | some (x, s) => .ok (x, { a with clientSocket := s })
  | none => .error (.zmqError, a)

/-- `clientSocket.connect(..)`. -/
def connect (pf : Platform) (a : Socket) (e : Str) (ok : Bool) : Throws Socket Socket :=
  a.zmq (a.clientSocket.connect e (ok && decide (Accepted pf e)))

/-- `void setNodeEndpoint(const std::string& nodeEndpoint)`. -/
def setNodeEndpoint (pf : Platform) (a : Socket) (nodeEndpoint : Str) (o : CloudCalls) :
    Throws Socket Socket :=
  if a.currentEndpoint = nodeEndpoint then pure a
  else do
    let a ← (if a.currentEndpoint = [] then pure a
      else a.zmq (a.clientSocket.disconnect a.currentEndpoint o.disconnect))
    let a ← a.connect pf nodeEndpoint o.connect
    pure { a with currentEndpoint := nodeEndpoint }

/-- `void resetSocket()`. -/
def resetSocket (pf : Platform) (a : Socket) (o : ResetCalls) : Throws Socket Socket := do
  let a ← a.zmq (a.clientSocket.set o.setLinger)
  let a := { a with clientSocket := a.clientSocket.close }
  let a ← a.zmq (a.clientSocket.create o.create)
  let a ← a.zmq (a.clientSocket.set o.setSndtimeo)
  let a ← a.zmq (a.clientSocket.set o.setRcvtimeo)
  if a.currentEndpoint = [] then pure a else a.connect pf a.currentEndpoint o.connect

/-- The text of the timeout. -/
def errMsg (m : Message) (receiverAddress : Str) : String :=
  text (str "CLOUD TIMEOUT when sending <" ++ toStr m.op.code.toNat ++ str "> (op type) to " ++
    receiverAddress)

/-- The `try` block of `sendCloudMessage`. Whether the send timed out is not looked at. -/
def exchange (pf : Platform) (answer : Request Str Message → Frame) (a : Socket)
    (receiverAddress : Str) (m : Message) (o : CloudCalls) : Throws Socket (Message × Socket) := do
  let (_, a) ← a.zmqGet (a.clientSocket.send m o.send)
  let (result, a) ← a.zmqGet (a.clientSocket.recv o.recv)
  match result with
  | none =>
    let a ← a.resetSocket pf o.timeoutReset
    throw (.runtimeError (errMsg m receiverAddress), a)
  | some request =>
    match (answer request).decode pf with
    | none => throw (.msgpackError, a)
    | some reply => pure (reply, a)

/-- The handlers of `sendCloudMessage`. What `resetSocket` throws in the first one is not
caught. -/
def caught (pf : Platform) (o : CloudCalls) :
    Throws Socket (Message × Socket) → Throws Socket (Message × Socket)
  | .ok result => .ok result
  | .error (.zmqError, a) => do
    let a ← a.resetSocket pf o.handlerReset
    throw (.runtimeError o.what, a)
  | .error (.runtimeError what, a) => .error (.runtimeError what, a)
  | .error (_, a) => .error (.runtimeError o.what, a)

/-- `Message sendCloudMessage(std::string receiverAddress, const Message& m)`. What
`setNodeEndpoint` throws is not caught. -/
def sendCloudMessage (pf : Platform) (answer : Request Str Message → Frame) (a : Socket)
    (receiverAddress : Str) (m : Message) (o : CloudCalls) : Throws Socket (Message × Socket) := do
  let a ← a.setNodeEndpoint pf receiverAddress o
  caught pf o (a.exchange pf answer receiverAddress m o)

/-- The object a call leaves, however it ended. -/
def left : Throws Socket (Message × Socket) → Socket
  | .ok (_, a) => a
  | .error (_, a) => a

/-- The object after a call. -/
def after (pf : Platform) (answer : Request Str Message → Frame) (a : Socket) (x : CloudCall) :
    Socket :=
  left (a.sendCloudMessage pf answer x.receiverAddress x.m x.calls)

end Socket

end API

end Shopping
