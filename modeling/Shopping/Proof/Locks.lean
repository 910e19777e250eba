import Shopping.Client.Threads
import Shopping.Node.Members
import Shopping.Proof.Socket

/-!
# How the client's threads share the API

The members of `API` under their locks (`discipline`): `socketMutex` guards the socket, `dbMutex`
the database, which only the HTTP thread writes and so reads without it, and `shardMutex` the
table, which only `nodeUpdateThread` writes. `socketMutex` is taken last.

* `performs_sendCloudMessage`: under `socketMutex`, a call of `sendCloudMessage` is the one of
  `Client/Socket.lean`. So no reply is the reply to another thread's request (`Replied.isReply`).
* `triple_getShardEndpoint`, `triple_getAnyEndpoint`: under `shardMutex` an endpoint is drawn; there
  is one to draw if the table is `Filled`. If there is not even a row, the thread that looks for it
  inserts one, and is at once where anything may happen: it spoils the table.
* `Sane.of_nodes`: nodes of no other shards than the client's table has never make a reply that
  leaves the table without a row, or a `LIST_RESPONSE` without a list.
-/

namespace Shopping.Client

open Lib API

/-- The table after an exchange of `updateCloudNodes`. -/
def refreshed (table : UMap Int32 (List Str)) (reply : Option Message) : UMap Int32 (List Str) :=
  (API.finishUpdateCloudNodes { origin := [], shardEndpoints := table } reply).shardEndpoints

/-- No reply, or the reply to `m`. -/
def IsReply (pf : Platform) (answer : Request Str Message → Frame) (m : Message)
    (reply : Option Message) : Prop :=
  ∀ r, reply = some r → ∃ request : Request Str Message,
    request.body = m ∧ (answer request).decode pf = some r

/-- No reply, or the reply to a `GET_NODES` of this client. -/
def ToGetNodes (pf : Platform) (answer : Request Str Message → Frame) (origin : Str)
    (reply : Option Message) : Prop :=
  ∃ now, IsReply pf answer (Message.getNodes origin now) reply

/-- `v` has a row of endpoints for each shard of `table`, and no other. -/
structure Filled (table v : UMap Int32 (List Str)) : Prop where
  length : v.keys.length = table.keys.length
  row : ∀ shard ∈ table.keys, (v.lookup shard).getD [] ≠ []

/-- `v` is `v'`, but for empty rows where `v'` has none. -/
def Widened (v' v : UMap Int32 (List Str)) : Prop :=
  ∀ shard, v.lookup shard = v'.lookup shard ∨ v'.lookup shard = none ∧ v.lookup shard = some []

/-- The shards of the first table are numbered from 0, and its rows have endpoints. The cloud names
no other shard, and no `LIST_RESPONSE` of it is without a list. -/
structure Sane (pf : Platform) (answer : Request Str Message → Frame)
    (table : UMap Int32 (List Str)) : Prop where
  ne : table.keys ≠ []
  numbered : ∀ n, n < table.keys.length → Int32.ofNat n ∈ table.keys
  row : ∀ shard ∈ table.keys, (table.lookup shard).getD [] ≠ []
  nodes : ∀ request m, (answer request).decode pf = some m → m.op = .nodesResponse →
    ∀ info ∈ m.nodes, info.shardId ∈ table.keys
  lists : ∀ request m, (answer request).decode pf = some m → m.op = .listResponse → m.lists ≠ []

/-- Who writes what under which lock, and what the others find. -/
def discipline (lax : Prop) (pf : Platform) (answer : Request Str Message → Frame) (origin : Str)
    (table : UMap Int32 (List Str)) : Discipline Thread Mutex Object.Ty where
  rank
    | .socketMutex => 1
    | .dbMutex => 0
    | .shardMutex => 0
  guard
    | .clientSocket => some .socketMutex
    | .db => some .dbMutex
    | .shardEndpoints => some .shardMutex
    | .randomEngine => none
  writer
    | .db => some .http
    | .shardEndpoints => some .nodeUpdate
    | _ => none
  -- `groupLists` takes the size of the table
  dirty t r := t = .gossip ∧ r = .shardEndpoints
  -- `getShardEndpoint` inserts a row that is missing
  spoils t r := lax ∧ t ≠ .nodeUpdate ∧ r = .shardEndpoints
  Inv
    | .clientSocket => fun a => ∃ calls : List CloudCall,
      a = calls.foldl (Socket.after pf answer) .new
    | .shardEndpoints => fun v => ∃ replies : List (Option Message),
      (∀ reply ∈ replies, ToGetNodes pf answer origin reply) ∧ v = replies.foldl refreshed table
    | .db => fun _ => True
    | .randomEngine => fun _ => True
  Remains
    | .shardEndpoints => fun v => ∃ replies : List (Option Message),
      (∀ reply ∈ replies, ToGetNodes pf answer origin reply) ∧
        Widened (replies.foldl refreshed table) v
    | .clientSocket => fun _ => True
    | .db => fun _ => True
    | .randomEngine => fun _ => True
  Always
    | .shardEndpoints => fun v => lax ∨ Filled table v
    | .clientSocket => fun _ => True
    | .db => fun _ => True
    | .randomEngine => fun _ => True
  lax := lax

variable {lax : Prop} {pf : Platform} {answer : Request Str Message → Frame} {origin : Str}
  {table : UMap Int32 (List Str)} {t : Thread} {h : Mutex → Option LockMode}

/-- What a lock guards. -/
def Mutex.object : Mutex → Object
  | socketMutex => .clientSocket
  | dbMutex => .db
  | shardMutex => .shardEndpoints

/-- Every mutex guards one object. -/
theorem guard_eq_some {r : Object} {m : Mutex} :
    (discipline lax pf answer origin table).guard r = some m ↔ r = m.object := by
  cases r <;> cases m <;> simp [discipline, Mutex.object]

/-- Only the table may be spoilt, by a row inserted under a shared lock. -/
theorem not_spoils {r : Object} (hr : r ≠ .shardEndpoints) :
    (discipline lax pf answer origin table).Firm r :=
  fun _ h => hr h.2.2

section

variable {v : UMap Int32 (List Str)}

/-- A refresh keeps the shards of the first table. -/
theorem Filled.mem_keys (hv : Filled table v) {shard : Int32} (hs : shard ∈ table.keys) :
    shard ∈ v.keys := by
  rw [← AList.mem_keys, ← AList.lookup_isSome]
  cases hl : v.lookup shard with
  | none => exact absurd (by rw [hl]; rfl) (hv.row shard hs)
  | some eps => rfl

/-- Adding a node to one of its rows keeps the table filled. -/
theorem Filled.addNode (hv : Filled table v) {info : NodeInfo} (hs : info.shardId ∈ table.keys) :
    Filled table (addNode v info) where
  length := by
    have hmem := hv.mem_keys hs
    rw [Client.addNode, AList.keys_insert, List.length_cons, List.length_erase_of_mem hmem,
      Nat.sub_add_cancel (List.length_pos_of_mem hmem), hv.length]
  row shard hshard := by
    unfold Client.addNode
    by_cases heq : shard = info.shardId
    · subst heq
      rw [AList.lookup_insert]
      simp
    · rw [AList.lookup_insert_ne heq]
      exact hv.row shard hshard

/-- An empty row more, where none was. -/
theorem Widened.insertRow {v' : UMap Int32 (List Str)} (hv : Widened v' v) (shard : Int32) :
    Widened v' (insertRow shard v) := by
  unfold Client.insertRow
  split
  · exact hv
  · rename_i hmem
    have hnone : v.lookup shard = none := AList.lookup_eq_none.2 hmem
    intro shard'
    by_cases heq : shard' = shard
    · subst heq
      rw [AList.lookup_insert]
      refine .inr ⟨?_, rfl⟩
      obtain h | ⟨h, -⟩ := hv shard'
      · rw [← h, hnone]
      · exact h
    · rw [AList.lookup_insert_ne heq]
      exact hv shard'

namespace Sane

variable (hs : Sane pf answer table)

include hs

/-- The first table is a sane one. -/
theorem filled : Filled table table := ⟨rfl, hs.row⟩

theorem keys_ne (hv : Filled table v) : v.keys ≠ [] := by
  intro hnil
  have hlen := hv.length
  rw [hnil] at hlen
  exact hs.ne (List.length_eq_zero_iff.1 hlen.symm)

/-- There is an endpoint for every list, also if the table has been added to since. -/
theorem shardRow (hv : Filled table v) {v' : UMap Int32 (List Str)} (hv' : Filled table v')
    (listUid : Str) :
    (v'.lookup (({ origin, shardEndpoints := v } : API).shardOf pf listUid)).getD [] ≠ [] := by
  refine hv'.row _ (hs.numbered _ ?_)
  rw [← hv.length]
  exact Nat.mod_lt _ (List.length_pos_iff.2 (hs.keys_ne hv))

/-- Some row has an endpoint, so one can be drawn from all of them. -/
theorem anyRow (hv : Filled table v) : (v.entries.flatMap fun shard => shard.2) ≠ [] := by
  obtain ⟨shard, hshard⟩ := List.exists_mem_of_ne_nil _ hs.ne
  have hrow := hv.row shard hshard
  cases hl : v.lookup shard with
  | none => exact absurd (by rw [hl]; rfl) hrow
  | some eps =>
    rw [hl] at hrow
    intro hnil
    exact hrow (List.flatMap_eq_nil_iff.1 hnil ⟨shard, eps⟩ (AList.mem_lookup_iff.1 hl))

end Sane

end

/-- What a node answers `request` that knows only nodes of the shards of `table`. -/
def NodeReply (pf : Platform) (table : UMap Int32 (List Str)) (request : Message) (reply : Frame) :
    Prop :=
  ∃ (env : Env) (n : Node), n.Knows (fun info => info.shardId ∈ table.keys) ∧ n.sent = [] ∧
    Sent.reply reply ∈ (n.handleClientFrame pf env (.packed request)).state.sent

/-- A node's answer is an error, or names the nodes it knows, or carries a list. -/
theorem NodeReply.cases {request : Message} {reply : Frame} (h : NodeReply pf table request reply) :
    reply = .raw wrongShard ∨ ∃ m, reply = .packed m ∧
      (∀ info ∈ m.nodes, info.shardId ∈ table.keys) ∧ (m.op = .listResponse → m.lists ≠ []) := by
  obtain ⟨env, n, hknows, hsent, hmem⟩ := h
  have hreply : ∀ {n : Node} {frame : Frame}, (∀ s ∈ n.sent, ∃ dests m, s = .gossip dests m) →
      Sent.reply reply ∈ (n.reply frame).sent → reply = frame := by
    intro n frame hgossip hmem
    rw [Node.reply_sent, List.mem_append, List.mem_singleton] at hmem
    obtain hmem | hmem := hmem
    · obtain ⟨dests, m, h⟩ := hgossip _ hmem
      cases h
    · exact Sent.reply.inj hmem
  have hnone : ∀ s ∈ n.sent, ∃ dests m, s = .gossip dests m := by
    rw [hsent]
    exact fun s hs => nomatch hs
  have hlist : ∀ (b : Bool) (origin : Str) (ts : UInt64) (l : ShoppingList),
      (∀ info ∈ (Message.listResponse b origin ts l).nodes, info.shardId ∈ table.keys) ∧
        ((Message.listResponse b origin ts l).op = .listResponse →
          (Message.listResponse b origin ts l).lists ≠ []) :=
    fun b origin ts l => ⟨(fun _ h => nomatch h), fun _ => List.cons_ne_nil _ _⟩
  have ht := Node.handleClientFrame_turn pf env n (.packed request)
  generalize n.handleClientFrame pf env (.packed request) = r at ht hmem
  cases ht with
  | undecodable hd => cases hd
  | nodes m hd hop =>
    refine .inr ⟨_, hreply hnone hmem, hknows.entries, fun h => ?_⟩
    cases h
  | empty m hd hop hl => rw [Throws.state, hsent] at hmem; cases hmem
  | refused m l ls hd hop hl hs => exact .inl (hreply hnone hmem)
  | found m l ls row hd hop hl hs hr => exact .inr ⟨_, hreply hnone hmem, hlist ..⟩
  | absent m l ls hd hop hl hs hr => exact .inr ⟨_, hreply hnone hmem, hlist ..⟩
  | thrown m l ls e db hd hop hop' hl hs ha =>
    rw [show (Throws.state (.error (e, { n with db }) : Method Node)).sent = n.sent from rfl,
      hsent] at hmem
    cases hmem
  | applied m l ls db hd hop hop' hl hs ha =>
    obtain ⟨new, he, hgossip⟩ := Node.eagerFanout_eq env { n with db }
    refine .inr ⟨_, hreply (fun s hs => ?_) hmem, hlist ..⟩
    rw [he] at hs
    obtain hs | hs := List.mem_append.1 hs
    · exact hnone s hs
    · obtain ⟨now, c, rfl⟩ := hgossip s hs
      exact ⟨_, _, rfl⟩

/-- **A cloud of nodes is sane** for a client, as long as its nodes are of the client's shards. -/
theorem Sane.of_nodes (hne : table.keys ≠ [])
    (hnumbered : ∀ n, n < table.keys.length → Int32.ofNat n ∈ table.keys)
    (hrow : ∀ shard ∈ table.keys, (table.lookup shard).getD [] ≠ [])
    (hnodes : ∀ request, NodeReply pf table request.body (answer request)) :
    Sane pf answer table where
  ne := hne
  numbered := hnumbered
  row := hrow
  nodes request m hm _ := by
    obtain hwrong | ⟨m', hm', hinfo, -⟩ := (hnodes request).cases
    · rw [hwrong, Frame.decode_wrongShard] at hm
      cases hm
    · rw [hm', Frame.decode_packed] at hm
      cases hm
      exact hinfo
  lists request m hm := by
    obtain hwrong | ⟨m', hm', -, hlists⟩ := (hnodes request).cases
    · rw [hwrong, Frame.decode_wrongShard] at hm
      cases hm
    · rw [hm', Frame.decode_packed] at hm
      cases hm
      exact hlists

section

variable (D : Discipline Thread Mutex Object.Ty) (t : Thread) (h : Mutex → Option LockMode)

/-- Under the locks `h`, the code is the method `f` of the socket. -/
def Performs {α : Type} (p : Throwing α) (f : Socket → Throws Socket (α × Socket)) : Prop :=
  D.Does t h .clientSocket p.run fun a => outcome (f a)

variable {D t h} {α β : Type}

theorem Performs.congr {p : Throwing α} {f f' : Socket → Throws Socket (α × Socket)}
    (hp : Performs D t h p f) (hf : ∀ a, f a = f' a) : Performs D t h p f' := by
  rwa [← funext hf]

theorem Performs.pure (a : α) : Performs D t h (pure a) fun s => .ok (a, s) := Discipline.Does.ret _

/-- An exception leaves the socket as it is. -/
theorem Performs.throw (e : Exn) :
    Performs D t h (throw e : Throwing α) fun s => .error (e, s) := Discipline.Does.ret _

/-- What `outcome` has taken apart. -/
def joined : Except Exn α → Socket → Throws Socket (α × Socket)
  | .ok a, s => .ok (a, s)
  | .error e, s => .error (e, s)

theorem joined_outcome (r : Throws Socket (α × Socket)) :
    joined (outcome r).1 (outcome r).2 = r := by
  cases r with
  | ok z => rfl
  | error z => rfl

/-- What follows an access that may have thrown. -/
def rest (f : α → Socket → Throws Socket (β × Socket)) :
    Except Exn α → Socket → Except Exn β × Socket
  | .ok a, s => outcome (f a s)
  | .error e, s => (.error e, s)

/-- The outcome of two steps is that of the second after the first. -/
theorem outcome_bind (r : Throws Socket (α × Socket))
    (f : α → Socket → Throws Socket (β × Socket)) :
    outcome (r >>= fun z => f z.1 z.2) = rest f (outcome r).1 (outcome r).2 := by
  cases r with
  | ok z => rfl
  | error z => rfl

/-- **Code of a thread in sequence** performs what the methods do in sequence. -/
theorem Performs.bind (hk : D.Knows t h .clientSocket) {p : Throwing α} {g : α → Throwing β}
    {f : Socket → Throws Socket (α × Socket)} {f' : α → Socket → Throws Socket (β × Socket)}
    (hp : Performs D t h p f) (hg : ∀ a, Performs D t h (g a) (f' a)) :
    Performs D t h (p >>= g) fun s => f s >>= fun z => f' z.1 z.2 := by
  have hcont : ∀ r, D.Does t h .clientSocket (ExceptT.bindCont g r) (rest f' r) := by
    intro r
    cases r with
    | ok a => exact hg a
    | error e => exact Discipline.Does.ret _
  unfold Performs
  simp only [outcome_bind]
  exact Discipline.Does.bind hk hp hcont

/-- A `try` block. -/
theorem Performs.lift (hk : D.Knows t h .clientSocket) {p : Throwing α}
    {f : Socket → Throws Socket (α × Socket)} (hp : Performs D t h p f) :
    Performs D t h (ExceptT.lift p.run) fun s => .ok (outcome (f s)) := by
  have hok : ∀ r : Except Exn α, D.Does t h .clientSocket
      (Proc.ret (Except.ok r : Except Exn (Except Exn α))) fun s => (.ok r, s) :=
    fun r => Discipline.Does.ret _
  exact Discipline.Does.bind hk hp hok

/-- One access to the socket, under its mutex. -/
theorem Performs.onSocket (hw : D.MayWrite t h .clientSocket) (hall : ∀ v, D.Always .clientSocket v)
    (f : Socket → Throws Socket (α × Socket)) : Performs D t h (onSocket f) f :=
  Discipline.Does.modifyGet hw _ fun _ _ => hall _

/-- The same, of a method that returns nothing. -/
def PerformsVoid (D : Discipline Thread Mutex Object.Ty) (t : Thread) (h : Mutex → Option LockMode)
    (p : Throwing Unit) (f : Socket → Throws Socket Socket) : Prop :=
  Performs D t h p fun s => (f s).map fun s => ((), s)

theorem PerformsVoid.bind (hk : D.Knows t h .clientSocket) {p : Throwing Unit} {g : Throwing β}
    {f : Socket → Throws Socket Socket} {f' : Socket → Throws Socket (β × Socket)}
    (hp : PerformsVoid D t h p f) (hg : Performs D t h g f') :
    Performs D t h (p >>= fun _ => g) fun s => f s >>= f' := by
  refine (Performs.bind hk hp fun _ => hg).congr fun s => ?_
  show (f s).map _ >>= _ = f s >>= f'
  cases f s with
  | ok s' => rfl
  | error e => rfl

theorem PerformsVoid.then (hk : D.Knows t h .clientSocket) {p g : Throwing Unit}
    {f f' : Socket → Throws Socket Socket} (hp : PerformsVoid D t h p f)
    (hg : PerformsVoid D t h g f') :
    PerformsVoid D t h (p >>= fun _ => g) fun s => f s >>= f' := by
  refine (PerformsVoid.bind hk hp hg).congr fun s => ?_
  dsimp only
  cases f s with
  | ok s' => rfl
  | error e => rfl

variable (hw : D.MayWrite t h .clientSocket) (hall : ∀ v, D.Always .clientSocket v)
  (hk : D.Knows t h .clientSocket)

include hw hall in
theorem PerformsVoid.withSocket (f : Socket → Throws Socket Socket) :
    PerformsVoid D t h (withSocket f) f := Performs.onSocket hw hall _

include hw hall hk

/-- `currentEndpoint` is read, and the code goes on with what it is. -/
theorem Performs.currentEndpoint {g : Str → Throwing β}
    (f' : Str → Socket → Throws Socket (β × Socket)) (hg : ∀ e, Performs D t h (g e) (f' e)) :
    Performs D t h (Client.currentEndpoint >>= g) fun s => f' s.currentEndpoint s :=
  Performs.bind hk (Performs.onSocket hw hall _) hg

/-- `setNodeEndpoint`: disconnect, connect and the two assignments, access by access. -/
theorem performs_setNodeEndpoint (e : Str) (o : CloudCalls) :
    PerformsVoid D t h (setNodeEndpoint pf e o) fun s => s.setNodeEndpoint pf e o := by
  have hdisconnect (current : Str) : PerformsVoid D t h
      (if current = [] then pure ()
        else withSocket fun a => a.zmq (a.clientSocket.disconnect current o.disconnect))
      fun s => if current = [] then pure s
        else s.zmq (s.clientSocket.disconnect current o.disconnect) := by
    split
    · exact .pure ()
    · exact .withSocket hw hall _
  refine Performs.currentEndpoint hw hall hk (fun current s => Except.map (fun s => ((), s))
    (if current = e then pure s
      else (if current = [] then pure s
        else s.zmq (s.clientSocket.disconnect current o.disconnect)) >>= fun s =>
          s.connect pf e o.connect >>= fun s => pure { s with currentEndpoint := e }))
    fun current => ?_
  by_cases hcur : current = e
  · simp only [if_pos hcur]
    exact .pure ()
  · simp only [if_neg hcur]
    exact (hdisconnect current).then hk (.then hk (.withSocket hw hall _) (.withSocket hw hall _))

/-- `resetSocket`: close, create, set and connect. -/
theorem performs_resetSocket (o : ResetCalls) :
    PerformsVoid D t h (resetSocket pf o) fun s => s.resetSocket pf o := by
  have hconnect : PerformsVoid D t h
      (currentEndpoint >>= fun current =>
        if current = [] then pure () else withSocket fun a => a.connect pf current o.connect)
      fun s =>
        if s.currentEndpoint = [] then pure s else s.connect pf s.currentEndpoint o.connect := by
    refine Performs.currentEndpoint hw hall hk (fun current s => Except.map (fun s => ((), s))
      (if current = [] then pure s else s.connect pf current o.connect)) fun current => ?_
    by_cases hcur : current = []
    · simp only [if_pos hcur]
      exact .pure ()
    · simp only [if_neg hcur]
      exact PerformsVoid.withSocket hw hall _
  have hreset := PerformsVoid.then hk
      (.withSocket hw hall fun a => a.zmq (a.clientSocket.set o.setLinger)) <|
    .then hk (.withSocket hw hall fun a => pure { a with clientSocket := a.clientSocket.close }) <|
    .then hk (.withSocket hw hall fun a => a.zmq (a.clientSocket.create o.create)) <|
    .then hk (.withSocket hw hall fun a => a.zmq (a.clientSocket.set o.setSndtimeo)) <|
    .then hk (.withSocket hw hall fun a => a.zmq (a.clientSocket.set o.setRcvtimeo)) hconnect
  exact hreset

/-- What `exchange` makes of what is received. -/
def afterReceive (pf : Platform) (answer : Request Str Message → Frame) (e : Str) (m : Message)
    (o : CloudCalls) : Option (Request Str Message) → Socket → Throws Socket (Message × Socket)
  | none, s => do
    let s ← s.resetSocket pf o.timeoutReset
    throw (.runtimeError (Socket.errMsg m e), s)
  | some request, s =>
    match (answer request).decode pf with
    | none => throw (.msgpackError, s)
    | some reply => pure (reply, s)

/-- What follows a receive: the reply is decoded, or the socket is reset. -/
theorem performs_received (e : Str) (m : Message) (o : CloudCalls)
    (r : Option (Request Str Message)) :
    Performs D t h (received pf answer e m o r) (afterReceive pf answer e m o r) := by
  cases r with
  | none => exact (performs_resetSocket hw hall hk o.timeoutReset).bind hk (.throw _)
  | some request =>
    unfold received afterReceive
    dsimp only
    cases (answer request).decode pf with
    | none => exact .throw _
    | some reply => exact .pure reply

/-- The exchange of `sendCloudMessage`, inside its `try`. -/
theorem performs_exchange (e : Str) (m : Message) (o : CloudCalls) :
    Performs D t h (exchange pf answer e m o) fun s => s.exchange pf answer e m o := by
  refine (Performs.bind hk (.onSocket hw hall _) fun _ =>
    Performs.bind hk (.onSocket hw hall _) (performs_received hw hall hk e m o)).congr fun s => ?_
  unfold Socket.exchange
  cases s.zmqGet (s.clientSocket.send m o.send) with
  | error x => rfl
  | ok z =>
    obtain ⟨-, s'⟩ := z
    show (s'.zmqGet (s'.clientSocket.recv o.recv) >>= _) =
      (s'.zmqGet (s'.clientSocket.recv o.recv) >>= _)
    refine congrArg _ (funext fun z => ?_)
    obtain ⟨result, s''⟩ := z
    cases result with
    | none => rfl
    | some request => rfl

/-- Its handlers. -/
theorem performs_caught (o : CloudCalls) (r : Except Exn Message) :
    Performs D t h (caught pf o r) fun s => Socket.caught pf o (joined r s) := by
  cases r with
  | ok reply => exact .pure reply
  | error e =>
    cases e with
    | zmqError => exact (performs_resetSocket hw hall hk o.handlerReset).bind hk (.throw _)
    | runtimeError what => exact .throw _
    | invalidArgument what => exact .throw _
    | msgpackError => exact .throw _
    | emptyIndex => exact .throw _

/-- **Under `socketMutex`, `sendCloudMessage` is the method of the socket.** -/
theorem performs_sendCloudMessage (e : Str) (m : Message) (o : CloudCalls) :
    Performs D t h (sendCloudMessageBlock pf answer e m o)
      fun s => s.sendCloudMessage pf answer e m o := by
  have hex : Performs D t h (exchange pf answer e m o) _ := performs_exchange hw hall hk e m o
  have hcaught : ∀ r, Performs D t h (caught pf o r) _ := performs_caught hw hall hk o
  have htry := Performs.bind hk (.lift hk hex) hcaught
  refine ((performs_setNodeEndpoint hw hall hk e o).bind hk htry).congr fun s => ?_
  refine congrArg _ (funext fun s => ?_)
  show Socket.caught pf o (joined _ _) = _
  rw [joined_outcome]

end

/-- How an exchange can end. -/
def Replied (pf : Platform) (answer : Request Str Message → Frame) (e : Str) (m : Message)
    (o : CloudCalls) (r : Except Exn Message) : Prop :=
  ∃ calls : List CloudCall,
    r = (outcome ((calls.foldl (Socket.after pf answer) .new).sendCloudMessage pf answer e m o)).1

section

variable {β : Type} {P : (∀ r, Object.Ty r) → Prop} {Q : β → (∀ r, Object.Ty r) → Prop} {e : Str}
  {m : Message} {o : CloudCalls}

/-- Whole calls keep the socket in a known state. -/
theorem known_foldl (calls : List CloudCall) :
    Socket.Known pf (calls.foldl (Socket.after pf answer) .new) := by
  have hall : ∀ a : Socket, Socket.Known pf a →
      Socket.Known pf (calls.foldl (Socket.after pf answer) a) := by
    induction calls with
    | nil => exact fun a ha => ha
    | cons x xs ih => exact fun a ha => ih _ ha.after
  exact hall _ Socket.known_new

/-- **Whoever used the socket before**, a reply is the reply to the call's own request. -/
theorem Replied.isReply {r : Except Exn Message} (hr : Replied pf answer e m o r) :
    IsReply pf answer m r.toOption := by
  obtain ⟨calls, rfl⟩ := hr
  intro reply hreply
  have hpost : Post ((calls.foldl (Socket.after pf answer) .new).sendCloudMessage pf answer e m o)
      _ _ := Socket.post_sendCloudMessage (known_foldl calls)
  cases hs : (calls.foldl (Socket.after pf answer) .new).sendCloudMessage pf answer e m o with
  | error z => rw [hs] at hreply; cases hreply
  | ok z =>
    rw [hs] at hreply hpost
    cases hreply
    obtain ⟨-, k, -, hk⟩ := hpost
    exact ⟨_, rfl, hk⟩

theorem outcome_snd (r : Throws Socket (Message × Socket)) : (outcome r).2 = Socket.left r := by
  cases r with
  | ok z => rfl
  | error z => rfl

/-- **`sendCloudMessage`, whole**: under `socketMutex` it is one call on the socket. -/
theorem triple_sendCloudMessage {k : Except Exn Message → Code β}
    (hP : (discipline lax pf answer origin table).Stable t h P)
    (hsocket : ∀ x v, P x → P (Function.update x .clientSocket v)) (hm : h .socketMutex = none)
    (hk : ∀ r, Replied pf answer e m o r →
      (discipline lax pf answer origin table).Triple t h P (k r) Q) :
    (discipline lax pf answer origin table).Triple t h P
      ((sendCloudMessage pf answer e m o).bind k) Q := by
  have hw : (discipline lax pf answer origin table).MayWrite t
      (Function.update h .socketMutex (some .exclusive)) .clientSocket := by
    refine ⟨(fun _ ht' => nomatch ht'), fun m' hm' => ?_⟩
    cases hm'
    exact Function.update_self ..
  have hknows : (discipline lax pf answer origin table).Knows t
      (Function.update h .socketMutex (some .exclusive)) .clientSocket :=
    .inl ⟨.socketMutex, rfl, Function.update_self ..⟩
  refine Discipline.Does.locked (performs_sendCloudMessage hw (fun _ => trivial) hknows e m o)
    (fun _ => guard_eq_some) hP hP hm (fun m' hm' => ?_)
    (fun x hx hinv => ⟨?_, hsocket x _ hx⟩) fun x hx hinv => hk _ ?_
  · cases m' with
    | socketMutex => rw [hm] at hm'; cases hm'
    | dbMutex => exact Nat.zero_lt_one
    | shardMutex => exact Nat.zero_lt_one
  · obtain ⟨calls, hcalls⟩ := hinv
    refine ⟨calls ++ [⟨e, m, o⟩], ?_⟩
    rw [List.foldl_append, ← hcalls]
    exact outcome_snd _
  · obtain ⟨calls, hcalls⟩ := hinv
    exact ⟨calls, by rw [← hcalls]⟩

/-- Without a lock any of them may be taken. -/
theorem rank_lt_of_free (hfree : ∀ m, h m = none) (m : Mutex) :
    ∀ m', (h m').isSome = true → (discipline lax pf answer origin table).rank m' <
      (discipline lax pf answer origin table).rank m :=
  fun m' hm' => by rw [hfree m'] at hm'; cases hm'

/-- Nothing guards the random engine, and nothing is known of it. -/
theorem mayDraw : (discipline lax pf answer origin table).MayWrite t h .randomEngine where
  only _ ht' := nomatch ht'
  holds _ hm' := nomatch hm'

theorem triple_draw {k : Unit → Code β} (hP : (discipline lax pf answer origin table).Stable t h P)
    (hk : (discipline lax pf answer origin table).Triple t h P (k ()) Q) :
    (discipline lax pf answer origin table).Triple t h P (draw.bind k) Q := by
  refine .update hP mayDraw (fun _ _ _ => trivial) (fun x hx => ?_) fun _ _ => hk
  have hself : Function.update x Object.randomEngine (id (x .randomEngine)) = x :=
    Function.update_eq_self ..
  rwa [hself]

/-- An endpoint is drawn from a row, unless there is none to draw. -/
theorem triple_drawn {k : Str → Code β} {endpoints : List Str} {pick : ℕ}
    (hne : lax ∨ endpoints ≠ []) (hP : (discipline lax pf answer origin table).Stable t h P)
    (hk : ∀ ep, (discipline lax pf answer origin table).Triple t h P (k ep) Q) :
    (discipline lax pf answer origin table).Triple t h P ((drawn endpoints pick).bind k) Q := by
  unfold drawn
  cases hget : endpoints[pick % endpoints.length]? with
  | none =>
    -- the index is in range unless there is nothing to draw
    refine fun _ _ => hne.resolve_right fun hne => ?_
    have hlt := Nat.mod_lt pick (List.length_pos_iff.2 hne)
    have hle := List.getElem?_eq_none_iff.1 hget
    omega
  | some ep =>
    have hdraw : (discipline lax pf answer origin table).Triple t h P
        (draw.bind fun u => (Proc.ret ep : Code Str).bind k) Q := triple_draw hP (hk ep)
    rwa [← Proc.bind_assoc] at hdraw

/-- A row is found, or the table is spoilt. -/
theorem triple_row {shard : Int32} {k : Str → Code β} {pick : ℕ}
    (hrow : lax ∨ ∀ v, Filled table v → (v.lookup shard).getD [] ≠ []) (ht : t ≠ .nodeUpdate)
    (hP : (discipline lax pf answer origin table).Stable t h P)
    (hheld : h .shardMutex = some .shared)
    (hk : ∀ ep, (discipline lax pf answer origin table).Triple t h P (k ep) Q) :
    (discipline lax pf answer origin table).Triple t h P
      (((row shard).bind fun endpoints => drawn endpoints pick).bind k) Q := by
  refine .read hP (.inr (.inl ⟨.shardMutex, rfl, by rw [hheld]; rfl⟩)) fun x _ hfilled => ?_
  have hrow : lax ∨ ((x .shardEndpoints).lookup shard).getD [] ≠ [] := by
    obtain hlax | hrow := hrow
    · exact .inl hlax
    · exact hfilled.imp_right (hrow _)
  dsimp only [Proc.bind]
  cases hl : (x .shardEndpoints).lookup shard with
  | none =>
    have hlax : lax := hrow.resolve_right fun hne => hne (by rw [hl]; rfl)
    refine .spoil ⟨⟨hlax, ht, rfl⟩, ⟨.shardMutex, rfl, hheld⟩, hlax⟩
      ⟨fun _ _ => .inl hlax, fun v hv => ?_⟩
    obtain ⟨replies, hreplies, rfl⟩ | ⟨replies, hreplies, hv⟩ := hv
    · exact ⟨replies, hreplies, Widened.insertRow (fun _ => .inl rfl) shard⟩
    · exact ⟨replies, hreplies, hv.insertRow shard⟩
  | some endpoints =>
    rw [hl] at hrow
    exact triple_drawn hrow hP hk

/-- A block that shares `shardMutex`. -/
theorem triple_shared {α : Type} {p : Code α} {k : α → Code β}
    (hP : (discipline lax pf answer origin table).Stable t h P) (hfree : ∀ m, h m = none)
    (hp : ∀ k' : α → Code β, (∀ a, (discipline lax pf answer origin table).Triple t
        (Function.update h .shardMutex (some .shared)) P (k' a) Q) →
      (discipline lax pf answer origin table).Triple t
        (Function.update h .shardMutex (some .shared)) P (p.bind k') Q)
    (hk : ∀ a, (discipline lax pf answer origin table).Triple t h P (k a) Q) :
    (discipline lax pf answer origin table).Triple t h P
      ((Proc.locked .shardMutex .shared p).bind k) Q := by
  refine .lock hP (hfree _) (rank_lt_of_free hfree _) fun x hx _ _ => ?_
  rw [Proc.bind_assoc]
  refine hp _ (fun a => .unlock (hP.of_lock (hfree _)) (by rw [Function.update_self]; rfl)
    (fun hexcl => ?_) ?_) x hx
  · rw [Function.update_self] at hexcl
    cases hexcl
  · rw [Function.update_idem, Function.update_eq_iff.2 ⟨(hfree _).symm, fun _ _ => rfl⟩]
    exact hk a

variable (hsane : lax ∨ Sane pf answer table)
  (hP : (discipline lax pf answer origin table).Stable t h P) (hfree : ∀ m, h m = none)

include hsane hP hfree

/-- An endpoint of a shard, drawn under a shared lock; a missing row is inserted. -/
theorem triple_getShardEndpoint {listUid : Str} {pick : ℕ} {k : Str → Code β} (ht : t ≠ .nodeUpdate)
    (hk : ∀ ep, (discipline lax pf answer origin table).Triple t h P (k ep) Q) :
    (discipline lax pf answer origin table).Triple t h P
      ((getShardEndpoint pf origin listUid pick).bind k) Q := by
  have hP' : (discipline lax pf answer origin table).Stable t
      (Function.update h .shardMutex (some .shared)) P := hP.of_lock (hfree .shardMutex)
  have hheld : Function.update h .shardMutex (some .shared) .shardMutex = some LockMode.shared :=
    Function.update_self ..
  refine triple_shared hP hfree (fun k' hk' => ?_) hk
  refine .read hP' (.inr (.inl ⟨.shardMutex, rfl, by rw [hheld]; rfl⟩)) fun x _ hfilled => ?_
  show (discipline lax pf answer origin table).Triple t _ P (Proc.bind (if _ then _ else _) k') Q
  split
  · exact fun _ _ => hsane.elim id fun hs => hfilled.resolve_right fun hv => hs.keys_ne hv ‹_›
  · refine triple_row ?_ ht hP' hheld hk'
    obtain hlax | hs := hsane
    · exact .inl hlax
    · exact hfilled.imp_right fun hv v hv' => hs.shardRow hv hv' listUid

/-- An endpoint of any shard. -/
theorem triple_getAnyEndpoint {pick : ℕ} {k : Str → Code β}
    (hk : ∀ ep, (discipline lax pf answer origin table).Triple t h P (k ep) Q) :
    (discipline lax pf answer origin table).Triple t h P ((getAnyEndpoint pick).bind k) Q := by
  refine triple_shared hP hfree (fun k' hk' => ?_) hk
  refine .read (hP.of_lock (hfree .shardMutex))
    (.inr (.inl ⟨.shardMutex, rfl, by rw [Function.update_self]; rfl⟩)) fun x _ hfilled => ?_
  refine triple_drawn ?_ (hP.of_lock (hfree .shardMutex)) hk'
  obtain hlax | hs := hsane
  · exact .inl hlax
  · exact hfilled.imp_right fun hv => hs.anyRow hv

end

end Shopping.Client
