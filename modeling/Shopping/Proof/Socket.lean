import Shopping.Client.Socket

/-!
# The socket after failed calls

Whatever fails, the socket is connected to `currentEndpoint` or to nothing (`Known`), and a
reply that is returned is the reply to the request of its call (`post_sendCloudMessage`).

A call leaves the socket `Ready` for the next one iff its last reset goes through, and it does
not end between disconnecting the old endpoint and connecting the new one, which are outside
the `try` (`ready_after_iff`). `sendCloudMessage_served` is both, for sequences of calls.
-/

namespace Shopping

open Lib

namespace API.Socket

variable {pf : Platform} {answer : Request Str Message → Frame} {a : Socket} {e : Str}
  {m : Message} {o : CloudCalls}

/-- What the socket is to be connected to. -/
def endpoints (a : Socket) : List Str := if a.currentEndpoint = [] then [] else [a.currentEndpoint]

/-- The socket may send, and is connected to `currentEndpoint`, to nothing if that is empty. -/
structure Ready (a : Socket) : Prop where
  handle : a.clientSocket.handle.isSome = true
  outstanding : a.clientSocket.outstanding = none
  connected : a.clientSocket.connected = a.endpoints

/-- What no failure breaks: the socket is connected to `currentEndpoint` or to nothing. -/
structure Known (pf : Platform) (a : Socket) : Prop where
  sound : a.clientSocket.Sound
  connected : a.clientSocket.connected = [] ∨ a.clientSocket.connected = a.endpoints
  accepted : a.currentEndpoint ≠ [] → Accepted pf a.currentEndpoint

theorem known_new : Known pf Socket.new where
  sound := by
    have hcreate : ({} : ReqSocket Str Message).create true = some Socket.new.clientSocket := rfl
    exact ReqSocket.sound_new.create hcreate
  connected := .inl rfl
  accepted h := absurd rfl h

theorem Known.endpoints_of_nil (ha : Known pf a) (h : a.currentEndpoint = []) :
    a.clientSocket.connected = [] := by
  rcases ha.connected with hc | hc
  · exact hc
  · rw [hc, Socket.endpoints, if_pos h]

/-- A call of ZMQ is no worse than what it makes of the socket. -/
theorem post_zmq {r : Option (ReqSocket Str Message)} {P : Socket → Prop} {E : Exn × Socket → Prop}
    (h : ∀ s, r = some s → P { a with clientSocket := s }) (herr : E (.zmqError, a)) :
    Post (a.zmq r) P E := by
  cases r with
  | none => exact herr
  | some s => exact h s rfl

theorem post_zmqGet {α : Type} {r : Option (α × ReqSocket Str Message)} {P : α × Socket → Prop}
    {E : Exn × Socket → Prop} (h : ∀ x s, r = some (x, s) → P (x, { a with clientSocket := s }))
    (herr : E (.zmqError, a)) : Post (a.zmqGet r) P E := by
  cases r with
  | none => exact herr
  | some z => exact h z.1 z.2 rfl

/-- `connect` from a socket that is connected to nothing, to the endpoint it then holds. -/
theorem post_connect (hs : a.clientSocket.Sound) (hc : a.clientSocket.connected = [])
    {ok : Bool} {E : Exn × Socket → Prop} (herr : E (.zmqError, a)) :
    Post (a.connect pf e ok) (fun b => Accepted pf e ∧ b.clientSocket.Sound ∧
      b.clientSocket.connected = [e] ∧ (b.clientSocket.sent = a.clientSocket.sent ∧
      b.clientSocket.handle = a.clientSocket.handle) ∧ b.currentEndpoint = a.currentEndpoint) E := by
  refine post_zmq (fun s hcon => ?_) herr
  have hsound := hs.connect hcon
  unfold ReqSocket.connect at hcon
  split at hcon
  · rename_i hok
    cases hcon
    simp only [Bool.and_eq_true, decide_eq_true_eq] at hok
    exact ⟨hok.2.2, hsound, by simp [hc], ⟨rfl, rfl⟩, rfl⟩
  · cases hcon

/-- A new endpoint, unless one of the operations throws: then the socket is known all the same. -/
theorem post_setNodeEndpoint (ha : Known pf a) :
    Post (a.setNodeEndpoint pf e o)
      (fun b => Known pf b ∧ b.currentEndpoint = e ∧ b.clientSocket.sent = a.clientSocket.sent ∧
        b.clientSocket.handle = a.clientSocket.handle)
      (fun x => Known pf x.2) := by
  unfold setNodeEndpoint
  split
  · exact ⟨ha, ‹_›, rfl, rfl⟩
  rename_i hne
  -- the old endpoint is disconnected, or there was none
  refine Post.bind (P := fun b => Known pf b ∧ b.clientSocket.connected = [] ∧
    b.clientSocket.sent = a.clientSocket.sent ∧ b.clientSocket.handle = a.clientSocket.handle)
    ?_ fun b hb => ?_
  · split
    · rename_i hcur
      exact ⟨ha, ha.endpoints_of_nil hcur, rfl, rfl⟩
    · rename_i hcur
      refine post_zmq (fun s hd => ?_) ha
      have hsound := ha.sound.disconnect hd
      have hc := ha.connected
      rw [Socket.endpoints, if_neg hcur] at hc
      rw [ReqSocket.disconnect_only hc] at hd
      split at hd
      · cases hd; exact ⟨⟨hsound, .inl rfl, ha.accepted⟩, rfl, rfl, rfl⟩
      · cases hd
  obtain ⟨hb, hnil, hsent, hhandle⟩ := hb
  refine Post.bind (post_connect hb.sound hnil hb) fun c hc => ?_
  obtain ⟨hacc, hsound, hcon, ⟨hsent', hhandle'⟩, -⟩ := hc
  refine ⟨⟨hsound, .inr ?_, fun _ => hacc⟩, rfl, hsent'.trans hsent, hhandle'.trans hhandle⟩
  rw [Socket.endpoints, if_neg hacc.1]
  exact hcon

/-- An operation may disconnect the socket, but not connect it elsewhere. -/
theorem Known.of_clientSocket (ha : Known pf a) {s : ReqSocket Str Message} (hs : s.Sound)
    (hc : s.connected = [] ∨ s.connected = a.clientSocket.connected) :
    Known pf { a with clientSocket := s } := by
  refine ⟨hs, ?_, ha.accepted⟩
  rcases hc with hc | hc
  · exact .inl hc
  · exact ha.connected.imp (fun h => hc.trans h) fun h => hc.trans h

theorem post_set (ha : Known pf a) {ok : Bool} :
    Post (a.zmq (a.clientSocket.set ok)) (fun b => b = a) (fun x => Known pf x.2) := by
  refine post_zmq (fun s hs => ?_) ha
  rw [ReqSocket.set_eq hs]

/-- A reset throws from a known state into one. -/
theorem post_resetSocket (ha : Known pf a) {r : ResetCalls} :
    Post (a.resetSocket pf r) (Known pf) (fun x => Known pf x.2) := by
  unfold resetSocket
  refine Post.bind (post_set ha) ?_
  rintro a rfl
  have hclosed : Known pf { a with clientSocket := a.clientSocket.close } :=
    ha.of_clientSocket ha.sound.close (.inl rfl)
  refine Post.bind (P := fun b => b.clientSocket.connected = [] ∧ Known pf b)
    (post_zmq (fun s hs => ?_) hclosed) ?_
  · have hsound := ha.sound.close.create hs
    unfold ReqSocket.create at hs
    split at hs
    · cases hs; exact ⟨rfl, ha.of_clientSocket hsound (.inl rfl)⟩
    · cases hs
  rintro b ⟨hc, hb⟩
  refine Post.bind (post_set hb) ?_
  rintro b rfl
  refine Post.bind (post_set hb) ?_
  rintro b rfl
  split
  · exact hb
  · rename_i hcur
    refine (post_connect hb.sound hc hb).mono ?_
    rintro g ⟨hacc, hsound, hg, -, hcur'⟩
    refine ⟨hsound, .inr ?_, fun _ => ?_⟩
    · rw [hg, Socket.endpoints, hcur', if_neg hcur]
    · rw [hcur']; exact hacc

/-- `reply` is the reply to the request of the call: to `m`, sent to `e` under the next number. -/
def Answers (pf : Platform) (answer : Request Str Message → Frame) (a : Socket) (e : Str)
    (m : Message) (reply : Message) : Prop :=
  ∃ k, a.clientSocket.handle = some k ∧
    (answer ⟨k, e, a.clientSocket.sent, m⟩).decode pf = some reply

/-- Whoever replies is at the current endpoint. -/
theorem Known.peer_eq (ha : Known pf a) {peer : Str} (h : peer ∈ a.clientSocket.connected) :
    peer = a.currentEndpoint := by
  rcases ha.connected with hc | hc
  · rw [hc] at h; cases h
  · rw [hc, Socket.endpoints] at h
    split at h
    · cases h
    · exact List.mem_singleton.1 h

/-- The exchange: what it returns is the reply to its own request, however late others arrive. -/
theorem post_exchange (ha : Known pf a) :
    Post (a.exchange pf answer e m o)
      (fun z => Known pf z.2 ∧ Answers pf answer a a.currentEndpoint m z.1)
      (fun x => Known pf x.2) := by
  unfold exchange
  -- the send, whether or not it times out
  refine Post.bind (P := fun z => Known pf z.2 ∧
    ∃ b, a.clientSocket.send m o.send = some (b, z.2.clientSocket))
    (post_zmqGet (fun b s hs => ?_) ha) ?_
  · refine ⟨ha.of_clientSocket (ha.sound.send hs) (.inr ?_), b, hs⟩
    obtain ⟨-, k, -, ⟨-, rfl⟩ | ⟨peer, -, -, rfl⟩⟩ := ReqSocket.send_cases hs
    · rfl
    · rfl
  rintro ⟨b, c⟩ ⟨hc, b', hsend⟩
  -- the receive: nothing but the reply to the request just sent
  refine Post.bind (P := fun z => Known pf z.2 ∧ ∀ r, z.1 = some r →
      ∃ peer ∈ a.clientSocket.connected, a.clientSocket.handle = some r.socket ∧
        r = ⟨r.socket, peer, a.clientSocket.sent, m⟩)
    (post_zmqGet (fun z s hs => ?_) hc) ?_
  · refine ⟨hc.of_clientSocket (hc.sound.recv hs) (.inr ?_), fun r hr => ?_⟩
    · obtain ⟨k, n, -, -, -, ⟨-, heq⟩ | ⟨r, -, -, -, -, heq⟩⟩ := ReqSocket.recv_cases hs
      · rw [heq]
      · rw [heq]
    · cases hr
      exact ReqSocket.send_recv ha.sound hsend hs
  rintro ⟨z, d⟩ ⟨hd, hr⟩
  cases z with
  | none =>
    refine Post.bind (post_resetSocket hd) fun f hf => ?_
    exact hf
  | some r =>
    obtain ⟨peer, hpeer, hk, heq⟩ := hr r rfl
    have hcur := ha.peer_eq hpeer
    dsimp only
    cases hdec : (answer r).decode pf with
    | none => exact hd
    | some reply => exact ⟨hd, r.socket, hk, by rw [← hcur, ← heq]; exact hdec⟩

/-- **A call**, whatever its operations do. -/
theorem post_sendCloudMessage (ha : Known pf a) :
    Post (a.sendCloudMessage pf answer e m o)
      (fun z => Known pf z.2 ∧ Answers pf answer a e m z.1) (fun x => Known pf x.2) := by
  unfold sendCloudMessage
  refine Post.bind (post_setNodeEndpoint ha) ?_
  rintro b ⟨hb, rfl, hsent, hhandle⟩
  have hex : Post (b.exchange pf answer b.currentEndpoint m o) _ _ := post_exchange hb
  cases hr : b.exchange pf answer b.currentEndpoint m o with
  | ok z =>
    obtain ⟨hz, hans⟩ := hex.of_ok hr
    refine ⟨hz, ?_⟩
    unfold Answers at hans ⊢
    rw [← hsent, ← hhandle]
    exact hans
  | error x =>
    have hx := hex.of_error hr
    obtain ⟨exn, c⟩ := x
    cases exn with
    | zmqError => exact Post.bind (post_resetSocket hx) fun f hf => hf
    | runtimeError w => exact hx
    | invalidArgument w => exact hx
    | msgpackError => exact hx
    | emptyIndex => exact hx

/-- The object with a new socket, connected to `l`. -/
def renewed (a : Socket) (l : List Str) : Socket :=
  { a with clientSocket := { a.clientSocket with
      handle := some a.clientSocket.opened
      connected := l
      outstanding := none
      opened := a.clientSocket.opened + 1 } }

/-- The object with its socket closed. -/
def closed (a : Socket) : Socket := { a with clientSocket := a.clientSocket.close }

theorem ready_renewed_iff {l : List Str} : (a.renewed l).Ready ↔ l = a.endpoints :=
  ⟨fun h => h.connected, fun h => ⟨rfl, rfl, h⟩⟩

theorem not_ready_closed : ¬ (closed a).Ready := fun h => by cases h.handle

end API.Socket

namespace API

/-- The reset of a socket for the endpoint `e` goes through, as far as it matters for `e`. -/
def ResetCalls.Restores (r : ResetCalls) (e : Str) : Prop :=
  r.setLinger = true ∧ r.create = true ∧
    (e ≠ [] → r.setSndtimeo = true ∧ r.setRcvtimeo = true ∧ r.connect = true)

/-- The request of the call leaves: the send goes through, and to somewhere. -/
def CloudCall.Leaves (x : CloudCall) : Prop :=
  x.receiverAddress ≠ [] ∧ ∃ turn, x.calls.send = .goes turn

namespace Socket

variable {pf : Platform} {answer : Request Str Message → Frame} {a b : Socket} {e : Str}
  {m : Message} {o : CloudCalls} {r r' : ResetCalls} {x : CloudCall}

/-- A socket that is closed stays closed. -/
theorem resetSocket_closed : (closed a).resetSocket pf r = .error (.zmqError, closed a) := rfl

/-- What `resetSocket` leaves of an open socket. -/
theorem resetSocket_eq (ha : Known pf a) (hopen : a.clientSocket.handle.isSome = true) :
    a.resetSocket pf r =
      if r.setLinger = false then .error (.zmqError, a)
      else if r.create = false then .error (.zmqError, closed a)
      else if r.setSndtimeo = true ∧ r.setRcvtimeo = true ∧
          (a.currentEndpoint ≠ [] → r.connect = true) then .ok (a.renewed a.endpoints)
      else .error (.zmqError, a.renewed []) := by
  obtain ⟨l, c, s, v, n⟩ := r
  cases l with
  | false => simp [resetSocket, zmq, ReqSocket.set, bind, Except.bind]
  | true =>
  cases c with
  | false => simp [resetSocket, zmq, ReqSocket.set, hopen, ReqSocket.create, bind, Except.bind, closed]
  | true =>
  by_cases hcur : a.currentEndpoint = []
  · cases s <;> cases v <;>
      simp [resetSocket, zmq, ReqSocket.set, hopen, ReqSocket.create, ReqSocket.close, bind,
        Except.bind, pure, Except.pure, renewed, endpoints, hcur]
  · have hacc := ha.accepted hcur
    cases s <;> cases v <;> cases n <;>
      simp [resetSocket, zmq, ReqSocket.set, hopen, ReqSocket.create, ReqSocket.close, bind,
        Except.bind, renewed, endpoints, hcur, connect, ReqSocket.connect, hacc]

/-- **A reset leaves the socket ready** iff it goes through, or stops at the linger option of a
ready one. -/
theorem resetSocket_ready_iff (ha : Known pf a) (hopen : a.clientSocket.handle.isSome = true) :
    (Throws.state (a.resetSocket pf r)).Ready ↔
      (r.setLinger = false ∧ a.Ready) ∨ r.Restores a.currentEndpoint := by
  rw [resetSocket_eq ha hopen]
  unfold ResetCalls.Restores
  split
  · rename_i hl
    simp [hl, Throws.state]
  split
  · rename_i hl hc
    simp [hl, hc, Throws.state, not_ready_closed]
  rename_i hl hc
  rw [Bool.not_eq_false] at hl hc
  split
  · rename_i h
    simp only [Throws.state, ready_renewed_iff, hl, hc, true_and]
    exact iff_of_true trivial (.inr fun hne => ⟨h.1, h.2.1, h.2.2 hne⟩)
  · rename_i h
    simp only [Throws.state, ready_renewed_iff, hl, hc, true_and, endpoints]
    by_cases hcur : a.currentEndpoint = []
    · simp [hcur]
    · simp only [ne_eq, hcur, not_false_eq_true, forall_true_left] at h ⊢
      simp [h]

/-- `b` is `a` waiting for a reply. -/
structure Awaits (pf : Platform) (a b : Socket) : Prop where
  known : Known pf b
  handle : b.clientSocket.handle.isSome = true
  outstanding : b.clientSocket.outstanding ≠ none
  currentEndpoint : b.currentEndpoint = a.currentEndpoint

theorem Awaits.not_ready (h : Awaits pf a b) : ¬ b.Ready := fun hr => h.outstanding hr.outstanding

/-- What the exchange is once the send has returned. -/
theorem exchange_of_send {sent : Bool} {s : ReqSocket Str Message}
    (hsend : a.clientSocket.send m o.send = some (sent, s)) :
    a.exchange pf answer e m o =
      match s.recv o.recv with
      | none => .error (.zmqError, { a with clientSocket := s })
      | some (none, t) => do
        let c ← resetSocket pf { a with clientSocket := t } o.timeoutReset
        throw (.runtimeError (errMsg m e), c)
      | some (some request, t) =>
        match (answer request).decode pf with
        | none => .error (.msgpackError, { a with clientSocket := t })
        | some reply => .ok (reply, { a with clientSocket := t }) := by
  unfold exchange
  rw [hsend]
  simp only [zmqGet, bind, Except.bind]
  cases s.recv o.recv with
  | none => rfl
  | some z =>
    obtain ⟨result, t⟩ := z
    cases result with
    | none => rfl
    | some request =>
      dsimp only
      cases (answer request).decode pf with
      | none => rfl
      | some reply => rfl

/-- A request that does not leave makes the receive throw, if the send does not. -/
theorem exchange_unsent (hr : a.Ready) (hcur : a.currentEndpoint = x.receiverAddress)
    (hl : ¬ x.Leaves) :
    a.exchange pf answer x.receiverAddress x.m x.calls = .error (.zmqError, a) := by
  obtain ⟨k, hk⟩ := Option.isSome_iff_exists.1 hr.handle
  have hrecv : a.clientSocket.recv x.calls.recv = none := ReqSocket.recv_of_ready hr.outstanding
  have hsend := ReqSocket.send_of_ready hk hr.outstanding x.m x.calls.send
  cases hso : x.calls.send with
  | fails =>
    rw [hso] at hsend
    rw [exchange, hso, hsend]
    rfl
  | timesOut =>
    have htimeout : a.clientSocket.send x.m x.calls.send = some (false, a.clientSocket) := by
      rw [hsend, hso]
    rw [exchange_of_send htimeout, hrecv]
  | goes turn =>
    have hnil : x.receiverAddress = [] := by
      by_contra hne
      exact hl ⟨hne, turn, hso⟩
    have hcon : a.clientSocket.connected = [] := by
      rw [hr.connected, endpoints, hcur, if_pos hnil]
    -- without a peer, the send times out
    have htimeout : a.clientSocket.send x.m x.calls.send = some (false, a.clientSocket) := by
      rw [hsend, hso]
      simp only [hcon, List.length_nil, List.getElem?_nil]
    rw [exchange_of_send htimeout, hrecv]

/-- The object with its request out. -/
def sending (a : Socket) (k : ℕ) (m : Message) : Socket :=
  { a with clientSocket := { a.clientSocket with
      outstanding := some a.clientSocket.sent
      sent := a.clientSocket.sent + 1
      pending := ⟨k, a.currentEndpoint, a.clientSocket.sent, m⟩ :: a.clientSocket.pending } }

/-- A request that leaves is out when the receive starts. -/
theorem exchange_sent (ha : Known pf a) (hr : a.Ready) (hcur : a.currentEndpoint = x.receiverAddress)
    (hl : x.Leaves) : ∃ k, a.clientSocket.handle = some k ∧ Awaits pf a (a.sending k x.m) ∧
      ∃ sent, a.clientSocket.send x.m x.calls.send = some (sent, (a.sending k x.m).clientSocket) := by
  obtain ⟨k, hk⟩ := Option.isSome_iff_exists.1 hr.handle
  obtain ⟨hne, turn, hso⟩ := hl
  have hsend : a.clientSocket.send x.m x.calls.send =
      some (true, (a.sending k x.m).clientSocket) := by
    rw [ReqSocket.send_of_ready hk hr.outstanding, hso]
    have hcon : a.clientSocket.connected = [a.currentEndpoint] := by
      rw [hr.connected, endpoints, if_neg (by rw [hcur]; exact hne)]
    simp only [hcon, List.length_singleton, Nat.mod_one, List.getElem?_cons_zero, sending]
  refine ⟨k, hk, ⟨ha.of_clientSocket (ha.sound.send hsend) (.inr rfl), hr.handle, ?_, rfl⟩,
    true, hsend⟩
  exact Option.some_ne_none _

/-- A receive that throws leaves a request out. -/
theorem exchange_fails (answer : Request Str Message → Frame) (ha : Known pf a) (hr : a.Ready)
    (hcur : a.currentEndpoint = x.receiverAddress) (hl : x.Leaves) (hrecv : x.calls.recv = .fails) :
    ∃ b, Awaits pf a b ∧
      a.exchange pf answer x.receiverAddress x.m x.calls = .error (.zmqError, b) := by
  obtain ⟨k, hk, hw, sent, hsend⟩ := exchange_sent ha hr hcur hl
  refine ⟨_, hw, ?_⟩
  have hnone : (a.sending k x.m).clientSocket.recv x.calls.recv = none := by
    rw [hrecv, ReqSocket.recv]
    simp only [sending, hk]
  rw [exchange_of_send hsend, hnone]
  rfl

/-- A reply in time ends the exchange, whether or not it can be decoded. -/
theorem exchange_arrives (answer : Request Str Message → Frame) {arriving : List ℕ}
    (ha : Known pf a) (hr : a.Ready) (hcur : a.currentEndpoint = x.receiverAddress) (hl : x.Leaves)
    (hrecv : x.calls.recv = .waits arriving) (hin : a.clientSocket.sent ∈ arriving) :
    ∃ k b, b.Ready ∧ a.exchange pf answer x.receiverAddress x.m x.calls =
      match (answer ⟨k, x.receiverAddress, a.clientSocket.sent, x.m⟩).decode pf with
      | none => .error (.msgpackError, b)
      | some reply => .ok (reply, b) := by
  obtain ⟨k, hk, -, sent, hsend⟩ := exchange_sent ha hr hcur hl
  obtain ⟨rest, hrest⟩ := ReqSocket.recv_sent ha.sound hk hr.outstanding
    a.currentEndpoint x.m arriving
  rw [if_pos hin] at hrest
  refine ⟨k, { a with clientSocket := { a.clientSocket with
    outstanding := none, sent := a.clientSocket.sent + 1, pending := rest } }, ?_, ?_⟩
  · exact ⟨hr.handle, rfl, hr.connected⟩
  rw [exchange_of_send hsend, hrecv, sending, hrest]
  simp only [← hcur]

/-- A receive that times out resets the socket, inside the `try`. -/
theorem exchange_timeout (answer : Request Str Message → Frame) {arriving : List ℕ}
    (ha : Known pf a) (hr : a.Ready) (hcur : a.currentEndpoint = x.receiverAddress) (hl : x.Leaves)
    (hrecv : x.calls.recv = .waits arriving) (hin : a.clientSocket.sent ∉ arriving) :
    ∃ b, Awaits pf a b ∧ a.exchange pf answer x.receiverAddress x.m x.calls =
      (do let c ← b.resetSocket pf x.calls.timeoutReset
          throw (.runtimeError (errMsg x.m x.receiverAddress), c)) := by
  obtain ⟨k, hk, hw, sent, hsend⟩ := exchange_sent ha hr hcur hl
  obtain ⟨rest, hrest⟩ := ReqSocket.recv_sent ha.sound hk hr.outstanding
    a.currentEndpoint x.m arriving
  rw [if_neg hin] at hrest
  refine ⟨{ a with clientSocket := { a.clientSocket with
    outstanding := some a.clientSocket.sent, sent := a.clientSocket.sent + 1, pending := rest } },
    ⟨?_, hr.handle, Option.some_ne_none _, rfl⟩, ?_⟩
  · exact hw.known.of_clientSocket (hw.known.sound.recv hrest) (.inr rfl)
  rw [exchange_of_send hsend, hrecv, sending, hrest]

theorem left_throw {s : Throws Socket Socket} {exn : Exn} :
    left (do let b ← s; throw (exn, b)) = Throws.state s := by
  cases s with
  | ok b => rfl
  | error z => rfl

/-- A second reset makes up for a first one that throws, unless no socket could be created. -/
theorem ready_after_resets (hw : Awaits pf a b) (hne : a.currentEndpoint ≠ []) {exn : Exn}
    (hexn : ∃ what, exn = .runtimeError what) :
    (left (caught pf o (do let c ← b.resetSocket pf o.timeoutReset; throw (exn, c)))).Ready ↔
      o.timeoutReset.Restores a.currentEndpoint ∨
        ((o.timeoutReset.setLinger = true → o.timeoutReset.create = true) ∧
          o.handlerReset.Restores a.currentEndpoint) := by
  obtain ⟨what, rfl⟩ := hexn
  rw [resetSocket_eq hw.known hw.handle]
  have hcur : b.currentEndpoint ≠ [] := by rw [hw.currentEndpoint]; exact hne
  unfold ResetCalls.Restores
  split
  -- nothing has changed: the second reset starts afresh
  · rename_i hl
    show (left (do let c ← b.resetSocket pf o.handlerReset; throw (_, c))).Ready ↔ _
    rw [left_throw, resetSocket_ready_iff hw.known hw.handle]
    simp [hl, hw.not_ready, ResetCalls.Restores, hw.currentEndpoint]
  split
  -- the socket is closed for good
  · rename_i hl hc
    rw [Bool.not_eq_false] at hl
    show (left (do let c ← (closed b).resetSocket pf o.handlerReset; throw (_, c))).Ready ↔ _
    rw [left_throw, resetSocket_closed]
    simp [Throws.state, not_ready_closed, hl, hc]
  rename_i hl hc
  rw [Bool.not_eq_false] at hl hc
  split
  · rename_i h
    exact iff_of_true (ready_renewed_iff.2 rfl) (.inl ⟨hl, hc, fun _ => ⟨h.1, h.2.1, h.2.2 hcur⟩⟩)
  -- there is a socket, connected to nothing
  · rename_i h
    have hcreate : b.clientSocket.close.create true = some (b.renewed []).clientSocket := rfl
    have hknown : Known pf (b.renewed []) :=
      hw.known.of_clientSocket (hw.known.sound.close.create hcreate) (.inl rfl)
    have hnot : ¬ (b.renewed []).Ready := by
      rw [ready_renewed_iff, endpoints, if_neg hcur]
      exact List.cons_ne_nil _ _ ∘ Eq.symm
    show (left (do let c ← (b.renewed []).resetSocket pf o.handlerReset; throw (_, c))).Ready ↔ _
    rw [left_throw, resetSocket_ready_iff hknown rfl]
    have hcur' : (b.renewed []).currentEndpoint = a.currentEndpoint := hw.currentEndpoint
    simp only [hcur, ne_eq, not_false_eq_true, forall_true_left] at h
    simp [hl, hc, hnot, ResetCalls.Restores, hcur', hne, h]

/-! ### When the socket stays ready -/

/-- The call gets its endpoint set: it is the current one, or what there is to disconnect is
disconnected and the new one connected. -/
def EndpointSet (pf : Platform) (a : Socket) (x : CloudCall) : Prop :=
  a.currentEndpoint = x.receiverAddress ∨
    ((a.currentEndpoint = [] ∨ x.calls.disconnect = true) ∧ x.calls.connect = true ∧
      Accepted pf x.receiverAddress)

/-- The last reset the exchange runs into, if any, goes through. `sent` is the number of its
request. Before the request leaves, `set` may throw: the socket is as it was. -/
def Repaired (sent : ℕ) (x : CloudCall) : Prop :=
  (¬ x.Leaves → x.calls.handlerReset.setLinger = true →
    x.calls.handlerReset.Restores x.receiverAddress) ∧
  (x.Leaves → x.calls.recv = .fails → x.calls.handlerReset.Restores x.receiverAddress) ∧
  ∀ arriving, x.Leaves → x.calls.recv = .waits arriving → sent ∉ arriving →
    x.calls.timeoutReset.Restores x.receiverAddress ∨
      ((x.calls.timeoutReset.setLinger = true → x.calls.timeoutReset.create = true) ∧
        x.calls.handlerReset.Restores x.receiverAddress)

/-- The condition on a call, in the state it is made in. -/
def Kept (pf : Platform) (a : Socket) (x : CloudCall) : Prop :=
  (EndpointSet pf a x → Repaired a.clientSocket.sent x) ∧
  (¬ EndpointSet pf a x → a.currentEndpoint = [] ∨ x.calls.disconnect = false)

/-- **After the exchange and the handlers** the socket is ready iff what went wrong was repaired. -/
theorem ready_after_exchange (ha : Known pf a) (hr : a.Ready)
    (hcur : a.currentEndpoint = x.receiverAddress) :
    (left (caught pf x.calls (a.exchange pf answer x.receiverAddress x.m x.calls))).Ready ↔
      Repaired a.clientSocket.sent x := by
  unfold Repaired
  by_cases hl : x.Leaves
  · cases hrecv : x.calls.recv with
    | fails =>
      obtain ⟨b, hw, heq⟩ := exchange_fails answer ha hr hcur hl hrecv
      rw [heq, caught, left_throw, resetSocket_ready_iff hw.known hw.handle, hw.currentEndpoint, hcur]
      simp [hl, hw.not_ready]
    | waits arriving =>
      by_cases hin : a.clientSocket.sent ∈ arriving
      · obtain ⟨k, b, hb, heq⟩ := exchange_arrives answer ha hr hcur hl hrecv hin
        rw [heq]
        refine iff_of_true ?_ (by simp [hl, hin])
        cases (answer ⟨k, x.receiverAddress, a.clientSocket.sent, x.m⟩).decode pf with
        | none => exact hb
        | some reply => exact hb
      · obtain ⟨b, hw, heq⟩ := exchange_timeout answer ha hr hcur hl hrecv hin
        rw [heq, ready_after_resets hw (by rw [hcur]; exact hl.1) ⟨_, rfl⟩, hcur]
        simp [hl, hin]
  · rw [exchange_unsent hr hcur hl, caught, left_throw, resetSocket_ready_iff ha hr.handle, hcur]
    simp only [hl, hr, not_false_eq_true, forall_true_left, and_true, false_implies, implies_true]
    cases x.calls.handlerReset.setLinger with
    | true => simp
    | false => simp

/-- The object with its socket connected to `l`. -/
def reconnected (a : Socket) (l : List Str) : Socket :=
  { a with clientSocket := { a.clientSocket with connected := l } }

/-- What `connect` makes of an open socket. -/
theorem connect_eq (hopen : a.clientSocket.handle.isSome = true) {ok : Bool} :
    a.connect pf e ok = if ok = true ∧ Accepted pf e then
      .ok (a.reconnected (e :: a.clientSocket.connected)) else .error (.zmqError, a) := by
  unfold connect ReqSocket.connect
  by_cases h : ok = true ∧ Accepted pf e
  · simp [hopen, h.1, h.2, zmq, reconnected]
  · have hne : (ok && decide (Accepted pf e)) = false := by simpa using h
    rw [hne, if_neg h]
    simp [zmq]

/-- What disconnecting leaves of a ready socket. -/
theorem disconnect_of_ready (hr : a.Ready) :
    (if a.currentEndpoint = [] then pure a
      else a.zmq (a.clientSocket.disconnect a.currentEndpoint o.disconnect)) =
    if a.currentEndpoint ≠ [] ∧ o.disconnect = false then .error (.zmqError, a)
    else .ok (a.reconnected []) := by
  by_cases hcur : a.currentEndpoint = []
  · have hnil : a.clientSocket.connected = [] := by rw [hr.connected, endpoints, if_pos hcur]
    rw [if_pos hcur, if_neg fun h => h.1 hcur, reconnected, ← hnil]
    rfl
  · have hcon : a.clientSocket.connected = [a.currentEndpoint] := by
      rw [hr.connected, endpoints, if_neg hcur]
    rw [if_neg hcur, ReqSocket.disconnect_only (.inr hcon)]
    cases hd : o.disconnect with
    | false => rw [if_neg fun h => by simp at h, if_pos ⟨hcur, rfl⟩]; rfl
    | true => rw [if_pos ⟨hr.handle, hcon, rfl⟩, if_neg fun h => by simp at h]; rfl

/-- What `setNodeEndpoint` leaves of a ready socket, the endpoint being another one. -/
theorem setNodeEndpoint_of_ne (hr : a.Ready) (hne : a.currentEndpoint ≠ e) :
    a.setNodeEndpoint pf e o =
      if a.currentEndpoint ≠ [] ∧ o.disconnect = false then .error (.zmqError, a)
      else if o.connect = true ∧ Accepted pf e then
        .ok { a.reconnected [e] with currentEndpoint := e }
      else .error (.zmqError, a.reconnected []) := by
  unfold setNodeEndpoint
  rw [if_neg hne, disconnect_of_ready hr]
  by_cases hd : a.currentEndpoint ≠ [] ∧ o.disconnect = false
  · rw [if_pos hd, if_pos hd]; rfl
  rw [if_neg hd, if_neg hd]
  have hcon : (a.reconnected []).connect pf e o.connect = if o.connect = true ∧ Accepted pf e then
      .ok (a.reconnected [e]) else .error (.zmqError, a.reconnected []) :=
    connect_eq (a := a.reconnected []) hr.handle
  show ((a.reconnected []).connect pf e o.connect >>= _) = _
  rw [hcon]
  by_cases hc : o.connect = true ∧ Accepted pf e
  · rw [if_pos hc, if_pos hc]; rfl
  · rw [if_neg hc, if_neg hc]; rfl

/-- The endpoint is the one asked for already, or it is set. -/
theorem setNodeEndpoint_of_set (ha : Known pf a) (hr : a.Ready) (hset : EndpointSet pf a x) :
    ∃ b, a.setNodeEndpoint pf x.receiverAddress x.calls = .ok b ∧ Known pf b ∧ b.Ready ∧
      b.currentEndpoint = x.receiverAddress ∧ b.clientSocket.sent = a.clientSocket.sent := by
  by_cases hcur : a.currentEndpoint = x.receiverAddress
  · exact ⟨a, by rw [setNodeEndpoint, if_pos hcur]; rfl, ha, hr, hcur, rfl⟩
  obtain ⟨hd, hc, hacc⟩ := hset.resolve_left hcur
  have hnot : ¬ (a.currentEndpoint ≠ [] ∧ x.calls.disconnect = false) := by
    rintro ⟨h1, h2⟩
    rw [h2] at hd
    exact hd.elim h1 Bool.false_ne_true
  refine ⟨_, by rw [setNodeEndpoint_of_ne hr hcur, if_neg hnot, if_pos ⟨hc, hacc⟩], ?_⟩
  have hend : [x.receiverAddress] = endpoints ⟨a.clientSocket, x.receiverAddress⟩ := by
    rw [endpoints, if_neg hacc.1]
  exact ⟨⟨ha.sound.of_connected _, .inr hend, fun _ => hacc⟩, ⟨hr.handle, hr.outstanding, hend⟩, rfl,
    rfl⟩

/-- Otherwise it throws, and leaves the socket disconnected if it got that far. -/
theorem setNodeEndpoint_of_not_set (hr : a.Ready) (hset : ¬ EndpointSet pf a x) :
    ∃ b, a.setNodeEndpoint pf x.receiverAddress x.calls = .error (.zmqError, b) ∧
      (b.Ready ↔ a.currentEndpoint = [] ∨ x.calls.disconnect = false) := by
  have hcur : a.currentEndpoint ≠ x.receiverAddress := fun h => hset (.inl h)
  by_cases hd : a.currentEndpoint ≠ [] ∧ x.calls.disconnect = false
  · refine ⟨a, by rw [setNodeEndpoint_of_ne hr hcur, if_pos hd], iff_of_true hr (.inr hd.2)⟩
  have hd' : a.currentEndpoint = [] ∨ x.calls.disconnect = true := by
    rw [not_and_or, not_not, Bool.not_eq_false] at hd
    exact hd
  have hc : ¬ (x.calls.connect = true ∧ Accepted pf x.receiverAddress) :=
    fun h => hset (.inr ⟨hd', h⟩)
  refine ⟨_, by rw [setNodeEndpoint_of_ne hr hcur, if_neg hd, if_neg hc], ?_⟩
  -- nothing is connected now
  constructor
  · intro hb
    have hend : ([] : List Str) = a.endpoints := hb.connected
    rw [endpoints] at hend
    split at hend
    · exact .inl ‹_›
    · cases hend
  · intro h
    have hnil : a.currentEndpoint = [] := by
      rcases h with h | h
      · exact h
      · rw [h] at hd'
        exact hd'.resolve_right Bool.false_ne_true
    exact ⟨hr.handle, hr.outstanding, (if_pos hnil).symm⟩

/-- **From a ready socket, a call leaves it ready iff the condition holds.** -/
theorem ready_after_iff (answer : Request Str Message → Frame) (ha : Known pf a) (hr : a.Ready) :
    (a.after pf answer x).Ready ↔ Kept pf a x := by
  unfold after sendCloudMessage Kept
  by_cases hset : EndpointSet pf a x
  · obtain ⟨b, heq, hb, hbr, hcur, hsent⟩ := setNodeEndpoint_of_set ha hr hset
    rw [heq, ← hsent]
    simp only [hset, forall_true_left, not_true_eq_false, false_implies, and_true]
    exact ready_after_exchange hb hbr hcur
  · obtain ⟨b, heq, hb⟩ := setNodeEndpoint_of_not_set hr hset
    rw [heq]
    simp only [hset, forall_true_left, not_false_eq_true, false_implies, true_and]
    exact hb

/-! ### Sequences of calls -/

/-- `P` holds of every call of a sequence, in the state it is made in. -/
def EveryCall (pf : Platform) (answer : Request Str Message → Frame)
    (P : Socket → CloudCall → Prop) : Socket → List CloudCall → Prop
  | _, [] => True
  | a, x :: xs => P a x ∧ EveryCall pf answer P (a.after pf answer x) xs

/-- What the call returns, if it does, is the reply to its own request. -/
def Answered (pf : Platform) (answer : Request Str Message → Frame) (a : Socket) (x : CloudCall) :
    Prop :=
  ∀ reply b, a.sendCloudMessage pf answer x.receiverAddress x.m x.calls = .ok (reply, b) →
    Answers pf answer a x.receiverAddress x.m reply

/-- A call to an endpoint that is taken, and that answers the request, can succeed. -/
def Reaches (pf : Platform) (answer : Request Str Message → Frame) (a : Socket) : Prop :=
  ∀ e m reply, Accepted pf e → (∀ k n, (answer ⟨k, e, n, m⟩).decode pf = some reply) →
    ∃ o b, a.sendCloudMessage pf answer e m o = .ok (reply, b)

/-- What a call is to do: return the reply to its own request or throw, and leave the socket
ready for the next one. -/
structure Served (pf : Platform) (answer : Request Str Message → Frame) (a : Socket)
    (x : CloudCall) : Prop where
  answered : Answered pf answer a x
  ready : (a.after pf answer x).Ready
  reaches : Reaches pf answer (a.after pf answer x)

theorem Known.after (ha : Known pf a) : Known pf (a.after pf answer x) := by
  have hpost : Post (a.sendCloudMessage pf answer x.receiverAddress x.m x.calls) _ _ :=
    post_sendCloudMessage ha
  unfold Socket.after
  cases hr : a.sendCloudMessage pf answer x.receiverAddress x.m x.calls with
  | ok z => exact (hpost.of_ok hr).1
  | error z => exact hpost.of_error hr

/-- A `Message` that is returned is the reply to the request of its call. -/
theorem Known.answered (ha : Known pf a) : Answered pf answer a x := fun _ _ hr =>
  ((post_sendCloudMessage ha).of_ok hr).2

/-- A ready socket serves any endpoint that is taken. -/
theorem reaches_of_ready (ha : Known pf a) (hr : a.Ready) : Reaches pf answer a := by
  intro e m reply hacc hans
  let x : CloudCall := ⟨e, m, { recv := .waits [a.clientSocket.sent] }⟩
  have hset : EndpointSet pf a x := .inr ⟨.inr rfl, rfl, hacc⟩
  obtain ⟨b, heq, hb, hbr, hcur, hsent⟩ := setNodeEndpoint_of_set ha hr hset
  have hin : b.clientSocket.sent ∈ [a.clientSocket.sent] := by
    rw [hsent]; exact List.mem_cons_self
  obtain ⟨k, c, -, hex⟩ := exchange_arrives answer (x := x) hb hbr hcur
    ⟨hacc.1, 0, rfl⟩ rfl hin
  rw [hans] at hex
  refine ⟨x.calls, c, ?_⟩
  unfold sendCloudMessage
  rw [heq]
  show caught pf x.calls (b.exchange pf answer e m x.calls) = _
  rw [hex]
  rfl

/-- **One call from a ready socket.** -/
theorem served_iff (ha : Known pf a) (hr : a.Ready) : Served pf answer a x ↔ Kept pf a x := by
  rw [← ready_after_iff answer ha hr]
  exact ⟨Served.ready, fun h => ⟨ha.answered, h, reaches_of_ready ha.after h⟩⟩

/-- **Every reply returned is the reply to the request of its call, whatever fails; and every
call of a sequence leaves the socket ready iff the condition holds of every call.** -/
theorem sendCloudMessage_served (pf : Platform) (answer : Request Str Message → Frame)
    (calls : List CloudCall) :
    EveryCall pf answer (Answered pf answer) Socket.new calls ∧
      (EveryCall pf answer (Served pf answer) Socket.new calls ↔
        EveryCall pf answer (Kept pf) Socket.new calls) := by
  constructor
  · have hinv : ∀ a : Socket, Known pf a → EveryCall pf answer (Answered pf answer) a calls := by
      induction calls with
      | nil => intro a _; trivial
      | cons x xs ih => intro a ha; exact ⟨ha.answered, ih _ ha.after⟩
    exact hinv _ known_new
  · have hinv : ∀ a : Socket, Known pf a → a.Ready → (EveryCall pf answer (Served pf answer) a calls ↔
        EveryCall pf answer (Kept pf) a calls) := by
      induction calls with
      | nil => intro a _ _; exact Iff.rfl
      | cons x xs ih =>
        intro a ha hr
        simp only [EveryCall, served_iff ha hr]
        refine and_congr_right fun hk => ih _ ha.after ?_
        exact (ready_after_iff answer ha hr).2 hk
    exact hinv _ known_new ⟨rfl, rfl, rfl⟩

/-- Once disconnected from an endpoint it still holds for current, the client reaches no other
one. -/
theorem sendCloudMessage_disconnected (hc : a.clientSocket.connected = [])
    (hcur : a.currentEndpoint ≠ []) (hne : a.currentEndpoint ≠ e) :
    a.sendCloudMessage pf answer e m o = .error (.zmqError, a) := by
  have hdis : a.clientSocket.disconnect a.currentEndpoint o.disconnect = none := by
    rw [ReqSocket.disconnect_only (.inl hc), if_neg]
    rintro ⟨-, h, -⟩
    rw [hc] at h
    cases h
  unfold sendCloudMessage setNodeEndpoint
  rw [if_neg hne, if_neg hcur, hdis]
  rfl

/-- The syntax check `zmq_connect` makes of the address of a TCP endpoint: what it starts with, the
characters after that, and a digit after the last colon. -/
def tcpSyntax (address : Str) : Bool :=
  let isAlnum (c : UInt8) : Bool := (48 ≤ c && c ≤ 57) || (65 ≤ c && c ≤ 90) || (97 ≤ c && c ≤ 122)
  let afterColon := (address.reverse.takeWhile fun c => c != 58).reverse
  (address.head?.any fun c => isAlnum c || c == 91 || c == 58) &&
    (address.tail.all fun c => isAlnum c || (str ".-:%;[]_*").contains c) &&
    address.contains 58 && (afterColon.head?.any fun c => 48 ≤ c && c ≤ 57)

/-- TCP endpoints are taken if their syntax is right. -/
def zmqPlatform : Platform where
  charSigned := true
  unpack := Function.const Str none
  unpack_wrongShard := rfl
  validEndpoint e := (str "tcp://").isPrefixOf e && tcpSyntax (e.drop 6)

/-- Every request is answered with no nodes. -/
def noNodes (_ : Request Str Message) : Frame := .packed (Message.nodesResponse [] 0 [])

/-- A call that is answered, and one to a node that gave a port below zero. -/
def portCalls : List CloudCall :=
  [⟨endpoint (str "h") 1, Message.getNodes [] 0, { recv := .waits [0] }⟩,
    ⟨endpoint (str "h") (-1), Message.getNodes [] 0, {}⟩]

def firstAgain : CloudCall := ⟨endpoint (str "h") 1, Message.getNodes [] 0, {}⟩

/-- The second call throws after it has disconnected the first endpoint. Calls to other endpoints
do not get past `disconnect` then; one to the first endpoint fails, and its reset connects again. -/
theorem left_disconnected :
    ¬ EveryCall zmqPlatform noNodes (Served zmqPlatform noNodes) Socket.new portCalls ∧
      (∀ e m o, endpoint (str "h") 1 ≠ e →
        (portCalls.foldl (Socket.after zmqPlatform noNodes) Socket.new).sendCloudMessage
          zmqPlatform noNodes e m o = .error (.zmqError,
            portCalls.foldl (Socket.after zmqPlatform noNodes) Socket.new)) ∧
      ((portCalls ++ [firstAgain]).foldl (Socket.after zmqPlatform noNodes) Socket.new).Ready := by
  have hcon : (portCalls.foldl (Socket.after zmqPlatform noNodes)
      Socket.new).clientSocket.connected = [] := by decide +kernel
  have hcur : (portCalls.foldl (Socket.after zmqPlatform noNodes) Socket.new).currentEndpoint =
      endpoint (str "h") 1 := by decide +kernel
  have hne : endpoint (str "h") 1 ≠ [] := by decide +kernel
  have hready : ((portCalls ++ [firstAgain]).foldl (Socket.after zmqPlatform noNodes)
      Socket.new).Ready := ⟨by decide +kernel, by decide +kernel, by decide +kernel⟩
  refine ⟨?_, ?_, hready⟩
  · rintro ⟨-, h, -⟩
    have hready : _ = endpoints (portCalls.foldl (Socket.after zmqPlatform noNodes) Socket.new) :=
      h.ready.connected
    rw [endpoints, hcur, if_neg hne] at hready
    exact List.cons_ne_nil _ _ (hready.symm.trans hcon)
  · intro e m o he
    refine sendCloudMessage_disconnected hcon ?_ ?_
    · rw [hcur]; exact hne
    · rw [hcur]; exact he

end Socket

end API

end Shopping
