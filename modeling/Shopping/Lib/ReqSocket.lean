import Mathlib.Data.List.Basic

/-!
# Strict request sockets

A request socket of a message queue takes turns: a request is sent, its reply is received,
and only then may the next one be sent. A request out of turn is refused, and so is every
call on a closed socket. A reply reaches only the socket its request was sent from: what
arrives for a closed one is dropped. Replies may arrive in any order and at any time, each at
most once.

`ReqSocket` is one such socket and the requests on the wire. What an operation may run into
is an argument; the rules above hold whatever it is. An operation that throws is `none` and
leaves the socket as it was. Timeouts are no part of the socket: an operation always ends, and
nothing is said of a send or receive that would wait for ever.

`send_recv`: what is received after a send is the reply to the request just sent, if the
requests on the wire are `Sound`, and every operation keeps them so.
-/

namespace Shopping.Lib

variable {ε β : Type*}

/-- A request on the wire: the socket it was sent from, the peer it went to, its number. -/
structure Request (ε β : Type*) where
  socket : ℕ
  peer : ε
  number : ℕ
  body : β

/-- A request socket, closed if it has no `handle`, with the requests on the wire. -/
structure ReqSocket (ε β : Type*) where
  handle : Option ℕ := none
  connected : List ε := []
  /-- The number of the request whose reply is to be received. -/
  outstanding : Option ℕ := none
  opened : ℕ := 0
  sent : ℕ := 0
  /-- The requests no reply to which has arrived. -/
  pending : List (Request ε β) := []

/-- What a send runs into. With a peer to send to, the `turn` picks one. -/
inductive Sending
  | goes (turn : ℕ)
  | timesOut
  | fails
  deriving DecidableEq

/-- What a receive runs into: the numbers of the requests whose replies arrive before its
timeout, in order. -/
inductive Receiving
  | waits (arriving : List ℕ)
  | fails
  deriving DecidableEq

namespace ReqSocket

def close (s : ReqSocket ε β) : ReqSocket ε β :=
  { s with handle := none, connected := [], outstanding := none }

/-- A new socket in the place of a closed one. -/
def create (s : ReqSocket ε β) (ok : Bool) : Option (ReqSocket ε β) :=
  if ok then
    some { s with
      handle := some s.opened
      connected := []
      outstanding := none
      opened := s.opened + 1 }
  else none

/-- Set an option, of which no trace is kept. -/
def set (s : ReqSocket ε β) (ok : Bool) : Option (ReqSocket ε β) :=
  if s.handle.isSome ∧ ok then some s else none

def connect (s : ReqSocket ε β) (e : ε) (ok : Bool) : Option (ReqSocket ε β) :=
  if s.handle.isSome ∧ ok then some { s with connected := e :: s.connected } else none

def disconnect [DecidableEq ε] (s : ReqSocket ε β) (e : ε) (ok : Bool) :
    Option (ReqSocket ε β) :=
  if s.handle.isSome ∧ e ∈ s.connected ∧ ok then
    some { s with connected := s.connected.erase e }
  else none

/-- Send a request; `false` if it timed out, as it must without a peer. -/
def send (s : ReqSocket ε β) (body : β) (o : Sending) : Option (Bool × ReqSocket ε β) :=
  match s.handle, s.outstanding with
  | some h, none =>
    match o with
    | .fails => none
    | .timesOut => some (false, s)
    | .goes turn =>
      match s.connected[turn % s.connected.length]? with
      | none => some (false, s)
      | some peer =>
        some (true, { s with
          outstanding := some s.sent
          sent := s.sent + 1
          pending := ⟨h, peer, s.sent, body⟩ :: s.pending })
  | _, _ => none

/-- The first of the replies that arrive for the socket `h`, by its request, and the requests
that stay without one. -/
def deliver (h : ℕ) : List (Request ε β) → List ℕ → Option (Request ε β) × List (Request ε β)
  | pending, [] => (none, pending)
  | pending, n :: arriving =>
    match pending.find? fun r => r.number = n with
    | none => deliver h pending arriving
    | some r =>
      let rest := pending.filter fun r => r.number ≠ n
      if r.socket = h then (some r, rest) else deliver h rest arriving

/-- Receive a reply, given by its request; `none` inside if it timed out. -/
def recv (s : ReqSocket ε β) (o : Receiving) :
    Option (Option (Request ε β) × ReqSocket ε β) :=
  match s.handle, s.outstanding with
  | some h, some _ =>
    match o with
    | .fails => none
    | .waits arriving =>
      match deliver h s.pending arriving with
      | (none, rest) => some (none, { s with pending := rest })
      | (some r, rest) => some (some r, { s with outstanding := none, pending := rest })
  | _, _ => none

/-- The only request of an open socket without a reply is the outstanding one. Handles and
numbers are not used twice. -/
structure Sound (s : ReqSocket ε β) : Prop where
  handle_lt : ∀ h, s.handle = some h → h < s.opened
  pending_lt : ∀ r ∈ s.pending, r.socket < s.opened ∧ r.number < s.sent
  own : ∀ r ∈ s.pending, s.handle = some r.socket → s.outstanding = some r.number

variable {s s' : ReqSocket ε β} {h n : ℕ} {pending rest : List (Request ε β)}
  {arriving : List ℕ} {r : Request ε β} {o : Option (Request ε β)}

theorem sound_new : (({} : ReqSocket ε β)).Sound where
  handle_lt h hh := by cases hh
  pending_lt r hr := by cases hr
  own r hr := by cases hr

theorem Sound.close (hs : s.Sound) : s.close.Sound where
  handle_lt h hh := by cases hh
  pending_lt := hs.pending_lt
  own r _ hh := by cases hh

theorem Sound.create {ok : Bool} (hs : s.Sound) (h : s.create ok = some s') : s'.Sound := by
  unfold ReqSocket.create at h
  split at h
  · cases h
    refine ⟨fun h hh => ?_, fun r hr => ?_, fun r hr hh => ?_⟩
    · cases hh; exact Nat.lt_succ_self _
    · exact ⟨Nat.lt_succ_of_lt (hs.pending_lt r hr).1, (hs.pending_lt r hr).2⟩
    -- no request was sent from a handle that is new
    · have hlt := (hs.pending_lt r hr).1
      rw [← Option.some.inj hh] at hlt
      exact absurd hlt (Nat.lt_irrefl _)
  · cases h

theorem set_eq {ok : Bool} (h : s.set ok = some s') : s' = s := by
  unfold ReqSocket.set at h
  split at h
  · cases h; rfl
  · cases h

/-- Only the connections change. -/
theorem Sound.of_connected (hs : s.Sound) (l : List ε) : { s with connected := l }.Sound :=
  ⟨hs.handle_lt, hs.pending_lt, hs.own⟩

theorem Sound.connect {e : ε} {ok : Bool} (hs : s.Sound) (h : s.connect e ok = some s') :
    s'.Sound := by
  unfold ReqSocket.connect at h
  split at h
  · cases h; exact hs.of_connected _
  · cases h

theorem Sound.disconnect [DecidableEq ε] {e : ε} {ok : Bool} (hs : s.Sound)
    (h : s.disconnect e ok = some s') : s'.Sound := by
  unfold ReqSocket.disconnect at h
  split at h
  · cases h; exact hs.of_connected _
  · cases h

/-- Nothing else being connected, only an endpoint that is connected is disconnected, and
nothing is left. -/
theorem disconnect_only [DecidableEq ε] {e : ε} {ok : Bool}
    (hc : s.connected = [] ∨ s.connected = [e]) :
    s.disconnect e ok = if s.handle.isSome ∧ s.connected = [e] ∧ ok then
      some { s with connected := [] } else none := by
  unfold ReqSocket.disconnect
  rcases hc with hc | hc
  · simp [hc]
  · simp [hc]

/-- What a send can do: send the request to a peer, or time out. -/
theorem send_cases {body : β} {so : Sending} {b : Bool} (h : s.send body so = some (b, s')) :
    s.outstanding = none ∧ ∃ k, s.handle = some k ∧
      ((b = false ∧ s' = s) ∨ ∃ peer ∈ s.connected, b = true ∧
        s' = { s with
          outstanding := some s.sent
          sent := s.sent + 1
          pending := ⟨k, peer, s.sent, body⟩ :: s.pending }) := by
  unfold send at h
  split at h
  · rename_i k hk hout
    refine ⟨hout, k, hk, ?_⟩
    cases so with
    | fails => cases h
    | timesOut => cases h; exact .inl ⟨rfl, rfl⟩
    | goes turn =>
      simp only at h
      split at h
      · cases h; exact .inl ⟨rfl, rfl⟩
      · rename_i peer hpeer
        cases h
        exact .inr ⟨peer, List.mem_of_getElem? hpeer, rfl, rfl⟩
  · cases h

theorem Sound.send {body : β} {so : Sending} {b : Bool} (hs : s.Sound)
    (h : s.send body so = some (b, s')) : s'.Sound := by
  obtain ⟨hout, k, hk, ⟨-, rfl⟩ | ⟨peer, -, -, rfl⟩⟩ := send_cases h
  · exact hs
  refine ⟨hs.handle_lt, fun r hr => ?_, fun r hr hh => ?_⟩
  · rcases List.mem_cons.1 hr with rfl | hr
    · exact ⟨hs.handle_lt k hk, Nat.lt_succ_self _⟩
    · exact ⟨(hs.pending_lt r hr).1, Nat.lt_succ_of_lt (hs.pending_lt r hr).2⟩
  · rcases List.mem_cons.1 hr with rfl | hr
    · rfl
    -- a ready socket has no request on the wire
    · have := hs.own r hr hh
      rw [hout] at this
      cases this

theorem deliver_spec : ∀ {arriving : List ℕ} {pending : List (Request ε β)},
    deliver h pending arriving = (o, rest) →
      (∀ q ∈ rest, q ∈ pending) ∧
      ∀ r, o = some r → r ∈ pending ∧ r.socket = h ∧ ∀ q ∈ rest, q.number ≠ r.number := by
  intro arriving
  induction arriving with
  | nil =>
    rintro pending ⟨⟩
    exact ⟨fun q hq => hq, fun r hr => by cases hr⟩
  | cons n arriving ih =>
    intro pending hd
    unfold deliver at hd
    cases hf : pending.find? fun r => r.number = n with
    | none => rw [hf] at hd; exact ih hd
    | some r =>
      rw [hf] at hd
      have hr := List.mem_of_find?_eq_some hf
      have hn : r.number = n := by simpa using List.find?_some hf
      simp only at hd
      split at hd
      -- delivered, and taken off the wire
      · rename_i hsock
        cases hd
        refine ⟨fun q hq => List.mem_of_mem_filter hq, fun q hq => ?_⟩
        cases hq
        refine ⟨hr, hsock, fun q hq => ?_⟩
        have := List.of_mem_filter hq
        rw [hn]
        simpa using this
      -- dropped
      · obtain ⟨h1, h2⟩ := ih hd
        refine ⟨fun q hq => List.mem_of_mem_filter (h1 q hq), fun q hq => ?_⟩
        obtain ⟨h3, h4, h5⟩ := h2 q hq
        exact ⟨List.mem_of_mem_filter h3, h4, h5⟩

/-- If `r` is the only request of the socket, its reply is delivered as soon as it arrives, and
no other one is. -/
theorem deliver_fst (hr : r ∈ pending) (hown : ∀ q ∈ pending, q.socket = h → q = r)
    (hsock : r.socket = h) (hnum : ∀ q ∈ pending, q.number = r.number → q = r) :
    (deliver h pending arriving).1 = if r.number ∈ arriving then some r else none := by
  induction arriving generalizing pending with
  | nil => rfl
  | cons n arriving ih =>
    unfold deliver
    by_cases hn : n = r.number
    -- its own reply: nothing else on the wire has this number
    · subst hn
      have hf : (pending.find? fun q => q.number = r.number) = some r := by
        cases hf : pending.find? fun q => q.number = r.number with
        | none => simpa using List.find?_eq_none.1 hf r hr
        | some q =>
          rw [hnum q (List.mem_of_find?_eq_some hf) (by simpa using List.find?_some hf)]
      rw [hf, if_pos List.mem_cons_self]
      simp only [hsock, if_true]
    -- another one, which is not for this socket
    · have hiff : r.number ∈ n :: arriving ↔ r.number ∈ arriving := by
        rw [List.mem_cons, or_iff_right (Ne.symm hn)]
      simp only [hiff]
      cases hf : pending.find? fun q => q.number = n with
      | none => exact ih hr hown hnum
      | some q =>
        have hq := List.mem_of_find?_eq_some hf
        have hqn : q.number = n := by simpa using List.find?_some hf
        have hne : q.socket ≠ h := by
          intro hqs
          rw [hown q hq hqs] at hqn
          exact hn hqn.symm
        simp only [if_neg hne]
        refine ih ?_ (fun q hq => hown q (List.mem_of_mem_filter hq))
          (fun q hq => hnum q (List.mem_of_mem_filter hq))
        exact List.mem_filter.2 ⟨hr, by simpa using Ne.symm hn⟩

/-- What a receive can do: time out, or take a request of its own off the wire. -/
theorem recv_cases {ro : Receiving} (h : s.recv ro = some (o, s')) :
    ∃ k n, s.handle = some k ∧ s.outstanding = some n ∧ (∀ q ∈ s'.pending, q ∈ s.pending) ∧
      ((o = none ∧ s' = { s with pending := s'.pending }) ∨
        ∃ r ∈ s.pending, o = some r ∧ r.socket = k ∧ (∀ q ∈ s'.pending, q.number ≠ r.number) ∧
          s' = { s with outstanding := none, pending := s'.pending }) := by
  unfold recv at h
  split at h
  · rename_i k n hk hn
    refine ⟨k, n, hk, hn, ?_⟩
    cases ro with
    | fails => cases h
    | waits arriving =>
      simp only at h
      split at h
      · rename_i rest hd
        cases h
        exact ⟨(deliver_spec hd).1, .inl ⟨rfl, rfl⟩⟩
      · rename_i r rest hd
        cases h
        obtain ⟨h1, h2⟩ := deliver_spec hd
        obtain ⟨h3, h4, h5⟩ := h2 r rfl
        exact ⟨h1, .inr ⟨r, h3, rfl, h4, h5, rfl⟩⟩
  · cases h

theorem Sound.recv {ro : Receiving} (hs : s.Sound) (h : s.recv ro = some (o, s')) : s'.Sound := by
  obtain ⟨k, n, hk, hn, hsub, ⟨-, heq⟩ | ⟨r, hr, -, hrk, hne, heq⟩⟩ := recv_cases h
  · rw [heq]
    exact ⟨hs.handle_lt, fun q hq => hs.pending_lt q (hsub q hq), fun q hq => hs.own q (hsub q hq)⟩
  · rw [heq]
    refine ⟨hs.handle_lt, fun q hq => hs.pending_lt q (hsub q hq), fun q hq hh => ?_⟩
    -- the one received was the only one of this socket
    have h1 : s.outstanding = some q.number := hs.own q (hsub q hq) hh
    have h2 : s.outstanding = some r.number := hs.own r hr (by rw [hk, hrk])
    rw [h1] at h2
    exact absurd (Option.some.inj h2) (hne q hq)

/-- **What is received after a send is the reply to that request.** -/
theorem send_recv {t u : ReqSocket ε β} {body : β} {so : Sending} {ro : Receiving} {b : Bool}
    (hs : s.Sound) (h1 : s.send body so = some (b, t)) (h2 : t.recv ro = some (some r, u)) :
    ∃ peer ∈ s.connected, s.handle = some r.socket ∧ r = ⟨r.socket, peer, s.sent, body⟩ := by
  obtain ⟨hout, k, hk, ⟨-, rfl⟩ | ⟨peer, hpeer, -, rfl⟩⟩ := send_cases h1
  -- the send timed out: there is nothing to receive
  · obtain ⟨-, n, -, hn, -⟩ := recv_cases h2
    rw [hout] at hn
    cases hn
  · obtain ⟨j, n, hj, hn, -, ⟨hr, -⟩ | ⟨q, hq, hr, hqj, -⟩⟩ := recv_cases h2
    · cases hr
    cases hr
    rw [hk] at hj
    cases hj
    refine ⟨peer, hpeer, by rw [hk, hqj], ?_⟩
    rcases List.mem_cons.1 hq with rfl | hq
    · rfl
    · have := hs.own r hq (by rw [hk, hqj])
      rw [hout] at this
      cases this

/-- What a send does to an open socket whose turn it is. -/
theorem send_of_ready {k : ℕ} (hk : s.handle = some k) (hout : s.outstanding = none) (body : β)
    (so : Sending) : s.send body so = match so with
      | .fails => none
      | .timesOut => some (false, s)
      | .goes turn => match s.connected[turn % s.connected.length]? with
        | none => some (false, s)
        | some peer => some (true, { s with
            outstanding := some s.sent
            sent := s.sent + 1
            pending := ⟨k, peer, s.sent, body⟩ :: s.pending }) := by
  unfold ReqSocket.send
  rw [hk, hout]

/-- After a send, the reply is received iff it arrives in time. -/
theorem recv_sent {k : ℕ} (hs : s.Sound) (hk : s.handle = some k) (hout : s.outstanding = none)
    (peer : ε) (body : β) (arriving : List ℕ) :
    ∃ rest, ({ s with
        outstanding := some s.sent
        sent := s.sent + 1
        pending := ⟨k, peer, s.sent, body⟩ :: s.pending } : ReqSocket ε β).recv (.waits arriving) =
      if s.sent ∈ arriving then
        some (some ⟨k, peer, s.sent, body⟩,
          { s with outstanding := none, sent := s.sent + 1, pending := rest })
      else
        some (none, { s with outstanding := some s.sent, sent := s.sent + 1, pending := rest }) := by
  have hfst : (deliver k (⟨k, peer, s.sent, body⟩ :: s.pending) arriving).1 =
      if s.sent ∈ arriving then some ⟨k, peer, s.sent, body⟩ else none := by
    -- nothing else on the wire is from this socket, or has this number
    refine deliver_fst List.mem_cons_self (fun q hq hqk => ?_) rfl fun q hq hqn => ?_
    · rcases List.mem_cons.1 hq with rfl | hq
      · rfl
      · have := hs.own q hq (by rw [hk, hqk])
        rw [hout] at this
        cases this
    · rcases List.mem_cons.1 hq with rfl | hq
      · rfl
      · exact absurd hqn (Nat.ne_of_lt (hs.pending_lt q hq).2)
  refine ⟨(deliver k (⟨k, peer, s.sent, body⟩ :: s.pending) arriving).2, ?_⟩
  unfold ReqSocket.recv
  simp only [hk]
  generalize deliver k (⟨k, peer, s.sent, body⟩ :: s.pending) arriving = d at hfst ⊢
  obtain ⟨q, rest⟩ := d
  simp only at hfst
  subst hfst
  by_cases harr : s.sent ∈ arriving
  · simp only [if_pos harr]
  · simp only [if_neg harr]

theorem recv_of_ready {ro : Receiving} (h : s.outstanding = none) : s.recv ro = none := by
  unfold ReqSocket.recv
  split
  · rename_i hn; rw [h] at hn; cases hn
  · rfl

end ReqSocket

end Shopping.Lib
