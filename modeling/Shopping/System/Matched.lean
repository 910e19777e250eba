import Shopping.System.Shape

/-!
# Keys, calls and packets

What holds in every reachable state about where lists are and go (`Matched`): rows are
stored under the keys of their lists, a call in progress has its own number, and the
packets of its exchange carry lists of the key the call is about.
-/

namespace Shopping

open Lib

variable {ι κ : Type*} [DecidableEq ι] [DecidableEq κ]

/-- The exchange a packet belongs to. -/
def Packet.exchange : Packet κ → Option (κ × ℕ)
  | request k c _ _ => some (k, c)
  | reply k c _ => some (k, c)
  | _ => none

/-- The key of the list a call ends by storing. -/
def Pending.key : Pending → Option Str
  | edit lst => some lst.key
  | get listUid _ => some (cstr listUid)
  | _ => none

/-- The invariant. -/
structure Matched (D : Deployment ι κ) (w : World ι κ) : Prop where
  cfg : ∀ i, (w.node i).node.cfg = D.cfg i
  sent : ∀ i, (w.node i).node.sent = []
  nodeKey : ∀ i, (w.node i).node.db.Keyed
  origin : ∀ k, (w.client k).api.origin = D.origin k
  clientKey : ∀ k, (w.client k).api.db.Keyed
  found : ∀ k c listUid l, (w.client k).call = some (c, .get listUid (some l)) → l.key = cstr listUid
  frames : ∀ pkt ∈ w.net, pkt.frame.Proper
  numbered : ∀ pkt ∈ w.net, ∀ k c, pkt.exchange = some (k, c) → c < (w.client k).calls
  waiting : ∀ k c pending, (w.client k).call = some (c, pending) → c < (w.client k).calls
  keys : ∀ k c pending key, (w.client k).call = some (c, pending) → pending.key = some key →
    ∀ pkt ∈ w.net, pkt.exchange = some (k, c) → ∀ l ∈ pkt.frame.lists, l.key = key

variable {D : Deployment ι κ} {w w' : World ι κ} {g g' : Trace ι κ} {a : Action ι κ}

omit [DecidableEq ι] [DecidableEq κ] in
theorem Matched.init (D : Deployment ι κ) : Matched D (World.init D) where
  cfg _ := rfl
  sent _ := rfl
  nodeKey _ := SqliteDb.Keyed.empty
  origin _ := rfl
  clientKey _ := SqliteDb.Keyed.empty
  found := by intro k c listUid l h; cases h
  frames := by intro pkt h; cases h
  numbered := by intro pkt h; cases h
  waiting := by intro k c pending h; cases h
  keys := by intro k c pending key h; cases h

/-- What a handler of node `i` may send, `call` being the exchange it serves. -/
def MaySend (w : World ι κ) (call : Option (κ × ℕ)) (s : Sent) : Prop :=
  (∃ dests m, s = .gossip dests (.packed m) ∧ m.op ≠ .listResponse) ∨
    (∃ dests m, s = .discovery dests (.packed m) ∧ m.op ≠ .listResponse) ∨
    ∃ frame, s = .reply frame ∧ frame.Proper ∧
      ∀ l' ∈ frame.lists, ∃ kc, call = some kc ∧
        ∃ pkt ∈ w.net, pkt.exchange = some kc ∧ ∃ l ∈ pkt.frame.lists, l'.key = l.key

omit [DecidableEq κ] in
theorem Matched.place (hm : Matched D w) {i : ι} {n : Node} {running : Bool}
    {call : Option (κ × ℕ)} (hcfg : n.cfg = D.cfg i) (hkey : n.db.Keyed)
    (hcall : ∀ kc, call = some kc → ∃ pkt ∈ w.net, pkt.exchange = some kc)
    (hsent : ∀ s ∈ n.sent, MaySend w call s) : Matched D (w.place i n running call) := by
  have hnode : ∀ j, (w.place i n running call).node j =
      if j = i then ⟨{ n with sent := [] }, running⟩ else w.node j := by
    intro j; exact Function.update_apply _ _ _ _
  -- a packet of the turn belongs to the exchange of the request that it answers
  have hnew : ∀ pkt ∈ n.sent.filterMap (World.packet call), pkt.frame.Proper ∧
      ∀ k c, pkt.exchange = some (k, c) → call = some (k, c) ∧ ∀ l' ∈ pkt.frame.lists,
        ∃ pkt0 ∈ w.net, pkt0.exchange = some (k, c) ∧ ∃ l ∈ pkt0.frame.lists, l'.key = l.key := by
    intro pkt hpkt
    obtain ⟨s, hs, hp⟩ := List.mem_filterMap.1 hpkt
    rcases hsent s hs with ⟨dests, m, rfl, ho⟩ | ⟨dests, m, rfl, ho⟩ | ⟨frame, rfl, hf, hl⟩
    · cases hp
      exact ⟨Or.inr ⟨m, rfl, fun h => absurd h ho⟩, by intro k c h; cases h⟩
    · cases hp
      exact ⟨Or.inr ⟨m, rfl, fun h => absurd h ho⟩, by intro k c h; cases h⟩
    · obtain ⟨kc, rfl, rfl⟩ := Option.map_eq_some_iff.1 hp
      refine ⟨hf, ?_⟩
      intro k c h
      cases h
      refine ⟨rfl, ?_⟩
      intro l' hl'
      obtain ⟨kc', hkc, hpkt0⟩ := hl l' hl'
      cases hkc
      exact hpkt0
  constructor
  · intro j; rw [hnode]; split
    · rename_i h; subst h; exact hcfg
    · exact hm.cfg j
  · intro j; rw [hnode]; split
    · rfl
    · exact hm.sent j
  · intro j; rw [hnode]; split
    · exact hkey
    · exact hm.nodeKey j
  · exact hm.origin
  · exact hm.clientKey
  · exact hm.found
  · intro pkt hpkt
    rcases List.mem_append.1 hpkt with hpkt | hpkt
    · exact hm.frames pkt hpkt
    · exact (hnew pkt hpkt).1
  · intro pkt hpkt k c hx
    rcases List.mem_append.1 hpkt with hpkt | hpkt
    · exact hm.numbered pkt hpkt k c hx
    · obtain ⟨pkt0, h0, hx0⟩ := hcall _ ((hnew pkt hpkt).2 k c hx).1
      exact hm.numbered pkt0 h0 k c hx0
  · exact hm.waiting
  · intro k c pending key hc hk pkt hpkt hx l hl
    rcases List.mem_append.1 hpkt with hpkt | hpkt
    · exact hm.keys k c pending key hc hk pkt hpkt hx l hl
    · obtain ⟨pkt0, h0, hx0, l0, hl0, he⟩ := ((hnew pkt hpkt).2 k c hx).2 l hl
      rw [he]; exact hm.keys k c pending key hc hk pkt0 h0 hx0 l0 hl0

/-- The call of a client after a step: none, the one before, or a new one whose number is
new and whose request, if it is to store a list, carries lists of its key. -/
def NextCall (c c' : ClientState) (ps : List (Packet κ)) : Prop :=
  c'.call = none ∨ c'.call = c.call ∨ ∃ pending, c'.call = some (c.calls, pending) ∧
    c.calls < c'.calls ∧ (∀ listUid l, pending = .get listUid (some l) → l.key = cstr listUid) ∧
    ∀ key, pending.key = some key → ∀ pkt ∈ ps, ∀ l ∈ pkt.frame.lists, l.key = key

omit [DecidableEq ι] in
theorem Matched.client (hm : Matched D w) {k : κ} {c' : ClientState} {ps : List (Packet κ)}
    (horigin : c'.api.origin = (w.client k).api.origin) (hkey : c'.api.db.Keyed)
    (hcalls : (w.client k).calls ≤ c'.calls) (hframes : ∀ pkt ∈ ps, pkt.frame.Proper)
    (hnum : ∀ pkt ∈ ps, ∀ k' n, pkt.exchange = some (k', n) →
      k' = k ∧ (w.client k).calls ≤ n ∧ n < c'.calls)
    (hnext : NextCall (w.client k) c' ps) :
    Matched D { w with client := Function.update w.client k c', net := w.net ++ ps } := by
  have hclient : ∀ j, Function.update w.client k c' j = if j = k then c' else w.client j := by
    intro j; exact Function.update_apply _ _ _ _
  -- a call after the step is one from before it or the new one
  have hcall : ∀ j n pending, (Function.update w.client k c' j).call = some (n, pending) →
      (w.client j).call = some (n, pending) ∨ j = k ∧ c'.call = some (n, pending) ∧
        n = (w.client k).calls ∧ n < c'.calls ∧
        (∀ listUid l, pending = .get listUid (some l) → l.key = cstr listUid) ∧
        ∀ key, pending.key = some key → ∀ pkt ∈ ps, ∀ l ∈ pkt.frame.lists, l.key = key := by
    intro j n pending h
    rw [hclient] at h
    split at h
    · rename_i hj
      subst hj
      rcases hnext with hn | hn | ⟨pending', hn, h1, h2, h3⟩
      · rw [hn] at h; cases h
      · rw [hn] at h; exact Or.inl h
      · rw [hn] at h; cases h
        exact Or.inr ⟨rfl, hn, rfl, h1, h2, h3⟩
    · exact Or.inl h
  constructor
  · exact hm.cfg
  · exact hm.sent
  · exact hm.nodeKey
  · intro j; dsimp only; rw [hclient]; split
    · rename_i h; subst h; rw [horigin]; exact hm.origin j
    · exact hm.origin j
  · intro j; dsimp only; rw [hclient]; split
    · exact hkey
    · exact hm.clientKey j
  · intro j n listUid l h
    rcases hcall j n _ h with h | ⟨-, -, -, -, h, -⟩
    · exact hm.found j n listUid l h
    · exact h listUid l rfl
  · intro pkt hpkt
    rcases List.mem_append.1 hpkt with hpkt | hpkt
    · exact hm.frames pkt hpkt
    · exact hframes pkt hpkt
  · intro pkt hpkt j n hx
    dsimp only
    rw [hclient]
    rcases List.mem_append.1 hpkt with hpkt | hpkt
    · have := hm.numbered pkt hpkt j n hx
      split
      · rename_i h; subst h; omega
      · exact this
    · obtain ⟨rfl, -, h⟩ := hnum pkt hpkt j n hx
      rw [if_pos rfl]; exact h
  · intro j n pending h
    dsimp only
    rcases hcall j n pending h with h' | ⟨rfl, -, -, h1, -, -⟩
    · have := hm.waiting j n pending h'
      rw [hclient]
      split
      · rename_i hj; subst hj; omega
      · exact this
    · rw [hclient, if_pos rfl]; exact h1
  · intro j n pending key h hk pkt hpkt hx l hl
    rcases hcall j n pending h with h' | ⟨rfl, -, rfl, -, -, h3⟩
    · rcases List.mem_append.1 hpkt with hpkt | hpkt
      · exact hm.keys j n pending key h' hk pkt hpkt hx l hl
      · -- a new packet has a new number
        obtain ⟨rfl, hn, -⟩ := hnum pkt hpkt j n hx
        have := hm.waiting j n pending h'
        omega
    · rcases List.mem_append.1 hpkt with hpkt | hpkt
      · -- no packet had the number of the new call
        have := hm.numbered pkt hpkt j _ hx
        omega
      · exact h3 key hk pkt hpkt l hl

omit [DecidableEq ι] in
/-- A step of a client that sends nothing. -/
theorem Matched.setClient (hm : Matched D w) {k : κ} {c' : ClientState}
    (horigin : c'.api.origin = (w.client k).api.origin) (hkey : c'.api.db.Keyed)
    (hcalls : c'.calls = (w.client k).calls) (hnext : c'.call = none ∨ c'.call = (w.client k).call) :
    Matched D (w.setClient k c') := by
  rw [World.setClient_eq]
  exact hm.client horigin hkey hcalls.ge (by simp) (by simp) (hnext.imp_right Or.inl)

omit [DecidableEq ι] in
/-- The end of a call. -/
theorem Matched.ends (hm : Matched D w) {k : κ} {pending : Pending} {reply : Option Message}
    (he : Ends w k pending reply w') : Matched D w' := by
  cases he with
  | idle => exact hm.setClient rfl (hm.clientKey k) rfl (Or.inl rfl)
  | failed => exact hm.setClient rfl (hm.clientKey k) rfl (Or.inl rfl)
  | edited lst r => exact hm.setClient rfl ((hm.clientKey k).write r .ok) rfl (Or.inl rfl)
  | got listUid found r => exact hm.setClient rfl ((hm.clientKey k).write r .ok) rfl (Or.inl rfl)

omit [DecidableEq ι] in
/-- A call that sends one request. -/
theorem Matched.sendRequest (hm : Matched D w) {k : κ} {api : API} {ep : Str} {m : Message}
    {pending : Pending} (horigin : api.origin = (w.client k).api.origin) (hkey : api.db.Keyed)
    (hop : m.op ≠ .listResponse)
    (hfound : ∀ listUid l, pending = .get listUid (some l) → l.key = cstr listUid)
    (hlists : ∀ key, pending.key = some key → ∀ l ∈ m.lists, l.key = key) :
    Matched D (w.sendRequest k api ep m pending) := by
  refine hm.client horigin hkey (Nat.le_succ _) ?_ ?_ ?_
  · intro pkt hpkt
    obtain rfl := List.mem_singleton.1 hpkt
    exact Or.inr ⟨m, rfl, fun h => absurd h hop⟩
  · intro pkt hpkt k' n hx
    obtain rfl := List.mem_singleton.1 hpkt
    cases hx
    exact ⟨rfl, le_rfl, Nat.lt_succ_self _⟩
  · refine Or.inr (Or.inr ⟨pending, rfl, Nat.lt_succ_self _, hfound, ?_⟩)
    intro key hk pkt hpkt l hl
    obtain rfl := List.mem_singleton.1 hpkt
    exact hlists key hk l hl

/-- **Every step keeps the invariant.** -/
theorem Matched.step (hm : Matched D w) (h : World.step D w a = some w') : Matched D w' := by
  have hshape := step_shape h ({} : Trace ι κ)
  generalize Trace.track D w a w' {} = g' at hshape
  cases hshape with
  | quiet _ i n running hcfg hdb hsent =>
    refine hm.place ?_ ?_ (by simp) ?_
    · rcases hcfg with hcfg | hcfg
      · rw [hcfg, hm.cfg]
      · exact hcfg
    · rw [hdb]; exact hm.nodeKey i
    · intro s hs
      rcases hsent s hs with hs | ⟨now, c, rfl⟩ | ⟨dests, now, nodes, rfl⟩
      · rw [hm.sent] at hs; cases hs
      · exact Or.inl ⟨_, _, rfl, by simp [Message.gossipLists]⟩
      · exact Or.inr (Or.inl ⟨_, _, rfl, by simp [Message.gossipNodes]⟩)
  | clientFrame i p now k c dest frame _ hp hd hw =>
    subst hw
    have hmem : Packet.request k c dest frame ∈ w.net := List.mem_of_getElem? hp
    obtain ⟨hcfg, hkey, hsent⟩ :=
      Node.handleClientFrame_state (D.pf i) { now } (hm.sent i) (hm.nodeKey i) frame
    rw [settle_eq_place]
    refine hm.place (hcfg.trans (hm.cfg i)) hkey ?_ ?_
    · intro kc hkc; cases hkc; exact ⟨_, hmem, rfl⟩
    · intro s hs
      rcases hsent s hs with ⟨now, c', rfl⟩ | ⟨frame', rfl, hf, hl⟩
      · exact Or.inl ⟨_, _, rfl, by simp [Message.gossipLists]⟩
      · refine Or.inr (Or.inr ⟨_, rfl, hf, ?_⟩)
        intro l' hl'
        obtain ⟨m, hdec, l, hlm, hkey⟩ := hl l' hl'
        refine ⟨_, rfl, _, hmem, rfl, l, ?_, hkey⟩
        rcases hm.frames _ hmem with hf | ⟨m', hf, -⟩
        · rw [show frame = _ from hf] at hdec
          rw [Frame.decode_wrongShard] at hdec; cases hdec
        · rw [show frame = _ from hf] at hdec ⊢
          rw [Frame.decode_packed, Option.some.injEq] at hdec
          subst hdec; exact hlm
  | gossipFrame i p now dests frame _ hp hw =>
    subst hw
    obtain ⟨db, hstate, hdb⟩ := Node.handleGossipFrame_state (D.pf i) { now } (w.node i).node frame
    rw [settle_eq_place, hstate]
    refine hm.place (hm.cfg i) ?_ (by simp) ?_
    · rcases hdb with rfl | ⟨m, -, -, rfl, -⟩
      · exact hm.nodeKey i
      · exact Node.applyMessage_keyed _ (hm.nodeKey i) m
    · intro s hs
      dsimp only at hs
      rw [hm.sent] at hs; cases hs
  | create k name uid now pick ep _ hc hu hw =>
    subst hw
    exact hm.sendRequest rfl ((hm.clientKey k).write _ _) (by simp [Message.ensureList])
      (by simp) (by simp [Pending.key])
  | get k listUid now pick ep _ hc hw =>
    subst hw
    refine hm.sendRequest rfl (hm.clientKey k) (by simp [Message.getList]) ?_ ?_
    · intro uid l hl
      injection hl with h1 h2
      subst h1
      exact hm.clientKey k _ _ h2
    · intro key hkey l hl
      obtain rfl := List.mem_singleton.1 hl
      cases hkey; rfl
  | edit _ k listUid op base lst now ep _ hc hb he hw =>
    subst hw
    refine hm.sendRequest rfl (hm.clientKey k) (by simp [Message.ensureList]) (by simp) ?_
    intro key hkey l hl
    obtain rfl := List.mem_singleton.1 hl
    cases hkey; rfl
  | delete k listUid now pick ep _ hc hw =>
    subst hw
    exact hm.sendRequest rfl ((hm.clientKey k).deleteList _ _) (by simp [Message.deleteList])
      (by simp) (by simp [Pending.key])
  -- gossip requests take the next call numbers, and no call waits for their answers
  | batches k now pick batches _ hb hw =>
    subst hw
    have hreq : ∀ pkt ∈ World.gossipRequests k (w.client k).calls batches,
        ∃ j < batches.length, ∃ ep m, pkt = .request k ((w.client k).calls + j) ep (.packed m) ∧
          m.op ≠ .listResponse := by
      intro pkt hpkt
      obtain ⟨j, hj, rfl⟩ := List.mem_mapIdx.1 hpkt
      obtain ⟨batch, -, first, ep, -, -, hreq⟩ :=
        API.mem_gossipState hb (List.getElem_mem hj)
      exact ⟨j, hj, _, _, rfl, by rw [hreq]; simp [Message.gossipLists]⟩
    refine hm.client rfl (hm.clientKey k) (Nat.le_add_right _ _) ?_ ?_ (Or.inr (Or.inl rfl))
    · intro pkt hpkt
      obtain ⟨j, -, ep, m, rfl, ho⟩ := hreq pkt hpkt
      exact Or.inr ⟨m, rfl, fun h => absurd h ho⟩
    · intro pkt hpkt k' n hx
      obtain ⟨j, hj, ep, m, rfl, -⟩ := hreq pkt hpkt
      cases hx
      exact ⟨rfl, Nat.le_add_right _ _, Nat.add_lt_add_left hj _⟩
  | refresh k now pick ep _ hw =>
    subst hw
    refine hm.client rfl (hm.clientKey k) (Nat.le_succ _) ?_ ?_ (Or.inr (Or.inl rfl))
    · intro pkt hpkt
      obtain rfl := List.mem_singleton.1 hpkt
      exact Or.inr ⟨_, rfl, by simp [Message.getNodes]⟩
    · intro pkt hpkt k' n hx
      obtain rfl := List.mem_singleton.1 hpkt
      cases hx
      exact ⟨rfl, le_rfl, Nat.lt_succ_self _⟩
  | finish _ k call pending reply hs hc hr => exact hm.ends (finish_ends w k pending reply)
  | refreshed _ k reply hr =>
    obtain ⟨hdb, ho⟩ := (w.client k).api.finishUpdateCloudNodes_keeps reply
    exact hm.setClient ho (by dsimp only; rw [hdb]; exact hm.clientKey k) rfl (Or.inr rfl)

/-- **Every reachable state has it.** -/
theorem matched {P : World ι κ → Action ι κ → Prop}
    (h : Run (World.step D) P (World.init D) w) : Matched D w :=
  h.inv (Matched.init D) fun _ _ _ hm _ hs => hm.step hs

end Shopping
