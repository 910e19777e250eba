import Shopping.Proof.Deletion

/-!
# List names

A node merges the first copy of a list into a list without a name, and merging keeps the
name of the list merged into: no node ever stores a name. A client keeps the name it
created the list with, and takes the node's empty one if it had no copy
(`NameTrail`). So the name survives exactly as long as no node stores the list
(`list_name_kept`).
-/

namespace Shopping

open Lib

/-- No stored list has a name. -/
def SqliteDb.Nameless (db : SqliteDb) : Prop := ∀ key l, db.rows.lookup key = some l → l.name = []

theorem SqliteDb.Nameless.deleteList {db : SqliteDb} (h : db.Nameless) (uid : Str) (c : Calls) :
    (db.deleteList uid c).1.Nameless := by
  unfold SqliteDb.deleteList
  split
  · intro key l hl
    by_cases hk : key = cstr uid
    · subst hk; rw [AList.lookup_erase] at hl; cases hl
    · rw [AList.lookup_erase_ne hk] at hl; exact h key l hl
  · exact h

namespace Node

/-- **A node never stores a name.** -/
theorem applyMessage_nameless (stmt : ℕ → Calls) {db : SqliteDb} (h : db.Nameless) (m : Message) :
    (applyMessage stmt db m).state.Nameless := by
  refine applyMessage_inv SqliteDb.Nameless ?_ (fun _ db uid c h => h.deleteList uid c) stmt h
  intro c c' db l h
  have hname : ((db.read l.uid c).getD (ShoppingList.new l.uid [])).name = [] := by
    unfold SqliteDb.read
    split
    · cases hl : db.rows.lookup (cstr l.uid) with
      | none => rfl
      | some row => exact h _ row hl
    · rfl
  unfold mergeIncoming
  dsimp only [ShoppingList.getUid]
  cases hm : ((db.read l.uid c).getD (ShoppingList.new l.uid [])).merge l with
  | error x => exact h
  | ok r =>
    intro key row hrow
    rcases SqliteDb.lookup_write hrow with rfl | hrow
    · rw [(ShoppingList.merge_eq_ok hm).2.2]; exact hname
    · exact h key row hrow

/-- A row stays, unless the message is a deletion. -/
theorem applyMessage_kept (stmt : ℕ → Calls) {db : SqliteDb} {key : Str} {m : Message}
    (hm : m.op ≠ .deleteList) (h : (db.rows.lookup key).isSome = true) :
    ((applyMessage stmt db m).state.rows.lookup key).isSome = true := by
  refine applyMessage_inv (fun db => (db.rows.lookup key).isSome = true) ?_
    (fun ho => absurd ho hm) stmt h
  intro c c' db l h
  unfold mergeIncoming
  dsimp only
  split
  · exact SqliteDb.write_present _ c' h
  · exact h

end Node

variable {ι κ : Type*} {D : Deployment ι κ} {w w' : World ι κ} {a : Action ι κ} {key n : Str}

/-- Some node stores the list. -/
def World.Stored (w : World ι κ) (key : Str) : Prop :=
  ∃ i, ((w.node i).node.db.rows.lookup key).isSome = true

/-- A list of the key has the name `n`, or the empty one once a node has stored it. -/
def OfName (key n : Str) (stored : Prop) (l : ShoppingList) : Prop :=
  l.key = key → l.name = n ∨ l.name = [] ∧ stored

theorem OfName.mono {p q : Prop} {l : ShoppingList} (hpq : p → q) (h : OfName key n p l) :
    OfName key n q l := fun hk => (h hk).imp_right fun hs => ⟨hs.1, hpq hs.2⟩

/-- A list of the same key and name. -/
theorem OfName.congr {p : Prop} {l l' : ShoppingList} (hu : l'.uid = l.uid) (hn : l'.name = l.name)
    (h : OfName key n p l) : OfName key n p l' := by
  unfold OfName ShoppingList.key at h ⊢
  rw [hu, hn]
  exact h

/-- What lists a packet may carry; no packet deletes. -/
def Packet.OfName (key n : Str) (stored : Prop) : Packet κ → Prop
  | .request _ _ _ (.packed m) =>
    m.op ≠ .deleteList ∧ (m.op = .getList ∨ ∀ l ∈ m.lists, Shopping.OfName key n stored l)
  | .reply _ _ (.packed m) => m.op = .listResponse → ∀ l ∈ m.lists, Shopping.OfName key n stored l
  | .gossip _ (.packed m) => ∀ l ∈ m.lists, Shopping.OfName key n stored l
  | _ => True

theorem Packet.OfName.mono {p q : Prop} {pkt : Packet κ} (hpq : p → q) (h : pkt.OfName key n p) :
    pkt.OfName key n q := by
  unfold Packet.OfName at h ⊢
  split
  · exact ⟨h.1, h.2.imp_right fun hl l hm => (hl l hm).mono hpq⟩
  · exact fun ho l hm => (h ho l hm).mono hpq
  · exact fun l hm => (h l hm).mono hpq
  · trivial

/-- The invariant of runs without deletions in which the list is created with the name `n`. -/
structure NameTrail (key n : Str) (w : World ι κ) : Prop where
  node : ∀ i, (w.node i).node.db.Nameless
  client : ∀ k key' l, (w.client k).api.db.rows.lookup key' = some l → OfName key n (w.Stored key) l
  call : ∀ k c pending, (w.client k).call = some (c, pending) → ∀ l ∈ pending.list,
    OfName key n (w.Stored key) l
  net : ∀ pkt ∈ w.net, pkt.OfName key n (w.Stored key)

variable [DecidableEq ι] [DecidableEq κ]

omit [DecidableEq ι] [DecidableEq κ] in
theorem NameTrail.init (D : Deployment ι κ) : NameTrail key n (World.init D) where
  node i key' l h := by cases h
  client k key' l h := by cases h
  call k c pending h := by cases h
  net pkt h := by cases h

/-- The message that a node applies came in a request or brings gossip: it deletes nothing. -/
theorem NameTrail.applies (ht : NameTrail key n w) (hm : Matched D w) {i : ι} {m : Message}
    (happ : Applies D w i a m) (h : World.step D w a = some w') : m.op ≠ .deleteList := by
  cases a with
  | clientFrame j p now =>
    simp only [World.step] at h
    split at h
    · rename_i k c dest frame hp
      have hmem := List.mem_of_getElem? hp
      have hrec : frame.decode (D.pf i) = some m := (received_eq hp).symm.trans happ.2.1
      rcases hm.frames _ hmem with hf | ⟨m', hf, -⟩
      · obtain rfl : frame = .raw wrongShard := hf
        rw [Frame.decode_wrongShard] at hrec; cases hrec
      · obtain rfl : frame = .packed m' := hf
        rw [Frame.decode_packed, Option.some.injEq] at hrec
        subst hrec
        exact (ht.net _ hmem).1
    · cases h
  | gossipFrame j p now => rw [happ.2.2]; decide
  | _ => exact happ.elim

/-- Without deletions on the way, a stored list stays stored. -/
theorem NameTrail.stored (ht : NameTrail key n w) (hm : Matched D w)
    (h : World.step D w a = some w') (hs : w.Stored key) : w'.Stored key := by
  obtain ⟨i, hi⟩ := hs
  refine ⟨i, ?_⟩
  by_cases happ : ∃ m, Applies D w i a m
  · obtain ⟨m, hmsg⟩ := happ
    rw [(step_db h i).1 m hmsg]
    exact Node.applyMessage_kept _ (ht.applies hm hmsg h) hi
  · rw [(step_db h i).2 happ]; exact hi

omit [DecidableEq κ] in
theorem NameTrail.place (ht : NameTrail key n w) {i : ι} {nd : Node} {running : Bool}
    {call : Option (κ × ℕ)} (hst : w.Stored key → (w.place i nd running call).Stored key)
    (hdb : nd.db.Nameless)
    (hsent : ∀ s ∈ nd.sent, ∀ pkt, World.packet call s = some pkt →
      pkt.OfName key n ((w.place i nd running call).Stored key)) :
    NameTrail key n (w.place i nd running call) := by
  constructor
  · intro j
    simp only [World.place, Function.update_apply]
    split
    · exact hdb
    · exact ht.node j
  · exact fun k key' l hl => (ht.client k key' l hl).mono hst
  · exact fun k c pending hc l hl => (ht.call k c pending hc l hl).mono hst
  · intro pkt hpkt
    rcases List.mem_append.1 hpkt with hpkt | hpkt
    · exact (ht.net pkt hpkt).mono hst
    · obtain ⟨s, hs, hp⟩ := List.mem_filterMap.1 hpkt
      exact hsent s hs pkt hp

omit [DecidableEq ι] in
theorem NameTrail.client_step (ht : NameTrail key n w) {k : κ} {c' : ClientState}
    {ps : List (Packet κ)}
    (hstore : ∀ key' l, c'.api.db.rows.lookup key' = some l → OfName key n (w.Stored key) l)
    (hcall : ∀ c pending, c'.call = some (c, pending) → ∀ l ∈ pending.list,
      OfName key n (w.Stored key) l)
    (hps : ∀ pkt ∈ ps, pkt.OfName key n (w.Stored key)) :
    NameTrail key n { w with client := Function.update w.client k c', net := w.net ++ ps } := by
  constructor
  · exact ht.node
  · intro j
    dsimp only
    rw [Function.update_apply]
    split
    · exact hstore
    · exact ht.client j
  · intro j
    dsimp only
    rw [Function.update_apply]
    split
    · exact hcall
    · exact ht.call j
  · intro pkt hpkt
    rcases List.mem_append.1 hpkt with hpkt | hpkt
    · exact ht.net pkt hpkt
    · exact hps pkt hpkt

/-- Rows of a node have no name, and are stored. -/
theorem SqliteDb.Nameless.gossip {db : SqliteDb} (hn : db.Nameless) (hk : db.Keyed) {c : Calls}
    {stored : Prop} (hst : (db.rows.lookup key).isSome = true → stored) :
    ∀ l ∈ db.readAll c, OfName key n stored l := by
  intro l hl hkey
  obtain ⟨key', hrow⟩ := SqliteDb.mem_readAll hl
  obtain rfl : key' = key := (hk key' l hrow).symm.trans hkey
  exact Or.inr ⟨hn key' l hrow, hst (Option.isSome_of_eq_some hrow)⟩

omit [DecidableEq κ] in
/-- The packets of a reply that is no `LIST_RESPONSE`, or whose lists are of the name. -/
theorem reply_ofName {call : Option (κ × ℕ)} {m : Message} {stored : Prop}
    (hm : m.op = .listResponse → ∀ l ∈ m.lists, OfName key n stored l) :
    ∀ pkt, World.packet call (.reply (.packed m)) = some pkt → pkt.OfName key n stored := by
  intro pkt hp
  obtain ⟨kc, -, rfl⟩ := Option.map_eq_some_iff.1 hp
  exact hm

omit [DecidableEq κ] in
theorem NameTrail.clientTurn (ht : NameTrail key n w) (hm : Matched D w) {i : ι} {m : Message}
    {k : κ} {c : ℕ} {dest : Str} (hp : Packet.request k c dest (.packed m) ∈ w.net)
    {now : ℕ → UInt64} {r : Method Node} {call : Option (κ × ℕ)} {running : Bool}
    (hst : w.Stored key → (w.place i r.state running call).Stored key)
    (hr : Node.ClientTurn (D.pf i) { now } (w.node i).node (.packed m) r) :
    NameTrail key n (w.place i r.state running call) := by
  have hnode := ht.node i
  have hsent := hm.sent i
  have happlied := Node.applyMessage_nameless (fun _ => .ok) hnode m
  have hkeyed := Node.applyMessage_keyed (fun _ => .ok) (hm.nodeKey i) m
  have hone : ∀ (m' : Message) (p : Prop), (m'.op = .listResponse → ∀ l ∈ m'.lists, OfName key n p l) →
      ∀ s ∈ ((w.node i).node.reply (.packed m')).sent, ∀ pkt, World.packet call s = some pkt →
        pkt.OfName key n p := by
    intro m' p hm' s hs
    rw [Node.reply_sent, hsent, List.nil_append, List.mem_singleton] at hs
    rw [hs]
    exact reply_ofName hm'
  have hnone : ∀ p, ∀ s ∈ (w.node i).node.sent, ∀ pkt, World.packet call s = some pkt →
      pkt.OfName key n p := by
    intro p s hs; rw [hsent] at hs; cases hs
  cases hr with
  | undecodable hd => cases hd
  | nodes m' hd hop => exact ht.place hst hnode (hone _ _ (by intro ho; cases ho))
  | empty m' hd hop hl => exact ht.place hst hnode (hnone _)
  | refused m' l ls hd hop hl hsh =>
    refine ht.place hst hnode ?_
    intro s hs pkt hp'
    rw [Throws.state, Node.reply_sent, hsent, List.nil_append, List.mem_singleton] at hs
    subst hs
    obtain ⟨kc, -, rfl⟩ := Option.map_eq_some_iff.1 hp'
    trivial
  -- the answer is a row of the node, so the list is stored and its row has no name
  | found m' l ls row hd hop hl hsh hrow =>
    refine ht.place hst hnode (hone _ _ ?_)
    intro _ l' hl' hkey
    obtain rfl := List.mem_singleton.1 hl'
    have hrow' : (w.node i).node.db.rows.lookup (cstr l.uid) = some l' := hrow
    have hk : cstr l.uid = key := (hm.nodeKey i _ _ hrow').symm.trans hkey
    exact Or.inr ⟨hnode _ _ hrow', hst ⟨i, by rw [← hk, hrow']; rfl⟩⟩
  -- the empty list goes out under another operation
  | absent m' l ls hd hop hl hsh hrow =>
    exact ht.place hst hnode (hone _ _ (by intro ho; cases ho))
  | thrown m' l ls e db hd hop hop' hl hsh ha =>
    cases hd
    rw [ha] at happlied
    exact ht.place hst happlied (hnone _)
  | applied m' l ls db hd hop hop' hl hsh ha =>
    cases hd
    rw [ha] at happlied hkeyed
    obtain ⟨new, he, hg⟩ := Node.eagerFanout_eq { now } { (w.node i).node with db }
    rw [he] at hst ⊢
    refine ht.place hst happlied ?_
    intro s hs pkt hp'
    simp only [Throws.state, Node.reply_sent, hsent, List.nil_append, List.mem_append,
      List.mem_singleton] at hs
    rcases hs with hs | rfl
    · -- the fan-out sends rows of the node as it is now
      obtain ⟨now', c', rfl⟩ := hg s hs
      cases hp'
      refine happlied.gossip hkeyed ?_
      intro hsome
      refine ⟨i, ?_⟩
      simp only [World.place, Function.update_self]
      exact hsome
    · refine reply_ofName ?_ pkt hp'
      intro _ l' hl'
      obtain rfl := List.mem_singleton.1 hl'
      -- the reply carries the list of the request
      obtain ⟨-, hget | hlists⟩ := ht.net _ hp
      · exact absurd hget hop'
      · exact (hlists l' (by rw [hl]; exact List.mem_cons_self)).mono hst

omit [DecidableEq ι] in
/-- A call ends with lists of the name. -/
theorem NameTrail.ends (ht : NameTrail key n w) (hm : Matched D w) {k : κ} {call : ℕ}
    {pending : Pending} {reply : Option Message} (hc : (w.client k).call = some (call, pending))
    (hreply : reply = none ∨
      ∃ frame, Packet.reply k call frame ∈ w.net ∧ reply = frame.decode (D.clientPf k))
    (he : Ends w k pending reply w') : NameTrail key n w' := by
  have hcloud : ∀ l, API.cloudList reply = some l → OfName key n (w.Stored key) l := by
    intro l hl
    rcases hreply with rfl | ⟨frame, hmem, rfl⟩
    · cases hl
    rcases hm.frames _ hmem with hf | ⟨m, hf, -⟩
    · obtain rfl : frame = .raw wrongShard := hf
      rw [Frame.decode_wrongShard] at hl; cases hl
    · obtain rfl : frame = .packed m := hf
      simp only [Frame.decode_packed, API.cloudList, Option.bind_some] at hl
      split at hl
      · rename_i ho
        exact ht.net _ hmem ho l (List.mem_of_head? hl)
      · cases hl
  have hidle : NameTrail key n (w.setClient k { w.client k with call := none }) := by
    rw [World.setClient_eq]
    exact ht.client_step (ht.client k) (by intro c p h; cases h) (by intro pkt h; cases h)
  have hstores : ∀ r, OfName key n (w.Stored key) r → NameTrail key n
      (w.setClient k { w.client k with api := (w.client k).api.stored r .ok, call := none }) := by
    intro r hr
    rw [World.setClient_eq]
    refine ht.client_step ?_ (by intro c p h; cases h) (by intro pkt h; cases h)
    intro key' l hl
    rcases SqliteDb.lookup_write hl with rfl | hl
    · exact hr
    · exact ht.client k key' l hl
  have hcall := ht.call k call pending hc
  cases he with
  | idle => exact hidle
  | failed => exact hidle
  | edited lst r _ hres =>
    refine hstores r ?_
    -- a merge keeps the name of the list that is merged into
    rcases hres with ⟨-, rfl⟩ | ⟨l, -, rfl⟩
    · exact hcall _ rfl
    · refine (hcall lst rfl).congr ?_ ?_
      · unfold ShoppingList.merge; split <;> rfl
      · unfold ShoppingList.merge; split <;> rfl
  | got listUid found r _ hres =>
    refine hstores r ?_
    rcases hres with ⟨-, rfl⟩ | ⟨hl, -⟩ | ⟨l, mine, -, rfl, hmerge⟩
    · exact hcall _ rfl
    · exact hcloud r hl
    · obtain ⟨-, hu, hname⟩ := ShoppingList.merge_eq_ok hmerge
      exact (hcall mine rfl).congr hu hname

/-- The list is created with the name `n`, if it is. -/
def Action.Names (key n : Str) : Action ι κ → Prop
  | .createShoppingList _ name uid _ _ => cstr uid = key → name = n
  | _ => True

/-- **Every step but a deletion keeps it.** -/
theorem NameTrail.step (ht : NameTrail key n w) (hm : Matched D w) (hd : ¬ a.IsDelete)
    (hname : a.Names key n) (h : World.step D w a = some w') : NameTrail key n w' := by
  have hst := ht.stored hm h
  have hshape := step_shape h ({} : Trace ι κ)
  generalize Trace.track D w a w' {} = g' at hshape
  cases hshape with
  | quiet _ i nd running hcfg hdb hsent =>
    refine ht.place hst (by rw [hdb]; exact ht.node i) ?_
    intro s hs pkt hp
    rcases hsent s hs with hs | ⟨now, c, rfl⟩ | ⟨dests, now, nodes, rfl⟩
    · rw [hm.sent] at hs; cases hs
    · cases hp
      exact (ht.node i).gossip (hm.nodeKey i) fun hsome => hst ⟨i, hsome⟩
    · cases hp; trivial
  | clientFrame i p now k c dest frame _ hp hdest hw =>
    have hmem := List.mem_of_getElem? hp
    rw [settle_eq_place] at hw
    subst hw
    rcases hm.frames _ hmem with hf | ⟨m, hf, -⟩
    · obtain rfl : frame = .raw wrongShard := hf
      have hstate : ((w.node i).node.handleClientFrame (D.pf i) { now } (.raw wrongShard)).state =
          (w.node i).node := by
        simp only [Node.handleClientFrame, Frame.decode_wrongShard]; rfl
      rw [hstate] at hst ⊢
      refine ht.place hst (ht.node i) ?_
      intro s hs; rw [hm.sent] at hs; cases hs
    · obtain rfl : frame = .packed m := hf
      exact ht.clientTurn hm hmem hst (Node.handleClientFrame_turn (D.pf i) { now } (w.node i).node _)
  | gossipFrame i p now dests frame _ hp hw =>
    rw [settle_eq_place] at hw
    subst hw
    obtain ⟨db, hstate, hdb⟩ :=
      Node.handleGossipFrame_state (D.pf i) { now } (w.node i).node frame
    rw [hstate] at hst ⊢
    refine ht.place hst ?_ ?_
    · rcases hdb with rfl | ⟨m, -, -, rfl, -⟩
      · exact ht.node i
      · exact Node.applyMessage_nameless _ (ht.node i) m
    · intro s hs; rw [show ({ (w.node i).node with db } : Node).sent = [] from hm.sent i] at hs
      cases hs
  | create k name uid now pick ep _ hc hu hw =>
    have hnew : OfName key n (w.Stored key) (ShoppingList.new uid name) :=
      fun hkey => Or.inl (hname hkey)
    rw [hw]
    refine ht.client_step ?_ ?_ ?_
    · intro key' l hl
      rcases SqliteDb.lookup_write hl with rfl | hl
      · exact hnew
      · exact ht.client k key' l hl
    · intro c pending hcall l hl; cases hcall; cases hl
    · intro pkt hpkt
      obtain rfl := List.mem_singleton.1 hpkt
      refine ⟨(by intro h; cases h), Or.inr ?_⟩
      intro l hl
      obtain rfl := List.mem_singleton.1 hl
      exact hnew
  -- a get remembers the stored copy
  | get k listUid now pick ep _ hc hw =>
    rw [hw]
    refine ht.client_step (ht.client k) ?_ ?_
    · intro c pending hcall l hl
      cases hcall
      exact ht.client k _ l hl
    · intro pkt hpkt
      obtain rfl := List.mem_singleton.1 hpkt
      exact ⟨(by intro h; cases h), Or.inl rfl⟩
  | edit _ k listUid op base lst now ep _ hc hb he hw =>
    obtain ⟨hu, hn⟩ := Op.apply_names he
    have hlst : OfName key n (w.Stored key) lst := (ht.client k _ base hb).congr hu hn
    rw [hw]
    refine ht.client_step (ht.client k) ?_ ?_
    · intro c pending hcall l hl
      cases hcall; cases hl; exact hlst
    · intro pkt hpkt
      obtain rfl := List.mem_singleton.1 hpkt
      refine ⟨(by intro h; cases h), Or.inr ?_⟩
      intro l hl
      obtain rfl := List.mem_singleton.1 hl
      exact hlst
  | delete => exact absurd trivial hd
  | batches k now pick batches _ hb hw =>
    rw [hw]
    refine ht.client_step (ht.client k) (ht.call k) ?_
    intro pkt hpkt
    obtain ⟨j, hj, rfl⟩ := List.mem_mapIdx.1 hpkt
    obtain ⟨batch, hbatch, first, ep, -, -, hreq⟩ := API.mem_gossipState hb (List.getElem_mem hj)
    rw [hreq]
    refine ⟨(by intro h; cases h), Or.inr ?_⟩
    intro l hl
    have hl' : l ∈ batch.2 := hl
    rw [(API.mem_gossipBatches hbatch).2] at hl'
    obtain ⟨key', hrow⟩ := SqliteDb.mem_readAll (List.mem_of_mem_filter hl')
    exact ht.client k key' l hrow
  | refresh k now pick ep _ hw =>
    rw [hw]
    refine ht.client_step (ht.client k) (ht.call k) ?_
    intro pkt hpkt
    obtain rfl := List.mem_singleton.1 hpkt
    exact ⟨(by intro h; cases h), Or.inr (by intro l hl; cases hl)⟩
  | finish _ k call pending reply hs hc hreply =>
    refine ht.ends hm hc ?_ (finish_ends w k pending reply)
    rcases hreply with h | ⟨p, frame, -, hp, hrep, -⟩
    · exact Or.inl h
    · exact Or.inr ⟨frame, List.mem_of_getElem? hp, hrep⟩
  | refreshed _ k reply _ =>
    obtain ⟨hdb, -⟩ := (w.client k).api.finishUpdateCloudNodes_keeps reply
    rw [World.setClient_eq]
    refine ht.client_step ?_ (ht.call k) (by intro pkt h; cases h)
    dsimp only
    rw [hdb]
    exact ht.client k

theorem nameTrail (hrun : Run (World.step D) (fun _ a => ¬ a.IsDelete ∧ a.Names key n)
    (World.init D) w) : Matched D w ∧ NameTrail key n w := by
  refine hrun.inv (I := fun w => Matched D w ∧ NameTrail key n w)
    ⟨Matched.init D, NameTrail.init D⟩ ?_
  intro w a w' hI ha hs
  exact ⟨hI.1.step hs, hI.2.step hI.1 ha.1 ha.2 hs⟩

/-- The list has the name wherever it is read: nodes store it so, a node that answers a
`GET_LIST` with a `LIST_RESPONSE` sends it so, and clients store it so. -/
structure NameKept (D : Deployment ι κ) (key n : Str) (w : World ι κ) : Prop where
  stored : ∀ i l, (w.node i).node.db.rows.lookup key = some l → l.name = n
  answered : ∀ i now origin ts uid m, cstr uid = key →
    Sent.reply (.packed m) ∈ ((w.node i).node.handleClientFrame (D.pf i) { now }
      (.packed (Message.getList origin ts uid))).state.sent →
    m.op = .listResponse → ∀ l ∈ m.lists, l.name = n
  obtained : ∀ k l, (w.client k).api.db.rows.lookup key = some l → l.name = n

/-- A `LIST_RESPONSE` to a `GET_LIST` carries the stored list. -/
theorem get_response {pf : Platform} {nd : Node} {now : ℕ → UInt64} {origin uid : Str} {ts : UInt64}
    {m : Message} (hsent : nd.sent = [])
    (hs : Sent.reply (.packed m) ∈ (nd.handleClientFrame pf { now }
      (.packed (Message.getList origin ts uid))).state.sent)
    (ho : m.op = .listResponse) :
    ∀ l ∈ m.lists, nd.db.rows.lookup (cstr uid) = some l := by
  have ht := Node.handleClientFrame_turn pf { now } nd (.packed (Message.getList origin ts uid))
  generalize nd.handleClientFrame pf { now } (.packed (Message.getList origin ts uid)) = r at ht hs
  have hone : ∀ frame, Sent.reply (.packed m) ∈ (nd.reply frame).sent → frame = .packed m := by
    intro frame hs
    rw [Node.reply_sent, hsent, List.nil_append, List.mem_singleton, Sent.reply.injEq] at hs
    exact hs.symm
  cases ht with
  | undecodable hd => cases hd
  | nodes m' hd hop => cases hd; cases hop
  | empty m' hd hop hl => cases hd; cases hl
  | refused m' l ls hd hop hl hsh => cases hone _ hs
  | found m' l ls row hd hop hl hsh hrow =>
    cases hd; cases hl
    cases hone _ hs
    intro l hl
    obtain rfl := List.mem_singleton.1 hl
    exact hrow
  | absent m' l ls hd hop hl hsh hrow => cases hone _ hs; cases ho
  | thrown m' l ls e db hd hop hop' hl hsh ha => cases hd; exact absurd rfl hop'
  | applied m' l ls db hd hop hop' hl hsh ha => cases hd; exact absurd rfl hop'

/-- **The name of a list survives exactly where no node stores the list, or the name is
empty**, in every state of every run without deletions in which the list is created with
that name. In particular it survives runs in which no node is handed a copy of the list. -/
theorem list_name_kept (D : Deployment ι κ) (key n : Str) :
    (∀ w, Run (World.step D) (fun _ a => ¬ a.IsDelete ∧ a.Names key n) (World.init D) w →
      (NameKept D key n w ↔
        n = [] ∨ ∀ i, (w.node i).node.db.rows.lookup key = none)) ∧
    ∀ w, Run (World.step D) (fun w a => ¬ a.IsDelete ∧ a.Names key n ∧
        (n = [] ∨ ∀ i, ¬ Delivers D w i key a)) (World.init D) w → NameKept D key n w := by
  have hiff : ∀ w, Run (World.step D) (fun _ a => ¬ a.IsDelete ∧ a.Names key n) (World.init D) w →
      (NameKept D key n w ↔ n = [] ∨ ∀ i, (w.node i).node.db.rows.lookup key = none) := by
    intro w hrun
    obtain ⟨hm, ht⟩ := nameTrail hrun
    constructor
    · intro hk
      -- a row of a node has no name
      by_cases hs : w.Stored key
      · obtain ⟨i, hi⟩ := hs
        obtain ⟨l, hl⟩ := Option.isSome_iff_exists.1 hi
        exact Or.inl ((hk.stored i l hl).symm.trans (ht.node i key l hl))
      · refine Or.inr fun i => ?_
        exact Option.not_isSome_iff_eq_none.1 fun hi => hs ⟨i, hi⟩
    · intro hcond
      have hnode : ∀ i l, (w.node i).node.db.rows.lookup key = some l → l.name = n := by
        intro i l hl
        rcases hcond with rfl | hnone
        · exact ht.node i key l hl
        · rw [hnone i] at hl; cases hl
      refine ⟨hnode, ?_, ?_⟩
      · intro i now origin ts uid m hk hs ho l hl
        rw [← hk] at hnode
        exact hnode i l (get_response (hm.sent i) hs ho l hl)
      · intro k l hl
        rcases ht.client k key l hl (hm.clientKey k key l hl) with hn | ⟨hn, i, hi⟩
        · exact hn
        · rcases hcond with rfl | hnone
          · exact hn
          · rw [hnone i] at hi; cases hi
  refine ⟨hiff, ?_⟩
  intro w hrun
  refine (hiff w (hrun.mono fun _ _ h => ⟨h.1, h.2.1⟩)).2 ?_
  by_cases hn : n = []
  · exact Or.inl hn
  · refine Or.inr ?_
    -- a run that delivers the list to no node leaves no row of it
    have hinv : Matched D w ∧ ∀ i, (w.node i).node.db.rows.lookup key = none := by
      refine hrun.inv (I := fun w => Matched D w ∧ ∀ i, (w.node i).node.db.rows.lookup key = none)
        ⟨Matched.init D, fun _ => rfl⟩ ?_
      rintro w a w' ⟨hm, hnone⟩ ⟨-, -, hcond⟩ hs
      refine ⟨hm.step hs, fun i => absent_step hm (hnone i) ?_ hs⟩
      exact hcond.resolve_left hn i
    exact hinv.2

/-- A client creates a list and cannot reach its node. -/
theorem unsent_list_name : ∃ (w : World (Fin 2) (Fin 2)) (l : ShoppingList),
    (w.client 0).api.db.rows.lookup (sampleUid 0) = some l ∧
      NameKept .sample (sampleUid 0) (str "groceries") w := by
  obtain ⟨w, hw, hp⟩ := runList_of_any (World.step Deployment.sample) (World.init Deployment.sample)
    [.start 0 1, .createShoppingList 0 (str "groceries") (sampleUid 0) 1 0, .noReply 0]
    (fun w => ((w.client 0).api.db.rows.lookup (sampleUid 0)).isSome) (by decide +kernel)
  obtain ⟨l, hl⟩ := Option.isSome_iff_exists.1 hp
  refine ⟨w, l, hl, (list_name_kept .sample (sampleUid 0) (str "groceries")).2 w (Run.of_list ?_ hw)⟩
  intro s a ha
  simp only [List.mem_cons, List.not_mem_nil, or_false] at ha
  rcases ha with rfl | rfl | rfl
  · exact ⟨id, trivial, Or.inr fun i ⟨m, hm, _⟩ => hm⟩
  · exact ⟨id, fun _ => rfl, Or.inr fun i ⟨m, hm, _⟩ => hm⟩
  · exact ⟨id, trivial, Or.inr fun i ⟨m, hm, _⟩ => hm⟩

/-- A client creates a list, its node stores the list, and another client gets it. -/
def unnamedRun : List (Action (Fin 2) (Fin 2)) :=
  [.start 0 1, .createShoppingList 0 (str "groceries") (sampleUid 0) 1 0,
    .clientFrame 0 0 fun _ => 2, .reply 0 4, .getShoppingList 1 (sampleUid 0) 3 0,
    .clientFrame 0 5 fun _ => 4, .reply 1 6]

/-- **A list loses its name on the way through a node**: the node and the client that gets
the list from it store it without a name. -/
theorem list_name_lost :
    (¬ ∀ (n key : Str) (w : World (Fin 2) (Fin 2)),
      Run (World.step .sample) (fun _ a => ¬ a.IsDelete ∧ a.Names key n) (World.init .sample) w →
        NameKept .sample key n w) ∧
    ∃ w : World (Fin 2) (Fin 2),
      Run (World.step .sample) (fun _ a => ¬ a.IsDelete ∧ a.Names (sampleUid 0) (str "groceries"))
        (World.init .sample) w ∧
      ((w.node 0).node.db.rows.lookup (sampleUid 0)).map ShoppingList.name = some [] ∧
      ((w.client 1).api.db.rows.lookup (sampleUid 0)).map ShoppingList.name = some [] := by
  obtain ⟨w, hw, hp⟩ := runList_of_any (World.step Deployment.sample) (World.init Deployment.sample)
    unnamedRun (fun w => decide
      (((w.node 0).node.db.rows.lookup (sampleUid 0)).map ShoppingList.name = some [] ∧
        ((w.client 1).api.db.rows.lookup (sampleUid 0)).map ShoppingList.name = some []))
    (by decide +kernel)
  have hnames := of_decide_eq_true hp
  have hrun : Run (World.step .sample)
      (fun _ a => ¬ a.IsDelete ∧ a.Names (sampleUid 0) (str "groceries")) (World.init .sample) w := by
    refine Run.of_list ?_ hw
    simp [unnamedRun, Action.IsDelete, Action.Names]
  refine ⟨?_, w, hrun, hnames⟩
  intro h
  obtain ⟨l, hl, hname⟩ := Option.map_eq_some_iff.1 hnames.1
  have := (h _ _ w hrun).stored 0 l hl
  rw [hname] at this
  exact absurd this (by decide)

end Shopping
