import Shopping.System.Moves
import Shopping.System.Trace
import Shopping.Client.Turns

/-!
# Steps, by what they do to lists

A second inversion of the steps, coarser than `Moves` and with the history: the steps of
a node that leave its lists alone are one shape, and so are the three updates, the two
ends of a call and the two ends of a refresh (`step_shape`).
-/

namespace Shopping

open Lib

variable {ι κ : Type*} [DecidableEq ι] [DecidableEq κ]

/-- The shapes of a step from `w` with history `g`. -/
inductive Shape (D : Deployment ι κ) (w : World ι κ) (g : Trace ι κ) :
    Action ι κ → World ι κ → Trace ι κ → Prop
  | quiet (a : Action ι κ) (i : ι) (n : Node) (running : Bool)
      (hcfg : n.cfg = (w.node i).node.cfg ∨ n.cfg = D.cfg i) (hdb : n.db = (w.node i).node.db)
      (hsent : ∀ s ∈ n.sent, s ∈ (w.node i).node.sent ∨ (w.node i).node.IsGossip s ∨
        (w.node i).node.IsDiscovery s) :
      Shape D w g a (w.place i n running none)
        (g.handled w (w.place i n running none) i (g.node i) ∅)
  | clientFrame (i : ι) (p : ℕ) (now : ℕ → UInt64) (k : κ) (c : ℕ) (dest : Str) (frame : Frame)
      (w' : World ι κ) (hp : w.net[p]? = some (.request k c dest frame))
      (hd : dest = (w.node i).node.cfg.clientAddr)
      (hw : w' = w.settle i (some (k, c)) ((w.node i).node.handleClientFrame (D.pf i) { now } frame)) :
      Shape D w g (.clientFrame i p now) w'
        (g.handled w w' i
          (Trace.served (D.pf i) (w.node i).node (g.node i) (frame.decode (D.pf i)) (g.carried p))
          (Trace.replied (g.node i) (frame.decode (D.pf i)) (g.carried p)))
  | gossipFrame (i : ι) (p : ℕ) (now : ℕ → UInt64) (dests : List Str) (frame : Frame)
      (w' : World ι κ) (hp : w.net[p]? = some (.gossip dests frame))
      (hw : w' = w.settle i none ((w.node i).node.handleGossipFrame (D.pf i) { now } frame)) :
      Shape D w g (.gossipFrame i p now) w'
        (g.handled w w' i (Trace.gossiped (g.node i) (frame.decode (D.pf i)) (g.carried p)) ∅)
  | create (k : κ) (name uid : Str) (now : UInt64) (pick : ℕ) (ep : Str) (w' : World ι κ)
      (hc : (w.client k).call = none) (hu : (w.client k).api.IsNewUid uid)
      (hw : w' = w.sendRequest k ((w.client k).api.createShoppingList name uid .ok).2 ep
        (Message.ensureList (w.client k).api.origin now (ShoppingList.new uid name)) .create) :
      Shape D w g (.createShoppingList k name uid now pick) w' (g.called w w' fun _ => ∅)
  | get (k : κ) (listUid : Str) (now : UInt64) (pick : ℕ) (ep : Str) (w' : World ι κ)
      (hc : (w.client k).call = none)
      (hw : w' = w.sendRequest k (w.client k).api ep
        (Message.getList (w.client k).api.origin now listUid)
        (.get listUid ((w.client k).api.db.read listUid .ok))) :
      Shape D w g (.getShoppingList k listUid now pick) w'
        { g.called w w' fun _ => ∅ with
          call := Function.update g.call k (g.client k (cstr listUid)) }
  | edit (a : Action ι κ) (k : κ) (listUid : Str) (op : Op) (base lst : ShoppingList)
      (now : UInt64) (ep : Str) (w' : World ι κ) (hc : (w.client k).call = none)
      (hb : (w.client k).api.db.rows.lookup (cstr listUid) = some base)
      (he : op.apply (w.client k).api.origin base = .ok lst)
      (hw : w' = w.sendRequest k (w.client k).api ep
        (Message.ensureList (w.client k).api.origin now lst) (.edit lst)) :
      Shape D w g a w' (g.edited D w w' k listUid op)
  | delete (k : κ) (listUid : Str) (now : UInt64) (pick : ℕ) (ep : Str) (w' : World ι κ)
      (hc : (w.client k).call = none)
      (hw : w' = w.sendRequest k ((w.client k).api.deleteShoppingList listUid .ok) ep
        (Message.deleteList (w.client k).api.origin now listUid) .delete) :
      Shape D w g (.deleteShoppingList k listUid now pick) w'
        { g.called w w' fun _ => ∅ with
          client := Function.update g.client k (Function.update (g.client k) (cstr listUid) ∅) }
  | batches (k : κ) (now : UInt64) (pick : Int32 → ℕ) (batches : List (Str × Message))
      (w' : World ι κ) (hb : (w.client k).api.gossipState (D.clientPf k) now pick .ok = some batches)
      (hw : w' = { w with
        client := Function.update w.client k
          { w.client k with calls := (w.client k).calls + batches.length }
        net := w.net ++ World.gossipRequests k (w.client k).calls batches }) :
      Shape D w g (.gossipState k now pick) w' (g.called w w' fun l => g.client k l.key)
  | refresh (k : κ) (now : UInt64) (pick : ℕ) (ep : Str) (w' : World ι κ)
      (hw : w' = { w with
        client := Function.update w.client k
          { w.client k with refresh := some (w.client k).calls, calls := (w.client k).calls + 1 }
        net := w.net ++ [.request k (w.client k).calls ep
          (.packed (Message.getNodes (w.client k).api.origin now))] }) :
      Shape D w g (.updateCloudNodes k now pick) w' (g.called w w' fun _ => ∅)
  | finish (a : Action ι κ) (k : κ) (call : ℕ) (pending : Pending) (reply : Option Message)
      (hs : List (Finset ℕ)) (hc : (w.client k).call = some (call, pending))
      (hr : reply = none ∨ ∃ (p : ℕ) (frame : Frame), a = .reply k p ∧
        w.net[p]? = some (Packet.reply k call frame) ∧ reply = frame.decode (D.clientPf k) ∧
        hs = g.carried p) :
      Shape D w g a (w.finish k pending reply) (g.finished k pending (Trace.merged reply hs))
  | refreshed (a : Action ι κ) (k : κ) (reply : Option Message)
      (hr : reply = none ∨ ∃ (p call : ℕ) (frame : Frame),
        w.net[p]? = some (Packet.reply k call frame) ∧ reply = frame.decode (D.clientPf k)) :
      Shape D w g a (w.setClient k
        { w.client k with api := (w.client k).api.finishUpdateCloudNodes reply, refresh := none }) g

variable {D : Deployment ι κ} {w w' : World ι κ} {g : Trace ι κ} {a : Action ι κ}

omit [DecidableEq κ] in
theorem settle_eq_place (i : ι) (call : Option (κ × ℕ)) (r : Method Node) :
    w.settle i call r = w.place i (Throws.state r) (Throws.returned r) call := by
  cases r <;> rfl

omit [DecidableEq ι] [DecidableEq κ] in
theorem received_eq {pf : Platform} {p : ℕ} {pkt : Packet κ} (hp : w.net[p]? = some pkt) :
    Trace.received pf w p = pkt.frame.decode pf := by
  rw [Trace.received, hp]; rfl

/-- A handler that leaves the lists alone. -/
theorem quiet_same {i : ι} {n n' : Node} (hs : Node.SameLists n n')
    (hcfg : n.cfg = (w.node i).node.cfg ∨ n.cfg = D.cfg i) (hdb : n.db = (w.node i).node.db)
    (hsent : ∀ s ∈ n.sent, s ∈ (w.node i).node.sent) (running : Bool) :
    Shape D w g a (w.place i n' running none)
      (g.handled w (w.place i n' running none) i (g.node i) ∅) := by
  refine .quiet a i n' running (by rw [hs.cfg]; exact hcfg) (by rw [hs.db]; exact hdb) ?_
  intro s h
  rw [hs.sent] at h
  exact Or.inl (hsent s h)

theorem begin_shape {k : κ} {api : API} {listUid : Str} {pick : ℕ} {m : Message}
    {pending : Pending} {ep : Str} (hc : (w.client k).call = none)
    (hb : Begin w k a api listUid pick m pending) (g : Trace ι κ) :
    Shape D w g a (w.sendRequest k api ep m pending)
      (Trace.track D w a (w.sendRequest k api ep m pending) g) := by
  cases hb with
  | create name uid now pick hu => exact .create k name _ now _ ep _ hc hu rfl
  | get listUid now pick => exact .get k _ now _ ep _ hc rfl
  | add listUid itemName desired current itemUid clock now pick lst hu he =>
    unfold API.addItem at he
    split at he
    · cases he
    · rename_i base hbase
      exact .edit _ k listUid _ base lst now ep _ hc hbase he rfl
  | update listUid itemUid itemName desired current clock now pick lst he =>
    unfold API.updateItem at he
    split at he
    · cases he
    · rename_i base hbase
      exact .edit _ k listUid _ base lst now ep _ hc hbase he rfl
  | remove listUid itemUid now pick lst he =>
    unfold API.removeItem at he
    split at he
    · cases he
    · rename_i base hbase
      exact .edit _ k listUid _ base lst now ep _ hc hbase he rfl
  | delete listUid now pick => exact .delete k _ now _ ep _ hc rfl

/-- **Every step with its history has one of the shapes.** -/
theorem step_shape (h : World.step D w a = some w') (g : Trace ι κ) :
    Shape D w g a w' (Trace.track D w a w' g) := by
  cases step_moves h with
  | start i now =>
    rw [settle_eq_place]
    exact quiet_same (n := Node.new (D.cfg i) (w.node i).node.db now)
      (Node.enterLoop_same (D.pf i) now _) (Or.inr rfl) rfl (fun _ h => nomatch h) _
  | stop i =>
    exact quiet_same (Node.SameLists.refl (w.node i).node) (Or.inl rfl) rfl (fun _ h => h) false
  | clientFrame i p now k c dest frame hp hr hd =>
    have := Shape.clientFrame (D := D) (g := g) i p now k c dest frame _ hp hd rfl
    rw [Trace.track, received_eq hp]; exact this
  | gossipFrame i p now dests frame hp hr hd =>
    have := Shape.gossipFrame (D := D) (g := g) i p now dests frame _ hp rfl
    rw [Trace.track, received_eq hp]; exact this
  | discoveryFrame i p dests frame hp hr hd =>
    rw [settle_eq_place]
    exact quiet_same (Node.handleDiscoveryFrame_same (D.pf i) (w.node i).node frame) (Or.inl rfl) rfl
      (fun _ h => h) _
  | stateTimer i now hr =>
    obtain ⟨new, he, hg⟩ := Node.performShardGossip_eq now .ok (w.node i).node
    rw [settle_eq_place]
    refine .quiet _ i _ _ ?_ ?_ ?_
    · simp only [Throws.state, he, true_or]
    · simp only [Throws.state, he]
    · intro s hs
      simp only [Throws.state, he, List.mem_append] at hs
      rcases hs with hs | hs
      · exact Or.inl hs
      · exact Or.inr (Or.inl (hg s hs))
  | discoveryTimer i evictNow gossipNow hr =>
    obtain ⟨hcfg, hdb, hsent⟩ :=
      Node.wake_discoveryTimer (D.pf i) evictNow gossipNow (w.node i).node
    rw [settle_eq_place]
    refine .quiet _ i _ _ (Or.inl hcfg) hdb ?_
    intro s hs
    rcases hsent s hs with hs | hs
    · exact Or.inl hs
    · exact Or.inr (Or.inr hs)
  | begin k a api listUid pick m pending ep hc hb he => exact begin_shape hc hb g
  | gossipState k now pick batches hb => exact .batches k now pick batches _ hb rfl
  | updateCloudNodes k now pick ep hc he => exact .refresh k now pick ep _ rfl
  | reply k p call pending frame hc hp =>
    have := Shape.finish (D := D) (g := g) (.reply k p) k call pending (frame.decode (D.clientPf k))
      (g.carried p) hc (Or.inr ⟨p, frame, rfl, hp, rfl, rfl⟩)
    simp only [Trace.track, hc, received_eq hp]
    exact this
  | noReply k call pending hc =>
    have := Shape.finish (D := D) (g := g) (.noReply k) k call pending none [] hc (Or.inl rfl)
    simp only [Trace.track, hc]
    exact this
  | nodesReply k p call frame hc hp =>
    exact .refreshed _ k _ (Or.inr ⟨p, call, frame, hp, rfl⟩)
  | noNodesReply k call hc => exact .refreshed _ k none (Or.inl rfl)

/-- How a call ends: it has nothing to store, it fails, or it stores a list. -/
inductive Ends (w : World ι κ) (k : κ) : Pending → Option Message → World ι κ → Prop
  | idle (pending : Pending) (reply : Option Message)
      (hp : pending = .create ∨ pending = .delete) :
      Ends w k pending reply (w.setClient k { w.client k with call := none })
  | failed (pending : Pending) (reply : Option Message)
      (hf : API.NoList reply ∨
        (∃ listUid, pending = .get listUid none ∧ API.cloudList reply = none) ∨
        ∃ listUid mine l x, pending = .get listUid (some mine) ∧ API.cloudList reply = some l ∧
          mine.merge l = .error x) :
      Ends w k pending reply (w.setClient k { w.client k with call := none })
  | edited (lst r : ShoppingList) (reply : Option Message)
      (hr : (API.cloudList reply = none ∧ r = lst) ∨
        ∃ l, API.cloudList reply = some l ∧ r = Throws.state (lst.merge l)) :
      Ends w k (.edit lst) reply
        (w.setClient k { w.client k with api := (w.client k).api.stored r .ok, call := none })
  | got (listUid : Str) (found : Option ShoppingList) (r : ShoppingList) (reply : Option Message)
      (hr : (API.cloudList reply = none ∧ found = some r) ∨
        (API.cloudList reply = some r ∧ found = none) ∨
        ∃ l mine, API.cloudList reply = some l ∧ found = some mine ∧ mine.merge l = .ok r) :
      Ends w k (.get listUid found) reply
        (w.setClient k { w.client k with api := (w.client k).api.stored r .ok, call := none })

omit [DecidableEq ι] in
theorem finish_ends (w : World ι κ) (k : κ) (pending : Pending) (reply : Option Message) :
    Ends w k pending reply (w.finish k pending reply) := by
  cases pending with
  | create => exact .idle _ _ (Or.inl rfl)
  | delete => exact .idle _ _ (Or.inr rfl)
  | edit lst =>
    simp only [World.finish]
    rcases (w.client k).api.finishEdit_cases .ok lst reply with ⟨hn, h⟩ | ⟨r, h, hr⟩
    · rw [h]; exact .failed _ _ (Or.inl hn)
    · rw [h]; exact .edited lst r reply hr
  | get listUid found =>
    simp only [World.finish]
    rcases (w.client k).api.finishGet_cases .ok found reply with
      ⟨hn, h⟩ | ⟨hc, rfl, h⟩ | ⟨l, mine, x, hc, rfl, hm, h⟩ | ⟨r, h, hr⟩
    · rw [h]; exact .failed _ _ (Or.inl hn)
    · rw [h]; exact .failed _ _ (Or.inr (Or.inl ⟨listUid, rfl, hc⟩))
    · rw [h]; exact .failed _ _ (Or.inr (Or.inr ⟨listUid, mine, l, x, rfl, hc, hm⟩))
    · rw [h]; exact .got listUid found r reply hr

omit [DecidableEq ι] in
theorem Ends.node {k : κ} {pending : Pending} {reply : Option Message}
    (h : Ends w k pending reply w') : w'.node = w.node := by
  cases h <;> rfl

/-- The action has node `i` pass the message to `apply_message`. -/
def Applies (D : Deployment ι κ) (w : World ι κ) (i : ι) (a : Action ι κ) (m : Message) : Prop :=
  match a with
  | .clientFrame j p _ =>
    j = i ∧ Trace.received (D.pf i) w p = some m ∧ (w.node i).node.Accepts (D.pf i) m
  | .gossipFrame j p _ => j = i ∧ Trace.received (D.pf i) w p = some m ∧ m.op = .gossipLists
  | _ => False

/-- What the client socket leaves of the database. -/
theorem clientTurn_db {pf : Platform} {now : ℕ → UInt64} {n : Node} {frame : Frame}
    {r : Method Node} (ht : Node.ClientTurn pf { now } n frame r) :
    (∀ m, frame.decode pf = some m → n.Accepts pf m →
      r.state.db = (Node.applyMessage (fun _ => .ok) n.db m).state) ∧
      ((¬ ∃ m, frame.decode pf = some m ∧ n.Accepts pf m) → r.state.db = n.db) := by
  refine ⟨fun m hd hacc => ht.db_of_accepts hd hacc, fun hno => ?_⟩
  obtain ⟨db, new, hstate, hdb⟩ := ht.state_eq
  rw [hstate]
  rcases hdb with hdb | ⟨m, hd, hacc, -⟩
  · exact hdb
  · exact absurd ⟨m, hd, hacc⟩ hno

/-- **A node's database changes by `apply_message` only.** -/
theorem step_db (h : World.step D w a = some w') (i : ι) :
    (∀ m, Applies D w i a m →
      (w'.node i).node.db = (Node.applyMessage (fun _ => .ok) (w.node i).node.db m).state) ∧
      ((¬ ∃ m, Applies D w i a m) → (w'.node i).node.db = (w.node i).node.db) := by
  have hplace : ∀ (j : ι) (n : Node) (running : Bool) (call : Option (κ × ℕ)),
      ((w.place j n running call).node i).node.db = if i = j then n.db else (w.node i).node.db := by
    intro j n running call
    simp only [World.place, Function.update_apply]
    split <;> rfl
  have hshape := step_shape h ({} : Trace ι κ)
  generalize Trace.track D w a w' {} = g' at hshape
  -- only the two sockets with lists reach the database
  have hquiet : (∀ j p now, a ≠ .clientFrame j p now) → (∀ j p now, a ≠ .gossipFrame j p now) →
      (w'.node i).node.db = (w.node i).node.db := by
    intro h1 h2
    cases hshape with
    | quiet _ j n running hcfg hdb hsent =>
      rw [hplace]
      split
      · rename_i hij; subst hij; exact hdb
      · rfl
    | clientFrame j p now => exact absurd rfl (h1 j p now)
    | gossipFrame j p now => exact absurd rfl (h2 j p now)
    | create k name uid now pick ep _ hc hu hw => rw [hw]; rfl
    | get k listUid now pick ep _ hc hw => rw [hw]; rfl
    | edit _ k listUid op base lst now ep _ hc hb he hw => rw [hw]; rfl
    | delete k listUid now pick ep _ hc hw => rw [hw]; rfl
    | batches k now pick batches _ hb hw => rw [hw]
    | refresh k now pick ep _ hw => rw [hw]
    | finish _ k call pending reply hs hc hr => rw [(finish_ends w k pending reply).node]
    | refreshed => rfl
  cases a with
  | clientFrame j p now =>
    simp only [World.step] at h
    split at h
    · rename_i k c dest frame hp
      split at h
      · cases h
        have ht := clientTurn_db (Node.handleClientFrame_turn (D.pf j) { now } (w.node j).node frame)
        rw [settle_eq_place, hplace]
        constructor
        · rintro m ⟨rfl, hrec, hacc⟩
          rw [if_pos rfl]
          exact ht.1 m ((received_eq hp).symm.trans hrec) hacc
        · intro hno
          split
          · rename_i hij
            subst hij
            refine ht.2 ?_
            rintro ⟨m, hm, hacc⟩
            exact hno ⟨m, rfl, (received_eq hp).trans hm, hacc⟩
          · rfl
      · cases h
    · cases h
  | gossipFrame j p now =>
    simp only [World.step] at h
    split at h
    · rename_i dests frame hp
      split at h
      · cases h
        rw [settle_eq_place, hplace]
        constructor
        · rintro m ⟨rfl, hrec, hop⟩
          rw [if_pos rfl]
          have hd : frame.decode (D.pf j) = some m := (received_eq hp).symm.trans hrec
          simp only [Node.handleGossipFrame, hd, if_pos hop]
          cases Node.applyMessage (fun _ => Calls.ok) (w.node j).node.db m <;> rfl
        · intro hno
          split
          · rename_i hij
            subst hij
            obtain ⟨db, hstate, hdb⟩ :=
              Node.handleGossipFrame_state (D.pf i) { now } (w.node i).node frame
            rw [hstate]
            rcases hdb with rfl | ⟨m, hd, hop, -, -⟩
            · rfl
            · exact absurd ⟨m, rfl, (received_eq hp).trans hd, hop⟩ hno
          · rfl
      · cases h
    · cases h
  | _ => exact ⟨fun m hm => hm.elim, fun _ => hquiet (by simp) (by simp)⟩

end Shopping
