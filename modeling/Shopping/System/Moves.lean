import Shopping.System.World
import Shopping.Node.Turns

/-!
# What a step can do

`step_moves` inverts `World.step` once: every step is one of the moves of `Moves`, with
its guards and the state it leaves. The calls of the API that begin an exchange share one
move and differ in `Begin`.
-/

namespace Shopping

open Lib

variable {ι κ : Type*} [DecidableEq ι] [DecidableEq κ]

/-- What each API call hands to its exchange: its client's state, the UID it routes by and
the random index, the request, and what is left to do. -/
inductive Begin (w : World ι κ) (k : κ) :
    Action ι κ → API → Str → ℕ → Message → Pending → Prop
  | create (name uid : Str) (now : UInt64) (pick : ℕ) (hu : (w.client k).api.IsNewUid uid) :
      Begin w k (.createShoppingList k name uid now pick)
        ((w.client k).api.createShoppingList name uid .ok).2 uid pick
        (Message.ensureList (w.client k).api.origin now (ShoppingList.new uid name)) .create
  | get (listUid : Str) (now : UInt64) (pick : ℕ) :
      Begin w k (.getShoppingList k listUid now pick) (w.client k).api listUid pick
        (Message.getList (w.client k).api.origin now listUid)
        (.get listUid ((w.client k).api.db.read listUid .ok))
  | add (listUid itemName : Str) (desired current : Int32) (itemUid : Str) (clock : ℤ)
      (now : UInt64) (pick : ℕ) (lst : ShoppingList) (hu : (w.client k).api.IsNewUid itemUid)
      (he : (w.client k).api.addItem listUid itemName desired current itemUid
        (ORSet.genTag clock) .ok = .ok lst) :
      Begin w k (.addItem k listUid itemName desired current itemUid clock now pick)
        (w.client k).api lst.uid pick (Message.ensureList (w.client k).api.origin now lst) (.edit lst)
  | update (listUid itemUid itemName : Str) (desired current : Int32) (clock : ℤ)
      (now : UInt64) (pick : ℕ) (lst : ShoppingList)
      (he : (w.client k).api.updateItem listUid itemUid itemName desired current
        (ORSet.genTag clock) .ok = .ok lst) :
      Begin w k (.updateItem k listUid itemUid itemName desired current clock now pick)
        (w.client k).api lst.uid pick (Message.ensureList (w.client k).api.origin now lst) (.edit lst)
  | remove (listUid itemUid : Str) (now : UInt64) (pick : ℕ) (lst : ShoppingList)
      (he : (w.client k).api.removeItem listUid itemUid .ok = .ok lst) :
      Begin w k (.removeItem k listUid itemUid now pick)
        (w.client k).api lst.uid pick (Message.ensureList (w.client k).api.origin now lst) (.edit lst)
  | delete (listUid : Str) (now : UInt64) (pick : ℕ) :
      Begin w k (.deleteShoppingList k listUid now pick)
        ((w.client k).api.deleteShoppingList listUid .ok) listUid pick
        (Message.deleteList (w.client k).api.origin now listUid) .delete

/-- The state an exchange leaves: the client waits, and its request is on the network. -/
def World.sendRequest (w : World ι κ) (k : κ) (api : API) (ep : Str) (m : Message)
    (pending : Pending) : World ι κ :=
  { w with
    client := Function.update w.client k
      { w.client k with
        api, call := some ((w.client k).calls, pending), calls := (w.client k).calls + 1 }
    net := w.net ++ [.request k (w.client k).calls ep (.packed m)] }

/-- The moves of the system. -/
inductive Moves (D : Deployment ι κ) (w : World ι κ) : Action ι κ → World ι κ → Prop
  | start (i : ι) (now : UInt64) :
      Moves D w (.start i now)
        (w.settle i none (Node.enterLoop (D.pf i) now (Node.new (D.cfg i) (w.node i).node.db now)))
  | stop (i : ι) :
      Moves D w (.stop i) (w.place i (w.node i).node false none)
  | clientFrame (i : ι) (p : ℕ) (now : ℕ → UInt64) (k : κ) (c : ℕ) (dest : Str) (frame : Frame)
      (hp : w.net[p]? = some (.request k c dest frame)) (hr : (w.node i).running = true)
      (hd : dest = (w.node i).node.cfg.clientAddr) :
      Moves D w (.clientFrame i p now)
        (w.settle i (some (k, c)) ((w.node i).node.handleClientFrame (D.pf i) { now } frame))
  | gossipFrame (i : ι) (p : ℕ) (now : ℕ → UInt64) (dests : List Str) (frame : Frame)
      (hp : w.net[p]? = some (.gossip dests frame)) (hr : (w.node i).running = true)
      (hd : (w.node i).node.cfg.gossipAddr ∈ dests) :
      Moves D w (.gossipFrame i p now)
        (w.settle i none ((w.node i).node.handleGossipFrame (D.pf i) { now } frame))
  | discoveryFrame (i : ι) (p : ℕ) (dests : List Str) (frame : Frame)
      (hp : w.net[p]? = some (.discovery dests frame)) (hr : (w.node i).running = true)
      (hd : (w.node i).node.cfg.discoveryAddr ∈ dests) :
      Moves D w (.discoveryFrame i p)
        (w.settle i none ((w.node i).node.handleDiscoveryFrame (D.pf i) frame))
  | stateTimer (i : ι) (now : UInt64) (hr : (w.node i).running = true) :
      Moves D w (.stateTimer i now)
        (w.settle i none (.ok (Node.performShardGossip now .ok (w.node i).node)))
  | discoveryTimer (i : ι) (evictNow gossipNow : UInt64) (hr : (w.node i).running = true) :
      Moves D w (.discoveryTimer i evictNow gossipNow)
        (w.settle i none ((w.node i).node.wake (D.pf i) (.discoveryTimer evictNow gossipNow)))
  | begin (k : κ) (a : Action ι κ) (api : API) (listUid : Str) (pick : ℕ) (m : Message)
      (pending : Pending) (ep : Str) (hc : (w.client k).call = none)
      (hb : Begin w k a api listUid pick m pending)
      (he : api.getShardEndpoint (D.clientPf k) listUid pick = some ep) :
      Moves D w a (w.sendRequest k api ep m pending)
  | gossipState (k : κ) (now : UInt64) (pick : Int32 → ℕ) (batches : List (Str × Message))
      (hb : (w.client k).api.gossipState (D.clientPf k) now pick .ok = some batches) :
      Moves D w (.gossipState k now pick)
        { w with
          client := Function.update w.client k
            { w.client k with calls := (w.client k).calls + batches.length }
          net := w.net ++ World.gossipRequests k (w.client k).calls batches }
  | updateCloudNodes (k : κ) (now : UInt64) (pick : ℕ) (ep : Str)
      (hc : (w.client k).refresh = none) (he : (w.client k).api.getAnyEndpoint pick = some ep) :
      Moves D w (.updateCloudNodes k now pick)
        { w with
          client := Function.update w.client k
            { w.client k with
              refresh := some (w.client k).calls, calls := (w.client k).calls + 1 }
          net := w.net ++ [.request k (w.client k).calls ep
            (.packed (Message.getNodes (w.client k).api.origin now))] }
  | reply (k : κ) (p call : ℕ) (pending : Pending) (frame : Frame)
      (hc : (w.client k).call = some (call, pending))
      (hp : w.net[p]? = some (.reply k call frame)) :
      Moves D w (.reply k p) (w.finish k pending (frame.decode (D.clientPf k)))
  | noReply (k : κ) (call : ℕ) (pending : Pending)
      (hc : (w.client k).call = some (call, pending)) :
      Moves D w (.noReply k) (w.finish k pending none)
  | nodesReply (k : κ) (p call : ℕ) (frame : Frame) (hc : (w.client k).refresh = some call)
      (hp : w.net[p]? = some (.reply k call frame)) :
      Moves D w (.nodesReply k p)
        (w.setClient k
          { w.client k with
            api := (w.client k).api.finishUpdateCloudNodes (frame.decode (D.clientPf k))
            refresh := none })
  | noNodesReply (k : κ) (call : ℕ) (hc : (w.client k).refresh = some call) :
      Moves D w (.noNodesReply k)
        (w.setClient k
          { w.client k with
            api := (w.client k).api.finishUpdateCloudNodes none, refresh := none })

variable {D : Deployment ι κ} {w w' : World ι κ} {a : Action ι κ}

theorem exchange_moves {k : κ} {api : API} {listUid : Str} {pick : ℕ} {m : Message}
    {pending : Pending} (hc : (w.client k).call = none)
    (hb : Begin w k a api listUid pick m pending)
    (h : World.exchange D w k api listUid pick m pending = some w') : Moves D w a w' := by
  simp only [World.exchange, Option.map_eq_some_iff] at h
  obtain ⟨ep, he, rfl⟩ := h
  exact .begin k a api listUid pick m pending ep hc hb he

theorem exchangeEdit_moves {k : κ} {edited : Except Exn ShoppingList} {now : UInt64} {pick : ℕ}
    (hc : (w.client k).call = none)
    (hb : ∀ lst, edited = .ok lst → Begin w k a (w.client k).api lst.uid pick
      (Message.ensureList (w.client k).api.origin now lst) (.edit lst))
    (h : World.exchangeEdit D w k edited now pick = some w') : Moves D w a w' := by
  unfold World.exchangeEdit at h
  split at h
  · cases h
  · rename_i lst; exact exchange_moves hc (hb lst rfl) h

/-- **Every step is one of the moves.** -/
theorem step_moves (h : World.step D w a = some w') : Moves D w a w' := by
  cases a with
  | start i now =>
    simp only [World.step] at h
    split at h
    · cases h
    · cases h; exact .start i now
  | stop i => simp only [World.step] at h; cases h; exact .stop i
  | clientFrame i p now =>
    simp only [World.step] at h
    split at h
    · rename_i k c dest frame hp
      split at h
      · rename_i hg; cases h; exact .clientFrame i p now k c dest frame hp hg.1 hg.2
      · cases h
    · cases h
  | gossipFrame i p now =>
    simp only [World.step] at h
    split at h
    · rename_i dests frame hp
      split at h
      · rename_i hg; cases h; exact .gossipFrame i p now dests frame hp hg.1 hg.2
      · cases h
    · cases h
  | discoveryFrame i p =>
    simp only [World.step] at h
    split at h
    · rename_i dests frame hp
      split at h
      · rename_i hg; cases h; exact .discoveryFrame i p dests frame hp hg.1 hg.2
      · cases h
    · cases h
  | stateTimer i now =>
    simp only [World.step] at h
    split at h
    · rename_i hr; cases h; exact .stateTimer i now hr
    · cases h
  | discoveryTimer i evictNow gossipNow =>
    simp only [World.step] at h
    split at h
    · rename_i hr; cases h; exact .discoveryTimer i evictNow gossipNow hr
    · cases h
  | createShoppingList k name uid now pick =>
    simp only [World.step] at h
    split at h
    · rename_i hg
      exact exchange_moves (Option.isNone_iff_eq_none.1 hg.1) (.create name uid now pick hg.2) h
    · cases h
  | getShoppingList k listUid now pick =>
    simp only [World.step] at h
    split at h
    · rename_i hg
      exact exchange_moves (Option.isNone_iff_eq_none.1 hg) (.get listUid now pick) h
    · cases h
  | addItem k listUid itemName desired current itemUid clock now pick =>
    simp only [World.step] at h
    split at h
    · rename_i hg
      exact exchangeEdit_moves (Option.isNone_iff_eq_none.1 hg.1)
        (fun lst he => .add listUid itemName desired current itemUid clock now pick lst hg.2 he) h
    · cases h
  | updateItem k listUid itemUid itemName desired current clock now pick =>
    simp only [World.step] at h
    split at h
    · rename_i hg
      exact exchangeEdit_moves (Option.isNone_iff_eq_none.1 hg)
        (fun lst he => .update listUid itemUid itemName desired current clock now pick lst he) h
    · cases h
  | removeItem k listUid itemUid now pick =>
    simp only [World.step] at h
    split at h
    · rename_i hg
      exact exchangeEdit_moves (Option.isNone_iff_eq_none.1 hg)
        (fun lst he => .remove listUid itemUid now pick lst he) h
    · cases h
  | deleteShoppingList k listUid now pick =>
    simp only [World.step] at h
    split at h
    · rename_i hg
      exact exchange_moves (Option.isNone_iff_eq_none.1 hg) (.delete listUid now pick) h
    · cases h
  | gossipState k now pick =>
    simp only [World.step, Option.map_eq_some_iff] at h
    obtain ⟨batches, hb, rfl⟩ := h
    exact .gossipState k now pick batches hb
  | updateCloudNodes k now pick =>
    simp only [World.step] at h
    split at h
    · rename_i hg
      rw [Option.map_eq_some_iff] at h
      obtain ⟨ep, he, rfl⟩ := h
      exact .updateCloudNodes k now pick ep (Option.isNone_iff_eq_none.1 hg) he
    · cases h
  | reply k p =>
    simp only [World.step] at h
    split at h
    · rename_i call pending k' call' frame hc hp
      split at h
      · rename_i hg
        obtain ⟨rfl, rfl⟩ := hg
        cases h; exact .reply _ p _ pending frame hc hp
      · cases h
    · cases h
  | noReply k =>
    simp only [World.step] at h
    split at h
    · rename_i call pending hc; cases h; exact .noReply k call pending hc
    · cases h
  | nodesReply k p =>
    simp only [World.step] at h
    split at h
    · rename_i call k' call' frame hc hp
      split at h
      · rename_i hg
        obtain ⟨rfl, rfl⟩ := hg
        cases h; exact .nodesReply _ p _ frame hc hp
      · cases h
    · cases h
  | noNodesReply k =>
    simp only [World.step] at h
    split at h
    · rename_i hg
      obtain ⟨call, hc⟩ := Option.isSome_iff_exists.1 hg
      cases h; exact .noNodesReply k call hc
    · cases h

end Shopping
