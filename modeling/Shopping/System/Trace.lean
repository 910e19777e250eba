import Shopping.System.World
import Shopping.Client.Update
import Shopping.Lib.Replication

/-!
# Causal histories

A history variable for the system: every update a client makes is logged, and every copy
of a list, stored, in a call or in a packet, has the set of the updates it reflects. A
history moves with its list and histories join where lists are merged; nothing in the
system reads them.

Creating a list is no update: a created list reflects nothing.
-/

namespace Shopping

open Lib

/-- An update: its origin, the copy it was made on, the list it made of it, and the
updates that list reflects, itself included. -/
structure Update where
  origin : Str
  op : Op
  base : ShoppingList
  state : ShoppingList
  hist : Finset ℕ

/-- Lists as replicated objects: only lists stored under one key are merged. -/
def lists : Replicated ShoppingList Update where
  blank l := l.items = {}
  merge a b c := a.merge b = .ok c ∧ a.key = b.key
  update a e := e.base = a ∧ e.op.apply e.origin a = .ok e.state
  state := Update.state
  hist := Update.hist

/-- The list is a copy that reflects the updates `h` of the log. -/
abbrev IsCopy (log : List Update) (h : Finset ℕ) (l : ShoppingList) : Prop := Copy lists log h l

/-- What a replica's lists reflect, by the keys they are stored under. -/
abbrev Histories := Str → Finset ℕ

def Packet.frame {κ : Type*} : Packet κ → Frame
  | request _ _ _ frame => frame
  | reply _ _ frame => frame
  | gossip _ frame => frame
  | discovery _ frame => frame

/-- The history of a run: the log, what each stored list reflects, what the list of each
client's call in progress reflects, and what the lists of each packet reflect. -/
structure Trace (ι κ : Type*) where
  log : List Update := []
  node : ι → Histories := fun _ _ => ∅
  client : κ → Histories := fun _ _ => ∅
  call : κ → Finset ℕ := fun _ => ∅
  net : List (List (Finset ℕ)) := []

variable {ι κ : Type*} [DecidableEq ι] [DecidableEq κ]

namespace Trace

/-- After merging lists that reflect `hs`. -/
def learn (H : Histories) : List ShoppingList → List (Finset ℕ) → Histories
  | l :: ls, h :: hs => learn (Function.update H l.key (H l.key ∪ h)) ls hs
  | _, _ => H

/-- After `apply_message`. -/
def applied (H : Histories) (m : Message) (hs : List (Finset ℕ)) : Histories :=
  match m.op, m.lists with
  | .ensureList, l :: _ => learn H [l] hs
  | .deleteList, l :: _ => Function.update H l.key ∅
  | .gossipLists, ls => learn H ls hs
  | _, _ => H

/-- After `handle_client_frame`. -/
def served (pf : Platform) (n : Node) (H : Histories) (m : Option Message)
    (hs : List (Finset ℕ)) : Histories :=
  match m with
  | some m =>
    match m.lists with
    | l :: _ => if n.shardForList pf l.uid = n.cfg.shardId then applied H m hs else H
    | [] => H
  | none => H

/-- After `handle_gossip_frame`. -/
def gossiped (H : Histories) (m : Option Message) (hs : List (Finset ℕ)) : Histories :=
  match m with
  | some m => if m.op = .gossipLists then applied H m hs else H
  | none => H

/-- What the list of a reply reflects: `GET_LIST` is answered with the stored list, any
other request with the list it carries. -/
def replied (H : Histories) (m : Option Message) (hs : List (Finset ℕ)) : Finset ℕ :=
  match m with
  | some m =>
    match m.op, m.lists with
    | .getList, l :: _ => H l.key
    | _, _ => hs.headD ∅
  | none => ∅

/-- What the lists of a packet reflect, from a replica with the histories `H`, `echo`
being that of a reply. -/
def packet (H : Histories) (echo : Finset ℕ) : Packet κ → List (Finset ℕ)
  | .reply _ _ frame => frame.lists.map fun _ => echo
  | pkt => pkt.frame.lists.map fun l => H l.key

section

variable {pf : Platform} {n : Node} {H : Histories} {m : Message} {hs : List (Finset ℕ)}
  {l : ShoppingList} {ls : List ShoppingList}

/-- Requests that only read leave the histories alone. -/
theorem applied_read (h : m.op = .getNodes ∨ m.op = .getList) : applied H m hs = H := by
  unfold applied
  rcases h with h | h <;> rw [h]

theorem served_accepted (hl : m.lists = l :: ls) (hsh : n.shardForList pf l.uid = n.cfg.shardId) :
    served pf n H (some m) hs = applied H m hs := by
  simp only [served, hl, if_pos hsh]

/-- A request for another shard leaves no update behind. -/
theorem served_refused (hl : m.lists = l :: ls) (hsh : n.shardForList pf l.uid ≠ n.cfg.shardId) :
    served pf n H (some m) hs = H := by
  simp only [served, hl, if_neg hsh]

theorem served_empty (hl : m.lists = []) : served pf n H (some m) hs = H := by
  simp only [served, hl]

/-- A request that only reads leaves no update behind. -/
theorem served_read (h : m.op = .getNodes ∨ m.op = .getList) : served pf n H (some m) hs = H := by
  cases hl : m.lists with
  | nil => exact served_empty hl
  | cons l ls =>
    by_cases hsh : n.shardForList pf l.uid = n.cfg.shardId
    · rw [served_accepted hl hsh, applied_read h]
    · exact served_refused hl hsh

/-- Merging what is reflected already teaches nothing. -/
theorem learn_known {key : Str} : ∀ (ls : List ShoppingList) (hs : List (Finset ℕ)) (H : Histories),
    (∀ lh ∈ ls.zip hs, lh.1.key = key → lh.2 ⊆ H key) → learn H ls hs key = H key := by
  intro ls
  induction ls with
  | nil => intro hs H _; rfl
  | cons l ls ih =>
    intro hs H hk
    cases hs with
    | nil => rfl
    | cons h hs =>
      have hsame : Function.update H l.key (H l.key ∪ h) key = H key := by
        by_cases hl : l.key = key
        · have := hk (l, h) List.mem_cons_self hl
          rw [hl, Function.update_self, Finset.union_eq_left.2 this]
        · exact Function.update_of_ne (fun heq => hl heq.symm) _ _
      rw [learn, ih hs _ ?_, hsame]
      intro lh hlh heq
      rw [hsame]
      exact hk lh (List.mem_cons_of_mem _ hlh) heq

theorem applied_known {key : Str} (ho : m.op ≠ .deleteList)
    (hk : ∀ lh ∈ m.lists.zip hs, lh.1.key = key → lh.2 ⊆ H key) : applied H m hs key = H key := by
  obtain ⟨op, origin, ts, ls, nodes⟩ := m
  cases op with
  | ensureList =>
    cases ls with
    | nil => rfl
    | cons l ls =>
      refine learn_known [l] hs H ?_
      intro lh hlh
      refine hk lh ?_
      cases hs with
      | nil => cases hlh
      | cons h hs =>
        obtain rfl := List.mem_singleton.1 hlh
        exact List.mem_cons_self
  | gossipLists => exact learn_known ls hs H hk
  | deleteList => exact absurd rfl ho
  | _ => rfl

/-- A reply to `GET_LIST` has the updates of the list stored. -/
theorem replied_get (ho : m.op = .getList) (hl : m.lists = l :: ls) :
    replied H (some m) hs = H l.key := by
  simp only [replied, ho, hl]

theorem replied_other (ho : m.op ≠ .getList) : replied H (some m) hs = hs.headD ∅ := by
  simp only [replied]
  split
  · rename_i h _; exact absurd h ho
  · rfl

end

/-- The packets a step has sent. -/
def sent (w w' : World ι κ) : List (Packet κ) := w'.net.drop w.net.length

/-- What the lists of packet `p` reflect. -/
def carried (g : Trace ι κ) (p : ℕ) : List (Finset ℕ) := (g.net[p]?).getD []

/-- What the lists of the packet that an action hands to a node reflect. -/
def delivered (g : Trace ι κ) : Action ι κ → List (Finset ℕ)
  | .clientFrame _ p _ => g.carried p
  | .gossipFrame _ p _ => g.carried p
  | _ => []

/-- The message in packet `p`. -/
def received (pf : Platform) (w : World ι κ) (p : ℕ) : Option Message :=
  (w.net[p]?).bind fun pkt => pkt.frame.decode pf

/-- After a handler of node `i`. -/
def handled (g : Trace ι κ) (w w' : World ι κ) (i : ι) (H : Histories) (echo : Finset ℕ) :
    Trace ι κ :=
  { g with
    node := Function.update g.node i H
    net := g.net ++ (sent w w').map (packet H echo) }

/-- After a client's call has sent its requests. -/
def called (g : Trace ι κ) (w w' : World ι κ) (f : ShoppingList → Finset ℕ) : Trace ι κ :=
  { g with net := g.net ++ (sent w w').map fun pkt => pkt.frame.lists.map f }

/-- After `addItem`, `updateItem` or `removeItem` has changed the list it read. -/
def edited (D : Deployment ι κ) (g : Trace ι κ) (w w' : World ι κ) (k : κ) (listUid : Str)
    (op : Op) : Trace ι κ :=
  match (w.client k).api.db.read listUid .ok, (w'.client k).call with
  | some base, some (_, .edit lst) =>
    let h := insert g.log.length (g.client k (cstr listUid))
    { g.called w w' fun _ => h with
      log := g.log ++ [⟨D.origin k, op, base, lst, h⟩]
      call := Function.update g.call k h }
  | _, _ => g

/-- What the list of a `LIST_RESPONSE` reflects; no other reply is merged. -/
def merged (m : Option Message) (hs : List (Finset ℕ)) : Option (Finset ℕ) :=
  match m with
  | some m => if m.op = .listResponse then some (hs.headD ∅) else none
  | none => none

/-- After a client's call has ended. -/
def finished (g : Trace ι κ) (k : κ) (pending : Pending) (cloud : Option (Finset ℕ)) : Trace ι κ :=
  let store (key : Str) : Trace ι κ :=
    { g with
      client := Function.update g.client k
        (Function.update (g.client k) key (g.call k ∪ cloud.getD ∅)) }
  match pending, cloud with
  | .create, _ => g
  | .delete, _ => g
  | .edit lst, _ => store lst.key
  | .get _ none, none => g
  | .get listUid _, _ => store (cstr listUid)

/-- The history after a step from `w` to `w'`. -/
def track (D : Deployment ι κ) (w : World ι κ) (a : Action ι κ) (w' : World ι κ)
    (g : Trace ι κ) : Trace ι κ :=
  match a with
  | .start i _ => g.handled w w' i (g.node i) ∅
  | .stop i => g.handled w w' i (g.node i) ∅
  | .clientFrame i p _ =>
    let m := received (D.pf i) w p
    g.handled w w' i (served (D.pf i) (w.node i).node (g.node i) m (g.carried p))
      (replied (g.node i) m (g.carried p))
  | .gossipFrame i p _ =>
    g.handled w w' i (gossiped (g.node i) (received (D.pf i) w p) (g.carried p)) ∅
  | .discoveryFrame i _ => g.handled w w' i (g.node i) ∅
  | .stateTimer i _ => g.handled w w' i (g.node i) ∅
  | .discoveryTimer i _ _ => g.handled w w' i (g.node i) ∅
  | .createShoppingList .. => g.called w w' fun _ => ∅
  | .getShoppingList k listUid _ _ =>
    { g.called w w' fun _ => ∅ with call := Function.update g.call k (g.client k (cstr listUid)) }
  | .addItem k listUid itemName desired current itemUid clock _ _ =>
    g.edited D w w' k listUid (.add itemUid itemName desired current (ORSet.genTag clock))
  | .updateItem k listUid itemUid itemName desired current clock _ _ =>
    g.edited D w w' k listUid (.update itemUid itemName desired current (ORSet.genTag clock))
  | .removeItem k listUid itemUid _ _ => g.edited D w w' k listUid (.remove itemUid)
  | .deleteShoppingList k listUid _ _ =>
    { g.called w w' fun _ => ∅ with
      client := Function.update g.client k (Function.update (g.client k) (cstr listUid) ∅) }
  | .gossipState k _ _ => g.called w w' fun l => g.client k l.key
  | .updateCloudNodes .. => g.called w w' fun _ => ∅
  | .reply k p =>
    match (w.client k).call with
    | some (_, pending) => g.finished k pending (merged (received (D.clientPf k) w p) (g.carried p))
    | none => g
  | .noReply k =>
    match (w.client k).call with
    | some (_, pending) => g.finished k pending none
    | none => g
  | .nodesReply .. => g
  | .noNodesReply _ => g

end Trace

/-- The list a replica, node or client, stores under a key. -/
def World.list (w : World ι κ) (r : ι ⊕ κ) (key : Str) : Option ShoppingList :=
  match r with
  | .inl i => (w.node i).node.db.rows.lookup key
  | .inr k => (w.client k).api.db.rows.lookup key

/-- What a replica's lists reflect. -/
def Trace.history (g : Trace ι κ) : ι ⊕ κ → Histories
  | .inl i => g.node i
  | .inr k => g.client k

/-- A state of the system with the history of the run to it. -/
abbrev Traced (ι κ : Type*) := World ι κ × Trace ι κ

/-- One step, with its history. -/
abbrev Traced.step (D : Deployment ι κ) : Traced ι κ → Action ι κ → Option (Traced ι κ) :=
  traced (World.step D) (Trace.track D)

def Traced.init (D : Deployment ι κ) : Traced ι κ := (World.init D, {})

end Shopping
