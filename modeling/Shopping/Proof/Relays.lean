import Shopping.Lib.Rumour
import Shopping.Proof.Deletion
import Shopping.Proof.SingleWriter

/-!
# How updates travel

The channel by which the updates of a list come from replica to replica (`listChannel`): a
replica keeps them until it deletes the list, a node passes them on by gossip and by its
answers to `GET_LIST`, a client by its batches and with its own updates. The history of a run
makes each update a rumour on it (`update_rumour`), in every run, with deletions too.
-/

namespace Shopping

open Lib

variable {ι κ : Type*}

/-- The replica whose step an action is. -/
def Action.actor : Action ι κ → ι ⊕ κ
  | start i _ => .inl i
  | stop i => .inl i
  | clientFrame i _ _ => .inl i
  | gossipFrame i _ _ => .inl i
  | discoveryFrame i _ => .inl i
  | stateTimer i _ => .inl i
  | discoveryTimer i _ _ => .inl i
  | createShoppingList k _ _ _ _ => .inr k
  | getShoppingList k _ _ _ => .inr k
  | addItem k _ _ _ _ _ _ _ _ => .inr k
  | updateItem k _ _ _ _ _ _ _ _ => .inr k
  | removeItem k _ _ _ _ => .inr k
  | deleteShoppingList k _ _ _ => .inr k
  | gossipState k _ _ => .inr k
  | updateCloudNodes k _ _ => .inr k
  | reply k _ => .inr k
  | noReply k => .inr k
  | nodesReply k _ => .inr k
  | noNodesReply k => .inr k

/-- The packet an action hands to a replica. -/
def Action.packet : Action ι κ → Option ℕ
  | clientFrame _ p _ => some p
  | gossipFrame _ p _ => some p
  | discoveryFrame _ p => some p
  | reply _ p => some p
  | nodesReply _ p => some p
  | _ => none

variable [DecidableEq ι] [DecidableEq κ]

/-- The replica does not delete the list. -/
def KeepsList (D : Deployment ι κ) (key : Str) (r : ι ⊕ κ) (w : World ι κ) (a : Action ι κ) :
    Prop :=
  match r, a with
  | .inl i, a => ¬ Deletes D w i key a
  | .inr k, .deleteShoppingList k' listUid _ _ => k' = k → cstr listUid ≠ key
  | .inr _, _ => True

/-- The packets the action sends show what its replica stores: gossip, batches and updates, and
of the packets of a node's answer the gossip, and the reply if it is to a `GET_LIST` of the
list. -/
def ShowsList (D : Deployment ι κ) (key : Str) (w : World ι κ) (a : Action ι κ) (pkt : Packet κ) :
    Prop :=
  match a with
  | .clientFrame i q _ => (∃ dests frame, pkt = .gossip dests frame) ∨
      ∃ m ∈ Trace.received (D.pf i) w q, m.op = .getList ∧ ∃ l ∈ m.lists.head?, l.key = key
  | .stateTimer .. => True
  | .gossipState .. => True
  | .addItem .. => True
  | .updateItem .. => True
  | .removeItem .. => True
  | _ => False

/-- The action has the replica merge what packet `p` brings of the list. -/
def Receives (D : Deployment ι κ) (key : Str) (p : ℕ) (r : ι ⊕ κ) (w : World ι κ)
    (a : Action ι κ) : Prop :=
  a.packet = some p ∧
    match r with
    | .inl i => Delivers D w i key a
    | .inr k => a = .reply k p ∧ (∃ call ∈ (w.client k).call, call.2.key = some key) ∧
        ∃ m ∈ Trace.received (D.clientPf k) w p, m.op = .listResponse

/-- How the updates of a list travel. -/
def listChannel (D : Deployment ι κ) (key : Str) :
    Channel (Traced ι κ) (Action ι κ) (ι ⊕ κ) where
  step := Traced.step D
  keeps r s a := KeepsList D key r s.1 a
  sends r p s a s' := a.actor = r ∧ s.1.net.length ≤ p ∧
    ∃ pkt ∈ s'.1.net[p]?, ShowsList D key s.1 a pkt
  delivers p r s a := Receives D key p r s.1 a

/-- Replica `r` stores a copy of the list with update `n`. -/
def KnowsUpdate (key : Str) (n : ℕ) (r : ι ⊕ κ) (s : Traced ι κ) : Prop := n ∈ s.2.history r key

/-- Every copy of the list in packet `p` has update `n`. -/
def CarriesUpdate (key : Str) (n : ℕ) (p : ℕ) (s : Traced ι κ) : Prop :=
  ∃ pkt ∈ s.1.net[p]?, ∃ hs ∈ s.2.net[p]?, ∀ lh ∈ pkt.frame.lists.zip hs,
    lh.1.key = key → n ∈ lh.2

namespace Trace

variable {key : Str} {n : ℕ}

theorem mem_learn : ∀ {ls : List ShoppingList} {hs : List (Finset ℕ)} {H : Histories},
    n ∈ H key → n ∈ learn H ls hs key := by
  intro ls
  induction ls with
  | nil => intro hs H h; exact h
  | cons l ls ih =>
    intro hs H h
    cases hs with
    | nil => exact h
    | cons x hs =>
      refine ih ?_
      rw [Function.update_apply]
      split
      · rename_i heq; subst heq; exact Finset.mem_union_left _ h
      · exact h

/-- Whoever merges a copy that has the update has the update. -/
theorem learn_mem : ∀ {ls : List ShoppingList} {hs : List (Finset ℕ)} {H : Histories},
    (∃ lh ∈ ls.zip hs, lh.1.key = key ∧ n ∈ lh.2) → n ∈ learn H ls hs key := by
  intro ls
  induction ls with
  | nil => rintro hs H ⟨lh, hlh, -⟩; simp at hlh
  | cons l ls ih =>
    rintro hs H ⟨lh, hlh, hk, hn⟩
    cases hs with
    | nil => simp at hlh
    | cons x hs =>
      rcases List.mem_cons.1 (show lh ∈ (l, x) :: ls.zip hs from hlh) with rfl | hlh
      · obtain rfl : l.key = key := hk
        show n ∈ learn (Function.update H l.key (H l.key ∪ x)) ls hs l.key
        refine mem_learn ?_
        rw [Function.update_self]
        exact Finset.mem_union_right _ hn
      · exact ih ⟨lh, hlh, hk, hn⟩

/-- `apply_message` loses updates only by deleting the list. -/
theorem mem_applied {H : Histories} {m : Message} {hs : List (Finset ℕ)} (h : n ∈ H key)
    (hd : m.op = .deleteList → ∀ l ∈ m.lists.head?, l.key ≠ key) : n ∈ applied H m hs key := by
  obtain ⟨op, origin, ts, ls, nodes⟩ := m
  cases op with
  | ensureList =>
    cases ls with
    | nil => exact h
    | cons l ls => exact mem_learn h
  | deleteList =>
    cases ls with
    | nil => exact h
    | cons l ls =>
      show n ∈ Function.update H l.key ∅ key
      rw [Function.update_of_ne (Ne.symm (hd rfl l rfl))]
      exact h
  | gossipLists => exact mem_learn h
  | _ => exact h

/-- A message that brings the list teaches what its copies have. -/
theorem applied_mem {H : Histories} {m : Message} {hs : List (Finset ℕ)} (hb : m.Brings key)
    (hlen : hs.length = m.lists.length)
    (hc : ∀ lh ∈ m.lists.zip hs, lh.1.key = key → n ∈ lh.2) : n ∈ applied H m hs key := by
  obtain ⟨op, origin, ts, ls, nodes⟩ := m
  cases op with
  | ensureList =>
    obtain ⟨l, hl, hk⟩ := hb
    cases ls with
    | nil => cases hl
    | cons l' ls =>
      cases hl
      cases hs with
      | nil => simp at hlen
      | cons x hs =>
        have hmem : (l, x) ∈ [l].zip (x :: hs) := List.mem_cons_self
        exact learn_mem ⟨_, hmem, hk, hc _ List.mem_cons_self hk⟩
  | gossipLists =>
    obtain ⟨l, hl, hk⟩ := hb
    obtain ⟨j, hj, rfl⟩ := List.mem_iff_getElem.1 hl
    have hj' : j < hs.length := hlen ▸ hj
    have hmem : (ls[j], hs[j]) ∈ ls.zip hs := by
      rw [List.mem_iff_getElem]
      exact ⟨j, by simp; exact ⟨hj, hj'⟩, by simp⟩
    exact learn_mem ⟨_, hmem, hk, hc _ hmem hk⟩
  | _ => exact hb.elim

end Trace

variable {D : Deployment ι κ} {w w' : World ι κ} {g : Trace ι κ} {a : Action ι κ} {key : Str}
  {n : ℕ}

/-- **A node's histories change by `apply_message` only.** -/
theorem track_node (h : World.step D w a = some w') (g : Trace ι κ) (i : ι) :
    (∀ m, Applies D w i a m →
      (Trace.track D w a w' g).node i = Trace.applied (g.node i) m (g.delivered a)) ∧
      ((¬ ∃ m, Applies D w i a m) → (Trace.track D w a w' g).node i = g.node i) := by
  have hhandled : ∀ (j : ι) (H : Histories) (echo : Finset ℕ),
      (g.handled w w' j H echo).node i = if i = j then H else g.node i :=
    fun j H echo => Function.update_apply _ _ _ _
  have hself : ∀ (j : ι) (echo : Finset ℕ), (g.handled w w' j (g.node j) echo).node i = g.node i := by
    intro j echo
    rw [hhandled]
    split
    · rename_i hij; subst hij; rfl
    · rfl
  have hedited : ∀ k listUid op, (g.edited D w w' k listUid op).node = g.node := by
    intro k listUid op
    unfold Trace.edited
    split <;> rfl
  have hfinished : ∀ k pending cloud, (g.finished k pending cloud).node = g.node := by
    intro k pending cloud
    unfold Trace.finished
    split <;> rfl
  cases a with
  | clientFrame j q now =>
    simp only [Trace.track, hhandled]
    constructor
    · rintro m ⟨rfl, hrec, l, hl, hsh⟩
      obtain ⟨ls, hls⟩ : ∃ ls, m.lists = l :: ls := by
        cases hm : m.lists with
        | nil => rw [hm] at hl; cases hl
        | cons l' ls => rw [hm] at hl; cases hl; exact ⟨ls, rfl⟩
      rw [if_pos rfl, hrec, Trace.served_accepted hls hsh]
      rfl
    · intro hno
      split
      · rename_i hij
        subst hij
        unfold Trace.served
        split
        · rename_i m hrec
          split
          · rename_i l ls hls
            refine if_neg fun hsh => hno ⟨m, rfl, hrec, l, ?_, hsh⟩
            rw [hls]; rfl
          · rfl
        · rfl
      · rfl
  | gossipFrame j q now =>
    simp only [Trace.track, hhandled]
    constructor
    · rintro m ⟨rfl, hrec, hop⟩
      simp only [hrec, Trace.gossiped, if_pos hop]
      rfl
    · intro hno
      split
      · rename_i hij
        subst hij
        unfold Trace.gossiped
        split
        · rename_i m hrec
          exact if_neg fun hop => hno ⟨m, rfl, hrec, hop⟩
        · rfl
      · rfl
  | start j now => exact ⟨fun m hm => hm.elim, fun _ => hself j ∅⟩
  | stop j => exact ⟨fun m hm => hm.elim, fun _ => hself j ∅⟩
  | discoveryFrame j q => exact ⟨fun m hm => hm.elim, fun _ => hself j ∅⟩
  | stateTimer j now => exact ⟨fun m hm => hm.elim, fun _ => hself j ∅⟩
  | discoveryTimer j t t' => exact ⟨fun m hm => hm.elim, fun _ => hself j ∅⟩
  | addItem => exact ⟨fun m hm => hm.elim, fun _ => congrFun (hedited ..) i⟩
  | updateItem => exact ⟨fun m hm => hm.elim, fun _ => congrFun (hedited ..) i⟩
  | removeItem => exact ⟨fun m hm => hm.elim, fun _ => congrFun (hedited ..) i⟩
  | reply k q =>
    refine ⟨fun m hm => hm.elim, fun _ => ?_⟩
    simp only [Trace.track]
    split
    · exact congrFun (hfinished ..) i
    · rfl
  | noReply k =>
    refine ⟨fun m hm => hm.elim, fun _ => ?_⟩
    simp only [Trace.track]
    split
    · exact congrFun (hfinished ..) i
    · rfl
  | _ => exact ⟨fun m hm => hm.elim, fun _ => rfl⟩

/-- A node that does not delete the list keeps its updates. -/
theorem node_keeps (h : World.step D w a = some w') {i : ι} (hk : KeepsList D key (.inl i) w a)
    (hn : n ∈ g.node i key) : n ∈ (Trace.track D w a w' g).node i key := by
  obtain ⟨happ, hno⟩ := track_node h g i
  by_cases hm : ∃ m, Applies D w i a m
  · obtain ⟨m, hm⟩ := hm
    rw [happ m hm]
    exact Trace.mem_applied hn fun hop l hl heq => hk ⟨m, hm, hop, l, hl, heq⟩
  · rw [hno hm]; exact hn

/-- A node that merges a packet gets the updates it carries. -/
theorem node_learns (hr : Reflected IsCopy w g) (hm : Matched D w) (h : World.step D w a = some w')
    {i : ι} {p : ℕ} (hp : a.packet = some p) (hd : Delivers D w i key a)
    (hc : CarriesUpdate key n p (w, g)) : n ∈ (Trace.track D w a w' g).node i key := by
  obtain ⟨m, happ, hb⟩ := hd
  obtain ⟨pkt, hpkt, hs, hhs, hall⟩ := hc
  rw [Option.mem_def] at hpkt hhs
  have hreceived : Trace.received (D.pf i) w p = some m ∧ g.delivered a = hs := by
    have hcarried : g.carried p = hs := by rw [Trace.carried, hhs]; rfl
    cases a with
    | clientFrame j q now => cases hp; exact ⟨happ.2.1, hcarried⟩
    | gossipFrame j q now => cases hp; exact ⟨happ.2.1, hcarried⟩
    | _ => exact happ.elim
  have hcopies := hr.carried hpkt
  rw [show g.carried p = hs by rw [Trace.carried, hhs]; rfl] at hcopies
  have hframe : pkt.frame = .packed m := by
    have hd := hreceived.1
    rw [received_eq hpkt] at hd
    rcases hm.frames _ (List.mem_of_getElem? hpkt) with hf | ⟨m', hf, -⟩
    · rw [hf, Frame.decode_wrongShard] at hd; cases hd
    · rw [hf, Frame.decode_packed, Option.some.injEq] at hd
      rw [hf, hd]
  rw [hframe] at hall hcopies
  rw [(track_node h g i).1 m happ, hreceived.2]
  exact Trace.applied_mem hb hcopies.length_eq hall

/-- What a client's call in progress will store has what is stored there now, for every client. -/
def AllCover (w : World ι κ) (g : Trace ι κ) : Prop :=
  ∀ k, Covers (w.client k) (g.client k) (g.call k)

namespace Trace

omit [DecidableEq ι] in
/-- The end of a call keeps what was stored. -/
theorem mem_finished {k j : κ} {pending : Pending} {cloud : Option (Finset ℕ)}
    (hcov : ∀ key, pending.key = some key → g.client k key ⊆ g.call k)
    (hn : n ∈ g.client j key) : n ∈ (g.finished k pending cloud).client j key := by
  have hstore : ∀ key', pending.key = some key' → n ∈ Function.update g.client k
      (Function.update (g.client k) key' (g.call k ∪ cloud.getD ∅)) j key := by
    intro key' hkey
    by_cases hj : j = k
    · subst hj
      rw [Function.update_self, Function.update_apply]
      split
      · rename_i heq
        subst heq
        exact Finset.mem_union_left _ (hcov _ hkey hn)
      · exact hn
    · rw [Function.update_of_ne hj]; exact hn
  cases pending with
  | create => exact hn
  | delete => exact hn
  | edit lst => exact hstore lst.key rfl
  | get listUid found =>
    cases found with
    | some l => exact hstore (cstr listUid) rfl
    | none =>
      cases cloud with
      | none => exact hn
      | some h => exact hstore (cstr listUid) rfl

omit [DecidableEq ι] in
/-- The end of a call that merges the list of its answer. -/
theorem finished_mem {k : κ} {pending : Pending} {h : Finset ℕ} (hkey : pending.key = some key)
    (hn : n ∈ h) : n ∈ (g.finished k pending (some h)).client k key := by
  have hstore : n ∈ Function.update g.client k
      (Function.update (g.client k) key (g.call k ∪ (some h).getD ∅)) k key := by
    rw [Function.update_self, Function.update_self]
    exact Finset.mem_union_right _ hn
  cases pending with
  | create => cases hkey
  | delete => cases hkey
  | edit lst => cases hkey; exact hstore
  | get listUid found => cases hkey; cases found <;> exact hstore

end Trace

/-- A client that does not delete the list keeps its updates. -/
theorem client_keeps (hcov : AllCover w g) {k : κ} (hk : KeepsList D key (.inr k) w a)
    (hn : n ∈ g.client k key) : n ∈ (Trace.track D w a w' g).client k key := by
  have hedited : ∀ k' listUid op, (g.edited D w w' k' listUid op).client = g.client := by
    intro k' listUid op
    unfold Trace.edited
    split <;> rfl
  cases a with
  | addItem => simp only [Trace.track, hedited]; exact hn
  | updateItem => simp only [Trace.track, hedited]; exact hn
  | removeItem => simp only [Trace.track, hedited]; exact hn
  | deleteShoppingList k' listUid now pick =>
    simp only [Trace.track]
    by_cases hkk : k = k'
    · subst hkk
      rw [Function.update_self, Function.update_of_ne (Ne.symm (hk rfl))]
      exact hn
    · rw [Function.update_of_ne hkk]; exact hn
  | reply k' q =>
    simp only [Trace.track]
    split
    · rename_i call pending hc
      exact Trace.mem_finished (fun key hkey => hcov k' call pending key hc hkey) hn
    · exact hn
  | noReply k' =>
    simp only [Trace.track]
    split
    · rename_i call pending hc
      exact Trace.mem_finished (fun key hkey => hcov k' call pending key hc hkey) hn
    · exact hn
  | _ => exact hn

omit [DecidableEq ι] in
/-- Another client's call and store are as before. -/
theorem AllCover.mono {g' : Trace ι κ} (hcov : AllCover w g) (k : κ)
    (hother : ∀ j, j ≠ k → w'.client j = w.client j ∧ g'.client j = g.client j ∧
      g'.call j = g.call j)
    (hself : Covers (w'.client k) (g'.client k) (g'.call k)) : AllCover w' g' := by
  intro j
  by_cases hj : j = k
  · subst hj; exact hself
  · obtain ⟨h1, h2, h3⟩ := hother j hj
    rw [h1, h2, h3]; exact hcov j

omit [DecidableEq ι] in
/-- A call that begins and will store what is stored now, and more. -/
theorem AllCover.begin {g' : Trace ι κ} (hcov : AllCover w g) {k : κ} {api : API} {ep : Str}
    {m : Message} {pending : Pending} (hclient : ∀ j, j ≠ k → g'.client j = g.client j)
    (hcall : ∀ j, j ≠ k → g'.call j = g.call j)
    (hself : ∀ key, pending.key = some key → g'.client k key ⊆ g'.call k) :
    AllCover (w.sendRequest k api ep m pending) g' := by
  refine hcov.mono k (fun j hj => ⟨Function.update_of_ne hj _ _, hclient j hj, hcall j hj⟩) ?_
  intro call p key hc hkey
  rw [World.sendRequest] at hc
  dsimp only at hc
  rw [Function.update_self] at hc
  cases hc
  exact hself key hkey

/-- **Every step keeps it**, deletions included: a client deletes only while it has no call to
finish. -/
theorem AllCover.step (hcov : AllCover w g) (hm : Matched D w) (h : World.step D w a = some w') :
    AllCover w' (Trace.track D w a w' g) := by
  have hshape := step_shape h g
  generalize Trace.track D w a w' g = g' at hshape
  cases hshape with
  | quiet => exact hcov
  | clientFrame i p now k c dest frame _ hp _ hw =>
    rw [settle_eq_place] at hw; subst hw; exact hcov
  | gossipFrame i p now dests frame _ hp hw => rw [settle_eq_place] at hw; subst hw; exact hcov
  | create k name uid now pick ep _ hc hu hw =>
    subst hw
    exact hcov.begin (fun _ _ => rfl) (fun _ _ => rfl) (by intro key hkey; cases hkey)
  | get k listUid now pick ep _ hc hw =>
    subst hw
    refine hcov.begin (fun _ _ => rfl) (fun j hj => Function.update_of_ne hj _ _) ?_
    intro key hkey
    cases hkey
    dsimp only
    rw [Function.update_self]
    exact Finset.Subset.refl _
  | edit _ k listUid op base lst now ep _ hc hb he hw =>
    have hbkey : base.key = cstr listUid := hm.clientKey k _ _ hb
    have hlkey : lst.key = cstr listUid := by
      rw [ShoppingList.key, (Op.apply_names he).1]
      exact hbkey
    have hread : (w.client k).api.db.read listUid .ok = some base := hb
    have hself : (w'.client k).call = some ((w.client k).calls, .edit lst) := by
      rw [hw, World.sendRequest]; dsimp only; rw [Function.update_self]
    simp only [Trace.edited, hread, hself]
    subst hw
    refine hcov.begin (fun _ _ => rfl) (fun j hj => Function.update_of_ne hj _ _) ?_
    intro key hkey
    cases hkey
    dsimp only
    rw [Function.update_self, hlkey]
    exact Finset.subset_insert _ _
  | delete k listUid now pick ep _ hc hw =>
    subst hw
    exact hcov.begin (fun j hj => Function.update_of_ne hj _ _) (fun _ _ => rfl)
      (by intro key hkey; cases hkey)
  | batches k now pick batches _ hb hw =>
    subst hw
    refine hcov.mono k (fun j hj => ⟨Function.update_of_ne hj _ _, rfl, rfl⟩) ?_
    dsimp only
    rw [Function.update_self]
    exact hcov k
  | refresh k now pick ep _ hw =>
    subst hw
    refine hcov.mono k (fun j hj => ⟨Function.update_of_ne hj _ _, rfl, rfl⟩) ?_
    dsimp only
    rw [Function.update_self]
    exact hcov k
  | finish _ k call pending reply hs hc _ =>
    obtain ⟨c', hw, hc'⟩ := (finish_ends w k pending reply).setClient
    rw [hw]
    have hother : ∀ j, j ≠ k →
        (g.finished k pending (Trace.merged reply hs)).client j = g.client j := by
      intro j hj
      unfold Trace.finished
      split <;> first | rfl | exact Function.update_of_ne hj _ _
    have hcalls : (g.finished k pending (Trace.merged reply hs)).call = g.call := by
      unfold Trace.finished
      split <;> rfl
    refine hcov.mono k (fun j hj => ⟨Function.update_of_ne hj _ _, hother j hj, ?_⟩) ?_
    · rw [hcalls]
    · refine Covers.idle ?_ _ _
      rw [World.setClient]
      dsimp only
      rw [Function.update_self]
      exact hc'
  | refreshed _ k reply _ =>
    refine hcov.mono k (fun j hj => ⟨Function.update_of_ne hj _ _, rfl, rfl⟩) ?_
    rw [World.setClient]
    dsimp only
    rw [Function.update_self]
    exact hcov k

/-- A client that merges an answer gets the updates it carries. -/
theorem client_learns (hr : Reflected IsCopy w g) (hm : Matched D w) {k : κ} {p : ℕ} {w' : World ι κ}
    (h : World.step D w (.reply k p) = some w') {call : ℕ × Pending}
    (hcall : (w.client k).call = some call) (hkey : call.2.key = some key) {m : Message}
    (hrec : Trace.received (D.clientPf k) w p = some m) (hop : m.op = .listResponse)
    (hc : CarriesUpdate key n p (w, g)) : n ∈ (Trace.track D w (.reply k p) w' g).client k key := by
  obtain ⟨c, pending⟩ := call
  obtain ⟨pkt, hpkt, hs, hhs, hall⟩ := hc
  rw [Option.mem_def] at hpkt hhs
  -- the answer is to this call, so its list is the one the call is about
  obtain ⟨frame, rfl⟩ : ∃ frame, pkt = .reply k c frame := by
    cases step_moves h with
    | begin _ _ _ _ _ _ _ _ _ hb => cases hb
    | reply _ _ call' pending' frame hc' hp' =>
      rw [hcall] at hc'
      cases hc'
      have hp' : w.net[p]? = some (.reply k c frame) := hp'
      rw [hpkt] at hp'
      exact ⟨frame, Option.some.inj hp'⟩
  have hmem := List.mem_of_getElem? hpkt
  have hcopies := hr.carried hpkt
  have hcarried : g.carried p = hs := by rw [Trace.carried, hhs]; rfl
  rw [hcarried] at hcopies
  rw [received_eq hpkt] at hrec
  have hmerged : n ∈ hs.headD ∅ := by
    rcases hm.frames _ hmem with hf | ⟨m', hf, hne⟩
    · obtain rfl : frame = .raw wrongShard := hf
      simp only [Packet.frame, Frame.decode_wrongShard] at hrec
      cases hrec
    · obtain rfl : frame = .packed m' := hf
      simp only [Packet.frame, Frame.decode_packed, Option.some.injEq] at hrec
      subst hrec
      cases hl : m'.lists with
      | nil => exact absurd hl (hne hop)
      | cons l ls =>
        have hlkey : l.key = key := by
          refine hm.keys k c pending key hcall hkey _ hmem rfl l ?_
          show l ∈ m'.lists
          rw [hl]; exact List.mem_cons_self
        simp only [Packet.frame, Frame.lists, hl] at hcopies hall
        cases hs with
        | nil => cases hcopies
        | cons x hs => exact hall (l, x) List.mem_cons_self hlkey
  simp only [Trace.track, hcall, received_eq hpkt]
  rw [hrec, hcarried, Trace.merged, if_pos hop]
  exact Trace.finished_mem hkey hmerged

omit [DecidableEq ι] [DecidableEq κ] in
/-- The histories recorded for a packet that is sent. -/
theorem getElem?_sent {ps : List (Packet κ)} (hnet : w'.net = w.net ++ ps)
    (hlen : g.net.length = w.net.length) (f : Packet κ → List (Finset ℕ)) {p : ℕ}
    (hp : w.net.length ≤ p) :
    (g.net ++ (Trace.sent w w').map f)[p]? = (w'.net[p]?).map f := by
  rw [sent_append hnet, hnet, List.getElem?_append_right (hlen ▸ hp), List.getElem?_append_right hp,
    List.getElem?_map, hlen]

/-- A step sends packets, and records histories for them only. -/
theorem step_sends (h : World.step D w a = some w') (g : Trace ι κ) :
    (∃ ps, w'.net = w.net ++ ps) ∧ ∃ hss, (Trace.track D w a w' g).net = g.net ++ hss := by
  have hshape := step_shape h g
  generalize Trace.track D w a w' g = g' at hshape
  cases hshape with
  | quiet => exact ⟨⟨_, rfl⟩, _, rfl⟩
  | clientFrame i p now k c dest frame _ hp _ hw =>
    rw [settle_eq_place] at hw; subst hw; exact ⟨⟨_, rfl⟩, _, rfl⟩
  | gossipFrame i p now dests frame _ hp hw =>
    rw [settle_eq_place] at hw; subst hw; exact ⟨⟨_, rfl⟩, _, rfl⟩
  | create k name uid now pick ep _ hc hu hw => subst hw; exact ⟨⟨_, rfl⟩, _, rfl⟩
  | get k listUid now pick ep _ hc hw => subst hw; exact ⟨⟨_, rfl⟩, _, rfl⟩
  | edit _ k listUid op base lst now ep _ hc hb he hw =>
    refine ⟨by subst hw; exact ⟨_, rfl⟩, ?_⟩
    unfold Trace.edited
    split
    · exact ⟨_, rfl⟩
    · exact ⟨[], (List.append_nil _).symm⟩
  | delete k listUid now pick ep _ hc hw => subst hw; exact ⟨⟨_, rfl⟩, _, rfl⟩
  | batches k now pick batches _ hb hw => subst hw; exact ⟨⟨_, rfl⟩, _, rfl⟩
  | refresh k now pick ep _ hw => subst hw; exact ⟨⟨_, rfl⟩, _, rfl⟩
  | finish _ k call pending reply hs hc _ =>
    obtain ⟨c', hw, -⟩ := (finish_ends w k pending reply).setClient
    rw [hw]
    refine ⟨⟨[], (List.append_nil _).symm⟩, [], ?_⟩
    rw [List.append_nil]
    unfold Trace.finished
    split <;> rfl
  | refreshed => exact ⟨⟨[], (List.append_nil _).symm⟩, [], (List.append_nil _).symm⟩

/-- What a packet carries it carries for good. -/
theorem CarriesUpdate.step {p : ℕ} (hc : CarriesUpdate key n p (w, g))
    (h : World.step D w a = some w') : CarriesUpdate key n p (w', Trace.track D w a w' g) := by
  obtain ⟨⟨ps, hps⟩, hss, hhss⟩ := step_sends h g
  obtain ⟨pkt, hpkt, hs, hhs, hall⟩ := hc
  rw [Option.mem_def] at hpkt hhs
  refine ⟨pkt, ?_, hs, ?_, hall⟩
  · rw [Option.mem_def]
    dsimp only
    rw [hps, List.getElem?_append_left (List.getElem?_eq_some_iff.1 hpkt).1]; exact hpkt
  · rw [Option.mem_def]
    dsimp only
    rw [hhss, List.getElem?_append_left (List.getElem?_eq_some_iff.1 hhs).1]; exact hhs

omit [DecidableEq ι] [DecidableEq κ] in
/-- A packet that is sent with an update in every copy of the list. -/
theorem CarriesUpdate.new {g' : Trace ι κ} {ps : List (Packet κ)} (hnet : w'.net = w.net ++ ps)
    (hlen : g.net.length = w.net.length) {f : Packet κ → List (Finset ℕ)}
    (hg : g'.net = g.net ++ (Trace.sent w w').map f) {p : ℕ} (hp : w.net.length ≤ p)
    {pkt : Packet κ} (hpkt : w'.net[p]? = some pkt)
    (hall : ∀ lh ∈ pkt.frame.lists.zip (f pkt), lh.1.key = key → n ∈ lh.2) :
    CarriesUpdate key n p (w', g') := by
  refine ⟨pkt, hpkt, f pkt, ?_, hall⟩
  rw [Option.mem_def]
  dsimp only
  rw [hg, getElem?_sent hnet hlen f hp, hpkt]
  rfl

/-- Lists that all reflect what `f` says. -/
theorem zip_map_all {ls : List ShoppingList} {f : ShoppingList → Finset ℕ}
    (h : ∀ l ∈ ls, l.key = key → n ∈ f l) :
    ∀ lh ∈ ls.zip (ls.map f), lh.1.key = key → n ∈ lh.2 := by
  induction ls with
  | nil => intro lh hlh; cases hlh
  | cons l ls ih =>
    rw [List.forall_mem_cons] at h
    intro lh hlh
    rcases List.mem_cons.1 (show lh ∈ (l, f l) :: ls.zip (ls.map f) from hlh) with rfl | hlh
    · exact h.1
    · exact ih h.2 lh hlh

omit [DecidableEq κ] in
/-- A node's gossip, and its answer to a `GET_LIST`, carry what it stores. -/
theorem handled_sends {i : ι} {H : Histories} {echo : Finset ℕ} {ps : List (Packet κ)}
    (hnet : w'.net = w.net ++ ps) (hlen : g.net.length = w.net.length) (hn : n ∈ H key) {p : ℕ}
    (hp : w.net.length ≤ p) {pkt : Packet κ} (hpkt : w'.net[p]? = some pkt)
    (hecho : (∃ k c frame, pkt = .reply k c frame) → n ∈ echo) :
    CarriesUpdate key n p (w', g.handled w w' i H echo) := by
  refine CarriesUpdate.new hnet hlen rfl hp hpkt ?_
  cases pkt with
  | reply k c frame => exact zip_map_all fun l _ _ => hecho ⟨k, c, frame, rfl⟩
  | request k c dest frame => exact zip_map_all fun l _ hk => hk ▸ hn
  | gossip dests frame => exact zip_map_all fun l _ hk => hk ▸ hn
  | discovery dests frame => exact zip_map_all fun l _ hk => hk ▸ hn

omit [DecidableEq ι] in
/-- A client's update carries what its stored copy has. -/
theorem edited_sends (hr : Reflected IsCopy w g) (hm : Matched D w) {k : κ} {listUid : Str} {op : Op}
    {base lst : ShoppingList} {now : UInt64} {ep : Str}
    (hb : (w.client k).api.db.rows.lookup (cstr listUid) = some base)
    (he : op.apply (w.client k).api.origin base = .ok lst) (hn : n ∈ g.client k key)
    (hw : w' = w.sendRequest k (w.client k).api ep
      (Message.ensureList (w.client k).api.origin now lst) (.edit lst)) {p : ℕ}
    (hp : w.net.length ≤ p) {pkt : Packet κ} (hpkt : w'.net[p]? = some pkt) :
    CarriesUpdate key n p (w', g.edited D w w' k listUid op) := by
  have hlkey : lst.key = cstr listUid := by
    rw [ShoppingList.key, (Op.apply_names he).1]
    exact hm.clientKey k _ _ hb
  have hread : (w.client k).api.db.read listUid .ok = some base := hb
  have hself : (w'.client k).call = some ((w.client k).calls, .edit lst) := by
    rw [hw, World.sendRequest]; dsimp only; rw [Function.update_self]
  simp only [Trace.edited, hread, hself]
  subst hw
  refine CarriesUpdate.new rfl hr.net.length_eq.symm rfl hp hpkt ?_
  rw [World.sendRequest] at hpkt
  dsimp only at hpkt
  rw [List.getElem?_append_right hp] at hpkt
  obtain rfl := List.mem_singleton.1 (List.mem_of_getElem? hpkt)
  refine zip_map_all ?_
  intro l hl hk
  obtain rfl := List.mem_singleton.1 hl
  rw [hlkey] at hk
  rw [hk]
  exact Finset.mem_insert_of_mem hn

/-- **What a replica passes on carries the updates it has.** -/
theorem passes_on (hr : Reflected IsCopy w g) (hm : Matched D w) {r : ι ⊕ κ}
    (hn : n ∈ g.history r key) (hk : KeepsList D key r w a) (hact : a.actor = r)
    (h : World.step D w a = some w') {p : ℕ} (hp : w.net.length ≤ p) {pkt : Packet κ}
    (hpkt : w'.net[p]? = some pkt) (hshow : ShowsList D key w a pkt) :
    CarriesUpdate key n p (w', Trace.track D w a w' g) := by
  have hlen := hr.net.length_eq.symm
  obtain ⟨⟨ps, hps⟩, -⟩ := step_sends h g
  subst hact
  cases a with
  | clientFrame i q now =>
    have hkeep : n ∈ (Trace.track D w (.clientFrame i q now) w' g).node i key := node_keeps h hk hn
    simp only [Trace.track] at hkeep ⊢
    rw [show (g.handled w w' i _ _).node i = _ from Function.update_self i _ g.node] at hkeep
    refine handled_sends hps hlen hkeep hp hpkt ?_
    rintro ⟨k, c, frame, rfl⟩
    rcases hshow with ⟨dests, frame', h'⟩ | ⟨m, hrec, hop, l, hl, rfl⟩
    · cases h'
    · rw [Option.mem_def] at hrec
      obtain ⟨ls, hls⟩ : ∃ ls, m.lists = l :: ls := by
        cases hm : m.lists with
        | nil => rw [hm] at hl; cases hl
        | cons l' ls => rw [hm] at hl; cases hl; exact ⟨ls, rfl⟩
      rw [hrec, Trace.replied_get hop hls]
      exact hn
  | stateTimer i now =>
    refine handled_sends hps hlen hn hp hpkt ?_
    rintro ⟨k, c, frame, rfl⟩
    exfalso
    cases step_moves h with
    | begin _ _ _ _ _ _ _ _ _ hb => cases hb
    | stateTimer _ _ hrun =>
      rw [settle_eq_place, World.place, List.getElem?_append_right hp] at hpkt
      obtain ⟨s, -, hs⟩ := List.mem_filterMap.1 (List.mem_of_getElem? hpkt)
      cases s <;> cases hs
  | gossipState k now pick =>
    exact CarriesUpdate.new hps hlen rfl hp hpkt (zip_map_all fun l _ hk => hk ▸ hn)
  | addItem k listUid itemName desired current itemUid clock now pick =>
    cases step_moves h with
    | begin _ _ _ _ _ _ _ _ _ hb =>
      cases hb with
      | add _ _ _ _ _ _ _ _ lst hu he =>
        unfold API.addItem at he
        split at he
        · cases he
        · rename_i base hbase
          have he : (Op.add itemUid itemName desired current (ORSet.genTag clock)).apply
            (w.client k).api.origin base = .ok lst := he
          exact edited_sends hr hm hbase he hn rfl hp hpkt
  | updateItem k listUid itemUid itemName desired current clock now pick =>
    cases step_moves h with
    | begin _ _ _ _ _ _ _ _ _ hb =>
      cases hb with
      | update _ _ _ _ _ _ _ _ lst he =>
        unfold API.updateItem at he
        split at he
        · cases he
        · rename_i base hbase
          have he : (Op.update itemUid itemName desired current (ORSet.genTag clock)).apply
            (w.client k).api.origin base = .ok lst := he
          exact edited_sends hr hm hbase he hn rfl hp hpkt
  | removeItem k listUid itemUid now pick =>
    cases step_moves h with
    | begin _ _ _ _ _ _ _ _ _ hb =>
      cases hb with
      | remove _ _ _ _ lst he =>
        unfold API.removeItem at he
        split at he
        · cases he
        · rename_i base hbase
          have he : (Op.remove itemUid).apply
            (w.client k).api.origin base = .ok lst := he
          exact edited_sends hr hm hbase he hn rfl hp hpkt
  | _ => exact hshow.elim

/-! ### The rumour -/

/-- What holds in every reachable state, deletions or not. -/
structure Sound (D : Deployment ι κ) (s : Traced ι κ) : Prop where
  matched : Matched D s.1
  reflected : Reflected IsCopy s.1 s.2
  covers : AllCover s.1 s.2

omit [DecidableEq ι] [DecidableEq κ] in
theorem Sound.init (D : Deployment ι κ) : Sound D (Traced.init D) where
  matched := Matched.init D
  reflected := Reflected.init IsCopy D
  covers _ := Covers.idle rfl _ _

theorem Sound.step {s s' : Traced ι κ} (hs : Sound D s) (h : Traced.step D s a = some s') :
    Sound D s' := by
  obtain ⟨h1, h2⟩ := traced_eq_some h
  refine ⟨hs.matched.step h1, ?_, ?_⟩
  · rw [h2]; exact hs.reflected.next hs.matched h1
  · rw [h2]; exact hs.covers.step hs.matched h1

/-- Every reachable state with its history is sound. -/
theorem sound {P : Traced ι κ → Action ι κ → Prop} {s : Traced ι κ}
    (hrun : Run (Traced.step D) P (Traced.init D) s) : Sound D s :=
  hrun.inv (Sound.init D) fun _ _ _ hI _ h => hI.step h

/-- **An update is a rumour**: a replica keeps it until it deletes the list, and every replica
that merges what another passes on gets it. -/
theorem update_rumour (D : Deployment ι κ) (key : Str) (n : ℕ) :
    Rumour (listChannel D key) (Sound D) (KnowsUpdate key n) (CarriesUpdate key n) where
  inv hI h := hI.step h
  kept := by
    rintro ⟨w, g⟩ a ⟨w', g'⟩ r hI hk hkeep h
    obtain ⟨h1, h2⟩ := traced_eq_some h
    dsimp only at h1 h2
    subst h2
    cases r with
    | inl i => exact node_keeps h1 hkeep hk
    | inr k => exact client_keeps hI.covers hkeep hk
  sent := by
    rintro ⟨w, g⟩ a ⟨w', g'⟩ r p hI hk hkeep ⟨hact, hp, pkt, hpkt, hshow⟩ h
    obtain ⟨h1, h2⟩ := traced_eq_some h
    dsimp only at h1 h2
    subst h2
    exact passes_on hI.reflected hI.matched hk hkeep hact h1 hp hpkt hshow
  carried := by
    rintro ⟨w, g⟩ a ⟨w', g'⟩ p hI hc h
    obtain ⟨h1, h2⟩ := traced_eq_some h
    dsimp only at h1 h2
    subst h2
    exact hc.step h1
  learned := by
    rintro ⟨w, g⟩ a ⟨w', g'⟩ r p hI hc ⟨hp, hd⟩ h
    obtain ⟨h1, h2⟩ := traced_eq_some h
    dsimp only at h1 h2
    subst h2
    cases r with
    | inl i => exact node_learns hI.reflected hI.matched h1 hp hd hc
    | inr k =>
      obtain ⟨rfl, ⟨call, hcall, hkey⟩, m, hrec, hop⟩ := hd
      exact client_learns hI.reflected hI.matched h1 hcall hkey hrec hop hc

end Shopping
