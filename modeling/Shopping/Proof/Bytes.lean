import Shopping.Proof.NodeBytes
import Shopping.Proof.Copies

/-!
# The system on bytes refines the system

`Proof/NodeBytes.lean` for the clients and for whole runs. Every step of the system on bytes to a
state within the limits (`World.Small`: SQLite's for the blobs, `2^32` bytes for the frames) is a
step of the system of `System/World.lean`, by the same action, to a state that the one on bytes
stands for (`World.Stands.step`). So every run is one of that system (`bytes_refine`), and what
holds in all its runs holds on bytes, of lists that are alike.

Merges and edits do not depend on the order of the entries because the lists of a run are well
formed: a merge that throws would leave what it has merged so far.
-/

namespace Shopping.Wire

open Lib Lib.Msgpack

/-! ### Clients -/

namespace Api

/-- The client on bytes stands for the client. -/
structure Stands (a : Api) (b : API) : Prop where
  base : b = { a.base with db := b.db }
  store : a.store.Stands b.db

variable {a : Api} {b : API} {l r : ShoppingList} {uid : Str}

/-- A UID is free in the blobs iff it is free in the rows. -/
theorem Stands.isNewUid (h : a.Stands b) (hu : a.IsNewUid uid) : b.IsNewUid uid := by
  obtain ⟨hlen, hchars, hfree⟩ := hu
  obtain ⟨found, hread, hrel⟩ := h.store.read uid
  rw [hread] at hfree
  refine ⟨hlen, hchars, ?_⟩
  generalize b.db.read uid .ok = row at hrel ⊢
  cases hrel with
  | none => rfl
  | some _ => cases hfree

/-- An edit that returns is one of a stored list. -/
theorem Stands.edit (h : a.Stands b) {change : ShoppingList → Except Exn ShoppingList}
    (he : a.edit uid change = .ok r) :
    ∃ l l', b.db.read uid .ok = some l' ∧ l.Alike l' ∧ change l = .ok r := by
  obtain ⟨found, hread, hrel⟩ := h.store.read uid
  unfold Api.edit at he
  rw [hread] at he
  generalize b.db.read uid .ok = row at hrel ⊢
  cases hrel with
  | none => cases he
  | @some l l' hal => exact ⟨l, l', rfl, hal, he⟩

variable {itemUid itemName tag : Str} {desired current : Int32}

/-- An item added on both levels, under one tag. -/
theorem Stands.addItem (h : a.Stands b)
    (he : a.addItem uid itemName desired current itemUid tag = .ok r) :
    ∃ r', b.addItem uid itemName desired current itemUid tag .ok = .ok r' ∧ r.Alike r' := by
  obtain ⟨l, l', hread, hal, hadd⟩ := h.edit he
  obtain ⟨r', hr', hr⟩ := hal.add (.refl _) hadd
  refine ⟨r', ?_, hr⟩
  have horigin : b.origin = a.base.origin := by rw [h.base]
  rw [API.addItem, hread, horigin]
  exact hr'

/-- `updateItem` goes through `getItem`, so the stored list is to be well formed. -/
theorem Stands.updateItem (h : a.Stands b) (hwf : ∀ l, b.db.read uid .ok = some l → l.WF)
    (he : a.updateItem uid itemUid itemName desired current tag = .ok r) :
    ∃ r', b.updateItem uid itemUid itemName desired current tag .ok = .ok r' ∧ r.Alike r' := by
  obtain ⟨l, l', hread, hal, hedit⟩ := h.edit he
  obtain ⟨r', hr', hr⟩ := API.editItem_alike hal (hwf l' hread) hedit
  refine ⟨r', ?_, hr⟩
  have horigin : b.origin = a.base.origin := by rw [h.base]
  rw [API.updateItem, hread, horigin]
  exact hr'

/-- `removeItem` goes through `getItem`, too. -/
theorem Stands.removeItem (h : a.Stands b) (hwf : ∀ l, b.db.read uid .ok = some l → l.WF)
    (he : a.removeItem uid itemUid = .ok r) :
    ∃ r', b.removeItem uid itemUid .ok = .ok r' ∧ r.Alike r' := by
  obtain ⟨l, l', hread, hal, hdrop⟩ := h.edit he
  obtain ⟨r', hr', hr⟩ := API.dropItem_alike hal (hwf l' hread) hdrop
  refine ⟨r', ?_, hr⟩
  rw [API.removeItem, hread]
  exact hr'

end Api

section Ends

variable {a b : API} {lst lst' : ShoppingList} {reply reply' : Option Message}

/-- Both calls fail, or both return lists that are alike, which they have stored. -/
def DoneAlike (b : API) :
    Except Exn (ShoppingList × API) → Except Exn (ShoppingList × API) → Prop
  | .ok x, .ok y => x.1.Alike y.1 ∧ y.2 = b.stored y.1 .ok
  | .error _, .error _ => True
  | _, _ => False

/-- The merge at the end of an edit returns on the one side as on the other. -/
theorem finishEdit_alike (hl : lst.Alike lst') (hr : Option.Rel Message.Alike reply reply')
    (hmerge : ∀ l', API.cloudList reply' = some l' → ∃ r, lst'.merge l' = .ok r) :
    DoneAlike b (a.finishEdit lst reply .ok) (b.finishEdit lst' reply' .ok) := by
  cases hr with
  | none => exact ⟨hl, rfl⟩
  | @some m m' hal =>
    unfold API.finishEdit
    dsimp only
    rw [hal.op]
    by_cases hop : m'.op = .listResponse
    · rw [if_pos hop, if_pos hop]
      have hlists := hal.lists
      cases hm : m.lists with
      | nil =>
        rw [hm] at hlists
        rw [List.forall₂_nil_left_iff.1 hlists]
        trivial
      | cons c cs =>
        rw [hm] at hlists
        obtain ⟨c', cs', hc, -, hm'⟩ := List.forall₂_cons_left_iff.1 hlists
        obtain ⟨r', hr'⟩ := hmerge c' (API.cloudList_cons hop hm')
        obtain ⟨r, hr, hal'⟩ := hl.symm.merge_ok hc.symm hr'
        rw [hm']
        dsimp only
        rw [hr, hr']
        exact ⟨hal'.symm, rfl⟩
    · rw [if_neg hop, if_neg hop]
      exact ⟨hl, rfl⟩

/-- The list that was stored is merged with the one replied, or one of them is taken. -/
theorem finishGet_alike {found found' : Option ShoppingList}
    (hf : Option.Rel ShoppingList.Alike found found') (hr : Option.Rel Message.Alike reply reply') :
    DoneAlike b (a.finishGet found reply .ok) (b.finishGet found' reply' .ok) := by
  have hnone : DoneAlike b (a.finishGet found none .ok) (b.finishGet found' none .ok) := by
    cases hf with
    | none => trivial
    | some hmine => exact ⟨hmine, rfl⟩
  cases hr with
  | none => exact hnone
  | @some m m' hal =>
    unfold API.finishGet at hnone ⊢
    dsimp only at hnone ⊢
    rw [hal.op]
    by_cases hop : m'.op = .listResponse
    · rw [if_pos hop, if_pos hop]
      have hlists := hal.lists
      generalize m.lists = ls, m'.lists = ls' at hlists ⊢
      cases hlists with
      | nil => trivial
      | @cons c c' cs cs' hc _ =>
        cases hf with
        | none => exact ⟨hc, rfl⟩
        | @some mine mine' hmine =>
          have hmerge := hmine.merge hc
          dsimp only
          generalize mine.merge c = r, mine'.merge c' = r' at hmerge ⊢
          cases r with
          | ok merged =>
            cases r' with
            | ok merged' => exact ⟨hmerge, rfl⟩
            | error x => exact hmerge.elim
          | error x =>
            cases r' with
            | ok merged' => exact hmerge.elim
            | error x' => trivial
    · rw [if_neg hop, if_neg hop]
      exact hnone

end Ends

/-- **The batches have the same keys in the same order**, and lists that are alike. -/
theorem gossipBatches_alike {pf : Platform} {a b : API} {ls ls' : List ShoppingList}
    (hshard : ∀ uid, a.shardOf pf uid = b.shardOf pf uid)
    (h : List.Forall₂ ShoppingList.Alike ls ls') :
    UMap.Rows (List.Forall₂ ShoppingList.Alike) (a.gossipBatches pf ls) (b.gossipBatches pf ls') := by
  have key : ∀ m m' : UMap Int32 (List ShoppingList),
      UMap.Rows (List.Forall₂ ShoppingList.Alike) m m' →
      UMap.Rows (List.Forall₂ ShoppingList.Alike)
        (ls.foldl (fun m l => m.insert (a.shardOf pf l.getUid)
          ((m.lookup (a.shardOf pf l.getUid)).getD [] ++ [l])) m)
        (ls'.foldl (fun m l => m.insert (b.shardOf pf l.getUid)
          ((m.lookup (b.shardOf pf l.getUid)).getD [] ++ [l])) m') := by
    induction h with
    | nil => exact fun m m' hm => hm
    | @cons l l' ls ls' hl _ ih =>
      intro m m' hm
      have huid : a.shardOf pf l.getUid = b.shardOf pf l'.getUid :=
        (hshard l.getUid).trans (congrArg _ hl.uid)
      rw [List.foldl_cons, List.foldl_cons, huid]
      refine ih _ _ (hm.insert _ (List.rel_append ?_ (.cons hl .nil)))
      have hrow := hm.lookup (b.shardOf pf l'.getUid)
      generalize m.lookup (b.shardOf pf l'.getUid) = x,
        m'.lookup (b.shardOf pf l'.getUid) = y at hrow ⊢
      cases hrow with
      | none => exact .nil
      | some hrow => exact hrow
  exact key _ _ .empty

theorem mapM_forall₂ {α β γ δ : Type*} {R : α → β → Prop} {S : γ → δ → Prop} {f : α → Option γ}
    {g : β → Option δ} (hfg : ∀ x y u, R x y → f x = some u → ∃ u', g y = some u' ∧ S u u')
    {xs : List α} {ys : List β} (h : List.Forall₂ R xs ys) : ∀ {us : List γ}, xs.mapM f = some us →
      ∃ us', ys.mapM g = some us' ∧ List.Forall₂ S us us' := by
  induction h with
  | nil => intro us hus; cases hus; exact ⟨[], rfl, .nil⟩
  | cons hxy _ ih =>
    intro us hus
    rw [List.mapM_cons] at hus
    simp only [bind, Option.bind_eq_some_iff] at hus
    obtain ⟨u, hu, us1, hus1, hus⟩ := hus
    cases hus
    obtain ⟨u', hu', hS⟩ := hfg _ _ u hxy hu
    obtain ⟨us', hus', hSs⟩ := ih hus1
    exact ⟨u' :: us', by rw [List.mapM_cons, hu', hus']; rfl, .cons hS hSs⟩

/-- The requests go to the same endpoints with messages that are alike. -/
theorem Api.Stands.gossipState {a : Api} {b : API} (h : a.Stands b) {pf : Platform} {now : UInt64}
    {pick : Int32 → ℕ} {batches : List (Str × Message)}
    (hb : a.gossipState pf now pick = some batches) :
    ∃ batches', b.gossipState pf now pick .ok = some batches' ∧
      List.Forall₂ (fun x y => x.1 = y.1 ∧ x.2.Alike y.2) batches batches' := by
  obtain ⟨lists, hread, hlists⟩ := h.store.readAll
  have horigin : b.origin = a.base.origin := by rw [h.base]
  have hshard : ∀ uid, a.base.shardOf pf uid = b.shardOf pf uid := by intro uid; rw [h.base]; rfl
  have hpick : ∀ uid n, b.getShardEndpoint pf uid n = a.base.getShardEndpoint pf uid n := by
    intro uid n; rw [h.base]; rfl
  unfold Api.gossipState at hb
  rw [hread] at hb
  refine mapM_forall₂ (fun x y u hxy hu => ?_) (gossipBatches_alike hshard hlists) hb
  obtain ⟨hkey, hbatch⟩ := hxy
  simp only [bind, Option.bind_eq_some_iff] at hu
  obtain ⟨first, hfirst, ep, hep, hu⟩ := hu
  cases hu
  cases hx : x.2 with
  | nil => rw [hx] at hfirst; cases hfirst
  | cons l ls =>
    rw [hx] at hfirst hbatch
    cases hfirst
    obtain ⟨l', ls', hl, hls, hy⟩ := List.forall₂_cons_left_iff.1 hbatch
    refine ⟨(ep, Message.gossipLists b.origin now y.2), ?_, rfl, ⟨rfl, horigin.symm, rfl, ?_, rfl⟩⟩
    · have huid : l'.getUid = first.getUid := hl.uid.symm
      rw [hy]
      simp only [List.head?_cons, bind, Option.bind_some, huid, hpick, ← hkey, hep]
      rfl
    · rw [hy]; exact .cons hl hls

/-! ### The system -/

/-- What is left to do is the same, with lists that are alike. -/
inductive PendingIs : Pending → Pending → Prop
  | create : PendingIs .create .create
  | edit {l l' : ShoppingList} (h : l.Alike l') : PendingIs (.edit l) (.edit l')
  | get (uid : Str) {found found' : Option ShoppingList}
      (h : Option.Rel ShoppingList.Alike found found') : PendingIs (.get uid found) (.get uid found')
  | delete : PendingIs .delete .delete

variable {ι κ : Type*}

def Packet.frame : Packet κ → Bytes
  | request _ _ _ frame => frame
  | reply _ _ frame => frame
  | gossip _ frame => frame
  | discovery _ frame => frame

/-- The packet on bytes reads as the packet. -/
inductive PacketIs : Packet κ → Shopping.Packet κ → Prop
  | request (k : κ) (call : ℕ) (dest : Str) {bytes : Bytes} {frame : Frame} (h : FrameIs bytes frame) :
      PacketIs (.request k call dest bytes) (.request k call dest frame)
  | reply (k : κ) (call : ℕ) {bytes : Bytes} {frame : Frame} (h : FrameIs bytes frame) :
      PacketIs (.reply k call bytes) (.reply k call frame)
  | gossip (dests : List Str) {bytes : Bytes} {frame : Frame} (h : FrameIs bytes frame) :
      PacketIs (.gossip dests bytes) (.gossip dests frame)
  | discovery (dests : List Str) {bytes : Bytes} {frame : Frame} (h : FrameIs bytes frame) :
      PacketIs (.discovery dests bytes) (.discovery dests frame)

structure ClientState.Stands (c : ClientState) (c' : Shopping.ClientState) : Prop where
  api : c.api.Stands c'.api
  call : Option.Rel (fun x y => x.1 = y.1 ∧ PendingIs x.2 y.2) c.call c'.call
  refresh : c'.refresh = c.refresh
  calls : c'.calls = c.calls

namespace World

/-- The system on bytes stands for the system. -/
structure Stands (w : World ι κ) (v : Shopping.World ι κ) : Prop where
  node : ∀ i, (w.node i).node.Stands (v.node i).node
  running : ∀ i, (v.node i).running = (w.node i).running
  client : ∀ k, (w.client k).Stands (v.client k)
  net : List.Forall₂ PacketIs w.net v.net
  sent : ∀ i, (w.node i).node.sent = []

/-- All blobs bound and all frames sent are within the limits. -/
structure Small (w : World ι κ) : Prop where
  node : ∀ i, (w.node i).node.store.Small
  client : ∀ k, (w.client k).api.store.Small
  net : ∀ pkt ∈ w.net, pkt.frame.length < 2 ^ 32

theorem Stands.init (D : Deployment ι κ) : (init D).Stands (Shopping.World.init D) where
  node _ := ⟨rfl, .empty, .nil⟩
  running _ := rfl
  client _ := ⟨⟨rfl, .empty⟩, .none, rfl, rfl⟩
  net := .nil
  sent _ := rfl

/-- The packets of one step read as those of the other, by their position. -/
theorem Stands.packet {w : World ι κ} {v : Shopping.World ι κ} (h : w.Stands v) {p : ℕ}
    {pkt : Packet κ} (hp : w.net[p]? = some pkt) :
    ∃ pkt', v.net[p]? = some pkt' ∧ PacketIs pkt pkt' := by
  obtain ⟨hlt, rfl⟩ := List.getElem?_eq_some_iff.1 hp
  have hlt' : p < v.net.length := h.net.length_eq ▸ hlt
  exact ⟨v.net[p], List.getElem?_eq_getElem hlt', h.net.get hlt hlt'⟩

variable [DecidableEq ι] [DecidableEq κ] {w w' : World ι κ} {v : Shopping.World ι κ}

/-- Everything handed over becomes a packet: a reply answers a call. -/
def Answers (call : Option (κ × ℕ)) (n : Node) : Prop :=
  ∀ frame, Sent.reply frame ∈ n.sent → call.isSome = true

omit [DecidableEq κ] in
/-- The frames on the network are those the node has sent, but for replies to nobody. -/
theorem Small.placed {i : ι} {n : Node} {running : Bool} {call : Option (κ × ℕ)}
    (h : (w.place i n running call).Small) (hcall : Answers call n) : n.Small where
  store := by
    have := h.node i
    simp only [place, Function.update_self] at this
    exact this
  sent := by
    have hnet : ∀ pkt, pkt ∈ n.sent.filterMap (packet call) → pkt.frame.length < 2 ^ 32 :=
      fun pkt hp => h.net pkt (List.mem_append_right _ hp)
    intro s hs
    cases s with
    | reply frame =>
      obtain ⟨c, hc⟩ := Option.isSome_iff_exists.1 (hcall frame hs)
      exact hnet (.reply c.1 c.2 frame) (List.mem_filterMap.2 ⟨_, hs, by rw [hc]; rfl⟩)
    | gossip dests frame => exact hnet (.gossip dests frame) (List.mem_filterMap.2 ⟨_, hs, rfl⟩)
    | discovery dests frame =>
      exact hnet (.discovery dests frame) (List.mem_filterMap.2 ⟨_, hs, rfl⟩)

omit [DecidableEq ι] [DecidableEq κ] in
/-- What is sent goes on the network as it stands for. -/
theorem packets_alike {sent : List Sent} {sent' : List Shopping.Sent}
    (h : List.Forall₂ SentIs sent sent') (call : Option (κ × ℕ)) :
    List.Forall₂ PacketIs (sent.filterMap (packet call))
      (sent'.filterMap (Shopping.World.packet call)) := by
  induction h with
  | nil => exact .nil
  | cons hs _ ih =>
    cases hs with
    | reply hf =>
      cases call with
      | none => exact ih
      | some c => exact .cons (.reply c.1 c.2 hf) ih
    | gossip dests hf => exact .cons (.gossip dests hf) ih
    | discovery dests hf => exact .cons (.discovery dests hf) ih

omit [DecidableEq κ] in
/-- A node after a handler, with its frames on the network. -/
theorem Stands.place (h : w.Stands v) (i : ι) {n : Node} {m : Shopping.Node} (hn : n.Stands m)
    (running : Bool) (call : Option (κ × ℕ)) :
    (w.place i n running call).Stands (v.place i m running call) where
  node j := by
    simp only [World.place, Shopping.World.place, Function.update_apply]
    split
    · exact ⟨by rw [hn.peers]; rfl, hn.store, .nil⟩
    · exact h.node j
  running j := by
    simp only [World.place, Shopping.World.place, Function.update_apply]
    split
    · rfl
    · exact h.running j
  client := h.client
  net := List.rel_append h.net (packets_alike hn.sent call)
  sent j := by
    simp only [World.place, Function.update_apply]
    split
    · rfl
    · exact h.sent j

omit [DecidableEq κ] in
theorem Stands.settle (h : w.Stands v) (i : ι) (call : Option (κ × ℕ)) {r : Method Node}
    {r' : Method Shopping.Node} (hr : EndAlike Node.Stands r r') :
    (w.settle i call r).Stands (v.settle i call r') := by
  obtain ⟨hstate, hreturned⟩ := hr.state
  rw [settle_eq_place, ← hreturned]
  exact h.place i hstate _ call

omit [DecidableEq ι] in
/-- A client after an action, with its requests on the network. -/
theorem Stands.update (h : w.Stands v) (k : κ) {c : ClientState} {c' : Shopping.ClientState}
    (hc : c.Stands c') {ps : List (Packet κ)} {ps' : List (Shopping.Packet κ)}
    (hps : List.Forall₂ PacketIs ps ps') :
    Stands { w with client := Function.update w.client k c, net := w.net ++ ps }
      { v with client := Function.update v.client k c', net := v.net ++ ps' } where
  node := h.node
  running := h.running
  client j := by
    simp only [Function.update_apply]
    split
    · exact hc
    · exact h.client j
  net := List.rel_append h.net hps
  sent := h.sent

omit [DecidableEq ι] in
/-- A step of a client that sends nothing. -/
theorem Stands.setClient (h : w.Stands v) (k : κ) {c : ClientState} {c' : Shopping.ClientState}
    (hc : c.Stands c') : Stands { w with client := Function.update w.client k c }
      (v.setClient k c') := by
  have := h.update k hc (.nil : List.Forall₂ PacketIs [] [])
  rwa [List.append_nil, List.append_nil] at this

omit [DecidableEq ι] in
/-- **A call that begins an exchange**: the endpoint is drawn from the same table. -/
theorem Stands.exchange (h : w.Stands v) {D : Deployment ι κ} {f : Format} {k : κ} {api : Api}
    {api' : API} {uid : Str} {pick : ℕ} {m m' : Message} {pending pending' : Pending}
    (ha : api.Stands api') (hm : m.Alike m') (hp : PendingIs pending pending')
    (hw : World.exchange D f w k api uid pick m pending = some w') (hsmall : w'.Small) :
    ∃ v', Shopping.World.exchange D v k api' uid pick m' pending' = some v' ∧ w'.Stands v' := by
  obtain ⟨ep, hep, rfl⟩ := Option.map_eq_some_iff.1 hw
  have hep' : api'.getShardEndpoint (D.clientPf k) uid pick = some ep := by rw [ha.base]; exact hep
  have hc := h.client k
  have hframe := hsmall.net _ (List.mem_append_right _ (List.mem_singleton.2 rfl))
  have hnext : ClientState.Stands
      { w.client k with
        api, call := some ((w.client k).calls, pending), calls := (w.client k).calls + 1 }
      { v.client k with
        api := api', call := some ((v.client k).calls, pending'), calls := (v.client k).calls + 1 } :=
    ⟨ha, .some ⟨hc.calls.symm, hp⟩, hc.refresh, congrArg (· + 1) hc.calls⟩
  have hrequest : PacketIs (.request k (w.client k).calls ep (m.toZmq (f.frame 0)))
      (.request k (v.client k).calls ep (.packed m')) := by
    rw [hc.calls]
    exact .request k _ ep (.toZmq hm hframe)
  exact ⟨_, by rw [Shopping.World.exchange, hep']; rfl, h.update k hnext (.cons hrequest .nil)⟩

omit [DecidableEq ι] in
/-- An edit begins one if it did not throw. -/
theorem Stands.exchangeEdit (h : w.Stands v) {D : Deployment ι κ} {f : Format} {k : κ}
    {edited edited' : Except Exn ShoppingList} {now : UInt64} {pick : ℕ}
    (he : ∀ r, edited = .ok r → ∃ r', edited' = .ok r' ∧ r.Alike r')
    (hw : World.exchangeEdit D f w k edited now pick = some w') (hsmall : w'.Small) :
    ∃ v', Shopping.World.exchangeEdit D v k edited' now pick = some v' ∧ w'.Stands v' := by
  cases edited with
  | error e => cases hw
  | ok r =>
    obtain ⟨r', rfl, hr⟩ := he r rfl
    have ha := (h.client k).api
    have huid : r.getUid = r'.getUid := hr.uid
    have horigin : (v.client k).api.origin = (w.client k).api.base.origin := by rw [ha.base]
    have hw : World.exchange D f w k (w.client k).api r.getUid pick _ _ = some w' := hw
    rw [huid] at hw
    have hm : Message.Alike (Message.ensureList (w.client k).api.base.origin now r)
        (Message.ensureList (v.client k).api.origin now r') :=
      ⟨rfl, horigin.symm, rfl, .cons hr .nil, rfl⟩
    exact h.exchange ha hm (.edit hr) hw hsmall

omit [DecidableEq ι] in
/-- A refresh reads the entries of the reply, which are the same on both levels. -/
theorem Stands.refreshed (h : w.Stands v) (k : κ) {reply reply' : Option Message}
    (hr : Option.Rel Message.Alike reply reply') :
    (w.refreshed k reply).Stands (v.setClient k
      { v.client k with api := (v.client k).api.finishUpdateCloudNodes reply', refresh := none }) := by
  have hc := h.client k
  refine h.setClient k ⟨⟨?_, ?_⟩, hc.call, rfl, hc.calls⟩
  · have hbase := hc.api.base
    generalize (v.client k).api = b at hbase
    rw [hbase]
    cases hr with
    | none => rfl
    | @some m m' hal =>
      unfold API.finishUpdateCloudNodes
      dsimp only
      rw [hal.op, hal.nodes]
      split <;> rfl
  · rw [((v.client k).api.finishUpdateCloudNodes_keeps reply').1]
    exact hc.api.store

omit [DecidableEq ι] in
/-- What a call stores at its end stands for what it stores. -/
theorem Stands.done (h : w.Stands v) (f : Format) (k : κ) (r r' : Except Exn (ShoppingList × API)) :
    let done := match (w.client k).api.stored f r with
      | .ok api => { w with client := Function.update w.client k { w.client k with api, call := none } }
      | .error _ => { w with client := Function.update w.client k { w.client k with call := none } }
    let done' := match r' with
      | .ok (_, api) => v.setClient k { v.client k with api, call := none }
      | .error _ => v.setClient k { v.client k with call := none }
    DoneAlike (v.client k).api r r' → Small done → Stands done done' := by
  intro done done' hr hsmall
  have hc := h.client k
  cases r with
  | ok x =>
    cases r' with
    | ok y =>
      obtain ⟨hal, hy⟩ := hr
      have hstore := hsmall.client k
      simp only [done, Api.stored, Except.map, Function.update_self] at hstore
      have hlen := hstore _ (List.mem_append_right _ (List.mem_singleton.2 rfl))
      have hnext : ClientState.Stands
          { w.client k with
            api := { (w.client k).api with store := (w.client k).api.store.write (f.blob 0) x.1 }
            call := none }
          { v.client k with api := y.2, call := none } := by
        rw [hy]
        refine ⟨⟨?_, hc.api.store.write hal hlen⟩, .none, hc.refresh, hc.calls⟩
        have hbase := hc.api.base
        generalize (v.client k).api = b at hbase
        rw [hbase]
        rfl
      exact h.setClient k hnext
    | error e => exact hr.elim
  | error e =>
    cases r' with
    | ok y => exact hr.elim
    | error e' =>
      have hnext : ClientState.Stands { w.client k with call := none }
          { v.client k with call := none } := ⟨hc.api, .none, hc.refresh, hc.calls⟩
      exact h.setClient k hnext

omit [DecidableEq ι] in
/-- **The end of a call.** What is stored at the end was bound on the way. -/
theorem Stands.finish (h : w.Stands v) {f : Format} {k : κ} {pending pending' : Pending}
    (hp : PendingIs pending pending') {reply reply' : Option Message}
    (hr : Option.Rel Message.Alike reply reply')
    (hmerge : ∀ lst', pending' = .edit lst' → ∀ l', API.cloudList reply' = some l' →
      ∃ r, lst'.merge l' = .ok r)
    (hsmall : (w.finish f k pending reply).Small) :
    (w.finish f k pending reply).Stands (v.finish k pending' reply') := by
  have hc := h.client k
  have hidle : ClientState.Stands { w.client k with call := none } { v.client k with call := none } :=
    ⟨hc.api, .none, hc.refresh, hc.calls⟩
  cases hp with
  | create => exact h.setClient k hidle
  | delete => exact h.setClient k hidle
  | edit hal => exact h.done f k _ _ (finishEdit_alike hal hr (hmerge _ rfl)) hsmall
  | get uid hfound => exact h.done f k _ _ (finishGet_alike hfound hr) hsmall

omit [DecidableEq ι] in
/-- The requests of a `gossipState`, numbered alike. -/
theorem Stands.batches (h : w.Stands v) {f : Format} {k : κ} {batches batches' : List (Str × Message)}
    (hb : List.Forall₂ (fun x y => x.1 = y.1 ∧ x.2.Alike y.2) batches batches')
    (hsmall : Small { w with
      client := Function.update w.client k
        { w.client k with calls := (w.client k).calls + batches.length }
      net := w.net ++ gossipRequests f k (w.client k).calls batches }) :
    Stands { w with
        client := Function.update w.client k
          { w.client k with calls := (w.client k).calls + batches.length }
        net := w.net ++ gossipRequests f k (w.client k).calls batches }
      { v with
        client := Function.update v.client k
          { v.client k with calls := (v.client k).calls + batches'.length }
        net := v.net ++ Shopping.World.gossipRequests k (v.client k).calls batches' } := by
  have hc := h.client k
  have hnext : ClientState.Stands
      { w.client k with calls := (w.client k).calls + batches.length }
      { v.client k with calls := (v.client k).calls + batches'.length } :=
    ⟨hc.api, hc.call, hc.refresh, by rw [← hb.length_eq]; exact congrArg (· + _) hc.calls⟩
  refine h.update k hnext ?_
  have hpackets : ∀ pkt ∈ gossipRequests f k (w.client k).calls batches, pkt.frame.length < 2 ^ 32 :=
    fun pkt hpkt => hsmall.net pkt (List.mem_append_right _ hpkt)
  rw [gossipRequests, List.mapIdx_eq_zipIdx_map] at hpackets ⊢
  rw [Shopping.World.gossipRequests, List.mapIdx_eq_zipIdx_map, hc.calls]
  clear hsmall hnext
  generalize 0 = start at hpackets ⊢
  induction hb generalizing start with
  | nil => exact .nil
  | @cons x y xs ys hxy _ ih =>
    rw [List.zipIdx_cons, List.map_cons] at hpackets ⊢
    rw [List.zipIdx_cons, List.map_cons]
    obtain ⟨hep, hal⟩ := hxy
    have hframe := hpackets _ List.mem_cons_self
    refine .cons ?_ (ih (start + 1) fun pkt hpkt => hpackets pkt (List.mem_cons_of_mem _ hpkt))
    show PacketIs (.request k _ x.1 _) (.request k _ y.1 (.packed y.2))
    rw [← hep]
    exact .request k _ _ (.toZmq hal hframe)

omit [DecidableEq κ] in
theorem turn_eq_some {i : ι} {call : Option (κ × ℕ)} {r : Node → Method Node}
    (hw : w.turn i call r = some w') :
    (w.node i).running = true ∧ w' = w.settle i call (r (w.node i).node) := by
  unfold turn at hw
  split at hw
  · rename_i hrun; cases hw; exact ⟨hrun, rfl⟩
  · cases hw

omit [DecidableEq κ] in
/-- A turn of a running node that both systems take alike. -/
theorem Stands.turn (h : w.Stands v) {i : ι} {call : Option (κ × ℕ)} {r : Node → Method Node}
    {r' : Method Shopping.Node} (hw : w.turn i call r = some w') (hsmall : w'.Small)
    (hcall : Answers call (r (w.node i).node).state)
    (hr : (r (w.node i).node).state.Small → EndAlike Node.Stands (r (w.node i).node) r') :
    (v.node i).running = true ∧ w'.Stands (v.settle i call r') := by
  obtain ⟨hrun, rfl⟩ := turn_eq_some hw
  exact ⟨(h.running i).trans hrun, h.settle i call (hr (Small.placed hsmall hcall))⟩

omit [DecidableEq κ] in
theorem answers_gossip {n : Node} (hn : n.sent = []) (f : Format) (i : ℕ) (now : UInt64) :
    Answers (none : Option (κ × ℕ)) (n.performShardGossip f i now).state := by
  intro frame hmem
  unfold Node.performShardGossip at hmem
  split at hmem
  · rw [Throws.state, hn] at hmem; cases hmem
  · dsimp only [Throws.state] at hmem
    split at hmem
    · rw [hn] at hmem; cases hmem
    · rw [Node.send, hn, List.nil_append, List.mem_singleton] at hmem; cases hmem

/-- A method about the peers sends nothing. -/
theorem onPeers_sent (n : Node) (r : Method Shopping.Node) : (n.onPeers r).state.sent = n.sent := by
  cases r <;> rfl

omit [DecidableEq κ] in
theorem answers_nil {n : Node} (hn : n.sent = []) : Answers (none : Option (κ × ℕ)) n := by
  intro frame hmem
  rw [hn] at hmem
  cases hmem

omit [DecidableEq κ] in
theorem answers_timer {n : Node} (hn : n.sent = []) (f : Format) (evictNow gossipNow : UInt64) :
    Answers (none : Option (κ × ℕ)) (n.discoveryTimer f evictNow gossipNow).state := by
  refine Throws.state_bind (answers_nil ((onPeers_sent n _).trans hn)) fun n1 h1 frame hmem => ?_
  dsimp only [Throws.state] at hmem
  unfold Node.performDiscoveryGossip at hmem
  dsimp only at hmem
  split at hmem
  · exact h1 frame hmem
  · rcases List.mem_append.1 hmem with hmem | hmem
    · exact h1 frame hmem
    · cases List.mem_singleton.1 hmem

theorem handleGossipFrame_sent (f : Format) (n : Node) (frame : Bytes) :
    (n.handleGossipFrame f frame).state.sent = n.sent := by
  unfold Node.handleGossipFrame
  split
  · rfl
  · split
    · split <;> rfl
    · rfl

theorem handleDiscoveryFrame_sent (pf : Platform) (f : Format) (n : Node) (frame : Bytes) :
    (n.handleDiscoveryFrame pf f frame).state.sent = n.sent := by
  unfold Node.handleDiscoveryFrame
  split
  · rfl
  · split
    · rfl
    · exact onPeers_sent n _

variable {D : Deployment ι κ} {g : Trace ι κ} {f : Format}

omit [DecidableEq ι] [DecidableEq κ] in
/-- The list of a reply is a copy, as every list of a packet is. -/
theorem reply_wf (hr : Reflected IsCopy v g) (hm : Matched D v) {p : ℕ} {pkt : Shopping.Packet κ}
    (hp : v.net[p]? = some pkt) {l : ShoppingList}
    (hl : API.cloudList (pkt.frame.decode pf) = some l) : l.WF := by
  obtain ⟨m, hm', hl⟩ := Option.bind_eq_some_iff.1 hl
  have hmem : l ∈ m.lists := by
    split at hl
    · exact List.mem_of_head? hl
    · cases hl
  have hcopies := hr.carried hp
  rcases hm.frames _ (List.mem_of_getElem? hp) with hf | ⟨m', hf, -⟩
  · rw [hf, Frame.decode_wrongShard] at hm'; cases hm'
  · rw [hf] at hm' hcopies
    rw [Frame.decode_packed, Option.some.injEq] at hm'
    subst hm'
    obtain ⟨n, hn, rfl⟩ := List.getElem_of_mem hmem
    have hlen := hcopies.length_eq
    exact IsCopy.wf hr.logged (hcopies.get (hlen ▸ hn) hn)

omit [DecidableEq ι] [DecidableEq κ] in
/-- The client is as idle as the one it stands for. -/
theorem Stands.idle (h : w.Stands v) {k : κ} (hc : (w.client k).call.isNone = true) :
    (v.client k).call.isNone = true := by
  have hcall := (h.client k).call
  rw [Option.isNone_iff_eq_none.1 hc] at hcall
  generalize (v.client k).call = x at hcall ⊢
  cases hcall
  rfl

omit [DecidableEq ι] [DecidableEq κ] in
/-- What a client stores is a copy. -/
theorem stored_wf (hr : Reflected IsCopy v g) (k : κ) (uid : Str) (l : ShoppingList)
    (hl : (v.client k).api.db.read uid .ok = some l) : l.WF :=
  IsCopy.wf hr.logged ((hr.client k).row (cstr uid) l hl)

omit [DecidableEq ι] [DecidableEq κ] in
/-- What a client waits with for the reply to an edit is a copy. -/
theorem edited_wf (hr : Reflected IsCopy v g) {k : κ} {c : ℕ} {lst : ShoppingList}
    (hc : (v.client k).call = some (c, .edit lst)) : lst.WF :=
  IsCopy.wf hr.logged (hr.edit _ _ _ hc)

/-- What the system on bytes does by the action within the limits, the system does too. -/
def Follows (D : Deployment ι κ) (f : Format) (w : World ι κ) (v : Shopping.World ι κ)
    (a : Action ι κ) : Prop :=
  ∀ w', World.step D w (a, f) = some w' → w'.Small →
    ∃ v', Shopping.World.step D v a = some v' ∧ w'.Stands v'

/-- A node starts over the database that it left. -/
theorem Stands.start (h : w.Stands v) (i : ι) (now : UInt64) :
    Follows D f w v (.start i now) := by
  intro w' hw _
  simp only [World.step] at hw
  split at hw
  · cases hw
  · rename_i hrun
    cases hw
    have hnode : Node.Stands
        { peers := Shopping.Node.new (D.cfg i) {} now, store := (w.node i).node.store }
        (Shopping.Node.new (D.cfg i) (v.node i).node.db now) := ⟨rfl, (h.node i).store, .nil⟩
    refine ⟨_, ?_, h.settle i none (Node.enterLoop_stands hnode (D.pf i) now)⟩
    rw [Shopping.World.step, if_neg (by rw [h.running]; exact hrun)]

/-- A node that stops keeps its store. -/
theorem Stands.stop (h : w.Stands v) (i : ι) : Follows D f w v (.stop i) := by
  intro w' hw _
  cases hw
  exact ⟨_, rfl, h.place i (h.node i) false none⟩

/-- A frame reads as the packet it stands for, whatever orders it was packed in. -/
theorem Stands.clientFrame (h : w.Stands v) (i : ι) (p : ℕ) (now : ℕ → UInt64) :
    Follows D f w v (.clientFrame i p now) := by
  intro w' hw hsmall
  simp only [World.step] at hw
  split at hw
  · rename_i k c dest frame hp
    split at hw
    · rename_i hdest
      obtain ⟨pkt', hp', his⟩ := h.packet hp
      cases his with
      | request _ _ _ hframe =>
        obtain ⟨hrun, hstands⟩ := h.turn hw hsmall (fun _ _ => rfl)
          (Node.handleClientFrame_stands (h.node i) hframe (D.pf i))
        refine ⟨_, ?_, hstands⟩
        simp only [Shopping.World.step, hp', (h.node i).cfg]
        rw [if_pos ⟨hrun, hdest⟩]
    · cases hw
  · cases hw

/-- One of the frames in which a peer passed its lists on. -/
theorem Stands.gossipFrame (h : w.Stands v) (i : ι) (p : ℕ) (now : ℕ → UInt64) :
    Follows D f w v (.gossipFrame i p now) := by
  intro w' hw hsmall
  simp only [World.step] at hw
  split at hw
  · rename_i dests frame hp
    split at hw
    · rename_i hdest
      obtain ⟨pkt', hp', his⟩ := h.packet hp
      cases his with
      | gossip _ hframe =>
        obtain ⟨hrun, hstands⟩ := h.turn hw hsmall
          (answers_nil ((handleGossipFrame_sent f _ frame).trans (h.sent i)))
          (Node.handleGossipFrame_stands (h.node i) hframe (D.pf i) now)
        refine ⟨_, ?_, hstands⟩
        simp only [Shopping.World.step, hp', (h.node i).cfg]
        rw [if_pos ⟨hrun, hdest⟩]
    · cases hw
  · cases hw

theorem Stands.discoveryFrame (h : w.Stands v) (i : ι) (p : ℕ) :
    Follows D f w v (.discoveryFrame i p) := by
  intro w' hw hsmall
  simp only [World.step] at hw
  split at hw
  · rename_i dests frame hp
    split at hw
    · rename_i hdest
      obtain ⟨pkt', hp', his⟩ := h.packet hp
      cases his with
      | discovery _ hframe =>
        obtain ⟨hrun, hstands⟩ := h.turn hw hsmall
          (answers_nil ((handleDiscoveryFrame_sent (D.pf i) f _ frame).trans (h.sent i)))
          fun _ => Node.handleDiscoveryFrame_stands (h.node i) hframe (D.pf i)
        refine ⟨_, ?_, hstands⟩
        simp only [Shopping.World.step, hp', (h.node i).cfg]
        rw [if_pos ⟨hrun, hdest⟩]
    · cases hw
  · cases hw

/-- The state timer gossips once. -/
theorem Stands.stateTimer (h : w.Stands v) (i : ι) (now : UInt64) :
    Follows D f w v (.stateTimer i now) := by
  intro w' hw hsmall
  obtain ⟨hrun, hstands⟩ := h.turn hw hsmall (answers_gossip (h.sent i) f 0 now)
    (Node.performShardGossip_stands (h.node i))
  exact ⟨_, by rw [Shopping.World.step, if_pos hrun]; rfl, hstands⟩

theorem Stands.discoveryTimer (h : w.Stands v) (i : ι) (evictNow gossipNow : UInt64) :
    Follows D f w v (.discoveryTimer i evictNow gossipNow) := by
  intro w' hw hsmall
  obtain ⟨hrun, hstands⟩ := h.turn hw hsmall (answers_timer (h.sent i) f evictNow gossipNow)
    (Node.discoveryTimer_stands (h.node i) (D.pf i))
  exact ⟨_, by rw [Shopping.World.step, if_pos hrun], hstands⟩

/-- The new list is bound and sent: both are within the limits. -/
theorem Stands.createShoppingList (h : w.Stands v) (k : κ) (name uid : Str) (now : UInt64)
    (pick : ℕ) : Follows D f w v (.createShoppingList k name uid now pick) := by
  intro w' hw hsmall
  simp only [World.step] at hw
  split at hw
  · rename_i hc
    have ha := (h.client k).api
    have hlen : ((ShoppingList.new uid name).pack (f.blob 0)).length ≤ BlobDb.maxLength := by
      obtain ⟨ep, -, rfl⟩ := Option.map_eq_some_iff.1 hw
      have hstore := hsmall.client k
      simp only [Function.update_self] at hstore
      exact hstore _ (List.mem_append_right _ (List.mem_singleton.2 rfl))
    have ha' : Api.Stands
        { (w.client k).api with
          store := (w.client k).api.store.write (f.blob 0) (ShoppingList.new uid name) }
        ((v.client k).api.createShoppingList name uid .ok).2 :=
      ⟨by rw [API.createShoppingList]; generalize (v.client k).api = b at ha; rw [ha.base],
        ha.store.write (.refl _) hlen⟩
    have hm : Message.Alike
        (Message.ensureList (w.client k).api.base.origin now (ShoppingList.new uid name))
        (Message.ensureList (v.client k).api.origin now (ShoppingList.new uid name)) :=
      ⟨rfl, by rw [ha.base], rfl, .cons (.refl _) .nil, rfl⟩
    obtain ⟨v', hv', hstands⟩ := h.exchange ha' hm .create hw hsmall
    refine ⟨v', ?_, hstands⟩
    rw [Shopping.World.step, if_pos ⟨h.idle hc.1, ha.isNewUid hc.2⟩]
    exact hv'
  · cases hw

/-- What is read here is what waits for the reply. -/
theorem Stands.getShoppingList (h : w.Stands v) (k : κ) (listUid : Str) (now : UInt64) (pick : ℕ) :
    Follows D f w v (.getShoppingList k listUid now pick) := by
  intro w' hw hsmall
  simp only [World.step] at hw
  split at hw
  · rename_i hc
    have ha := (h.client k).api
    obtain ⟨found, hread, hrel⟩ := ha.store.read listUid
    rw [hread] at hw
    have hm : Message.Alike (Message.getList (w.client k).api.base.origin now listUid)
        (Message.getList (v.client k).api.origin now listUid) :=
      ⟨rfl, by rw [ha.base], rfl, .cons (.refl _) .nil, rfl⟩
    obtain ⟨v', hv', hstands⟩ := h.exchange ha hm (.get listUid hrel) hw hsmall
    refine ⟨v', ?_, hstands⟩
    rw [Shopping.World.step, if_pos (h.idle hc)]
    exact hv'
  · cases hw

theorem Stands.addItem (h : w.Stands v) (k : κ) (listUid itemName : Str) (desired current : Int32)
    (itemUid : Str) (clock : ℤ) (now : UInt64) (pick : ℕ) :
    Follows D f w v (.addItem k listUid itemName desired current itemUid clock now pick) := by
  intro w' hw hsmall
  simp only [World.step] at hw
  split at hw
  · rename_i hc
    have ha := (h.client k).api
    obtain ⟨v', hv', hstands⟩ := h.exchangeEdit (fun r he => ha.addItem he) hw hsmall
    refine ⟨v', ?_, hstands⟩
    rw [Shopping.World.step, if_pos ⟨h.idle hc.1, ha.isNewUid hc.2⟩]
    exact hv'
  · cases hw

/-- `getItem` finds the same item in both lists, since what is stored is a copy. -/
theorem Stands.updateItem (h : w.Stands v) (hr : Reflected IsCopy v g) (k : κ)
    (listUid itemUid itemName : Str) (desired current : Int32) (clock : ℤ) (now : UInt64)
    (pick : ℕ) :
    Follows D f w v (.updateItem k listUid itemUid itemName desired current clock now pick) := by
  intro w' hw hsmall
  simp only [World.step] at hw
  split at hw
  · rename_i hc
    have ha := (h.client k).api
    obtain ⟨v', hv', hstands⟩ :=
      h.exchangeEdit (fun r he => ha.updateItem (stored_wf hr k listUid) he) hw hsmall
    refine ⟨v', ?_, hstands⟩
    rw [Shopping.World.step, if_pos (h.idle hc)]
    exact hv'
  · cases hw

theorem Stands.removeItem (h : w.Stands v) (hr : Reflected IsCopy v g) (k : κ)
    (listUid itemUid : Str) (now : UInt64) (pick : ℕ) :
    Follows D f w v (.removeItem k listUid itemUid now pick) := by
  intro w' hw hsmall
  simp only [World.step] at hw
  split at hw
  · rename_i hc
    have ha := (h.client k).api
    obtain ⟨v', hv', hstands⟩ :=
      h.exchangeEdit (fun r he => ha.removeItem (stored_wf hr k listUid) he) hw hsmall
    refine ⟨v', ?_, hstands⟩
    rw [Shopping.World.step, if_pos (h.idle hc)]
    exact hv'
  · cases hw

theorem Stands.deleteShoppingList (h : w.Stands v) (k : κ) (listUid : Str) (now : UInt64)
    (pick : ℕ) : Follows D f w v (.deleteShoppingList k listUid now pick) := by
  intro w' hw hsmall
  simp only [World.step] at hw
  split at hw
  · rename_i hc
    have ha := (h.client k).api
    have ha' : Api.Stands
        { (w.client k).api with store := (w.client k).api.store.deleteList listUid }
        ((v.client k).api.deleteShoppingList listUid .ok) :=
      ⟨by rw [API.deleteShoppingList]; generalize (v.client k).api = b at ha; rw [ha.base],
        ha.store.deleteList listUid⟩
    have hm : Message.Alike (Message.deleteList (w.client k).api.base.origin now listUid)
        (Message.deleteList (v.client k).api.origin now listUid) :=
      ⟨rfl, by rw [ha.base], rfl, .cons (.refl _) .nil, rfl⟩
    obtain ⟨v', hv', hstands⟩ := h.exchange ha' hm .delete hw hsmall
    refine ⟨v', ?_, hstands⟩
    rw [Shopping.World.step, if_pos (h.idle hc)]
    exact hv'
  · cases hw

/-- The stored lists fall into the same batches. -/
theorem Stands.gossipState (h : w.Stands v) (k : κ) (now : UInt64) (pick : Int32 → ℕ) :
    Follows D f w v (.gossipState k now pick) := by
  intro w' hw hsmall
  obtain ⟨batches, hb, rfl⟩ := Option.map_eq_some_iff.1 hw
  obtain ⟨batches', hb', hal⟩ := (h.client k).api.gossipState hb
  exact ⟨_, by rw [Shopping.World.step, hb']; rfl, h.batches hal hsmall⟩

/-- A refresh has its own exchange, and no list. -/
theorem Stands.updateCloudNodes (h : w.Stands v) (k : κ) (now : UInt64) (pick : ℕ) :
    Follows D f w v (.updateCloudNodes k now pick) := by
  intro w' hw hsmall
  simp only [World.step] at hw
  split at hw
  · rename_i hc
    obtain ⟨ep, hep, rfl⟩ := Option.map_eq_some_iff.1 hw
    have hcl := h.client k
    have hep' : (v.client k).api.getAnyEndpoint pick = some ep := by rw [hcl.api.base]; exact hep
    have hm : Message.Alike (Message.getNodes (w.client k).api.base.origin now)
        (Message.getNodes (v.client k).api.origin now) :=
      ⟨rfl, by rw [hcl.api.base], rfl, .nil, rfl⟩
    have hframe := hsmall.net _ (List.mem_append_right _ (List.mem_singleton.2 rfl))
    have hnext : ClientState.Stands
        { w.client k with refresh := some (w.client k).calls, calls := (w.client k).calls + 1 }
        { v.client k with refresh := some (v.client k).calls, calls := (v.client k).calls + 1 } :=
      ⟨hcl.api, hcl.call, congrArg some hcl.calls, congrArg (· + 1) hcl.calls⟩
    have hrequest : PacketIs (.request k (w.client k).calls ep
          ((Message.getNodes (w.client k).api.base.origin now).toZmq (f.frame 0)))
        (.request k (v.client k).calls ep
          (.packed (Message.getNodes (v.client k).api.origin now))) := by
      rw [hcl.calls]
      exact .request k _ ep (.toZmq hm hframe)
    refine ⟨_, ?_, h.update k hnext (.cons hrequest .nil)⟩
    rw [Shopping.World.step, if_pos (by rw [hcl.refresh]; exact hc), hep']
    rfl
  · cases hw

/-- The end of a call: an edited list and the one replied are copies, so their merge returns. -/
theorem Stands.reply (h : w.Stands v) (hr : Reflected IsCopy v g) (hm : Matched D v) (k : κ)
    (p : ℕ) : Follows D f w v (.reply k p) := by
  intro w' hw hsmall
  simp only [World.step] at hw
  split at hw
  · rename_i call pending k' call' frame hc hp
    split at hw
    · rename_i hmine
      cases hw
      have hcall := (h.client k).call
      rw [hc] at hcall
      generalize hc' : (v.client k).call = x at hcall
      obtain ⟨pkt', hp', his⟩ := h.packet hp
      cases hcall with
      | @some _ y hpend =>
        obtain ⟨call1, pending'⟩ := y
        obtain ⟨hn, hpend⟩ := hpend
        obtain rfl : call = call1 := hn
        cases his with
        | reply _ _ hframe =>
          refine ⟨_, ?_, h.finish hpend (hframe.decode (D.clientPf k) f) ?_ hsmall⟩
          · simp only [Shopping.World.step, hc', hp']
            rw [if_pos hmine]
          · rintro lst' rfl l' hl'
            exact ShoppingList.WF.merge_isOk (edited_wf hr hc') (reply_wf hr hm hp' hl')
    · cases hw
  · cases hw

theorem Stands.noReply (h : w.Stands v) (k : κ) : Follows D f w v (.noReply k) := by
  intro w' hw hsmall
  simp only [World.step] at hw
  split at hw
  · rename_i call pending hc
    cases hw
    have hcall := (h.client k).call
    rw [hc] at hcall
    generalize hc' : (v.client k).call = x at hcall
    cases hcall with
    | @some _ y hpend =>
      refine ⟨_, ?_, h.finish hpend.2 .none ?_ hsmall⟩
      · simp only [Shopping.World.step, hc']
      · intro lst' _ l' hl'; cases hl'
  · cases hw

theorem Stands.nodesReply (h : w.Stands v) (k : κ) (p : ℕ) :
    Follows D f w v (.nodesReply k p) := by
  intro w' hw _
  simp only [World.step] at hw
  split at hw
  · rename_i call k' call' frame hc hp
    split at hw
    · rename_i hmine
      cases hw
      obtain ⟨pkt', hp', his⟩ := h.packet hp
      cases his with
      | reply _ _ hframe =>
        refine ⟨_, ?_, h.refreshed k (hframe.decode (D.clientPf k) f)⟩
        simp only [Shopping.World.step, (h.client k).refresh, hc, hp']
        rw [if_pos hmine]
    · cases hw
  · cases hw

theorem Stands.noNodesReply (h : w.Stands v) (k : κ) : Follows D f w v (.noNodesReply k) := by
  intro w' hw _
  simp only [World.step] at hw
  split at hw
  · rename_i hc
    cases hw
    refine ⟨_, ?_, h.refreshed k .none⟩
    rw [Shopping.World.step, if_pos (by rw [(h.client k).refresh]; exact hc)]
  · cases hw

/-- **A step on bytes within the limits is a step of the system**, by the same action. -/
theorem Stands.step (h : w.Stands v) (hr : Reflected IsCopy v g) (hm : Matched D v)
    (a : Action ι κ) : Follows D f w v a := by
  cases a with
  | start i now => exact h.start i now
  | stop i => exact h.stop i
  | clientFrame i p now => exact h.clientFrame i p now
  | gossipFrame i p now => exact h.gossipFrame i p now
  | discoveryFrame i p => exact h.discoveryFrame i p
  | stateTimer i now => exact h.stateTimer i now
  | discoveryTimer i evictNow gossipNow => exact h.discoveryTimer i evictNow gossipNow
  | createShoppingList k name uid now pick => exact h.createShoppingList k name uid now pick
  | getShoppingList k listUid now pick => exact h.getShoppingList k listUid now pick
  | addItem k listUid itemName desired current itemUid clock now pick =>
    exact h.addItem k listUid itemName desired current itemUid clock now pick
  | updateItem k listUid itemUid itemName desired current clock now pick =>
    exact h.updateItem hr k listUid itemUid itemName desired current clock now pick
  | removeItem k listUid itemUid now pick => exact h.removeItem hr k listUid itemUid now pick
  | deleteShoppingList k listUid now pick => exact h.deleteShoppingList k listUid now pick
  | gossipState k now pick => exact h.gossipState k now pick
  | updateCloudNodes k now pick => exact h.updateCloudNodes k now pick
  | reply k p => exact h.reply hr hm k p
  | noReply k => exact h.noReply k
  | nodesReply k p => exact h.nodesReply k p
  | noNodesReply k => exact h.noNodesReply k

end World

variable [DecidableEq ι] [DecidableEq κ] {D : Deployment ι κ}

/-- **The system on bytes refines the system.** Whatever actions the system on bytes takes, as long
as every state on the way is within the limits, the system can take them too, and it ends in a
state that the one on bytes stands for: every blob reads as the stored list, and every frame as
the packet, up to the order of entries. -/
theorem bytes_refine {as : List (Action ι κ × Format)} {w : World ι κ}
    (hrun : runList (World.step D) (World.init D) as = some w)
    (hsmall : ∀ n u, runList (World.step D) (World.init D) (as.take n) = some u → u.Small) :
    ∃ v, runList (Shopping.World.step D) (Shopping.World.init D) (as.map Prod.fst) = some v ∧
      w.Stands v := by
  obtain ⟨v, hv, hstands, -⟩ := runList_simulates
    (R := fun w v => w.Stands v ∧ (∃ g, Reflected IsCopy v g) ∧ Matched D v)
    (fun w v a w' hR hw hs => by
      obtain ⟨hstands, ⟨g, hr⟩, hm⟩ := hR
      obtain ⟨v', hv', hstands'⟩ := hstands.step hr hm a.1 w' hw hs
      exact ⟨v', hv', hstands', ⟨_, hr.next hm hv'⟩, hm.step hv'⟩)
    as _ w _ ⟨.init D, ⟨{}, Reflected.init IsCopy D⟩, Matched.init D⟩ hrun hsmall
  exact ⟨v, hv, hstands⟩

/-- Node 0 starts, a client creates a list there, and node 1 starts and takes the first of the
three frames in which node 0 has passed it on. -/
def bytesRun : List (Action (Fin 2) (Fin 2) × Format) :=
  [.start 0 100, .createShoppingList 0 (str "Groceries") (sampleUid 0) 101 0,
    .clientFrame 0 0 fun _ => 102, .start 1 103, .gossipFrame 1 1 fun _ => 104].map fun a =>
    (a, ⟨fun _ => .sorted, fun _ _ => .sorted, .getNodes, 0⟩)

instance : DecidablePred Store.Small := fun _ => inferInstanceAs (Decidable (∀ blob ∈ _, _))

instance [Fintype ι] [Fintype κ] : DecidablePred (World.Small : World ι κ → Prop) := fun w =>
  decidable_of_iff ((∀ i, (w.node i).node.store.Small) ∧ (∀ k, (w.client k).api.store.Small) ∧
    ∀ pkt ∈ w.net, pkt.frame.length < 2 ^ 32)
    ⟨fun h => ⟨h.1, h.2.1, h.2.2⟩, fun h => ⟨h.node, h.client, h.net⟩⟩

theorem bytesRun_refines : ∃ w v,
    runList (World.step .sample) (World.init .sample) bytesRun = some w ∧
    runList (Shopping.World.step .sample) (Shopping.World.init .sample) (bytesRun.map Prod.fst) =
      some v ∧
    w.Stands v ∧ ((w.node 1).node.store.db.rows.lookup (sampleUid 0)).isSome = true := by
  obtain ⟨w, hw, hrow⟩ := runList_of_any (World.step .sample) (World.init .sample) bytesRun
    (fun w => ((w.node 1).node.store.db.rows.lookup (sampleUid 0)).isSome) (by decide +kernel)
  have hsmall : ∀ n : Fin 6, (runList (World.step .sample) (World.init .sample)
      (bytesRun.take n)).all (fun u => decide u.Small) = true := by decide +kernel
  obtain ⟨v, hv, hstands⟩ := bytes_refine hw fun n u hu => by
    have hmin : bytesRun.take n = bytesRun.take (min n 5) := by
      rw [List.take_eq_take_min]; rfl
    have := hsmall ⟨min n 5, by omega⟩
    rw [← hmin, hu] at this
    exact of_decide_eq_true this
  exact ⟨w, v, hw, hv, hstands, hrow⟩

end Shopping.Wire
