import Shopping.Proof.Consistency

/-!
# What a write tells the client

The node answers an `ENSURE_LIST` with the list that came in the request, not with the one
it stores, so the client merges its list with itself and learns nothing. Client and node
then show the same exactly if the node's list had nothing to show beside the client's
(`NothingNew`).
-/

namespace Shopping

open Lib

/-- What every database that the program writes satisfies. -/
structure SqliteDb.WF (db : SqliteDb) : Prop where
  keyed : db.Keyed
  lists : ∀ key l, db.rows.lookup key = some l → l.WF

/-- The databases of every reachable state are well formed. -/
theorem reached_wf {ι κ : Type*} [DecidableEq ι] [DecidableEq κ] {D : Deployment ι κ}
    {w : World ι κ} (hrun : Run (World.step D) (fun _ _ => True) (World.init D) w) :
    (∀ i, (w.node i).node.db.WF) ∧ ∀ k, (w.client k).api.db.WF := by
  have hm := matched hrun
  obtain ⟨g, hr⟩ := exists_reflected hrun
  refine ⟨fun i => ⟨hm.nodeKey i, ?_⟩, fun k => ⟨hm.clientKey k, ?_⟩⟩
  · intro key l hl; exact ((hr.node i).row key l hl).wf hr.logged
  · intro key l hl; exact ((hr.client k).row key l hl).wf hr.logged

/-- The list merged into: the stored one, or the empty one where there is none. -/
def SqliteDb.existing (db : SqliteDb) (uid : Str) : ShoppingList :=
  (db.read uid .ok).getD (ShoppingList.new uid [])

theorem SqliteDb.WF.empty : SqliteDb.WF {} := ⟨SqliteDb.Keyed.empty, by intro key l h; cases h⟩

theorem SqliteDb.WF.write {db : SqliteDb} (h : db.WF) {l : ShoppingList} (hl : l.WF) (c : Calls) :
    (db.write l c).1.WF := by
  refine ⟨h.keyed.write l c, ?_⟩
  intro key row hrow
  rcases SqliteDb.lookup_write hrow with rfl | hrow
  · exact hl
  · exact h.lists key row hrow

theorem SqliteDb.WF.existing {db : SqliteDb} (h : db.WF) (uid : Str) :
    (db.existing uid).WF ∧ (db.existing uid).key = cstr uid := by
  unfold SqliteDb.existing
  rw [SqliteDb.read_ok]
  cases hl : db.rows.lookup (cstr uid) with
  | none => exact ⟨ShoppingList.WF.new uid [], rfl⟩
  | some l => exact ⟨h.lists _ l hl, h.keyed _ l hl⟩

/-- The lists show the same items with the same quantities. -/
def SameShown (l l' : ShoppingList) : Prop :=
  ∀ uid desired current, l.Shows uid desired current ↔ l'.Shows uid desired current

/-- The stored list has nothing to show beside the sent one: what the sent list shows, it
still shows by a tag that neither removed; what it does not show, the stored list has only
tags for that one of them removed; and for items shown the stored counters have as many
increments as decrements that the sent ones lack, modulo the range of a quantity. -/
structure NothingNew (stored sent : ShoppingList) : Prop where
  shown : ∀ uid, sent.items.Live uid →
    ∃ tag ∈ stored.items.addTags uid ∪ sent.items.addTags uid,
      tag ∉ stored.items.removeTags uid ∧ tag ∉ sent.items.removeTags uid
  hidden : ∀ uid, ¬ sent.items.Live uid → ∀ tag ∈ stored.items.addTags uid,
    tag ∈ stored.items.removeTags uid ∨ tag ∈ sent.items.removeTags uid
  balanced : ∀ uid q, sent.items.Live uid →
    (stored.counter q uid).posSurplus (sent.counter q uid) ≡
      (stored.counter q uid).negSurplus (sent.counter q uid) [MOD 2 ^ 32]

variable {l e s : ShoppingList}

/-- An element of the merge is live by a tag of either side that neither removed. -/
theorem live_merge (hm : e.merge l = .ok s) (uid : Str) : s.items.Live uid ↔
    ∃ tag ∈ e.items.addTags uid ∪ l.items.addTags uid,
      tag ∉ e.items.removeTags uid ∧ tag ∉ l.items.removeTags uid := by
  have hi := (ShoppingList.merge_eq_ok hm).1
  rw [ORSet.Live, ORSet.addTags_merge hi, ORSet.removeTags_merge hi]
  simp only [Finset.mem_union, not_or]

/-- The quantity shown is the one sent exactly where both surpluses agree modulo `2^32`. -/
theorem shown_merge (hm : e.merge l = .ok s) (q : Quantity) (uid : Str) :
    UInt32.ofInt (l.counter q uid).value = UInt32.ofInt (s.counter q uid).value ↔
      (e.counter q uid).posSurplus (l.counter q uid) ≡
        (e.counter q uid).negSurplus (l.counter q uid) [MOD 2 ^ 32] :=
  PNCounter.shown_eq_iff (ShoppingList.totalOf_counter_merge hm q uid .pos)
    (ShoppingList.totalOf_counter_merge hm q uid .neg)

/-- **Merging a list in shows what that list shows iff there was nothing new to it.** -/
theorem sameShown_merge_iff (he : e.WF) (hl : l.WF) (hm : e.merge l = .ok s) :
    SameShown l s ↔ NothingNew e l := by
  have hs : s.WF := he.merge hl hm
  have hlive := live_merge hm
  constructor
  · intro h
    -- the merge shows each live item with this list's quantities
    have hshow : ∀ uid, l.items.Live uid → s.Shows uid
        (UInt32.ofInt (l.counter .desired uid).value) (UInt32.ofInt (l.counter .current uid).value) :=
      fun uid hu => (h uid _ _).1 ((hl.shows_iff uid _ _).2 ⟨hu, rfl, rfl⟩)
    refine ⟨?_, ?_, ?_⟩
    · intro uid hu
      exact (hlive uid).1 ((hs.shows_iff uid _ _).1 (hshow uid hu)).1
    · intro uid hu tag htag
      by_contra hne
      rw [not_or] at hne
      have hsu : s.items.Live uid := (hlive uid).2 ⟨tag, Finset.mem_union_left _ htag, hne⟩
      exact hu ((hl.shows_iff uid _ _).1
        ((h uid _ _).2 ((hs.shows_iff uid _ _).2 ⟨hsu, rfl, rfl⟩))).1
    · intro uid q hu
      obtain ⟨-, hd, hc⟩ := (hs.shows_iff uid _ _).1 (hshow uid hu)
      rw [← shown_merge hm q uid]
      cases q with
      | desired => exact hd.symm
      | current => exact hc.symm
  · intro h uid desired current
    have hiff : l.items.Live uid ↔ s.items.Live uid := by
      rw [hlive]
      constructor
      · exact h.shown uid
      · rintro ⟨tag, htag, hne, hnl⟩
        by_contra hu
        rcases Finset.mem_union.1 htag with htag | htag
        · exact (h.hidden uid hu tag htag).elim hne hnl
        · exact hu ⟨tag, htag, hnl⟩
    rw [hl.shows_iff, hs.shows_iff, ← hiff]
    refine and_congr_right fun hu => ?_
    rw [(shown_merge hm .desired uid).2 (h.balanced uid .desired hu),
      (shown_merge hm .current uid).2 (h.balanced uid .current hu)]

/-- The list that `addItem`, `updateItem` or `removeItem` sends. -/
inductive API.Edits (a : API) (lst : ShoppingList) : Prop
  | add (listUid itemName : Str) (desired current : Int32) (itemUid tag : Str)
      (h : a.addItem listUid itemName desired current itemUid tag .ok = .ok lst)
  | update (listUid itemUid itemName : Str) (desired current : Int32) (tag : Str)
      (h : a.updateItem listUid itemUid itemName desired current tag .ok = .ok lst)
  | remove (listUid itemUid : Str) (h : a.removeItem listUid itemUid .ok = .ok lst)

theorem API.Edits.wf {a : API} {lst : ShoppingList} (ha : a.db.WF) (h : a.Edits lst) : lst.WF := by
  have hop : ∀ (listUid : Str) (base : ShoppingList) (op : Op),
      a.db.read listUid .ok = some base → op.apply a.origin base = .ok lst → lst.WF :=
    fun listUid base op hb he => Op.apply_wf (ha.lists _ base hb) he
  cases h with
  | add listUid itemName desired current itemUid tag h =>
    unfold API.addItem at h
    split at h
    · cases h
    · rename_i base hbase
      exact hop listUid base (.add itemUid itemName desired current tag) hbase h
  | update listUid itemUid itemName desired current tag h =>
    unfold API.updateItem at h
    split at h
    · cases h
    · rename_i base hbase
      exact hop listUid base (.update itemUid itemName desired current tag) hbase h
  | remove listUid itemUid h =>
    unfold API.removeItem at h
    split at h
    · cases h
    · rename_i base hbase
      exact hop listUid base (.remove itemUid) hbase h

/-- The exchange of an update succeeds: the node answers the request with a `LIST_RESPONSE`,
and the call returns the list `r`. -/
structure Exchanged (pf : Platform) (a : API) (n : Node) (lst : ShoppingList) (n' : Node)
    (r : ShoppingList) (a' : API) : Prop where
  edits : a.Edits lst
  answered : ∃ ts now frame m,
    n.handleClientFrame pf { now } (.packed (Message.ensureList a.origin ts lst)) = .ok n' ∧
      Sent.reply frame ∈ n'.sent ∧ frame.decode pf = some m ∧ m.op = .listResponse ∧
      a.finishEdit lst (some m) .ok = .ok (r, a')

variable {pf : Platform} {a a' : API} {n n' : Node} {lst r : ShoppingList}

/-- What the two sides end with: the node merges the list into its own, the client into
itself. -/
theorem Exchanged.outcome (hx : Exchanged pf a n lst n' r a') (hn : n.db.WF) (ha : a.db.WF)
    (hsent : n.sent = []) :
    (∃ s, (n.db.existing lst.uid).merge lst = .ok s ∧ n'.db.read lst.uid .ok = some s) ∧
      lst.merge lst = .ok r ∧ a'.db.read lst.uid .ok = some r := by
  obtain ⟨he, ts, now, frame, m, hh, hs, hd, ho, hc⟩ := hx
  have hlst := he.wf ha
  have ht := Node.handleClientFrame_turn pf { now } n
    (.packed (Message.ensureList a.origin ts lst))
  rw [hh] at ht
  cases ht with
  | nodes m' hd' hop => cases hd'; cases hop
  | refused m' l ls hd' hop hl hsh =>
    rw [Node.reply_sent, hsent, List.nil_append, List.mem_singleton] at hs
    cases hs
    rw [Frame.decode_wrongShard] at hd; cases hd
  | found m' l ls row hd' hop => cases hd'; cases hop
  | absent m' l ls hd' hop => cases hd'; cases hop
  | applied m' l ls db hd' hop hop' hl hsh happ =>
    cases hd'; cases hl
    obtain ⟨new, hfan, hg⟩ := Node.eagerFanout_eq { now } { n with db }
    rw [hfan] at hs ⊢
    simp only [Node.reply_sent, hsent, List.nil_append, List.mem_append, List.mem_singleton] at hs
    -- the gossip goes to other nodes: the answer is the reply, with the list as it was sent
    have hframe : frame = .packed (Message.listResponse true n.cfg.nodeId (now 4) lst) := by
      rcases hs with hs | hs
      · obtain ⟨_, _, hgossip⟩ := hg _ hs; cases hgossip
      · cases hs; rfl
    subst hframe
    cases hd
    refine ⟨?_, ?_⟩
    · obtain ⟨hew, hek⟩ := hn.existing lst.uid
      obtain ⟨s, hm⟩ := hew.merge_isOk hlst
      refine ⟨s, hm, ?_⟩
      have hdb : Node.mergeIncoming .ok .ok n.db lst = .ok (n.db.write s .ok).1 := by
        unfold Node.mergeIncoming
        dsimp only [ShoppingList.getUid]
        rw [show ((n.db.read lst.uid .ok).getD (ShoppingList.new lst.uid [])).merge lst = .ok s from hm]
      obtain rfl : (n.db.write s .ok).1 = db := Except.ok.inj (hdb.symm.trans happ)
      have hkey : cstr lst.uid = s.key := by
        rw [ShoppingList.key, (ShoppingList.merge_eq_ok hm).2.1]; exact hek.symm
      show (n.db.write s .ok).1.rows.lookup (cstr lst.uid) = some s
      rw [SqliteDb.lookup_write_ok, if_pos hkey]
    · obtain ⟨r', hm⟩ := hlst.merge_isOk hlst
      have hfin : a.finishEdit lst (some (Message.listResponse true n.cfg.nodeId (now 4) lst)) .ok =
          .ok (r', { a with db := (a.db.write r' .ok).1 }) := by
        simp only [API.finishEdit, Message.listResponse, if_true, hm]
      rw [hfin] at hc
      cases hc
      refine ⟨hm, ?_⟩
      have hkey : cstr lst.uid = r.key := by
        rw [ShoppingList.key, (ShoppingList.merge_eq_ok hm).2.1]
      show (a.db.write r .ok).1.rows.lookup (cstr lst.uid) = some r
      rw [SqliteDb.lookup_write_ok, if_pos hkey]

/-- Client and node show the same after the exchange iff the node had nothing new. -/
theorem Exchanged.sameShown_iff (hx : Exchanged pf a n lst n' r a') (hn : n.db.WF) (ha : a.db.WF)
    (hsent : n.sent = []) : ∃ s, n'.db.read lst.uid .ok = some s ∧ a'.db.read lst.uid .ok = some r ∧
      (SameShown r s ↔ NothingNew (n.db.existing lst.uid) lst) := by
  obtain ⟨⟨s, hs, hread⟩, hself, hread'⟩ := hx.outcome hn ha hsent
  have hlst := hx.edits.wf ha
  refine ⟨s, hread, hread', ?_⟩
  have hrl : SameShown lst r := by
    refine shows_congr hlst (hlst.merge hlst hself) ?_
    rw [content_merge hself, sup_idem]
  rw [← sameShown_merge_iff (hn.existing lst.uid).1 hlst hs]
  constructor
  · intro h uid d c; exact (hrl uid d c).trans (h uid d c)
  · intro h uid d c; exact (hrl uid d c).symm.trans (h uid d c)

/-- An exchange with a node of the list's shard succeeds. -/
theorem exchanged_of_shard (pf : Platform) (hn : n.db.WF) (ha : a.db.WF) (he : a.Edits lst)
    (hsh : n.shardForList pf lst.uid = n.cfg.shardId) : ∃ n' r a', Exchanged pf a n lst n' r a' := by
  have hlst := he.wf ha
  obtain ⟨s, hs⟩ := (hn.existing lst.uid).1.merge_isOk hlst
  obtain ⟨r, hr⟩ := hlst.merge_isOk hlst
  have happ : Node.applyMessage (fun _ => .ok) n.db (Message.ensureList a.origin 0 lst) =
      .ok (n.db.write s .ok).1 := by
    simp only [Node.applyMessage, Message.ensureList, Node.mergeIncoming, ShoppingList.getUid]
    rw [show ((n.db.read lst.uid .ok).getD (ShoppingList.new lst.uid [])).merge lst = .ok s from hs]
  have ht := Node.handleClientFrame_turn pf { now := fun _ => 0 } n
    (.packed (Message.ensureList a.origin 0 lst))
  have hfin : a.finishEdit lst (some (Message.listResponse true n.cfg.nodeId 0 lst)) .ok =
      .ok (r, { a with db := (a.db.write r .ok).1 }) := by
    simp only [API.finishEdit, Message.listResponse, if_true, hr]
  generalize hres : n.handleClientFrame pf { now := fun _ => 0 }
    (.packed (Message.ensureList a.origin 0 lst)) = res at ht
  -- the request is an `ENSURE_LIST` of the shard that merges, so it is applied
  cases ht with
  | undecodable hd => cases hd
  | nodes m hd hop => cases hd; cases hop
  | empty m hd hop hl => cases hd; cases hl
  | refused m l ls hd hop hl hne => cases hd; cases hl; exact absurd hsh hne
  | found m l ls row hd hop => cases hd; cases hop
  | absent m l ls hd hop => cases hd; cases hop
  | thrown m l ls e db hd hop hop' hl hs' ha' =>
    cases hd
    have := ha'.symm.trans happ
    cases this
  | applied m l ls db hd hop hop' hl hs' ha' =>
    cases hd; cases hl
    refine ⟨_, r, _, he, 0, fun _ => 0,
      .packed (Message.listResponse true n.cfg.nodeId 0 lst), _, hres, ?_, rfl, rfl, hfin⟩
    rw [Node.reply_sent]
    exact List.mem_append_right _ List.mem_cons_self

/-- A list of which the sent one has everything brings nothing new. -/
theorem NothingNew.of_le (h : content e ≤ content l) : NothingNew e l := by
  obtain ⟨hadd, hrem, hpos, hneg⟩ := h
  refine ⟨?_, ?_, ?_⟩
  · rintro uid ⟨tag, htag, hne⟩
    exact ⟨tag, Finset.mem_union_right _ htag, fun hmem => hne (hrem uid hmem), hne⟩
  · intro uid hdead tag htag
    by_contra hne
    exact hdead ⟨tag, hadd uid htag, fun hmem => hne (.inr hmem)⟩
  · intro uid q _
    have hp : (e.counter q uid).posSurplus (l.counter q uid) = 0 :=
      Finset.sum_eq_zero fun o _ => Nat.sub_eq_zero_of_le (hpos q uid o)
    have hn : (e.counter q uid).negSurplus (l.counter q uid) = 0 :=
      Finset.sum_eq_zero fun o _ => Nat.sub_eq_zero_of_le (hneg q uid o)
    rw [hp, hn]

/-- **An acknowledged write synchronises client and node exactly if the node's list had
nothing to show beside the client's.** Both store the outcome of the write. -/
theorem write_synchronises (hn : n.db.WF) (ha : a.db.WF) (hsent : n.sent = [])
    (hx : Exchanged pf a n lst n' r a') :
    a'.db.read lst.uid .ok = some r ∧ ∃ s, n'.db.read lst.uid .ok = some s ∧
      (SameShown r s ↔ NothingNew (n.db.existing lst.uid) lst) := by
  obtain ⟨s, hread, hread', hiff⟩ := hx.sameShown_iff hn ha hsent
  exact ⟨hread', s, hread, hiff⟩

/-- A client that stores an empty list. -/
def sampleClient : API where
  origin := [0]
  db := (SqliteDb.write {} (ShoppingList.new (sampleUid 0) []) .ok).1

/-- A node over a database. -/
def sampleNode (db : SqliteDb) : Node := Node.new (Deployment.sample.cfg 0) db 0

/-- The client's list with an item that the client does not know. -/
def otherList : ShoppingList :=
  { ShoppingList.new (sampleUid 0) [] with
    items := ORSet.add {} ({ uid := sampleUid 1, name := str "milk" } : ShoppingItem) [1] }

/-- What the client sends to add an item of its own. -/
def sentList : ShoppingList :=
  { ShoppingList.new (sampleUid 0) [] with
    items := ORSet.add {} (ShoppingItem.new [0] (sampleUid 2) (str "bread") 1 0) [2] }

theorem sampleClient_wf : sampleClient.db.WF := SqliteDb.WF.empty.write (ShoppingList.WF.new _ _) .ok

theorem sampleClient_edits : sampleClient.Edits sentList :=
  .add (sampleUid 0) (str "bread") 1 0 (sampleUid 2) [2] rfl

/-- A client that knows the other item. -/
def knowingClient : API where
  origin := [0]
  db := (SqliteDb.write {} otherList .ok).1

/-- What it sends to add an item of its own. -/
def knowingList : ShoppingList :=
  { otherList with
    items := otherList.items.add (ShoppingItem.new [0] (sampleUid 2) (str "bread") 1 0) [2] }

theorem otherList_wf : otherList.WF := ORSet.WF.add ORSet.WF.empty _ _

/-- The item is added at a node that stores what the client knows of the list. -/
theorem added_to_known_list : ∃ (n' : Node) (r s : ShoppingList) (a' : API),
    Exchanged Platform.sample knowingClient (sampleNode knowingClient.db) knowingList n' r a' ∧
      n'.db.read (sampleUid 0) .ok = some s ∧ SameShown r s := by
  have hdb : knowingClient.db.WF := SqliteDb.WF.empty.write otherList_wf .ok
  have hedits : knowingClient.Edits knowingList :=
    .add (sampleUid 0) (str "bread") 1 0 (sampleUid 2) [2] rfl
  obtain ⟨n', r, a', hx⟩ := exchanged_of_shard Platform.sample
    (n := sampleNode knowingClient.db) hdb hdb hedits (by decide)
  obtain ⟨-, s, hread, hiff⟩ := write_synchronises hdb hdb rfl hx
  have happly : (Op.add (sampleUid 2) (str "bread") 1 0 [2]).apply [0] otherList =
      .ok knowingList := rfl
  have hle : content otherList ≤ content knowingList :=
    le_content_apply otherList_wf happly trivial rfl
  exact ⟨n', r, s, a', hx, hread, hiff.2 (NothingNew.of_le hle)⟩

/-- **An acknowledged write leaves the client without what the node knows**: the node has
another item on the list, and the client still does not show it. -/
theorem write_unsynchronised :
    ¬ ∀ (pf : Platform) (a a' : API) (n n' : Node) (lst r : ShoppingList),
      n.db.WF → a.db.WF → n.sent = [] → Exchanged pf a n lst n' r a' →
        ∃ s, n'.db.read lst.uid .ok = some s ∧ SameShown r s := by
  intro h
  have hn : (sampleNode (SqliteDb.write {} otherList .ok).1).db.WF :=
    SqliteDb.WF.empty.write otherList_wf .ok
  obtain ⟨n', r, a', hx⟩ := exchanged_of_shard Platform.sample
    (n := sampleNode (SqliteDb.write {} otherList .ok).1) hn sampleClient_wf sampleClient_edits
    (by decide)
  obtain ⟨s, hread, hsame⟩ := h _ _ _ _ _ _ _ hn sampleClient_wf rfl hx
  obtain ⟨s', hread', -, hiff⟩ := hx.sameShown_iff hn sampleClient_wf rfl
  obtain rfl : s = s' := Option.some.inj (hread.symm.trans hread')
  have hnew := (hiff.1 hsame).hidden (sampleUid 1) ?_ [1] ?_
  · revert hnew
    decide +kernel
  · decide +kernel
  · decide +kernel

end Shopping
