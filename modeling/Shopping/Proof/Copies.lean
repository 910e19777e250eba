import Shopping.System.Matched

/-!
# Every list is a copy

In every run, with any deliveries, repetitions and losses of packets, each stored list,
each list in a packet and each list a call is working on is a copy with the history that
the run has recorded for it (`reflected`).

The invariant is stated for any property of a list and its history that updates and merges
keep (`Kept`), and for runs whose merges all meet a condition (`Meets`); being a copy is
kept by every merge.
-/

namespace Shopping

open Lib

/-- A property of a list and what it reflects. -/
abbrev HistProp := List Update → Finset ℕ → ShoppingList → Prop

/-- A condition on a merge: the log, the list merged into and the list merged, each with
what it reflects. -/
abbrev MergeCond := List Update → Finset ℕ → ShoppingList → Finset ℕ → ShoppingList → Prop

variable {log log' : List Update} {h : Finset ℕ} {l r : ShoppingList} {db : SqliteDb} {H : Histories}
  {Q : HistProp} {C : MergeCond}

/-- A copy is well formed. -/
theorem IsCopy.wf (hL : Logged lists log) (hc : IsCopy log h l) : l.WF := by
  refine Copy.induct (P := fun _ l => l.WF) hL ?_ ?_ ?_ hc
  · intro s hs
    have : s.items = {} := hs
    rw [ShoppingList.WF, this]
    exact ORSet.WF.empty
  · intro n e h s _ _ _ hu hw
    exact Op.apply_wf hw hu.2
  · intro h h' a b c ha hb hm
    exact ha.merge hb hm.1

/-- Two copies stored under one key merge, and the result reflects both. -/
theorem IsCopy.merge (hL : Logged lists log) {h' : Finset ℕ} {l' : ShoppingList}
    (hc : IsCopy log h l) (hc' : IsCopy log h' l') (hk : l.key = l'.key) :
    ∃ r, l.merge l' = .ok r ∧ r.key = l.key ∧ IsCopy log (h ∪ h') r := by
  obtain ⟨r, hr⟩ := (hc.wf hL).merge_isOk (hc'.wf hL)
  refine ⟨r, hr, ?_, Copy.merge hc hc' ⟨hr, hk⟩⟩
  rw [ShoppingList.key, (ShoppingList.merge_eq_ok hr).2.1]; rfl

/-- Copies keep the property `Q` where merges meet `C`. -/
structure Kept (Q : HistProp) (C : MergeCond) : Prop where
  copy : ∀ {log h l}, Q log h l → IsCopy log h l
  mono : ∀ {log log' h l}, Logged lists log → log <+: log' → Q log h l → Q log' h l
  blank : ∀ {log l}, l.items = {} → Q log ∅ l
  update : ∀ {log h base lst origin op}, Logged lists log → Q log h base →
    op.apply origin base = .ok lst →
    Q (log ++ [⟨origin, op, base, lst, insert log.length h⟩]) (insert log.length h) lst
  merge : ∀ {log h l h' l' r}, Logged lists log → Q log h l → Q log h' l' → l.key = l'.key →
    l.merge l' = .ok r → C log h l h' l' → Q log (h ∪ h') r

/-- Being a copy is kept by every merge. -/
theorem Kept.isCopy : Kept IsCopy fun _ _ _ _ _ => True where
  copy h := h
  mono _ hp h := h.mono hp
  blank h := Copy.blank h
  update := by
    intro log h base lst origin op _ _ _
    exact Copy.update (e := ⟨origin, op, base, lst, insert log.length h⟩) (n := log.length)
      List.getElem?_concat_length
  merge _ hc hc' hk hm _ := Copy.merge hc hc' ⟨hm, hk⟩

theorem Kept.new (hK : Kept Q C) (log : List Update) (uid name : Str) :
    Q log ∅ (ShoppingList.new uid name) := hK.blank rfl

/-- Two lists stored under one key merge, and the result keeps the property. -/
theorem Kept.merge_ok (hK : Kept Q C) (hL : Logged lists log) {h' : Finset ℕ} {l' : ShoppingList}
    (hc : Q log h l) (hc' : Q log h' l') (hk : l.key = l'.key) (hC : C log h l h' l') :
    ∃ r, l.merge l' = .ok r ∧ r.key = l.key ∧ Q log (h ∪ h') r := by
  obtain ⟨r, hr, hrk, -⟩ := (hK.copy hc).merge hL (hK.copy hc') hk
  exact ⟨r, hr, hrk, hK.merge hL hc hc' hk hr hC⟩

/-- Merging the lists into the store one after the other meets `C` each time. -/
def MeetsAll (C : MergeCond) (log : List Update) (db : SqliteDb) (H : Histories) :
    List ShoppingList → List (Finset ℕ) → Prop
  | l :: ls, h :: hs =>
    C log (H l.key) ((db.read l.uid .ok).getD (ShoppingList.new l.uid [])) h l ∧
      MeetsAll C log (Node.mergeIncoming .ok .ok db l).state
        (Function.update H l.key (H l.key ∪ h)) ls hs
  | _, _ => True

/-- The merges of `apply_message` meet `C`. -/
def MeetsMessage (C : MergeCond) (log : List Update) (db : SqliteDb) (H : Histories) (m : Message)
    (hs : List (Finset ℕ)) : Prop :=
  match m.op, m.lists with
  | .ensureList, l :: _ => MeetsAll C log db H [l] (hs.take 1)
  | .gossipLists, ls => MeetsAll C log db H ls hs
  | _, _ => True

section

variable [∀ log h l h' l', Decidable (C log h l h' l')]

instance MeetsAll.decidable (log : List Update) : ∀ (db : SqliteDb) (H : Histories)
    (ls : List ShoppingList) (hs : List (Finset ℕ)), Decidable (MeetsAll C log db H ls hs)
  | _, _, [], _ => isTrue trivial
  | _, _, _ :: _, [] => isTrue trivial
  | db, H, l :: ls, h :: hs =>
    have := MeetsAll.decidable log (Node.mergeIncoming .ok .ok db l).state
      (Function.update H l.key (H l.key ∪ h)) ls hs
    inferInstanceAs (Decidable (_ ∧ _))

instance (log : List Update) (db : SqliteDb) (H : Histories) (m : Message)
    (hs : List (Finset ℕ)) : Decidable (MeetsMessage C log db H m hs) := by
  unfold MeetsMessage; split <;> infer_instance

end

/-- The list a call has of its own when the answer arrives. -/
def Pending.list : Pending → Option ShoppingList
  | .edit lst => some lst
  | .get _ found => found
  | _ => none

/-- Each row is a copy with its recorded history; where there is no row, nothing is
recorded. -/
structure Holds (Q : HistProp) (log : List Update) (db : SqliteDb) (H : Histories) : Prop where
  row : ∀ key l, db.rows.lookup key = some l → Q log (H key) l
  absent : ∀ key, db.rows.lookup key = none → H key = ∅

namespace Holds

theorem mono (hK : Kept Q C) (hL : Logged lists log) (hp : log <+: log') (hh : Holds Q log db H) :
    Holds Q log' db H :=
  ⟨fun key l hl => hK.mono hL hp (hh.row key l hl), hh.absent⟩

theorem write (hh : Holds Q log db H) (hc : Q log h l) :
    Holds Q log (db.write l .ok).1 (Function.update H l.key h) := by
  constructor
  · intro key l' hl
    rw [SqliteDb.lookup_write_ok] at hl
    rw [Function.update_apply]
    split at hl
    · rename_i hk; cases hl; rw [if_pos hk]; exact hc
    · rename_i hk; rw [if_neg hk]; exact hh.row key l' hl
  · intro key hl
    rw [SqliteDb.lookup_write_ok] at hl
    rw [Function.update_apply]
    split at hl
    · cases hl
    · rename_i hk; rw [if_neg hk]; exact hh.absent key hl

theorem deleteList (hh : Holds Q log db H) (uid : Str) :
    Holds Q log (db.deleteList uid .ok).1 (Function.update H (cstr uid) ∅) := by
  constructor
  · intro key l' hl
    rw [SqliteDb.lookup_deleteList_ok] at hl
    rw [Function.update_apply]
    split at hl
    · cases hl
    · rename_i hk; rw [if_neg hk]; exact hh.row key l' hl
  · intro key hl
    rw [SqliteDb.lookup_deleteList_ok] at hl
    rw [Function.update_apply]
    split at hl
    · rename_i hk; rw [if_pos hk]
    · rename_i hk; rw [if_neg hk]; exact hh.absent key hl

/-- What is read, or the empty list where nothing is stored. -/
theorem existing (hK : Kept Q C) (hh : Holds Q log db H) (hk : db.Keyed) (uid : Str) :
    Q log (H (cstr uid)) ((db.read uid .ok).getD (ShoppingList.new uid [])) ∧
      ((db.read uid .ok).getD (ShoppingList.new uid [])).key = cstr uid := by
  rw [SqliteDb.read_ok]
  cases hl : db.rows.lookup (cstr uid) with
  | none => rw [hh.absent _ hl]; exact ⟨hK.new log uid [], rfl⟩
  | some l => exact ⟨hh.row _ l hl, hk _ l hl⟩

theorem mergeIncoming (hK : Kept Q C) (hL : Logged lists log) (hh : Holds Q log db H)
    (hk : db.Keyed) (hc : Q log h l)
    (hC : C log (H l.key) ((db.read l.uid .ok).getD (ShoppingList.new l.uid [])) h l) :
    ∃ db', Node.mergeIncoming .ok .ok db l = .ok db' ∧ db'.Keyed ∧
      Holds Q log db' (Function.update H l.key (H l.key ∪ h)) := by
  obtain ⟨he, hek⟩ := hh.existing hK hk l.uid
  obtain ⟨r, hr, hrk, hrc⟩ := hK.merge_ok hL he hc hek hC
  refine ⟨(db.write r .ok).1, ?_, hk.write r .ok, ?_⟩
  · unfold Node.mergeIncoming
    dsimp only [ShoppingList.getUid]
    rw [hr]
  · have := hh.write hrc
    rwa [hrk, hek] at this

theorem mergeAll (hK : Kept Q C) (hL : Logged lists log) {ls : List ShoppingList}
    {hs : List (Finset ℕ)} (hcs : List.Forall₂ (Q log) hs ls) :
    ∀ (i : ℕ) (db : SqliteDb) (H : Histories), Holds Q log db H → db.Keyed →
      MeetsAll C log db H ls hs →
      ∃ db', Node.mergeAll (fun _ => .ok) i db ls = .ok db' ∧ db'.Keyed ∧
        Holds Q log db' (Trace.learn H ls hs) := by
  induction hcs with
  | nil => intro i db H hh hk _; exact ⟨db, rfl, hk, hh⟩
  | cons hc _ ih =>
    rintro i db H hh hk ⟨hC, hCs⟩
    obtain ⟨db1, h1, hk1, hh1⟩ := hh.mergeIncoming hK hL hk hc hC
    rw [h1] at hCs
    obtain ⟨db2, h2, hk2, hh2⟩ := ih (i + 1) db1 _ hh1 hk1 hCs
    exact ⟨db2, by rw [Node.mergeAll, h1]; exact h2, hk2, hh2⟩

/-- **Applying a message of copies leaves copies.** -/
theorem applyMessage (hK : Kept Q C) (hL : Logged lists log) (hh : Holds Q log db H) (hk : db.Keyed)
    {m : Message} {hs : List (Finset ℕ)} (hcs : List.Forall₂ (Q log) hs m.lists)
    (hC : MeetsMessage C log db H m hs) :
    Holds Q log (Node.applyMessage (fun _ => .ok) db m).state (Trace.applied H m hs) := by
  obtain ⟨op, origin, ts, ls, nodes⟩ := m
  cases op with
  | ensureList =>
    cases hcs with
    | nil => exact hh
    | cons hc _ =>
      obtain ⟨db', hdb, -, hh'⟩ := hh.mergeIncoming hK hL hk hc hC.1
      simp only [Node.applyMessage, hdb]
      exact hh'
  | deleteList =>
    cases hcs with
    | nil => exact hh
    | cons hc _ => exact hh.deleteList _
  | gossipLists =>
    obtain ⟨db', hdb, -, hh'⟩ := Holds.mergeAll hK hL hcs 0 db H hh hk hC
    simp only [Node.applyMessage, hdb]
    exact hh'
  | _ => exact hh

/-- Applying a message of copies does not throw, if the message has a list. -/
theorem applyMessage_ok (hK : Kept Q C) (hL : Logged lists log) (hh : Holds Q log db H)
    (hk : db.Keyed) {m : Message} {hs : List (Finset ℕ)} (hcs : List.Forall₂ (Q log) hs m.lists)
    (hC : MeetsMessage C log db H m hs) (hne : m.lists ≠ []) :
    ∃ db', Node.applyMessage (fun _ => .ok) db m = .ok db' := by
  obtain ⟨op, origin, ts, ls, nodes⟩ := m
  cases op with
  | ensureList =>
    cases hcs with
    | nil => exact absurd rfl hne
    | cons hc _ =>
      obtain ⟨db', hdb, -⟩ := hh.mergeIncoming hK hL hk hc hC.1
      exact ⟨db', hdb⟩
  | deleteList =>
    cases hcs with
    | nil => exact absurd rfl hne
    | cons hc _ => exact ⟨_, rfl⟩
  | gossipLists =>
    obtain ⟨db', hdb, -⟩ := Holds.mergeAll hK hL hcs 0 db H hh hk hC
    exact ⟨db', hdb⟩
  | _ => exact ⟨db, rfl⟩

/-- The lists that are gossiped are rows. -/
theorem readAll (hh : Holds Q log db H) (hk : db.Keyed) (c : Calls) :
    List.Forall₂ (Q log) ((db.readAll c).map fun l => H l.key) (db.readAll c) := by
  rw [List.forall₂_map_left_iff, List.forall₂_same]
  intro l hl
  obtain ⟨key, hrow⟩ := SqliteDb.mem_readAll hl
  rw [hk key l hrow]
  exact hh.row key l hrow

end Holds

/-! ### The invariant -/

variable {ι κ : Type*} [DecidableEq ι] [DecidableEq κ]

/-- Every list is a copy with its recorded history. -/
structure Reflected (Q : HistProp) (w : World ι κ) (g : Trace ι κ) : Prop where
  logged : Logged lists g.log
  node : ∀ i, Holds Q g.log (w.node i).node.db (g.node i)
  client : ∀ k, Holds Q g.log (w.client k).api.db (g.client k)
  edit : ∀ k c lst, (w.client k).call = some (c, .edit lst) → Q g.log (g.call k) lst
  get : ∀ k c listUid found, (w.client k).call = some (c, .get listUid found) →
    (found = none → g.call k = ∅) ∧ ∀ l, found = some l → Q g.log (g.call k) l
  net : List.Forall₂ (fun pkt hs => List.Forall₂ (Q g.log) hs pkt.frame.lists) w.net g.net

variable {D : Deployment ι κ} {w w' : World ι κ} {g g' : Trace ι κ} {a : Action ι κ}

theorem Holds.empty (log : List Update) : Holds Q log {} fun _ => ∅ where
  row := by intro key l h; cases h
  absent := by intro key _; rfl

omit [DecidableEq ι] [DecidableEq κ] in
theorem Reflected.init (Q : HistProp) (D : Deployment ι κ) : Reflected Q (World.init D) {} where
  logged := Logged.nil
  node _ := Holds.empty []
  client _ := Holds.empty []
  edit := by intro k c lst h; cases h
  get := by intro k c listUid found h; cases h
  net := List.Forall₂.nil

omit [DecidableEq ι] [DecidableEq κ] in
/-- The histories of a delivered packet's lists. -/
theorem Reflected.carried (hr : Reflected Q w g) {p : ℕ} {pkt : Packet κ} (hp : w.net[p]? = some pkt) :
    List.Forall₂ (Q g.log) (g.carried p) pkt.frame.lists := by
  have hlen := (List.getElem?_eq_some_iff.1 hp).1
  have hlen' : p < g.net.length := by rw [← hr.net.length_eq]; exact hlen
  have := hr.net.get hlen hlen'
  rw [Trace.carried, List.getElem?_eq_getElem hlen', Option.getD_some]
  obtain ⟨-, rfl⟩ := List.getElem?_eq_some_iff.1 hp
  exact this

omit [DecidableEq ι] [DecidableEq κ] in
theorem sent_append {w w' : World ι κ} {ps : List (Packet κ)} (h : w'.net = w.net ++ ps) :
    Trace.sent w w' = ps := by
  rw [Trace.sent, h, List.drop_left]

/-- What a node may send, with the histories `H` after its handler and `echo` for a reply. -/
def Sends (Q : HistProp) (log : List Update) (H : Histories) (echo : Finset ℕ) (s : Sent) : Prop :=
  (∃ dests frame, s = .gossip dests frame ∧
      List.Forall₂ (Q log) (frame.lists.map fun l => H l.key) frame.lists) ∨
    (∃ dests frame, s = .discovery dests frame ∧ frame.lists = []) ∨
    ∃ frame, s = .reply frame ∧ ∀ l ∈ frame.lists, Q log echo l

omit [DecidableEq κ] in
theorem Reflected.place (hr : Reflected Q w g) {i : ι} {n : Node} {running : Bool}
    {call : Option (κ × ℕ)} {H : Histories} {echo : Finset ℕ} (hh : Holds Q g.log n.db H)
    (hsent : ∀ s ∈ n.sent, Sends Q g.log H echo s) :
    Reflected Q (w.place i n running call) (g.handled w (w.place i n running call) i H echo) := by
  constructor
  · exact hr.logged
  · intro j
    simp only [World.place, Trace.handled, Function.update_apply]
    split
    · exact hh
    · exact hr.node j
  · exact hr.client
  · exact hr.edit
  · exact hr.get
  · have hs : Trace.sent w (w.place i n running call) = n.sent.filterMap (World.packet call) :=
      sent_append rfl
    simp only [Trace.handled, hs]
    refine List.rel_append hr.net ?_
    -- the new packets are what the node sent, and each has the histories of what it carries
    rw [List.forall₂_map_right_iff, List.forall₂_same]
    intro pkt hpkt
    obtain ⟨s, hmem, hp⟩ := List.mem_filterMap.1 hpkt
    rcases hsent s hmem with ⟨dests, frame, rfl, hf⟩ | ⟨dests, frame, rfl, hf⟩ | ⟨frame, rfl, hf⟩
    · cases hp; exact hf
    · cases hp
      simp only [Trace.packet, Packet.frame, hf]
      exact List.Forall₂.nil
    · obtain ⟨kc, -, rfl⟩ := Option.map_eq_some_iff.1 hp
      simp only [Trace.packet, Packet.frame]
      rw [List.forall₂_map_left_iff, List.forall₂_same]
      exact hf

/-- A reply that a handler sends alone. -/
theorem sends_reply {n : Node} (hn : n.sent = []) {H : Histories} {echo : Finset ℕ} {frame : Frame}
    (hf : ∀ l ∈ frame.lists, Q log echo l) : ∀ s ∈ (n.reply frame).sent, Sends Q log H echo s := by
  intro s hs
  rw [Node.reply_sent, hn, List.nil_append, List.mem_singleton] at hs
  exact Or.inr (Or.inr ⟨frame, hs, hf⟩)

omit [DecidableEq ι] [DecidableEq κ] in
/-- What `handle_client_frame` stores and sends. -/
theorem Reflected.clientTurn (hK : Kept Q C) (hr : Reflected Q w g) (hm : Matched D w) {i : ι}
    {m : Message} {hs : List (Finset ℕ)} (hcs : List.Forall₂ (Q g.log) hs m.lists)
    (hC : (w.node i).node.Accepts (D.pf i) m →
      MeetsMessage C g.log (w.node i).node.db (g.node i) m hs)
    (now : ℕ → UInt64) {r : Method Node}
    (ht : Node.ClientTurn (D.pf i) { now } (w.node i).node (.packed m) r) :
    Holds Q g.log r.state.db (Trace.served (D.pf i) (w.node i).node (g.node i) (some m) hs) ∧
      ∀ s ∈ r.state.sent, Sends Q g.log (Trace.served (D.pf i) (w.node i).node (g.node i) (some m) hs)
        (Trace.replied (g.node i) (some m) hs) s := by
  have hnode := hr.node i
  have hsent := hm.sent i
  have hnone : ∀ {H echo}, ∀ s ∈ (w.node i).node.sent, Sends Q g.log H echo s := by
    intro H echo s hs; rw [hsent] at hs; cases hs
  have happlied := fun hacc => hnode.applyMessage hK hr.logged (hm.nodeKey i) hcs (hC hacc)
  have hkeyed := Node.applyMessage_keyed (fun _ => .ok) (hm.nodeKey i) m
  cases ht with
  | undecodable hd => cases hd
  | nodes m hd hop =>
    cases hd
    rw [Trace.served_read (Or.inl hop)]
    exact ⟨hnode, sends_reply hsent (by intro l hl; cases hl)⟩
  | empty m hd hop hl =>
    cases hd
    rw [Trace.served_empty hl]
    exact ⟨hnode, hnone⟩
  | refused m l ls hd hop hl hsh =>
    cases hd
    rw [Trace.served_refused hl hsh]
    exact ⟨hnode, sends_reply hsent (by intro l hl; cases hl)⟩
  | found m l ls row hd hop hl hsh hrow =>
    cases hd
    rw [Trace.served_read (Or.inr hop), Trace.replied_get hop hl]
    refine ⟨hnode, sends_reply hsent ?_⟩
    intro l' hl'
    obtain rfl := List.mem_singleton.1 hl'
    exact hnode.row _ _ hrow
  | absent m l ls hd hop hl hsh hrow =>
    cases hd
    rw [Trace.served_read (Or.inr hop), Trace.replied_get hop hl]
    refine ⟨hnode, sends_reply hsent ?_⟩
    intro l' hl'
    obtain rfl := List.mem_singleton.1 hl'
    -- a fresh list reflects no write
    have : g.node i l.key = ∅ := hnode.absent _ hrow
    rw [this]
    exact hK.new _ _ _
  -- the lists before the one that throws are stored
  | thrown m l ls e db hd hop hop' hl hsh ha =>
    cases hd
    rw [Trace.served_accepted hl hsh]
    have hstate : (Node.applyMessage (fun _ => .ok) (w.node i).node.db m).state = db :=
      congrArg Throws.state ha
    rw [hstate] at happlied
    exact ⟨happlied ⟨l, by rw [hl]; rfl, hsh⟩, hnone⟩
  | applied m l ls db hd hop hop' hl hsh ha =>
    cases hd
    rw [Trace.served_accepted hl hsh, Trace.replied_other hop']
    have hstate : (Node.applyMessage (fun _ => .ok) (w.node i).node.db m).state = db :=
      congrArg Throws.state ha
    rw [hstate] at happlied hkeyed
    replace happlied := happlied ⟨l, by rw [hl]; rfl, hsh⟩
    obtain ⟨new, he, hg⟩ := Node.eagerFanout_eq { now } { (w.node i).node with db }
    rw [he]
    refine ⟨happlied, ?_⟩
    intro s hmem
    simp only [Throws.state, Node.reply_sent, hsent, List.nil_append, List.mem_append,
      List.mem_singleton] at hmem
    -- gossip carries what is stored now, the reply what the client sent
    rcases hmem with hmem | rfl
    · obtain ⟨now', c, rfl⟩ := hg s hmem
      exact Or.inl ⟨_, _, rfl, happlied.readAll hkeyed c⟩
    · refine Or.inr (Or.inr ⟨_, rfl, ?_⟩)
      intro l' hl'
      obtain rfl := List.mem_singleton.1 hl'
      rw [hl] at hcs
      cases hcs with
      | cons hc _ => exact hc

omit [DecidableEq ι] [DecidableEq κ] in
/-- What `handle_gossip_frame` stores; it sends nothing. -/
theorem Reflected.gossipTurn (hK : Kept Q C) (hr : Reflected Q w g) (hm : Matched D w) (i : ι)
    (frame : Frame) {hs : List (Finset ℕ)} (hf : frame.Proper)
    (hcs : List.Forall₂ (Q g.log) hs frame.lists)
    (hC : ∀ m ∈ frame.decode (D.pf i), m.op = .gossipLists →
      MeetsMessage C g.log (w.node i).node.db (g.node i) m hs)
    (now : ℕ → UInt64) :
    Holds Q g.log ((w.node i).node.handleGossipFrame (D.pf i) { now } frame).state.db
        (Trace.gossiped (g.node i) (frame.decode (D.pf i)) hs) ∧
      ((w.node i).node.handleGossipFrame (D.pf i) { now } frame).state.sent = [] := by
  rcases hf with rfl | ⟨m, rfl, -⟩
  · simp only [Node.handleGossipFrame, Frame.decode_wrongShard, Throws.state]
    exact ⟨hr.node i, hm.sent i⟩
  · have happlied := fun ho =>
      (hr.node i).applyMessage hK hr.logged (hm.nodeKey i) hcs (hC m (Frame.decode_packed _ _) ho)
    simp only [Node.handleGossipFrame, Frame.decode_packed, Trace.gossiped]
    by_cases ho : m.op = .gossipLists
    · simp only [if_pos ho]
      cases ha : Node.applyMessage (fun _ => Calls.ok) (w.node i).node.db m with
      | ok db => rw [ha] at happlied; exact ⟨happlied ho, hm.sent i⟩
      | error x => rw [ha] at happlied; exact ⟨happlied ho, hm.sent i⟩
    · simp only [if_neg ho]
      exact ⟨hr.node i, hm.sent i⟩

/-- What a call has to hold to end well. -/
structure CallHolds (Q : HistProp) (log : List Update) (h : Finset ℕ) (c : ClientState) : Prop where
  edit : ∀ n lst, c.call = some (n, .edit lst) → Q log h lst
  get : ∀ n listUid found, c.call = some (n, .get listUid found) →
    (found = none → h = ∅) ∧ ∀ l, found = some l → Q log h l

/-- A call that is to store nothing holds nothing. -/
theorem CallHolds.of_key {c : ClientState}
    (h : ∀ n pending, c.call = some (n, pending) → pending.key = none) (log : List Update)
    (hist : Finset ℕ) : CallHolds Q log hist c where
  edit := by intro n lst hc; cases h n _ hc
  get := by intro n listUid found hc; cases h n _ hc

theorem CallHolds.idle {c : ClientState} (h : c.call = none) (log : List Update) (hist : Finset ℕ) :
    CallHolds Q log hist c :=
  CallHolds.of_key (by intro n pending hc; rw [h] at hc; cases hc) log hist

theorem CallHolds.mono (hK : Kept Q C) (hL : Logged lists log) {c : ClientState} (hp : log <+: log')
    (hc : CallHolds Q log h c) : CallHolds Q log' h c where
  edit n lst hn := hK.mono hL hp (hc.edit n lst hn)
  get n listUid found hn :=
    ⟨(hc.get n listUid found hn).1, fun l hl => hK.mono hL hp ((hc.get n listUid found hn).2 l hl)⟩

omit [DecidableEq ι] [DecidableEq κ] in
theorem Reflected.callHolds (hr : Reflected Q w g) (k : κ) :
    CallHolds Q g.log (g.call k) (w.client k) := ⟨hr.edit k, hr.get k⟩

omit [DecidableEq ι] in
theorem Reflected.client_step (hK : Kept Q C) (hr : Reflected Q w g) {k : κ} {c' : ClientState}
    {ps : List (Packet κ)} {news : List (List (Finset ℕ))} (hp : g.log <+: g'.log) (hL : Logged lists g'.log)
    (hnode : g'.node = g.node)
    (hother : ∀ j, j ≠ k → g'.client j = g.client j ∧ g'.call j = g.call j)
    (hstore : Holds Q g'.log c'.api.db (g'.client k)) (hcall : CallHolds Q g'.log (g'.call k) c')
    (hnet : g'.net = g.net ++ news)
    (hnews : List.Forall₂ (fun pkt hs => List.Forall₂ (Q g'.log) hs pkt.frame.lists) ps news) :
    Reflected Q { w with client := Function.update w.client k c', net := w.net ++ ps } g' := by
  have hcalls : ∀ j, CallHolds Q g'.log (g'.call j) (Function.update w.client k c' j) := by
    intro j
    by_cases hj : j = k
    · subst hj; rw [Function.update_self]; exact hcall
    · rw [Function.update_of_ne hj, (hother j hj).2]
      exact (hr.callHolds j).mono hK hr.logged hp
  constructor
  · exact hL
  · intro i; rw [hnode]; exact (hr.node i).mono hK hr.logged hp
  · intro j
    dsimp only
    by_cases hj : j = k
    · subst hj; rw [Function.update_self]; exact hstore
    · rw [Function.update_of_ne hj, (hother j hj).1]; exact (hr.client j).mono hK hr.logged hp
  · exact fun j => (hcalls j).edit
  · exact fun j => (hcalls j).get
  · rw [hnet]
    -- packets in flight keep their histories
    refine List.rel_append ?_ hnews
    refine List.Forall₂.imp ?_ hr.net
    intro pkt hs hcs
    exact List.Forall₂.imp (fun h l hc => hK.mono hr.logged hp hc) hcs

omit [DecidableEq κ] in
theorem called_news {ps : List (Packet κ)} {f : ShoppingList → Finset ℕ}
    (hf : ∀ pkt ∈ ps, ∀ l ∈ pkt.frame.lists, Q log (f l) l) :
    List.Forall₂ (fun pkt hs => List.Forall₂ (Q log) hs pkt.frame.lists) ps
      (ps.map fun pkt => pkt.frame.lists.map f) := by
  rw [List.forall₂_map_right_iff, List.forall₂_same]
  intro pkt hpkt
  rw [List.forall₂_map_left_iff, List.forall₂_same]
  exact hf pkt hpkt

omit [DecidableEq ι] in
/-- A client's request with a list that reflects nothing, or with none. -/
theorem Reflected.request_blank (hK : Kept Q C) (hr : Reflected Q w g) {k : κ} {c' : ClientState}
    {p : Packet κ}
    (hw : w' = { w with client := Function.update w.client k c', net := w.net ++ [p] })
    (hlog : g'.log = g.log) (hnode : g'.node = g.node)
    (hother : ∀ j, j ≠ k → g'.client j = g.client j ∧ g'.call j = g.call j)
    (hnet : g'.net = (g.called w w' fun _ => ∅).net)
    (hstore : Holds Q g.log c'.api.db (g'.client k)) (hcall : CallHolds Q g.log (g'.call k) c')
    (hblank : ∀ l ∈ p.frame.lists, l.items = {}) : Reflected Q w' g' := by
  have hs : Trace.sent w w' = [p] := sent_append (by rw [hw])
  rw [← hlog] at hstore hcall
  have hL := hr.logged
  rw [← hlog] at hL
  rw [hw]
  refine hr.client_step hK (hlog ▸ List.prefix_refl _) hL hnode hother hstore hcall hnet ?_
  rw [hs]
  refine called_news ?_
  intro pkt hpkt l hl
  obtain rfl := List.mem_singleton.1 hpkt
  exact hK.blank (hblank l hl)

omit [DecidableEq ι] in
/-- A client that sends nothing. -/
theorem Reflected.setClient (hK : Kept Q C) (hr : Reflected Q w g) {k : κ} {c' : ClientState}
    (hlog : g'.log = g.log) (hnode : g'.node = g.node)
    (hother : ∀ j, j ≠ k → g'.client j = g.client j ∧ g'.call j = g.call j) (hnet : g'.net = g.net)
    (hstore : Holds Q g.log c'.api.db (g'.client k)) (hcall : CallHolds Q g.log (g'.call k) c') :
    Reflected Q (w.setClient k c') g' := by
  rw [← hlog] at hstore hcall
  have hL := hr.logged
  rw [← hlog] at hL
  rw [World.setClient_eq]
  refine hr.client_step hK (hlog ▸ List.prefix_refl _) hL hnode hother hstore hcall ?_
    List.Forall₂.nil
  rw [hnet, List.append_nil]

omit [DecidableEq ι] [DecidableEq κ] in
/-- What the answer of an exchange gives the client: no list, or a copy of the key that
its call is about. -/
theorem Reflected.answer (hr : Reflected Q w g) (hm : Matched D w) {k : κ} {call : ℕ}
    {pending : Pending} {reply : Option Message} {hs : List (Finset ℕ)}
    (hc : (w.client k).call = some (call, pending))
    (hreply : reply = none ∨ ∃ (p : ℕ) (frame : Frame), a = .reply k p ∧
      w.net[p]? = some (Packet.reply k call frame) ∧ reply = frame.decode (D.clientPf k) ∧
        hs = g.carried p) :
    ¬ API.NoList reply ∧ ((API.cloudList reply = none ∧ Trace.merged reply hs = none) ∨
      ∃ l, API.cloudList reply = some l ∧ Trace.merged reply hs = some (hs.headD ∅) ∧
        Q g.log (hs.headD ∅) l ∧ ∀ key, pending.key = some key → l.key = key) := by
  rcases hreply with rfl | ⟨p, frame, -, hp, rfl, rfl⟩
  · refine ⟨?_, Or.inl ⟨rfl, rfl⟩⟩
    rintro ⟨m, h, -⟩; cases h
  have hmem := List.mem_of_getElem? hp
  have hcs : List.Forall₂ (Q g.log) (g.carried p) frame.lists := hr.carried hp
  rcases hm.frames _ hmem with hf | ⟨m, hf, hne⟩
  · -- the raw answer has no list
    obtain rfl : frame = .raw wrongShard := hf
    rw [Frame.decode_wrongShard]
    refine ⟨?_, Or.inl ⟨rfl, rfl⟩⟩
    rintro ⟨m, h, -⟩; cases h
  obtain rfl : frame = .packed m := hf
  rw [Frame.decode_packed]
  by_cases ho : m.op = .listResponse
  · cases hl : m.lists with
    | nil => exact absurd hl (hne ho)
    | cons l ls =>
      rw [Frame.lists, hl] at hcs
      refine ⟨?_, Or.inr ⟨l, API.cloudList_cons ho hl, ?_, ?_, ?_⟩⟩
      · rintro ⟨m', h, -, hl'⟩; cases h; rw [hl] at hl'; cases hl'
      · simp only [Trace.merged, if_pos ho]
      · revert hcs
        generalize g.carried p = hs
        intro hcs
        cases hcs with
        | cons hc _ => exact hc
      · intro key hkey
        refine hm.keys k call pending key hc hkey _ hmem rfl l ?_
        show l ∈ m.lists
        rw [hl]; exact List.mem_cons_self
  · refine ⟨?_, Or.inl ⟨API.cloudList_other ho, ?_⟩⟩
    · rintro ⟨m', h, ho', -⟩; cases h; exact ho ho'
    · simp only [Trace.merged, if_neg ho]

omit [DecidableEq ι] in
/-- A call that ends without storing anything. -/
theorem Reflected.idle (hK : Kept Q C) (hr : Reflected Q w g) (k : κ) :
    Reflected Q (w.setClient k { w.client k with call := none }) g :=
  hr.setClient hK rfl rfl (fun _ _ => ⟨rfl, rfl⟩) rfl (hr.client k) (CallHolds.idle rfl _ _)

omit [DecidableEq ι] in
/-- A call that ends by storing a copy. -/
theorem Reflected.stores (hK : Kept Q C) (hr : Reflected Q w g) {k : κ} (hc : Q g.log h r) :
    Reflected Q (w.setClient k { w.client k with api := (w.client k).api.stored r .ok, call := none })
      { g with client := Function.update g.client k (Function.update (g.client k) r.key h) } := by
  refine hr.setClient hK rfl rfl ?_ rfl ?_ (CallHolds.idle rfl _ _)
  · intro j hj; exact ⟨Function.update_of_ne hj _ _, rfl⟩
  · dsimp only
    rw [Function.update_self]
    exact (hr.client k).write hc

omit [DecidableEq ι] in
theorem Reflected.ends (hK : Kept Q C) (hr : Reflected Q w g) (hm : Matched D w) {k : κ} {call : ℕ}
    {pending : Pending} {reply : Option Message} {hs : List (Finset ℕ)}
    (hc : (w.client k).call = some (call, pending))
    (hreply : reply = none ∨ ∃ (p : ℕ) (frame : Frame), a = .reply k p ∧
      w.net[p]? = some (Packet.reply k call frame) ∧ reply = frame.decode (D.clientPf k) ∧
        hs = g.carried p)
    (hC : ∀ mine ∈ pending.list, ∀ l ∈ API.cloudList reply,
      C g.log (g.call k) mine (hs.headD ∅) l) (he : Ends w k pending reply w') :
    Reflected Q w' (g.finished k pending (Trace.merged reply hs)) := by
  obtain ⟨hno, hans⟩ := hr.answer hm hc hreply
  cases he with
  | idle _ _ hp => rcases hp with rfl | rfl <;> exact hr.idle hK k
  | failed _ _ hf =>
    rcases hf with hf | ⟨listUid, rfl, hcl⟩ | ⟨listUid, mine, l, x, rfl, hcl, herr⟩
    · exact absurd hf hno
    · rcases hans with ⟨-, hme⟩ | ⟨l, hcl', -⟩
      · rw [hme]; exact hr.idle hK k
      · rw [hcl] at hcl'; cases hcl'
    · -- copies of one key merge
      exfalso
      rcases hans with ⟨hcl', -⟩ | ⟨l', hcl', -, hcopy, hkey⟩
      · rw [hcl] at hcl'; cases hcl'
      · rw [hcl] at hcl'; cases hcl'
        have hmine := ((hr.get k call listUid _ hc).2 mine rfl)
        have hk : mine.key = l.key := by
          rw [hm.found k call listUid mine hc, hkey _ rfl]
        obtain ⟨r, hok, -⟩ := hK.merge_ok hr.logged hmine hcopy hk (hC mine rfl l hcl)
        rw [hok] at herr; cases herr
  -- an update stores its own copy, merged with the list of the answer if there is one
  | edited lst r _ hres =>
    have hlst := hr.edit k call lst hc
    rcases hans with ⟨hcl, hme⟩ | ⟨l, hcl, hme, hcopy, hkey⟩
    · rcases hres with ⟨-, rfl⟩ | ⟨l', hcl', -⟩
      · rw [hme]
        have := hr.stores hK (k := k) hlst
        simp only [Trace.finished, Option.getD_none, Finset.union_empty]
        exact this
      · rw [hcl] at hcl'; cases hcl'
    · rcases hres with ⟨hcl', -⟩ | ⟨l', hcl', rfl⟩
      · rw [hcl] at hcl'; cases hcl'
      · rw [hcl] at hcl'; cases hcl'
        obtain ⟨r, hok, hrk, hrc⟩ :=
          hK.merge_ok hr.logged hlst hcopy (hkey _ rfl).symm (hC lst rfl l hcl)
        rw [hok, hme]
        have := hr.stores hK (k := k) hrc
        simp only [Trace.finished, Option.getD_some]
        rw [hrk] at this
        exact this
  -- a get stores what it found, what came back, or the merge of the two
  | got listUid found r _ hres =>
    obtain ⟨hget0, hget1⟩ := hr.get k call listUid found hc
    rcases hans with ⟨hcl, hme⟩ | ⟨l, hcl, hme, hcopy, hkey⟩
    · rcases hres with ⟨-, rfl⟩ | ⟨hcl', -⟩ | ⟨l', mine, hcl', -⟩
      · rw [hme]
        have := hr.stores hK (k := k) (hget1 r rfl)
        simp only [Trace.finished, Option.getD_none, Finset.union_empty]
        rw [hm.found k call listUid r hc] at this
        exact this
      · rw [hcl] at hcl'; cases hcl'
      · rw [hcl] at hcl'; cases hcl'
    · rcases hres with ⟨hcl', -⟩ | ⟨hcl', rfl⟩ | ⟨l', mine, hcl', rfl, hok⟩
      · rw [hcl] at hcl'; cases hcl'
      · rw [hcl] at hcl'; cases hcl'
        have := hr.stores hK (k := k) hcopy
        rw [hme]
        simp only [Trace.finished, Option.getD_some, hget0 rfl, Finset.empty_union]
        rw [hkey _ rfl] at this
        exact this
      · rw [hcl] at hcl'; cases hcl'
        have hk : mine.key = l.key := by
          rw [hm.found k call listUid mine hc, hkey _ rfl]
        obtain ⟨r', hok', hrk, hrc⟩ :=
          hK.merge_ok hr.logged (hget1 mine rfl) hcopy hk (hC mine rfl l hcl)
        rw [hok] at hok'; cases hok'
        have := hr.stores hK (k := k) hrc
        rw [hme]
        simp only [Trace.finished, Option.getD_some]
        rw [hrk, hm.found k call listUid mine hc] at this
        exact this

omit [DecidableEq ι] in
/-- An update logs the copy it makes. -/
theorem Reflected.edited (hK : Kept Q C) (hr : Reflected Q w g) (hm : Matched D w) {k : κ}
    {listUid : Str} {op : Op} {base lst : ShoppingList} {now : UInt64} {ep : Str}
    (hb : (w.client k).api.db.rows.lookup (cstr listUid) = some base)
    (he : op.apply (w.client k).api.origin base = .ok lst)
    (hw : w' = w.sendRequest k (w.client k).api ep
      (Message.ensureList (w.client k).api.origin now lst) (.edit lst)) :
    Reflected Q w' (g.edited D w w' k listUid op) := by
  have hs : Trace.sent w w' = [.request k (w.client k).calls ep
      (.packed (Message.ensureList (w.client k).api.origin now lst))] := sent_append (by rw [hw]; rfl)
  have hcall : (w'.client k).call = some ((w.client k).calls, .edit lst) := by
    rw [hw, World.sendRequest]; dsimp only; rw [Function.update_self]
  have hp : g.log <+: g.log ++ [⟨D.origin k, op, base, lst,
      insert g.log.length (g.client k (cstr listUid))⟩] := List.prefix_append _ _
  have hbase : Q g.log (g.client k (cstr listUid)) base := (hr.client k).row _ _ hb
  rw [hm.origin] at he
  -- the history of the new copy is that of the old one and the write itself
  have hL := hr.logged.append (e := ⟨D.origin k, op, base, lst, _⟩) (hK.copy hbase) rfl ⟨rfl, he⟩
  have hcopy : Q (g.log ++ [⟨D.origin k, op, base, lst,
      insert g.log.length (g.client k (cstr listUid))⟩])
      (insert g.log.length (g.client k (cstr listUid))) lst := hK.update hr.logged hbase he
  have hread : (w.client k).api.db.read listUid .ok = some base := hb
  simp only [Trace.edited, hread, hcall]
  subst hw
  refine hr.client_step hK hp hL rfl ?_ ((hr.client k).mono hK hr.logged hp) ?_ rfl ?_
  · intro j hj; exact ⟨rfl, Function.update_of_ne hj _ _⟩
  · dsimp only
    rw [Function.update_self]
    constructor
    · intro n lst' hn; cases hn; exact hcopy
    · intro n listUid found hn; cases hn
  · rw [hs]
    refine called_news ?_
    intro pkt hpkt l hl
    obtain rfl := List.mem_singleton.1 hpkt
    obtain rfl := List.mem_singleton.1 hl
    exact hcopy

omit [DecidableEq ι] in
/-- Requests with stored lists. -/
theorem Reflected.batches (hK : Kept Q C) (hr : Reflected Q w g) (hm : Matched D w) {k : κ}
    {now : UInt64} {pick : Int32 → ℕ} {batches : List (Str × Message)}
    (hb : (w.client k).api.gossipState (D.clientPf k) now pick .ok = some batches)
    (hw : w' = { w with
      client := Function.update w.client k
        { w.client k with calls := (w.client k).calls + batches.length }
      net := w.net ++ World.gossipRequests k (w.client k).calls batches }) :
    Reflected Q w' (g.called w w' fun l => g.client k l.key) := by
  have hs : Trace.sent w w' = World.gossipRequests k (w.client k).calls batches :=
    sent_append (by rw [hw])
  subst hw
  refine hr.client_step hK (List.prefix_refl _) hr.logged rfl (fun _ _ => ⟨rfl, rfl⟩) (hr.client k)
    ⟨hr.edit k, hr.get k⟩ rfl ?_
  rw [hs]
  refine called_news ?_
  intro pkt hpkt l hl
  obtain ⟨j, hj, rfl⟩ := List.mem_mapIdx.1 hpkt
  obtain ⟨batch, hbatch, first, ep, -, -, hreq⟩ := API.mem_gossipState hb (List.getElem_mem hj)
  rw [hreq] at hl
  have hl' : l ∈ batch.2 := hl
  rw [(API.mem_gossipBatches hbatch).2] at hl'
  obtain ⟨key, hrow⟩ := SqliteDb.mem_readAll (List.mem_of_mem_filter hl')
  rw [hm.clientKey k key l hrow]
  exact (hr.client k).row key l hrow

/-- The merges of a step meet `C`: those of a node's handlers, and that of a client's call
when its answer arrives. -/
def Meets (C : MergeCond) (D : Deployment ι κ) (s : Traced ι κ) : Action ι κ → Prop
  | .clientFrame i p _ => ∀ m ∈ Trace.received (D.pf i) s.1 p, (s.1.node i).node.Accepts (D.pf i) m →
    MeetsMessage C s.2.log (s.1.node i).node.db (s.2.node i) m (s.2.carried p)
  | .gossipFrame i p _ => ∀ m ∈ Trace.received (D.pf i) s.1 p, m.op = .gossipLists →
    MeetsMessage C s.2.log (s.1.node i).node.db (s.2.node i) m (s.2.carried p)
  | .reply k p => ∀ call ∈ (s.1.client k).call, ∀ mine ∈ call.2.list,
    ∀ l ∈ API.cloudList (Trace.received (D.clientPf k) s.1 p),
      C s.2.log (s.2.call k) mine ((s.2.carried p).headD ∅) l
  | _ => True

instance [∀ log h l h' l', Decidable (C log h l h' l')] (s : Traced ι κ) (a : Action ι κ) :
    Decidable (Meets C D s a) := by
  unfold Meets; split <;> infer_instance

/-- **Every step whose merges meet the condition keeps it.** -/
theorem Reflected.step (hK : Kept Q C) (hr : Reflected Q w g) (hm : Matched D w)
    (hC : Meets C D (w, g) a) (h : World.step D w a = some w') :
    Reflected Q w' (Trace.track D w a w' g) := by
  have hshape := step_shape h g
  generalize Trace.track D w a w' g = g' at hshape
  cases hshape with
  | quiet _ i n running hcfg hdb hsent =>
    refine hr.place (by rw [hdb]; exact hr.node i) ?_
    intro s hs
    rcases hsent s hs with hs | ⟨now, c, rfl⟩ | ⟨dests, now, nodes, rfl⟩
    · rw [hm.sent] at hs; cases hs
    · exact Or.inl ⟨_, _, rfl, (hr.node i).readAll (hm.nodeKey i) c⟩
    · exact Or.inr (Or.inl ⟨_, _, rfl, rfl⟩)
  | clientFrame i p now k c dest frame _ hp hd hw =>
    subst hw
    have ht := Node.handleClientFrame_turn (D.pf i) { now } (w.node i).node frame
    have hcs : List.Forall₂ (Q g.log) (g.carried p) frame.lists := hr.carried hp
    simp only [Meets, received_eq hp] at hC
    rw [settle_eq_place]
    rcases hm.frames _ (List.mem_of_getElem? hp) with hf | ⟨m, hf, -⟩
    · -- no client sends the raw frame, and a node could not decode it
      obtain rfl : frame = .raw wrongShard := hf
      have hd := Frame.decode_wrongShard (D.pf i)
      have hstate : ((w.node i).node.handleClientFrame (D.pf i) { now } (.raw wrongShard)).state =
          (w.node i).node := by simp only [Node.handleClientFrame, hd]; rfl
      rw [hstate]
      refine hr.place ?_ ?_
      · rw [hd]; exact hr.node i
      · intro s hs; rw [hm.sent] at hs; cases hs
    · obtain rfl : frame = .packed m := hf
      obtain ⟨hh, hsent⟩ := hr.clientTurn hK hm hcs (hC m (Frame.decode_packed _ _)) now ht
      exact hr.place hh hsent
  | gossipFrame i p now dests frame _ hp hw =>
    subst hw
    have hcs : List.Forall₂ (Q g.log) (g.carried p) frame.lists := hr.carried hp
    simp only [Meets, received_eq hp] at hC
    obtain ⟨hh, hs⟩ := hr.gossipTurn hK hm i frame
      (hm.frames _ (List.mem_of_getElem? hp)) hcs hC now
    rw [settle_eq_place]
    refine hr.place hh ?_
    intro s hmem; rw [hs] at hmem; cases hmem
  | create k name uid now pick ep _ hc hu hw =>
    have hnone : (w.client k).api.db.rows.lookup (cstr uid) = none :=
      Option.isNone_iff_eq_none.1 hu.2.2
    have hstore := (hr.client k).write (hK.new g.log uid name)
    -- the new list has no history, which is what is recorded for the absent key
    have hkeep : Function.update (g.client k) (ShoppingList.new uid name).key ∅ = g.client k :=
      Function.update_eq_self_iff.2 ((hr.client k).absent _ hnone).symm
    rw [hkeep] at hstore
    refine hr.request_blank hK hw rfl rfl (fun _ _ => ⟨rfl, rfl⟩) rfl hstore ?_ ?_
    · exact CallHolds.of_key (by intro n pending hn; cases hn; rfl) _ _
    · intro l hl; obtain rfl := List.mem_singleton.1 hl; rfl
  | get k listUid now pick ep _ hc hw =>
    refine hr.request_blank hK hw rfl rfl ?_ rfl (hr.client k) ?_ ?_
    · intro j hj; exact ⟨rfl, Function.update_of_ne hj _ _⟩
    · dsimp only
      rw [Function.update_self]
      constructor
      · intro n lst hn; cases hn
      · intro n uid found hn
        cases hn
        exact ⟨(hr.client k).absent _, fun l hl => (hr.client k).row _ l hl⟩
    · intro l hl; obtain rfl := List.mem_singleton.1 hl; rfl
  | edit _ k listUid op base lst now ep _ hc hb he hw => exact hr.edited hK hm hb he hw
  | delete k listUid now pick ep _ hc hw =>
    refine hr.request_blank hK hw rfl rfl ?_ rfl ?_ ?_ ?_
    · intro j hj; exact ⟨Function.update_of_ne hj _ _, rfl⟩
    · dsimp only
      rw [Function.update_self]
      exact (hr.client k).deleteList listUid
    · exact CallHolds.of_key (by intro n pending hn; cases hn; rfl) _ _
    · intro l hl; obtain rfl := List.mem_singleton.1 hl; rfl
  | batches k now pick batches _ hb hw => exact hr.batches hK hm hb hw
  | refresh k now pick ep _ hw =>
    exact hr.request_blank hK hw rfl rfl (fun _ _ => ⟨rfl, rfl⟩) rfl (hr.client k)
      ⟨hr.edit k, hr.get k⟩ (by intro l hl; cases hl)
  | finish _ k call pending reply hs hc hreply =>
    refine hr.ends hK hm hc hreply ?_ (finish_ends w k pending reply)
    intro mine hmine l hl
    rcases hreply with rfl | ⟨p, frame, rfl, hp, rfl, rfl⟩
    · cases hl
    · refine hC (call, pending) hc mine hmine l ?_
      rw [received_eq hp]
      exact hl
  | refreshed _ k reply _ =>
    obtain ⟨hdb, -⟩ := (w.client k).api.finishUpdateCloudNodes_keeps reply
    refine hr.setClient hK rfl rfl (fun _ _ => ⟨rfl, rfl⟩) rfl ?_ ⟨hr.edit k, hr.get k⟩
    dsimp only
    rw [hdb]
    exact hr.client k

/-- **In every run whose merges all meet the condition, every list has the property** with
its recorded history. -/
theorem Kept.reflected (hK : Kept Q C) {P : Traced ι κ → Action ι κ → Prop}
    (hP : ∀ s a, P s a → Meets C D s a) {s : Traced ι κ}
    (hrun : Run (Traced.step D) P (Traced.init D) s) : Matched D s.1 ∧ Reflected Q s.1 s.2 := by
  refine hrun.inv (I := fun s => Matched D s.1 ∧ Reflected Q s.1 s.2)
    ⟨Matched.init D, Reflected.init Q D⟩ ?_
  intro s a s' hI ha hs
  obtain ⟨h1, h2⟩ := traced_eq_some hs
  exact ⟨hI.1.step h1, h2 ▸ hI.2.step hK hI.1 (hP s a ha) h1⟩

/-! ### All runs -/

theorem meetsAll_true (log : List Update) (ls : List ShoppingList) :
    ∀ (db : SqliteDb) (H : Histories) (hs : List (Finset ℕ)),
      MeetsAll (fun _ _ _ _ _ => True) log db H ls hs := by
  induction ls with
  | nil => intro db H hs; trivial
  | cons l ls ih =>
    intro db H hs
    cases hs with
    | nil => trivial
    | cons h hs => exact ⟨trivial, ih _ _ hs⟩

theorem meetsMessage_true (log : List Update) (db : SqliteDb) (H : Histories) (m : Message)
    (hs : List (Finset ℕ)) : MeetsMessage (fun _ _ _ _ _ => True) log db H m hs := by
  unfold MeetsMessage
  split
  · exact meetsAll_true _ _ _ _ _
  · exact meetsAll_true _ _ _ _ _
  · trivial

omit [DecidableEq ι] [DecidableEq κ] in
theorem meets_true (s : Traced ι κ) (a : Action ι κ) : Meets (fun _ _ _ _ _ => True) D s a := by
  unfold Meets
  split
  · intro m _ _; exact meetsMessage_true _ _ _ _ _
  · intro m _ _; exact meetsMessage_true _ _ _ _ _
  · intro call _ mine _ l _; trivial
  · trivial

/-- **In every run, every list is a copy with its recorded history.** -/
theorem reflected {P : World ι κ → Action ι κ → Prop} {s : Traced ι κ}
    (hrun : Run (Traced.step D) (fun s => P s.1) (Traced.init D) s) :
    Matched D s.1 ∧ Reflected IsCopy s.1 s.2 :=
  Kept.isCopy.reflected (fun s a _ => meets_true s a) hrun

/-- Every reachable state has a history that accounts for its lists. -/
theorem exists_reflected {P : World ι κ → Action ι κ → Prop}
    (hrun : Run (World.step D) P (World.init D) w) : ∃ g, Reflected IsCopy w g := by
  obtain ⟨g, hg⟩ := hrun.exists_trace (Trace.track D) {}
  exact ⟨g, (reflected (P := P) hg).2⟩

/-- A step of the system keeps every list a copy. -/
theorem Reflected.next (hr : Reflected IsCopy w g) (hm : Matched D w)
    (h : World.step D w a = some w') : Reflected IsCopy w' (Trace.track D w a w' g) :=
  hr.step Kept.isCopy hm (meets_true _ _) h

omit [DecidableEq ι] [DecidableEq κ] in
/-- **No message of a run makes `apply_message` throw**, if it has a list to apply. -/
theorem Reflected.applies_ok (hr : Reflected IsCopy w g) (hm : Matched D w) {i : ι} {m : Message}
    (happ : Applies D w i a m) (hl : m.lists ≠ []) :
    ∃ db', Node.applyMessage (fun _ => .ok) (w.node i).node.db m = .ok db' := by
  have hreceived : ∀ pf p, Trace.received pf w p = some m →
      List.Forall₂ (IsCopy g.log) (g.carried p) m.lists := by
    intro pf p hp
    obtain ⟨pkt, hpkt, hd⟩ := Option.bind_eq_some_iff.1 hp
    have hcs := hr.carried hpkt
    rcases hm.frames _ (List.mem_of_getElem? hpkt) with hf | ⟨m', hf, -⟩
    · rw [hf, Frame.decode_wrongShard] at hd; cases hd
    · rw [hf] at hd hcs
      rw [Frame.decode_packed, Option.some.injEq] at hd
      subst hd; exact hcs
  have hok : ∀ pf p, Trace.received pf w p = some m →
      ∃ db', Node.applyMessage (fun _ => .ok) (w.node i).node.db m = .ok db' := by
    intro pf p hp
    exact (hr.node i).applyMessage_ok Kept.isCopy hr.logged (hm.nodeKey i) (hreceived pf p hp)
      (meetsMessage_true _ _ _ _ _) hl
  cases a with
  | clientFrame j p now => exact hok _ p happ.2.1
  | gossipFrame j p now => exact hok _ p happ.2.1
  | _ => exact happ.elim

end Shopping
