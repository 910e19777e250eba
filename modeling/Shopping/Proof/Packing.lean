import Shopping.Message.Packing
import Shopping.Proof.Content

/-!
# Unpacking undoes packing

What is packed comes back with the same fields, its maps and sets with the same entries in
whatever order (`Alike`), as long as strings and containers are shorter than `2^32` (`Fits`).
This goes up from the counters to the messages, one lemma a class.

Lists that are alike cannot be told apart: they hold and show the same items, and merging one
or the other, or into one or the other, ends in the same way (`ShoppingList.Alike.sameUse`).
-/

namespace Shopping

open Lib Lib.Msgpack

structure PNCounter.Alike (c c' : PNCounter) : Prop where
  pos : UMap.Alike Eq c.pos c'.pos
  neg : UMap.Alike Eq c.neg c'.neg

structure ShoppingItem.Alike (it it' : ShoppingItem) : Prop where
  uid : it.uid = it'.uid
  name : it.name = it'.name
  desiredQuantity : it.desiredQuantity.Alike it'.desiredQuantity
  currentQuantity : it.currentQuantity.Alike it'.currentQuantity

structure ORSet.Alike (s s' : ORSet ShoppingItem) : Prop where
  elements : UMap.Alike ShoppingItem.Alike s.elements s'.elements
  addSet : UMap.Alike Eq s.addSet s'.addSet
  removeSet : UMap.Alike Eq s.removeSet s'.removeSet

structure ShoppingList.Alike (l l' : ShoppingList) : Prop where
  uid : l.uid = l'.uid
  name : l.name = l'.name
  items : l.items.Alike l'.items

/-- The fields of a `NodeInfo` are no maps: those are equal. -/
structure Message.Alike (m m' : Message) : Prop where
  op : m.op = m'.op
  origin : m.origin = m'.origin
  ts : m.ts = m'.ts
  lists : List.Forall₂ ShoppingList.Alike m.lists m'.lists
  nodes : m.nodes = m'.nodes

/-- A map shorter than `2^32`, with keys that are and values that meet `P`. -/
def FitsMap {V : Type} (P : V → Prop) (m : UMap Str V) : Prop :=
  m.entries.length < 2 ^ 32 ∧ ∀ e ∈ m.entries, e.1.length < 2 ^ 32 ∧ P e.2

instance {V : Type} (P : V → Prop) [DecidablePred P] (m : UMap Str V) : Decidable (FitsMap P m) :=
  inferInstanceAs (Decidable (_ ∧ ∀ e ∈ m.entries, _ ∧ _))

def FitsTags (tags : Finset Str) : Prop := tags.card < 2 ^ 32 ∧ ∀ tag ∈ tags, tag.length < 2 ^ 32

instance : DecidablePred FitsTags := fun tags =>
  inferInstanceAs (Decidable (_ ∧ ∀ tag ∈ tags, _))

def PNCounter.Fits (c : PNCounter) : Prop :=
  FitsMap (fun _ => True) c.pos ∧ FitsMap (fun _ => True) c.neg

instance : DecidablePred PNCounter.Fits := fun _ => inferInstanceAs (Decidable (_ ∧ _))

def ShoppingItem.Fits (it : ShoppingItem) : Prop :=
  it.uid.length < 2 ^ 32 ∧ it.name.length < 2 ^ 32 ∧ it.desiredQuantity.Fits ∧ it.currentQuantity.Fits

instance : DecidablePred ShoppingItem.Fits := fun _ => inferInstanceAs (Decidable (_ ∧ _ ∧ _ ∧ _))

def ShoppingList.Fits (l : ShoppingList) : Prop :=
  l.uid.length < 2 ^ 32 ∧ l.name.length < 2 ^ 32 ∧ FitsMap ShoppingItem.Fits l.items.elements ∧
    FitsMap FitsTags l.items.addSet ∧ FitsMap FitsTags l.items.removeSet

instance : DecidablePred ShoppingList.Fits := fun _ =>
  inferInstanceAs (Decidable (_ ∧ _ ∧ _ ∧ _ ∧ _))

def NodeInfo.Fits (info : NodeInfo) : Prop :=
  info.nodeId.length < 2 ^ 32 ∧ info.host.length < 2 ^ 32

instance : DecidablePred NodeInfo.Fits := fun _ => inferInstanceAs (Decidable (_ ∧ _))

def Message.Fits (m : Message) : Prop :=
  m.origin.length < 2 ^ 32 ∧ (m.lists.length < 2 ^ 32 ∧ ∀ l ∈ m.lists, l.Fits) ∧
    m.nodes.length < 2 ^ 32 ∧ ∀ info ∈ m.nodes, info.Fits

instance : DecidablePred Message.Fits := fun m =>
  inferInstanceAs (Decidable (_ ∧ (_ ∧ ∀ l ∈ m.lists, _) ∧ _ ∧ ∀ info ∈ m.nodes, _))

namespace SetOrder

variable {V : Type} (order : SetOrder) (m : UMap Str V)

/-- An order lists every member of a set once. -/
theorem length_list (s : Finset Str) : (order.list s).length = s.card := by
  rw [← List.toFinset_card_of_nodup (order.nodup s), order.toFinset]

theorem mem_list {s : Finset Str} {x : Str} : x ∈ order.list s ↔ x ∈ s := by
  rw [← List.mem_toFinset, order.toFinset]

/-- The entries are those of the map. -/
theorem entries_perm : (order.entries m).Perm m.entries := by
  have hnodup : (order.entries m).Nodup := by
    refine List.Nodup.filterMap (fun k k' e hk hk' => ?_) (order.nodup _)
    obtain ⟨v, -, rfl⟩ := Option.map_eq_some_iff.1 hk
    obtain ⟨v', -, he⟩ := Option.map_eq_some_iff.1 hk'
    exact (congrArg Sigma.fst he).symm
  refine (List.perm_ext_iff_of_nodup hnodup m.nodupKeys.nodup).2 fun e => ?_
  obtain ⟨k, v⟩ := e
  rw [SetOrder.entries, List.mem_filterMap, ← AList.mem_lookup_iff]
  constructor
  · rintro ⟨k', -, he⟩
    obtain ⟨v', hv', he⟩ := Option.map_eq_some_iff.1 he
    cases he
    exact hv'
  · intro hv
    refine ⟨k, ?_, by rw [Option.mem_def.1 hv]; rfl⟩
    have hmem : k ∈ m := AList.lookup_isSome.1 (by rw [Option.mem_def.1 hv]; rfl)
    exact order.mem_list.2 (List.mem_toFinset.2 (AList.mem_keys.1 hmem))

/-- The map with its entries in the order. -/
def arrange : UMap Str V :=
  ⟨order.entries m, (List.perm_nodupKeys (order.entries_perm m)).2 m.nodupKeys⟩

/-- Under a key the map has what it has in any order. -/
theorem lookup_arrange (k : Str) : (order.arrange m).lookup k = m.lookup k :=
  AList.perm_lookup (order.entries_perm m)

variable {m}

/-- Whether a map fits is no matter of order. -/
theorem fitsMap_arrange {P : V → Prop} : FitsMap P (order.arrange m) ↔ FitsMap P m := by
  have hperm : (order.arrange m).entries.Perm m.entries := order.entries_perm m
  unfold FitsMap
  rw [hperm.length_eq]
  exact and_congr_right fun _ => forall_congr' fun e => by rw [hperm.mem_iff]

/-- What is alike to the arranged map is alike to the map itself. -/
theorem alike_arrange {R : V → V → Prop} {m' : UMap Str V} (h : UMap.Alike R (order.arrange m) m') :
    UMap.Alike R m m' := by
  intro k
  have hk := h k
  rwa [lookup_arrange] at hk

end SetOrder

/-- A `uint64_t` fits every head of an integer. -/
theorem carries_uint64 (n : UInt64) : Carries (packUInt64 n) convertUInt64 n := by
  have hlt : (n.toNat : ℤ) < 2 ^ 64 := by exact_mod_cast n.toNat_lt
  have h : Carries (packUInt64 n) convertUInt64 (UInt64.ofNat (n.toNat : ℤ).toNat) :=
    carries_int (by norm_num) le_rfl (Int.natCast_nonneg _) hlt
  rwa [Int.toNat_natCast, UInt64.ofNat_toNat] at h

/-- An `int32_t` does, negative or not. -/
theorem carries_int32 (n : Int32) : Carries (packInt32 n) convertInt32 n := by
  have h : Carries (packInt32 n) convertInt32 (Int32.ofInt n.toInt) :=
    carries_int (by norm_num) (by norm_num) n.le_toInt n.toInt_lt
  rwa [Int32.ofInt_toInt] at h

theorem OpType.ofCode_code (op : OpType) : OpType.ofCode op.code = op := by
  cases op with
  | other code unlisted => rw [OpType.code, OpType.ofCode, dif_pos unlisted]
  | _ => decide

/-- An operation goes as its number, and the converter knows all of them. -/
theorem OpType.carries (op : OpType) : Carries op.pack OpType.convert op := by
  have hlt : (op.code.toNat : ℤ) < 2 ^ 8 := by exact_mod_cast op.code.toNat_lt
  have h : Carries op.pack OpType.convert (OpType.ofCode (UInt8.ofNat (op.code.toNat : ℤ).toNat)) :=
    carries_int (by norm_num) (by norm_num) (Int.natCast_nonneg _) hlt
  rwa [Int.toNat_natCast, UInt8.ofNat_toNat, OpType.ofCode_code] at h

/-- What is found in a map that fits does fit. -/
theorem FitsMap.lookup {V : Type} {P : V → Prop} {m : UMap Str V} (h : FitsMap P m) {k : Str} {v : V}
    (hk : m.lookup k = some v) : k.length < 2 ^ 32 ∧ P v :=
  h.2 ⟨k, v⟩ (AList.mem_lookup_iff.1 hk)

/-- A map is carried in whatever order it is packed. -/
theorem FitsMap.carries {V : Type} [Inhabited V] {P : V → Prop} {R : V → V → Prop}
    {conv : Converter V} {m : UMap Str V} (h : FitsMap P m) (order : SetOrder)
    (packV : Str → V → Bytes) (hP : ∀ k v, P v → ∃ w, Carries (packV k v) conv w ∧ R v w) :
    ∃ m', Carries (packMap ((order.entries m).map fun e => (packStr e.1, packV e.1 e.2)))
      (convertMap conv) m' ∧ UMap.Alike R m m' := by
  have hfits := order.fitsMap_arrange.2 h
  obtain ⟨m', hm', hal⟩ := carries_map packV (m := order.arrange m)
    (fun k v hk => ⟨(hfits.lookup hk).1, hP k v (hfits.lookup hk).2⟩) hfits.1
  exact ⟨m', hm', order.alike_arrange hal⟩

/-- A side of a counter: a map of totals. -/
theorem PNCounter.carries_counts {m : UMap Str UInt64} (h : FitsMap (fun _ => True) m)
    (order : SetOrder) :
    ∃ m', Carries (packCounts order m) (convertMap convertUInt64) m' ∧ UMap.Alike Eq m m' :=
  h.carries order (fun _ => packUInt64) fun _ v _ => ⟨v, carries_uint64 v, rfl⟩

/-- A counter is an array of its two sides. -/
theorem PNCounter.Fits.carries {c : PNCounter} (h : c.Fits) (order : Bool → SetOrder) :
    ∃ c', Carries (c.pack order) PNCounter.convert c' ∧ c.Alike c' := by
  obtain ⟨pos, ⟨v, hv, hpos⟩, hp⟩ := carries_counts h.1 (order false)
  obtain ⟨neg, ⟨w, hw, hneg⟩, hn⟩ := carries_counts h.2 (order true)
  refine ⟨⟨pos, neg⟩, ⟨.arr [v, w], reads_arr (.cons hv (.cons hw .nil)) (by simp), fun old => ?_⟩, hp,
    hn⟩
  simp [PNCounter.convert, fields, convertField, hpos, hneg]

/-- An item is an array of its four fields. -/
theorem ShoppingItem.Fits.carries {it : ShoppingItem} (h : it.Fits)
    (order : Bool → Bool → SetOrder) :
    ∃ it', Carries (it.pack order) ShoppingItem.convert it' ∧ it.Alike it' := by
  obtain ⟨huid, hname, hd, hc⟩ := h
  obtain ⟨u, hu, huid⟩ := carries_str huid
  obtain ⟨n, hn, hname⟩ := carries_str hname
  obtain ⟨desired, ⟨d, hd, hdesired⟩, had⟩ := hd.carries (order false)
  obtain ⟨current, ⟨c, hc, hcurrent⟩, hac⟩ := hc.carries (order true)
  refine ⟨⟨it.uid, it.name, desired, current⟩, ⟨.arr [u, n, d, c],
    reads_arr (.cons hu (.cons hn (.cons hd (.cons hc .nil)))) (by simp), fun old => ?_⟩,
    ⟨rfl, rfl, had, hac⟩⟩
  simp [ShoppingItem.convert, fields, convertField, huid, hname, hdesired, hcurrent]

/-- A set of tags is carried as it is, since sets have no order to lose. -/
theorem carries_tags {tags : Finset Str} (h : FitsTags tags) (order : SetOrder) :
    Carries (packArr ((order.list tags).map packStr)) convertSet tags := by
  have hcarries : Carries (packArr ((order.list tags).map packStr)) convertSet
      (order.list tags).toFinset :=
    carries_set (fun s hs => h.2 s (order.mem_list.1 hs)) (by rw [order.length_list]; exact h.1)
  rwa [order.toFinset tags] at hcarries

/-- A map of sets of tags. -/
theorem ORSet.carries_packTags {m : UMap Str (Finset Str)} (h : FitsMap FitsTags m)
    (uids : SetOrder) (tags : Str → SetOrder) :
    ∃ m', Carries (packTags uids tags m) (convertMap convertSet) m' ∧ UMap.Alike Eq m m' :=
  h.carries uids (fun uid s => packArr (((tags uid).list s).map packStr))
    fun uid s hs => ⟨s, carries_tags hs (tags uid), rfl⟩

/-- An OR-set is an array of its three maps. -/
theorem ORSet.carries {s : ORSet ShoppingItem} (he : FitsMap ShoppingItem.Fits s.elements)
    (ha : FitsMap FitsTags s.addSet) (hr : FitsMap FitsTags s.removeSet)
    (order : ListOrder) :
    ∃ s', Carries (s.pack (fun uid => ShoppingItem.pack (order.counts uid)) order)
      (ORSet.convert ShoppingItem.convert) s' ∧ s.Alike s' := by
  obtain ⟨elements, ⟨e, hre, hce⟩, hae⟩ :=
    he.carries order.elements (fun uid => ShoppingItem.pack (order.counts uid))
      fun uid it hit => hit.carries (order.counts uid)
  obtain ⟨addSet, ⟨a, hra, hca⟩, haa⟩ :=
    carries_packTags ha (order.uids false) (order.tags false)
  obtain ⟨removeSet, ⟨r, hrr, hcr⟩, har⟩ :=
    carries_packTags hr (order.uids true) (order.tags true)
  refine ⟨⟨elements, addSet, removeSet⟩, ⟨.arr [e, a, r],
    reads_arr (.cons hre (.cons hra (.cons hrr .nil))) (by simp), fun old => ?_⟩, ⟨hae, haa, har⟩⟩
  simp [ORSet.convert, fields, convertField, hce, hca, hcr]

/-- A list is an array of its UID, its name and its items. -/
theorem ShoppingList.Fits.carries {l : ShoppingList} (h : l.Fits) (order : ListOrder) :
    ∃ l', Carries (l.pack order) ShoppingList.convert l' ∧ l.Alike l' := by
  obtain ⟨huid, hname, he, ha, hr⟩ := h
  obtain ⟨u, hu, huid⟩ := carries_str huid
  obtain ⟨n, hn, hname⟩ := carries_str hname
  obtain ⟨items, ⟨i, hi, hitems⟩, hai⟩ := ORSet.carries he ha hr order
  refine ⟨⟨l.uid, l.name, items⟩, ⟨.arr [u, n, i], reads_arr (.cons hu (.cons hn (.cons hi .nil)))
    (by simp), fun old => ?_⟩, ⟨rfl, rfl, hai⟩⟩
  simp [ShoppingList.convert, fields, convertField, huid, hname, hitems]

/-- The entry of a node comes back as it is: it has neither maps nor sets. -/
theorem NodeInfo.Fits.carries {info : NodeInfo} (h : info.Fits) :
    Carries info.pack NodeInfo.convert info := by
  obtain ⟨i, hi, hid⟩ := carries_str h.1
  obtain ⟨o, ho, hhost⟩ := carries_str h.2
  obtain ⟨s, hs, hshard⟩ := carries_int32 info.shardId
  obtain ⟨c, hc, hclient⟩ := carries_int32 info.clientPort
  obtain ⟨g, hg, hgossip⟩ := carries_int32 info.gossipPullPort
  obtain ⟨d, hd, hdiscovery⟩ := carries_int32 info.discoveryPullPort
  obtain ⟨t, ht, hseen⟩ := carries_uint64 info.lastSeenTs
  refine ⟨.arr [i, o, s, c, g, d, t], reads_arr (.cons hi (.cons ho (.cons hs (.cons hc (.cons hg
    (.cons hd (.cons ht .nil))))))) (by simp), fun old => ?_⟩
  simp [NodeInfo.convert, fields, convertField, hid, hhost, hshard, hclient, hgossip, hdiscovery, hseen]

/-- The lists of a message, each packed in its own orders. -/
theorem carries_lists {lists : List ShoppingList} (h : ∀ l ∈ lists, l.Fits) :
    ∀ order : ℕ → ListOrder, ∃ lists',
      List.Forall₂ (fun bs l' => Carries bs ShoppingList.convert l')
        (lists.mapIdx fun i l => l.pack (order i)) lists' ∧
      List.Forall₂ ShoppingList.Alike lists lists' := by
  induction lists with
  | nil => intro order; exact ⟨[], .nil, .nil⟩
  | cons l lists ih =>
    intro order
    obtain ⟨l', hl, hal⟩ := (h l List.mem_cons_self).carries (order 0)
    obtain ⟨lists', hls, hals⟩ := ih (fun x hx => h x (List.mem_cons_of_mem _ hx))
      fun i => order (i + 1)
    rw [List.mapIdx_cons]
    exact ⟨l' :: lists', .cons hl hls, .cons hal hals⟩

/-- A message is an array of its operation, origin, time, lists and nodes. -/
theorem Message.Fits.carries {m : Message} (h : m.Fits) (order : ℕ → ListOrder) :
    ∃ m', Carries (m.pack order) Message.convert m' ∧ m.Alike m' := by
  obtain ⟨horigin, ⟨hlen, hlists⟩, hnlen, hnodes⟩ := h
  obtain ⟨p, hp, hop⟩ := m.op.carries
  obtain ⟨o, ho, horigin⟩ := carries_str horigin
  obtain ⟨t, ht, hts⟩ := carries_uint64 m.ts
  obtain ⟨lists, hcarries, hal⟩ := carries_lists hlists order
  obtain ⟨l, hl, hlists⟩ := carries_vec hcarries (by rwa [List.length_mapIdx])
  have hinfos : List.Forall₂ (fun bs info => Carries bs NodeInfo.convert info)
      (m.nodes.map NodeInfo.pack) m.nodes :=
    List.forall₂_map_left_iff.2 (List.forall₂_same.2 fun info hi => (hnodes info hi).carries)
  obtain ⟨n, hn, hnodes⟩ := carries_vec hinfos (by rwa [List.length_map])
  refine ⟨⟨m.op, m.origin, m.ts, lists, m.nodes⟩, ⟨.arr [p, o, t, l, n],
    reads_arr (.cons hp (.cons ho (.cons ht (.cons hl (.cons hn .nil))))) (by simp), fun old => ?_⟩,
    ⟨rfl, rfl, rfl, hal, rfl⟩⟩
  simp [Message.convert, fields, convertField, hop, horigin, hts, hlists, hnodes]

/-- **A message comes back from its frame**, whatever `from_zmq` starts from. -/
theorem Message.Fits.fromZmq_toZmq {m : Message} (h : m.Fits) (order : ℕ → ListOrder)
    (op : OpType) (ts : UInt64) : ∃ m', fromZmq op ts (m.toZmq order) = some m' ∧ m.Alike m' := by
  obtain ⟨m', ⟨v, hv, hconv⟩, hal⟩ := h.carries order
  refine ⟨m', ?_, hal⟩
  rw [fromZmq, toZmq, hv.unpack]
  exact hconv _

/-- What msgpack makes of the raw reply `WRONG_SHARD`: an integer, which is no message. -/
theorem Message.fromZmq_wrongShard (op : OpType) (ts : UInt64) : fromZmq op ts wrongShard = none := by
  have hunpack : unpack wrongShard = some (.int 87) := rfl
  rw [fromZmq, hunpack]
  rfl

/-- **A list comes back from its blob.** -/
theorem ShoppingList.Fits.readBlob_pack {l : ShoppingList} (h : l.Fits)
    (order : ListOrder) :
    ∃ l', BlobDb.readBlob (l.pack order) = .ok (some l') ∧ l.Alike l' := by
  obtain ⟨l', ⟨v, hv, hconv⟩, hal⟩ := h.carries order
  refine ⟨l', ?_, hal⟩
  have hne : l.pack order ≠ [] := List.length_pos_iff.1 hv.length_pos
  have hread : ((unpack (l.pack order)).bind fun v => ShoppingList.convert v {}) = some l' := by
    rw [hv.unpack]
    exact hconv _
  rw [BlobDb.readBlob, if_neg hne, hread]

/-- A blob within the limit of SQLite is bound as it is. -/
theorem BlobDb.bindBlob_eq {blob : Bytes} (h : blob.length ≤ maxLength) :
    bindBlob blob = some blob := by
  have hsize : blob.length % 2 ^ 32 = blob.length := by
    unfold maxLength at h
    exact Nat.mod_eq_of_lt (by omega)
  rw [bindBlob, hsize, List.take_length, if_pos h]

/-- What is written within the limit is what is read. -/
theorem BlobDb.read_write {l : ShoppingList} {order : ListOrder} (db : BlobDb)
    (h : (l.pack order).length ≤ maxLength) :
    (db.write order l .ok).1.read l.uid .ok = readBlob (l.pack order) := by
  have hwrite : db.write order l .ok =
      ({ rows := db.rows.insert (cstr l.getUid) (l.pack order) }, true) := by
    simp only [write, bindBlob_eq h, Calls.both_ok, if_true]
  have hrow : (db.rows.insert (cstr l.getUid) (l.pack order)).lookup (cstr l.uid) =
      some (l.pack order) := AList.lookup_insert _
  rw [hwrite, BlobDb.read, if_pos Calls.both_ok, hrow]

/-- Being alike is symmetric, from the counters up. -/
theorem PNCounter.Alike.symm {c c' : PNCounter} (h : c.Alike c') : c'.Alike c :=
  ⟨h.pos.symm fun _ _ => Eq.symm, h.neg.symm fun _ _ => Eq.symm⟩

theorem ShoppingItem.Alike.symm {it it' : ShoppingItem} (h : it.Alike it') : it'.Alike it :=
  ⟨h.uid.symm, h.name.symm, h.desiredQuantity.symm, h.currentQuantity.symm⟩

theorem ORSet.Alike.symm {s s' : ORSet ShoppingItem} (h : s.Alike s') : s'.Alike s :=
  ⟨h.elements.symm fun _ _ => ShoppingItem.Alike.symm, h.addSet.symm fun _ _ => Eq.symm,
    h.removeSet.symm fun _ _ => Eq.symm⟩

theorem ShoppingList.Alike.symm {l l' : ShoppingList} (h : l.Alike l') : l'.Alike l :=
  ⟨h.uid.symm, h.name.symm, h.items.symm⟩

/-- The value is a sum over the entries, in whatever order. -/
theorem PNCounter.Alike.value_eq {c c' : PNCounter} (h : c.Alike c') : c.value = c'.value := by
  refine PNCounter.value_congr (fun o => ?_) fun o => ?_
  · rw [PNCounter.posOf, PNCounter.posOf, PNCounter.count, UMap.alike_eq_iff.1 h.pos o]; rfl
  · rw [PNCounter.negOf, PNCounter.negOf, PNCounter.count, UMap.alike_eq_iff.1 h.neg o]; rfl

/-- The getters cut the two values to 32 bits. -/
theorem ShoppingItem.Alike.quantities {it it' : ShoppingItem} (h : it.Alike it') :
    it.getDesiredQuantity = it'.getDesiredQuantity ∧
      it.getCurrentQuantity = it'.getCurrentQuantity := by
  unfold getDesiredQuantity getCurrentQuantity
  rw [h.desiredQuantity.value_eq, h.currentQuantity.value_eq]
  exact ⟨rfl, rfl⟩

/-- `contains` looks at the tags of one UID. -/
theorem ORSet.Alike.contains_eq {s s' : ORSet ShoppingItem} (h : s.Alike s') (uid : Str) :
    s.contains uid = s'.contains uid := by
  unfold ORSet.contains
  rw [UMap.alike_eq_iff.1 h.addSet uid, UMap.alike_eq_iff.1 h.removeSet uid]

/-- Lists that are alike show the same items with the same quantities. -/
theorem ShoppingList.Alike.shows {l l' : ShoppingList} (h : l.Alike l') {uid : Str}
    {desired current : UInt32} (hs : l.Shows uid desired current) :
    l'.Shows uid desired current := by
  obtain ⟨it, hit, rfl, rfl, rfl⟩ := hs
  obtain ⟨key, hc, hl⟩ := ORSet.mem_values.1 hit
  obtain ⟨it', hl', hal⟩ := h.items.elements.lookup hl
  refine ⟨it', ORSet.mem_values.2 ⟨key, ?_, hl'⟩, hal.uid.symm, hal.quantities.1.symm,
    hal.quantities.2.symm⟩
  rw [← h.items.contains_eq key]
  exact hc

/-- A merge takes the larger total of each origin. -/
theorem PNCounter.Alike.merge {c c' d d' : PNCounter} (hc : c.Alike c') (hd : d.Alike d') :
    (c.merge d).Alike (c'.merge d') :=
  ⟨UMap.foldInto_alike hc.pos hd.pos, UMap.foldInto_alike hc.neg hd.neg⟩

/-- Items merge if their UIDs agree, which those of alike items do as well. -/
theorem ShoppingItem.Alike.merge {it it' other other' r : ShoppingItem} (h : it.Alike it')
    (ho : other.Alike other') (hr : it.merge other = .ok r) :
    ∃ r', it'.merge other' = .ok r' ∧ r.Alike r' := by
  obtain ⟨huid, hruid, hrname, hrd, hrc⟩ := ShoppingItem.merge_eq_ok hr
  have huid' : it'.uid = other'.uid := by rw [← h.uid, ← ho.uid, huid]
  obtain ⟨r', hr'⟩ := ShoppingItem.merge_isOk.2 huid'
  obtain ⟨-, hruid', hrname', hrd', hrc'⟩ := ShoppingItem.merge_eq_ok hr'
  refine ⟨r', hr', ?_, ?_, ?_, ?_⟩
  · rw [hruid, hruid', h.uid]
  · rw [hrname, hrname', ho.name]
  · rw [hrd, hrd']; exact h.desiredQuantity.merge ho.desiredQuantity
  · rw [hrc, hrc']; exact h.currentQuantity.merge ho.currentQuantity

/-- One element of the other set, merged into what this one has under its key. -/
theorem ORSet.mergeElement_alike {a a' : Option ShoppingItem} {b b' r : ShoppingItem}
    (ha : Option.Rel ShoppingItem.Alike a a') (hb : b.Alike b') (hr : mergeElement a b = .ok r) :
    ∃ r', mergeElement a' b' = .ok r' ∧ r.Alike r' := by
  cases ha with
  | none => cases hr; exact ⟨b', rfl, hb⟩
  | some h => exact h.merge hb hr

/-- The only way for a merge to throw. -/
theorem ORSet.mergeElement_error {a : Option ShoppingItem} {b : ShoppingItem} {e : Exn}
    (h : mergeElement a b = .error e) :
    e = .invalidArgument "Cannot merge ShoppingItems with different UIDs" := by
  cases a with
  | none => cases h
  | some mine =>
    have h : mine.merge b = .error e := h
    unfold ShoppingItem.merge at h
    split at h
    · cases h; rfl
    · cases h

/-- Two calls of `merge` end in the same way: with lists that are alike, or the same
exception. -/
def MergedAlike : Method ShoppingList → Method ShoppingList → Prop
  | .ok r, .ok r' => r.Alike r'
  | .error (e, _), .error (e', _) => e = e'
  | _, _ => False

/-- **Merges of sets that are alike** are alike, if the one returns. -/
theorem ORSet.Alike.merge {s s' t t' u : ORSet ShoppingItem} (h : s.Alike s') (ht : t.Alike t')
    (hu : s.merge t = .ok u) : ∃ u', s'.merge t' = .ok u' ∧ u.Alike u' := by
  obtain ⟨he, ha, hr⟩ := ORSet.merge_eq_ok hu
  obtain ⟨elements, he', hal⟩ := UMap.foldIntoE_alike h.elements ht.elements
    (fun _ _ _ _ _ hab hb => mergeElement_alike hab hb) (fun _ _ => ShoppingItem.Alike.symm) he
  refine ⟨⟨elements, mergeTags s'.addSet t'.addSet, mergeTags s'.removeSet t'.removeSet⟩,
    ?_, hal, ?_, ?_⟩
  · rw [ORSet.merge, he']
  · rw [ha]; exact UMap.foldInto_alike h.addSet ht.addSet
  · rw [hr]; exact UMap.foldInto_alike h.removeSet ht.removeSet

/-- The same for lists. -/
theorem ShoppingList.Alike.merge_ok {l l' other other' r : ShoppingList} (h : l.Alike l')
    (ho : other.Alike other') (hr : l.merge other = .ok r) :
    ∃ r', l'.merge other' = .ok r' ∧ r.Alike r' := by
  obtain ⟨hi, huid, hname⟩ := ShoppingList.merge_eq_ok hr
  obtain ⟨items, hi', hal⟩ := h.items.merge ho.items hi
  refine ⟨{ l' with items }, ?_, ?_, ?_, hal⟩
  · rw [ShoppingList.merge, hi']
  · rw [huid]; exact h.uid
  · rw [hname]; exact h.name

/-- A merge of lists throws what a merge of two items does. -/
theorem ShoppingList.merge_error {l other s : ShoppingList} {e : Exn}
    (h : l.merge other = .error (e, s)) :
    e = .invalidArgument "Cannot merge ShoppingItems with different UIDs" := by
  unfold ShoppingList.merge at h
  split at h
  · cases h
  · rename_i exn items hi
    cases h
    unfold ORSet.merge at hi
    split at hi
    · rename_i he
      cases hi
      obtain ⟨a, b, hab⟩ := UMap.foldIntoE_error he
      exact ORSet.mergeElement_error hab
    · cases hi

/-- **Merges of lists that are alike** end alike, also when they throw. -/
theorem ShoppingList.Alike.merge {l l' other other' : ShoppingList} (h : l.Alike l')
    (ho : other.Alike other') : MergedAlike (l.merge other) (l'.merge other') := by
  cases hr : l.merge other with
  | ok r =>
    obtain ⟨r', hr', hal⟩ := h.merge_ok ho hr
    rw [hr']
    exact hal
  | error z =>
    cases hr' : l'.merge other' with
    | ok r' =>
      obtain ⟨r, hok, -⟩ := h.symm.merge_ok ho.symm hr'
      rw [hok] at hr
      cases hr
    | error z' => exact (merge_error hr).trans (merge_error hr').symm

/-- The two lists hold and show the same, and merge in the same way with any list. -/
structure ShoppingList.SameUse (l l' : ShoppingList) : Prop where
  contains : ∀ item, l.contains item = l'.contains item
  shows : ∀ uid desired current, l.Shows uid desired current ↔ l'.Shows uid desired current
  merge : ∀ other, MergedAlike (l.merge other) (l'.merge other)
  merged : ∀ other : ShoppingList, MergedAlike (other.merge l) (other.merge l')

theorem PNCounter.Alike.refl (c : PNCounter) : c.Alike c :=
  ⟨UMap.Alike.refl (fun _ => rfl) _, UMap.Alike.refl (fun _ => rfl) _⟩

theorem ShoppingItem.Alike.refl (it : ShoppingItem) : it.Alike it :=
  ⟨rfl, rfl, .refl _, .refl _⟩

theorem ShoppingList.Alike.refl (l : ShoppingList) : l.Alike l :=
  ⟨rfl, rfl, UMap.Alike.refl ShoppingItem.Alike.refl _, UMap.Alike.refl (fun _ => rfl) _,
    UMap.Alike.refl (fun _ => rfl) _⟩

/-- **Lists that are alike cannot be told apart.** -/
theorem ShoppingList.Alike.sameUse {l l' : ShoppingList} (h : l.Alike l') : l.SameUse l' where
  contains item := h.items.contains_eq item.getUid
  shows _ _ _ := ⟨h.shows, h.symm.shows⟩
  merge other := h.merge (.refl other)
  merged other := ShoppingList.Alike.merge (.refl other) h

/-- **Unpacking undoes packing**: a message comes back from its frame, and a list from the blob
that is packed of it, in particular from the store that took the blob, field by field, in
whatever order maps and sets are listed; and the list that comes back is used as the one that
was packed. -/
theorem unpack_pack :
    (∀ (m : Message), m.Fits → ∀ order op ts, ∃ m', Message.fromZmq op ts (m.toZmq order) = some m' ∧
      m.Alike m' ∧ List.Forall₂ ShoppingList.SameUse m.lists m'.lists) ∧
    ∀ (l : ShoppingList), l.Fits → ∀ order, ∃ l', BlobDb.readBlob (l.pack order) = .ok (some l') ∧
      (∀ db : BlobDb, (l.pack order).length ≤ BlobDb.maxLength →
        (db.write order l .ok).1.read l.uid .ok = .ok (some l')) ∧
      l.Alike l' ∧ l.SameUse l' := by
  constructor
  · intro m hm order op ts
    obtain ⟨m', hm', hal⟩ := hm.fromZmq_toZmq order op ts
    exact ⟨m', hm', hal, hal.lists.imp fun _ _ => ShoppingList.Alike.sameUse⟩
  · intro l hl order
    obtain ⟨l', hl', hal⟩ := hl.readBlob_pack order
    exact ⟨l', hl', fun db h => (db.read_write h).trans hl', hal, hal.sameUse⟩

/-- The sets in ascending order. -/
def SetOrder.sorted : SetOrder where
  list s := Quot.liftOn s.val (fun l => l.insertionSort (· ≤ ·)) fun l l' h =>
    ((List.perm_insertionSort _ l).trans
      (h.trans (List.perm_insertionSort _ l').symm)).eq_of_pairwise'
        (List.pairwise_insertionSort _ l) (List.pairwise_insertionSort _ l')
  nodup s := by
    obtain ⟨⟨l⟩, h⟩ := s
    exact (List.perm_insertionSort _ l).nodup_iff.2 h
  toFinset s := by
    obtain ⟨⟨l⟩, h⟩ := s
    ext x
    rw [List.mem_toFinset]
    exact List.mem_insertionSort _

def ListOrder.sorted : ListOrder where
  elements := .sorted
  uids _ := .sorted
  tags _ _ := .sorted
  counts _ _ _ := .sorted

/-- A list with one item, added under two tags of which one is removed. -/
def packedList : ShoppingList where
  uid := str "list"
  name := str "Groceries"
  items :=
    { elements := AList.singleton (str "milk")
        (ShoppingItem.new (str "o") (str "milk") (str "Milk") 300 2)
      addSet := AList.singleton (str "milk") {str "1", str "2"}
      removeSet := AList.singleton (str "milk") {str "1"} }

def packedMessage : Message where
  op := .gossipLists
  origin := str "node"
  ts := 1700000000000
  lists := [packedList]
  nodes := [{ nodeId := str "n", host := str "h", shardId := -1, clientPort := 5000 }]

theorem unpack_pack_sample :
    (∃ m', Message.fromZmq .getNodes 0 (packedMessage.toZmq fun _ => .sorted) = some m' ∧
      packedMessage.Alike m' ∧ List.Forall₂ ShoppingList.SameUse packedMessage.lists m'.lists) ∧
    ∃ l', BlobDb.readBlob (packedList.pack .sorted) = .ok (some l') ∧
      (({} : BlobDb).write .sorted packedList .ok).1.read packedList.uid .ok =
        .ok (some l') ∧ packedList.Alike l' ∧ packedList.SameUse l' := by
  refine ⟨unpack_pack.1 packedMessage (by decide +kernel) _ _ _, ?_⟩
  obtain ⟨l', hl', hdb, hal, huse⟩ :=
    unpack_pack.2 packedList (by decide +kernel) .sorted
  exact ⟨l', hl', hdb {} (by decide +kernel), hal, huse⟩

end Shopping
