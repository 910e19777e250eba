import Shopping.Client.Turns
import Shopping.Proof.Locks

/-!
# The calls of the client's threads keep to the discipline

* `HttpFrom.code`: an HTTP call ends as it does alone (`Call.Ends`).
* `triple_gossipState`, `triple_updateCloudNodes`: so do the calls of the other two threads, of
  which the second refreshes the table at once (`triple_useNodes`).

None comes to `undefined` if the table and the cloud are `Sane` and the call is `Fresh`.
-/

namespace Shopping.Client

open Lib API

variable {lax : Prop} {pf : Platform} {answer : Request Str Message → Frame} {origin : Str}
  {table : UMap Int32 (List Str)} {t : Thread} {h : Mutex → Option LockMode}

/-- `uid` is the first of the strings `createUID` draws under which no list is stored. -/
def NewUid (db : SqliteDb) (ids : List Str) (uid : Str) : Prop :=
  (ids.find? fun id => (db.read id .ok).isNone) = some uid

/-- How a call ends that ends as a method of `API` does, with the client's database `db`. -/
def Ended (db : SqliteDb) : Except Exn (ShoppingList × API) → Result → SqliteDb → Prop
  | .ok (lst, a), r, db' => r = .ok (some lst) ∧ db' = a.db
  | .error e, r, db' => r = .error e ∧ db' = db

/-- How `addItem`, `updateItem` and `removeItem` end, once the list is changed. -/
def EditEnded (pf : Platform) (answer : Request Str Message → Frame) (a : API) (x : Ask) :
    Except Exn ShoppingList → Result → SqliteDb → Prop
  | .error e, r, db' => r = .error e ∧ db' = a.db
  | .ok lst, r, db' => ∃ reply, IsReply pf answer (Message.ensureList a.origin x.now lst) reply ∧
    ¬ NoList reply ∧ Ended a.db (a.finishEdit lst reply .ok) r db'

/-- What a call returns and leaves in the database when it is made alone: what the methods of `API`
do before and after an exchange that is not answered, or is answered with the reply to its own
request. -/
def Call.Ends (pf : Platform) (answer : Request Str Message → Frame) (a : API) :
    Call → Result → SqliteDb → Prop
  | createShoppingList name ids _, r, db' => ∃ uid, NewUid a.db ids uid ∧
    r = .ok (some (a.createShoppingList name uid .ok).1) ∧
    db' = (a.createShoppingList name uid .ok).2.db
  | getShoppingList listUid x, r, db' =>
    ∃ reply, IsReply pf answer (Message.getList a.origin x.now listUid) reply ∧ ¬ NoList reply ∧
      Ended a.db (a.finishGet (a.db.read listUid .ok) reply .ok) r db'
  | addItem listUid itemName desired current ids clock x, r, db' => ∃ itemUid,
    ((a.db.read listUid .ok).isSome = true → NewUid a.db ids itemUid) ∧
    EditEnded pf answer a x
      (a.addItem listUid itemName desired current itemUid (ORSet.genTag clock) .ok) r db'
  | updateItem listUid itemUid itemName desired current clock x, r, db' =>
    EditEnded pf answer a x
      (a.updateItem listUid itemUid itemName desired current (ORSet.genTag clock) .ok) r db'
  | removeItem listUid itemUid x, r, db' =>
    EditEnded pf answer a x (a.removeItem listUid itemUid .ok) r db'
  | deleteShoppingList listUid _, r, db' =>
    r = .ok none ∧ db' = (a.deleteShoppingList listUid .ok).db
  | gossipState _, _, db' => db' = a.db
  | updateCloudNodes _, _, db' => db' = a.db

/-- One of the strings that `createUID` draws is free. -/
def Call.Fresh (db : SqliteDb) : Call → Prop
  | createShoppingList _ ids _ => ∃ id ∈ ids, db.read id .ok = none
  | addItem _ _ _ _ ids _ _ => ∃ id ∈ ids, db.read id .ok = none
  | _ => True

/-- Code of the HTTP thread that begins with the database `db`: nobody else writes that. -/
def HttpFrom {β : Type} (lax : Prop) (pf : Platform) (answer : Request Str Message → Frame)
    (origin : Str) (table : UMap Int32 (List Str)) (db : SqliteDb) (p : Code β)
    (Q : β → SqliteDb → Prop) : Prop :=
  (discipline lax pf answer origin table).Triple .http (fun _ => none) (fun x => x .db = db) p
    fun b x => Q b (x .db)

namespace HttpFrom

variable {β : Type} {db : SqliteDb} {Q : β → SqliteDb → Prop}

theorem stable : (discipline lax pf answer origin table).Stable .http h fun x => x .db = db :=
  fun _ _ hxy hx => (hxy .db (.inr ⟨not_spoils (nomatch ·), .inl rfl⟩)).symm.trans hx

/-- What ends with `Q` ends with anything `Q` implies. -/
theorem mono {p : Code β} {Q' : β → SqliteDb → Prop}
    (hp : HttpFrom lax pf answer origin table db p Q)
    (hQ : ∀ b db', Q b db' → Q' b db') : HttpFrom lax pf answer origin table db p Q' :=
  fun x hx => (hp x hx).mono fun b y => hQ b (y .db)

theorem ret {b : β} (hQ : Q b db) : HttpFrom lax pf answer origin table db (.ret b) Q :=
  Discipline.Triple.ret stable (fun _ => rfl) fun x hx => by rw [hx]; exact hQ

/-- The HTTP thread reads what it wrote itself. -/
theorem readDb {k : SqliteDb → Code β} (hk : HttpFrom lax pf answer origin table db (k db) Q) :
    HttpFrom lax pf answer origin table db (Client.readDb.bind k) Q :=
  .read stable (.inl ⟨not_spoils (nomatch ·), rfl⟩) fun x hx _ => by rw [hx]; exact hk

theorem draw {k : Unit → Code β} (hk : HttpFrom lax pf answer origin table db (k ()) Q) :
    HttpFrom lax pf answer origin table db (Client.draw.bind k) Q :=
  triple_draw stable hk

/-- A block with `dbMutex` that changes the database. -/
theorem modifyDb {f : SqliteDb → SqliteDb} {k : Unit → Code β}
    (hk : HttpFrom lax pf answer origin table (f db) (k ()) Q) :
    HttpFrom lax pf answer origin table db ((Proc.locked .dbMutex .exclusive
      (Proc.modifyGet Object.db fun db => ((), f db))).bind k) Q := by
  have hw : (discipline lax pf answer origin table).MayWrite .http
      (Function.update (fun _ => none) .dbMutex (some .exclusive)) .db := by
    refine ⟨fun t' ht' => (Option.some.inj ht').symm, fun m' hm' => ?_⟩
    cases hm'
    exact Function.update_self ..
  refine Discipline.Does.locked (.modifyGet hw _ fun _ _ => trivial) (fun _ => guard_eq_some)
    stable stable rfl (rank_lt_of_free (fun _ => rfl) _) (fun x hx _ => ⟨trivial, ?_⟩)
    fun x hx _ => hk
  rw [Function.update_self, hx]

variable (hsane : lax ∨ Sane pf answer table)

include hsane in
/-- A request leaves the database alone, and comes back unanswered or with the reply to itself. -/
theorem ask {listUid : Str} {m : Message} {x : Ask} {k : Option Message → Code β}
    (hk : ∀ reply, IsReply pf answer m reply → HttpFrom lax pf answer origin table db (k reply) Q) :
    HttpFrom lax pf answer origin table db
      ((Client.ask pf answer origin listUid m x).bind k) Q := by
  unfold Client.ask
  show HttpFrom lax pf answer origin table db
    ((Proc.bind _ fun ep => Proc.bind _ fun r => _).bind k) Q
  rw [Proc.bind_assoc]
  refine triple_getShardEndpoint hsane stable (fun _ => rfl) (nomatch ·) fun ep => ?_
  rw [Proc.bind_assoc]
  exact triple_sendCloudMessage stable (fun x v hx => hx) rfl fun r hr => hk _ hr.isReply

/-- `createUID` looks its draws up one by one, until one is free. -/
theorem createUID {ids : List Str} {k : Str → Code β}
    (hids : lax ∨ ∃ id ∈ ids, db.read id .ok = none)
    (hk : ∀ uid, NewUid db ids uid → HttpFrom lax pf answer origin table db (k uid) Q) :
    HttpFrom lax pf answer origin table db ((Client.createUID ids).bind k) Q := by
  induction ids with
  | nil => exact fun _ _ => hids.resolve_right fun ⟨_, hid, _⟩ => nomatch hid
  | cons id ids ih =>
    show HttpFrom lax pf answer origin table db ((Client.draw.bind fun _ =>
      Client.readDb.bind fun db =>
        if (db.read id .ok).isSome then Client.createUID ids else .ret id).bind k) Q
    rw [Proc.bind_assoc]
    refine draw ?_
    rw [Proc.bind_assoc]
    refine readDb ?_
    cases hread : db.read id .ok with
    | none => exact hk id (by rw [NewUid, List.find?_cons_of_pos]; rw [hread]; rfl)
    | some l =>
      have hids' : lax ∨ ∃ id ∈ ids, db.read id .ok = none := by
        refine hids.imp_right fun ⟨id', hid', hnone⟩ =>
          ⟨id', (List.mem_cons.1 hid').resolve_left ?_, hnone⟩
        rintro rfl
        rw [hread] at hnone
        cases hnone
      refine ih hids' fun uid huid => hk uid ?_
      rw [NewUid, List.find?_cons_of_neg]
      · exact huid
      · rw [hread]; exact Bool.false_ne_true

/-- The list that is returned is the one written. -/
theorem stored {lst : ShoppingList} {Q : Result → SqliteDb → Prop}
    (hQ : Q (.ok (some lst)) (db.write lst .ok).1) :
    HttpFrom lax pf answer origin table db (Client.stored lst) Q :=
  modifyDb (ret hQ)

include hsane in
/-- A `LIST_RESPONSE` without a list is undefined. -/
theorem cloudList {m : Message} {reply : Option Message} {k : Option ShoppingList → Code β}
    (hreply : IsReply pf answer m reply)
    (hk : ¬ NoList reply → HttpFrom lax pf answer origin table db (k (API.cloudList reply)) Q) :
    HttpFrom lax pf answer origin table db ((Client.cloudList reply).bind k) Q := by
  cases reply with
  | none => exact hk fun ⟨_, h, _⟩ => nomatch h
  | some m =>
    obtain ⟨request, -, hdecode⟩ := hreply m rfl
    unfold Client.cloudList
    dsimp only
    by_cases hop : m.op = .listResponse
    · rw [if_pos hop]
      cases hl : m.lists with
      | nil => exact fun _ _ => hsane.resolve_right fun hs => hs.lists request m hdecode hop hl
      | cons l ls =>
        rw [cloudList_cons hop hl] at hk
        refine hk ?_
        rintro ⟨m', hm', -, hnil⟩
        cases hm'
        rw [hl] at hnil
        cases hnil
    · rw [if_neg hop]
      rw [cloudList_other hop] at hk
      refine hk ?_
      rintro ⟨m', hm', hop', -⟩
      cases hm'
      exact hop hop'

variable {a : API}

include hsane in
/-- The end of an edit: the merge with the reply, or the list as it was edited. -/
theorem finishEdit {lst : ShoppingList} {x : Ask} :
    HttpFrom lax pf answer a.origin table a.db (Client.finishEdit pf answer a.origin lst x)
      (EditEnded pf answer a x (.ok lst)) := by
  refine ask hsane fun reply hreply => cloudList hsane hreply fun hlist => ?_
  obtain ⟨hno, -⟩ | ⟨r, hr, hcases⟩ := a.finishEdit_cases .ok lst reply
  · exact absurd hno hlist
  have hend : EditEnded pf answer a x (.ok lst) (.ok (some r)) (a.db.write r .ok).1 := by
    refine ⟨reply, hreply, hlist, ?_⟩
    rw [hr]
    exact ⟨rfl, rfl⟩
  obtain ⟨hc, rfl⟩ | ⟨l, hc, rfl⟩ := hcases
  · rw [hc]
    exact stored hend
  · rw [hc]
    exact stored hend

include hsane in
/-- An edit that throws ends there; another one sends its list. -/
theorem edit {edited : Except Exn ShoppingList} {x : Ask} :
    HttpFrom lax pf answer a.origin table a.db (Client.edit pf answer a.origin x edited)
      (EditEnded pf answer a x edited) := by
  cases edited with
  | error e => exact ret ⟨rfl, rfl⟩
  | ok lst => exact finishEdit hsane

include hsane in
/-- **An HTTP call ends as it does alone.** -/
theorem code {c : Call} (hc : c.thread = .http) (hfresh : lax ∨ c.Fresh a.db) :
    HttpFrom lax pf answer a.origin table a.db (c.code pf answer a.origin)
      (c.Ends pf answer a) := by
  cases c with
  | createShoppingList name ids x =>
    exact createUID hfresh fun uid huid =>
      modifyDb (ask hsane fun _ _ => ret ⟨uid, huid, rfl, rfl⟩)
  | getShoppingList listUid x =>
    refine readDb (ask hsane fun reply hreply => cloudList hsane hreply fun hlist => ?_)
    have hend : ∀ r db', Ended a.db (a.finishGet (a.db.read listUid .ok) reply .ok) r db' →
        Call.Ends pf answer a (.getShoppingList listUid x) r db' := fun r db' h =>
      ⟨reply, hreply, hlist, h⟩
    obtain ⟨hno, -⟩ | ⟨hc, hf, hr⟩ | ⟨l, mine, e, hc, hf, hm, hr⟩ | ⟨r, hr, hcases⟩ :=
      a.finishGet_cases .ok (a.db.read listUid .ok) reply
    · exact absurd hno hlist
    · rw [hc, hf]
      refine ret (hend _ _ ?_)
      rw [hr]
      exact ⟨rfl, rfl⟩
    · rw [hc, hf]
      dsimp only
      rw [hm]
      refine ret (hend _ _ ?_)
      rw [hr]
      exact ⟨rfl, rfl⟩
    · have hstored : ∀ lst, lst = r → HttpFrom lax pf answer a.origin table a.db (Client.stored lst)
          (Call.Ends pf answer a (.getShoppingList listUid x)) := by
        rintro _ rfl
        refine stored (hend _ _ ?_)
        rw [hr]
        exact ⟨rfl, rfl⟩
      obtain ⟨hc, hf⟩ | ⟨hc, hf⟩ | ⟨l, mine, hc, hf, hm⟩ := hcases
      · rw [hc, hf]
        exact hstored _ rfl
      · rw [hc, hf]
        exact hstored _ rfl
      · rw [hc, hf]
        dsimp only
        rw [hm]
        exact hstored _ rfl
  | addItem listUid itemName desired current ids clock x =>
    refine readDb ?_
    cases hread : a.db.read listUid .ok with
    | none =>
      refine ret ⟨[], fun h => ?_, ?_⟩
      · rw [hread] at h; cases h
      · unfold API.addItem
        rw [hread]
        exact ⟨rfl, rfl⟩
    | some lst =>
      refine createUID hfresh fun itemUid huid => ?_
      have hadd : a.addItem listUid itemName desired current itemUid (ORSet.genTag clock) .ok =
          lst.add (ShoppingItem.new a.origin itemUid itemName desired.toUInt32 current.toUInt32)
            (ORSet.genTag clock) := by
        unfold API.addItem
        rw [hread]
      refine (edit hsane).mono fun r db' h => ⟨itemUid, fun _ => huid, ?_⟩
      rw [hadd]
      exact h
  | updateItem listUid itemUid itemName desired current clock x => exact readDb (edit hsane)
  | removeItem listUid itemUid x => exact readDb (edit hsane)
  | deleteShoppingList listUid x => exact modifyDb (ask hsane fun _ _ => ret ⟨rfl, rfl⟩)
  | gossipState x => cases hc
  | updateCloudNodes x => cases hc

end HttpFrom

section

variable {β : Type} {Q : β → (∀ r, Object.Ty r) → Prop}

theorem stable_true : (discipline lax pf answer origin table).Stable t h fun _ => True :=
  fun _ _ _ _ => trivial

/-- No batch is empty. -/
def Batches (shardLists : UMap Int32 (List ShoppingList)) : Prop :=
  ∀ shard lists, shardLists.lookup shard = some lists → lists ≠ []

/-- A batch is made when it gets its first list. -/
theorem Batches.insert {shardLists : UMap Int32 (List ShoppingList)} (hb : Batches shardLists)
    {shard : Int32} {lists : List ShoppingList} (hne : lists ≠ []) :
    Batches (shardLists.insert shard lists) := by
  intro shard' lists' hl
  by_cases heq : shard' = shard
  · subst heq
    rw [AList.lookup_insert] at hl
    cases hl
    exact hne
  · rw [AList.lookup_insert_ne heq] at hl
    exact hb shard' lists' hl

variable (hsane : lax ∨ Sane pf answer table)

include hsane

/-- The loop of `gossipState` that sorts the lists by shard, looking at the table without its lock.
-/
theorem triple_groupLists {lists : List ShoppingList} {shardLists : UMap Int32 (List ShoppingList)}
    {k : UMap Int32 (List ShoppingList) → Code β} (hb : Batches shardLists)
    (hk : ∀ b, Batches b →
      (discipline lax pf answer origin table).Triple .gossip h (fun _ => True) (k b) Q) :
    (discipline lax pf answer origin table).Triple .gossip h (fun _ => True)
      ((groupLists pf origin lists shardLists).bind k) Q := by
  induction lists generalizing shardLists with
  | nil => exact hk shardLists hb
  | cons lst rest ih =>
    refine .read stable_true (.inr (.inr ⟨rfl, rfl⟩)) fun x _ hfilled => ?_
    show (discipline lax pf answer origin table).Triple .gossip h _
      (Proc.bind (if _ then _ else _) k) Q
    split
    -- the size is read without the lock, but no row is ever removed
    · exact fun _ _ => hsane.elim id fun hs => hfilled.resolve_right fun hv => hs.keys_ne hv ‹_›
    · exact ih (hb.insert (by simp))

/-- The loop that sends them. -/
theorem triple_sendBatches {x : Int32 → Ask} {batches : List (Int32 × List ShoppingList)}
    {k : Unit → Code β} (hbatches : ∀ b ∈ batches, b.2 ≠ []) (hfree : ∀ m, h m = none)
    (hk : (discipline lax pf answer origin table).Triple .gossip h (fun _ => True) (k ()) Q) :
    (discipline lax pf answer origin table).Triple .gossip h (fun _ => True)
      ((sendBatches pf answer origin x batches).bind k) Q := by
  induction batches with
  | nil => exact hk
  | cons batch rest ih =>
    obtain ⟨shard, lists⟩ := batch
    cases lists with
    | nil => exact absurd rfl (hbatches (shard, []) List.mem_cons_self)
    | cons first lists =>
      show (discipline lax pf answer origin table).Triple .gossip h _ ((Proc.bind _ fun ep =>
        Proc.bind _ fun _ => sendBatches pf answer origin x rest).bind k) Q
      rw [Proc.bind_assoc]
      refine triple_getShardEndpoint hsane stable_true hfree (nomatch ·) fun ep => ?_
      rw [Proc.bind_assoc]
      exact triple_sendCloudMessage stable_true (fun _ _ _ => trivial) (hfree _) fun _ _ =>
        ih fun b hb => hbatches b (List.mem_cons_of_mem _ hb)

/-- **`gossipState`** begins and ends without a lock. -/
theorem triple_gossipState {x : Int32 → Ask} :
    (discipline lax pf answer origin table).Triple .gossip (fun _ => none) (fun _ => True)
      (gossipState pf answer origin x) fun _ _ => True := by
  have hguarded : (discipline lax pf answer origin table).Guarded
      (Function.update (fun _ => none) .dbMutex (some .exclusive)) .db := ⟨.dbMutex, rfl, rfl⟩
  refine Discipline.Does.locked (.get (.inr (.inl hguarded))) (fun _ => guard_eq_some) stable_true
    stable_true rfl (rank_lt_of_free (fun _ => rfl) _) (fun _ _ _ => ⟨trivial, trivial⟩)
    fun v _ _ => ?_
  refine triple_groupLists hsane (fun _ _ hl => by rw [AList.lookup_empty] at hl; cases hl)
    fun b hb => triple_sendBatches hsane (fun batch hbatch => ?_) (fun _ => rfl)
      (.ret stable_true (fun _ => rfl) fun _ _ => trivial)
  obtain ⟨⟨shard, lists⟩, hentry, rfl⟩ := List.mem_map.1 hbatch
  exact hb shard lists (AList.mem_lookup_iff.2 hentry)

omit hsane in
/-- Who has `shardMutex` for itself has the table for itself. -/
theorem stable_table (hheld : h .shardMutex = some .exclusive) (v : UMap Int32 (List Str)) :
    (discipline lax pf answer origin table).Stable t h fun x => x .shardEndpoints = v :=
  fun _ _ hxy hx => (hxy .shardEndpoints (.inl ⟨.shardMutex, rfl, hheld⟩)).symm.trans hx

omit hsane in
/-- The loop of a refresh, over the entries of the reply. -/
theorem triple_addNodes {nodes : List NodeInfo} {v : UMap Int32 (List Str)} {k : Unit → Code β}
    (hheld : h .shardMutex = some .exclusive)
    (hnodes : lax ∨ ∀ info ∈ nodes, info.shardId ∈ table.keys)
    (hk : (discipline lax pf answer origin table).Triple .nodeUpdate h
      (fun x => x .shardEndpoints = nodes.foldl addNode v) (k ()) Q) :
    (discipline lax pf answer origin table).Triple .nodeUpdate h (fun x => x .shardEndpoints = v)
      ((addNodes nodes).bind k) Q := by
  induction nodes generalizing v with
  | nil => exact hk
  | cons info rest ih =>
    have hw : (discipline lax pf answer origin table).MayWrite .nodeUpdate h .shardEndpoints := by
      refine ⟨fun t' ht' => (Option.some.inj ht').symm, fun m' hm' => ?_⟩
      cases hm'
      exact hheld
    have hrest : lax ∨ ∀ info ∈ rest, info.shardId ∈ table.keys :=
      hnodes.imp_right fun hall info hinfo => hall info (List.mem_cons_of_mem _ hinfo)
    have hadd : (discipline lax pf answer origin table).Triple .nodeUpdate h
        (fun x => x .shardEndpoints = addNode v info) ((addNodes rest).bind k) Q := ih hrest hk
    refine .update (stable_table hheld v) hw (fun x _ hfilled => ?_) (fun x hx => ?_) fun x _ => hadd
    · obtain hlax | hall := hnodes
      · exact .inl hlax
      · exact hfilled.imp_right fun hv => hv.addNode (hall info List.mem_cons_self)
    · rw [Function.update_self, hx]

/-- The table is refreshed at once. -/
theorem triple_useNodes {r : Except Exn Message} {m : Message} {v : UMap Int32 (List Str)}
    {k : Unit → Code β} (hheld : h .shardMutex = some .exclusive)
    (hreply : IsReply pf answer m r.toOption)
    (hk : ∀ reply, IsReply pf answer m reply →
      (discipline lax pf answer origin table).Triple .nodeUpdate h
        (fun x => x .shardEndpoints = refreshed v reply) (k ()) Q) :
    (discipline lax pf answer origin table).Triple .nodeUpdate h (fun x => x .shardEndpoints = v)
      ((useNodes r).bind k) Q := by
  have hnone : IsReply pf answer m none := fun _ h => nomatch h
  cases r with
  | error e => exact hk none hnone
  | ok reply =>
    unfold useNodes
    dsimp only
    split
    · rename_i hop
      have hend := hk (some reply) hreply
      rw [refreshed, API.finishUpdateCloudNodes] at hend
      simp only [if_pos hop] at hend
      refine triple_addNodes hheld (hsane.imp_right fun hs => ?_) hend
      obtain ⟨request, -, hdecode⟩ := hreply reply rfl
      exact hs.nodes request reply hdecode hop
    · exact hk none hnone

/-- **`updateCloudNodes`** leaves what the whole reply makes of the table. -/
theorem triple_updateCloudNodes {x : Ask} :
    (discipline lax pf answer origin table).Triple .nodeUpdate (fun _ => none) (fun _ => True)
      (updateCloudNodes pf answer origin x) fun _ _ => True := by
  refine triple_getAnyEndpoint hsane stable_true (fun _ => rfl) fun ep => ?_
  refine .lock stable_true rfl (rank_lt_of_free (fun _ => rfl) _) fun y _ _ hinv => ?_
  obtain ⟨replies, hall, hreplies⟩ := hinv rfl .shardEndpoints rfl
  have hstable (v : UMap Int32 (List Str)) : (discipline lax pf answer origin table).Stable
      .nodeUpdate (Function.update (fun _ => none) .shardMutex (some .exclusive))
      fun x => x .shardEndpoints = v := stable_table rfl v
  have hblock : (discipline lax pf answer origin table).Triple .nodeUpdate
      (Function.update (fun _ => none) .shardMutex (some .exclusive))
      (fun x => x .shardEndpoints = y .shardEndpoints)
      ((Proc.bind readTable fun _ => (sendCloudMessage pf answer ep (Message.getNodes origin x.now)
        x.calls).bind useNodes).bind fun a => .unlock .shardMutex (.ret (.ok none)))
      fun (_ : Result) _ => True := by
    rw [Proc.bind_assoc]
    refine .read (hstable _) (.inr (.inl ⟨.shardMutex, rfl, rfl⟩)) fun _ _ _ => ?_
    show (discipline lax pf answer origin table).Triple _ _ _ (Proc.bind (Proc.bind _ _) _) _
    rw [Proc.bind_assoc]
    refine triple_sendCloudMessage (hstable _) (fun x v hx => hx) rfl fun r hr =>
      triple_useNodes hsane rfl hr.isReply fun reply hreply => ?_
    refine .unlock (hstable _) rfl (fun _ z hz r' hr' => ?_)
      (fun z _ => ⟨fun m => ?_, fun _ _ => trivial⟩)
    · cases r' with
      | shardEndpoints =>
        refine ⟨replies ++ [reply], fun reply' hreply' => ?_, ?_⟩
        · obtain h | h := List.mem_append.1 hreply'
          · exact hall reply' h
          · obtain rfl := List.mem_singleton.1 h
            exact ⟨x.now, hreply⟩
        · rw [hz, List.foldl_append, ← hreplies]
          rfl
      | _ => cases hr'
    · cases m <;> rfl
  rw [Proc.bind_assoc]
  exact hblock y rfl

end

end Shopping.Client
