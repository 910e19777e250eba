import Shopping.Proof.Content
import Shopping.Proof.Frames

/-!
# What an acknowledged write leaves stored

`apply_message` cannot tell a list that is not stored from one that it failed to read, and
does not look at the result of `SqliteDb::write`; `handle_client_frame` answers in any case.
So a failing read replaces the stored list by the incoming one, and a failing write is
acknowledged like any other. Nothing is lost exactly if the lost side had nothing to add
(`NothingToLose`).
-/

namespace Shopping

open Lib

/-- The content of a row, of no row none. -/
def SqliteDb.contentAt (db : SqliteDb) (key : Str) : Content := (db.rows.lookup key).elim ⊥ content

namespace Node

/-- The content that a handler merges into: what it could read. -/
theorem content_existing (db : SqliteDb) (c : Calls) (l : ShoppingList) :
    content ((db.read l.uid c).getD (ShoppingList.new l.uid [])) =
      if c.both then db.contentAt l.key else ⊥ := by
  have hblank : content (ShoppingList.new l.uid []) = ⊥ := content_blank rfl
  unfold SqliteDb.read SqliteDb.contentAt ShoppingList.key
  split
  · cases db.rows.lookup (cstr l.uid) with
    | none => exact hblank
    | some row => rfl
  · exact hblank

/-- **The content of the row after a merge that returns**, for all outcomes of its calls. -/
theorem mergeIncoming_content {db db' : SqliteDb} (hk : db.Keyed) {c c' : Calls} {l : ShoppingList}
    (h : mergeIncoming c c' db l = .ok db') :
    db'.contentAt l.key =
      if c'.both then (if c.both then db.contentAt l.key else ⊥) ⊔ content l
      else db.contentAt l.key := by
  have hkey := existing_key hk c l
  have hcontent := content_existing db c l
  obtain ⟨r, hm, rfl⟩ := mergeIncoming_inv h
  have hr : cstr r.uid = l.key := by
    rw [(ShoppingList.merge_eq_ok hm).2.1]; exact hkey
  have hmerged : content r = (if c.both then db.contentAt l.key else ⊥) ⊔ content l := by
    rw [content_merge hm, hcontent]
  unfold SqliteDb.write
  split
  · have hrow : (db.rows.insert (cstr r.getUid) r).lookup l.key = some r := by
      rw [ShoppingList.getUid, hr]; exact AList.lookup_insert _
    rw [← hmerged, SqliteDb.contentAt, hrow]; rfl
  · rfl

def isListResponse : Sent → Bool
  | .reply (.packed m) => m.op = .listResponse
  | _ => false

/-- Node `n` answered with a `LIST_RESPONSE`. -/
def Acknowledged (n : Node) : Method Node → Prop
  | .ok n' => ∃ s ∈ n'.sent.drop n.sent.length, isListResponse s = true
  | .error _ => False

instance (n : Node) : DecidablePred (Acknowledged n)
  | .ok n' => inferInstanceAs (Decidable (∃ s ∈ n'.sent.drop n.sent.length, _))
  | .error _ => isFalse id

/-- **An acknowledged write is stored, and nothing stored is lost**, `r` being how the node
ended the request about `l`. -/
def Durable (n : Node) (l : ShoppingList) (r : Method Node) : Prop :=
  (Acknowledged n r → n.db.contentAt l.key ⊔ content l ≤ r.state.db.contentAt l.key) ∧
    n.db.contentAt l.key ≤ r.state.db.contentAt l.key

/-- The node is to merge `l` in, and the merge throws nothing. -/
def MergesIn (pf : Platform) (env : Env) (n : Node) (l : ShoppingList) : Prop :=
  n.shardForList pf l.uid = n.cfg.shardId ∧
    ((env.stmt 0).both = true → ∀ row ∈ n.db.rows.lookup l.key, row.UidsAgree l)

/-- The side that a failing call drops has nothing that the other one lacks: the incoming
list when the write fails, the stored one when only the read does. -/
def NothingToLose (env : Env) (n : Node) (l : ShoppingList) : Prop :=
  ((env.stmt 1).both = false → content l ≤ n.db.contentAt l.key) ∧
    ((env.stmt 1).both = true → (env.stmt 0).both = false → n.db.contentAt l.key ≤ content l)

theorem not_acknowledged_raw (n : Node) (bytes : Str) :
    ¬ Acknowledged n (.ok (n.reply (.raw bytes))) := by
  rintro ⟨s, hs, hresp⟩
  rw [reply_sent, List.drop_left, List.mem_singleton] at hs
  subst hs
  cases hresp

theorem acknowledged_reply {n n' : Node} {new : List Sent} (hsent : n'.sent = n.sent ++ new)
    {resp : Message} (hresp : resp.op = .listResponse) :
    Acknowledged n (.ok (n'.reply (.packed resp))) := by
  refine ⟨.reply (.packed resp), ?_, by simp [isListResponse, hresp]⟩
  rw [reply_sent, hsent, List.append_assoc, List.drop_left]
  exact List.mem_append_right _ List.mem_cons_self

/-- **An `ENSURE_LIST` is durable iff nothing is lost by a failing call.** -/
theorem ensureList_durable (pf : Platform) (env : Env) {n : Node} (hk : n.db.Keyed) {frame : Frame}
    {m : Message} {l : ShoppingList} {ls : List ShoppingList} (hd : frame.decode pf = some m)
    (hop : m.op = .ensureList) (hl : m.lists = l :: ls) :
    Durable n l (handleClientFrame pf env n frame) ↔
      (MergesIn pf env n l → NothingToLose env n l) := by
  have hmerge : applyMessage env.stmt n.db m = mergeIncoming (env.stmt 0) (env.stmt 1) n.db l := by
    unfold applyMessage; rw [hop, hl]
  have hok := mergeIncoming_isOk (storedLists_fed n.db) (env.stmt 0) (env.stmt 1) l
  have hstored : ∀ e, e ∈ storedLists n.db l.key ↔ e ∈ n.db.rows.lookup l.key := by
    intro e; simp [storedLists, Option.mem_toList]
  simp only [hstored] at hok
  have ht := handleClientFrame_turn pf env n frame
  generalize handleClientFrame pf env n frame = r at ht ⊢
  cases ht with
  | undecodable hd' => rw [hd] at hd'; cases hd'
  | nodes m' hd' hop' => rw [hd] at hd'; cases hd'; rw [hop] at hop'; cases hop'
  | empty m' hd' _ hl' => rw [hd] at hd'; cases hd'; rw [hl] at hl'; cases hl'
  | found m' l' ls' row hd' hop' => rw [hd] at hd'; cases hd'; rw [hop] at hop'; cases hop'
  | absent m' l' ls' hd' hop' => rw [hd] at hd'; cases hd'; rw [hop] at hop'; cases hop'
  | refused m' l' ls' hd' _ hl' hs =>
    rw [hd] at hd'; cases hd'
    rw [hl] at hl'; cases hl'
    refine iff_of_true ⟨fun h => absurd h (not_acknowledged_raw n _), le_rfl⟩ ?_
    intro h; exact absurd h.1 hs
  | thrown m' l' ls' e db hd' _ _ hl' hs ha =>
    rw [hd] at hd'; cases hd'
    rw [hl] at hl'; cases hl'
    rw [hmerge] at ha
    have hdb : db = n.db := by
      rcases mergeIncoming_cases hk (env.stmt 0) (env.stmt 1) l with ⟨e', h⟩ | ⟨r, -, h⟩
      · rw [h] at ha; cases ha; rfl
      · rw [h] at ha; cases ha
    subst hdb
    refine iff_of_true ⟨False.elim, le_rfl⟩ ?_
    rintro ⟨-, hagree⟩
    obtain ⟨db', h⟩ := hok.2 hagree
    rw [h] at ha; cases ha
  | applied m' l' ls' db hd' _ _ hl' hs ha =>
    rw [hd] at hd'; cases hd'
    rw [hl] at hl'; cases hl'
    rw [hmerge] at ha
    have hmerges : MergesIn pf env n l := ⟨hs, hok.1 ⟨db, ha⟩⟩
    have hafter := mergeIncoming_content hk ha
    obtain ⟨new, he, -⟩ := eagerFanout_eq env { n with db }
    rw [he]
    -- the node has answered, so the first half says more than the second
    have hdurable : ∀ n' : Node, n'.sent = n.sent ++ new → n'.db = db → ∀ resp : Message,
        resp.op = .listResponse → (Durable n l (.ok (n'.reply (.packed resp))) ↔
          n.db.contentAt l.key ⊔ content l ≤ db.contentAt l.key) := by
      rintro n' hsent rfl resp hresp
      have hack := acknowledged_reply hsent hresp
      exact ⟨fun h => h.1 hack, fun h => ⟨fun _ => h, le_sup_left.trans h⟩⟩
    rw [hdurable { n with db, sent := n.sent ++ new } rfl rfl _ (by simp [Message.listResponse, hop]),
      forall_prop_of_true hmerges, hafter, NothingToLose]
    cases (env.stmt 1).both <;> cases (env.stmt 0).both <;> simp

/-- A list with one item, added with one tag. -/
def sampleTagged (uid tag : Str) : ShoppingList :=
  { ShoppingList.new (sampleUid 0) [] with
    items := ORSet.add {} (ShoppingItem.new [] uid [] 1 0) tag }

/-- Node 0, storing a list with milk. -/
def sampleStore : Node :=
  { new (Deployment.sample.cfg 0) {} 0 with
    db := ⟨AList.singleton (sampleUid 0) (sampleTagged (str "milk") (str "1"))⟩ }

/-- Statement `i` of the handler cannot be prepared; no other call fails. -/
def failingAt (i : ℕ) : Env where
  now _ := 0
  stmt j := if j = i then { prepare := false } else .ok

theorem sampleStore_keyed : sampleStore.db.Keyed := by
  intro key l hl
  have hrow : ∀ k, sampleStore.db.rows.lookup k =
      if sampleUid 0 = k then some (sampleTagged (str "milk") (str "1")) else none :=
    fun k => UMap.dlookup_cons k _ []
  rw [hrow] at hl
  split at hl
  · rename_i hk
    cases hl
    rw [← hk]; decide
  · cases hl

/-- A failing write of what is stored already loses nothing. -/
theorem stored_again : Durable sampleStore (sampleTagged (str "milk") (str "1"))
    (handleClientFrame Platform.sample (failingAt 1) sampleStore
      (.packed (Message.ensureList [] 0 (sampleTagged (str "milk") (str "1"))))) := by
  refine (ensureList_durable Platform.sample (failingAt 1) sampleStore_keyed rfl rfl rfl).2 ?_
  rintro -
  exact ⟨fun _ => le_of_eq rfl, fun h => absurd h (by decide)⟩

/-- After a failing read the stored milk is lost; after a failing write the acknowledged
bread is. -/
theorem ensureList_not_durable :
    ¬ Durable sampleStore (sampleTagged (str "bread") (str "2"))
        (handleClientFrame Platform.sample (failingAt 0) sampleStore
          (.packed (Message.ensureList [] 0 (sampleTagged (str "bread") (str "2"))))) ∧
      ¬ Durable sampleStore (sampleTagged (str "bread") (str "2"))
        (handleClientFrame Platform.sample (failingAt 1) sampleStore
          (.packed (Message.ensureList [] 0 (sampleTagged (str "bread") (str "2"))))) := by
  constructor
  · rintro ⟨-, hkept⟩
    have hmilk := hkept.1 (str "milk")
    revert hmilk
    decide +kernel
  · rintro ⟨hstored, -⟩
    have hbread := (hstored (by decide +kernel)).1 (str "bread")
    revert hbread
    decide +kernel

end Node

end Shopping
