import Shopping.Persistence.Batch

/-!
# What a failing batch leaves

`write_many` and `delete_many` are to be all-or-nothing (`AllOrNothing`). `batch_eq` says in
closed form what they leave. The law fails when `COMMIT` leaves its transaction open, and when
a step fails and the steps that succeeded are committed all the same (`batches_atomic`).

`read_many` is to answer position by position. It appends a list for each row, so it does so
only if the rows are those asked for, in the order asked for (`readMany_agrees`).
-/

namespace Shopping

open Lib

namespace SqliteDb

/-- The same rows, in whatever order. -/
def SameRows (db db' : SqliteDb) : Prop := ∀ key, db.rows.lookup key = db'.rows.lookup key

variable {db db' : SqliteDb}

theorem SameRows.refl (db : SqliteDb) : db.SameRows db := fun _ => rfl

theorem SameRows.write (h : db.SameRows db') (list : ShoppingList) (c : Calls) :
    (db.write list c).1.SameRows (db'.write list c).1 ∧ (db.write list c).2 = (db'.write list c).2 := by
  unfold SqliteDb.write
  split
  · refine ⟨fun key => ?_, rfl⟩
    rw [UMap.lookup_insert_ite, UMap.lookup_insert_ite, h key]
  · exact ⟨h, rfl⟩

theorem SameRows.deleteList (h : db.SameRows db') (id : Str) (c : Calls) :
    (db.deleteList id c).1.SameRows (db'.deleteList id c).1 ∧
      (db.deleteList id c).2 = (db'.deleteList id c).2 := by
  unfold SqliteDb.deleteList
  split
  · refine ⟨fun key => ?_, rfl⟩
    by_cases hk : key = cstr id
    · rw [hk, AList.lookup_erase, AList.lookup_erase]
    · rw [AList.lookup_erase_ne hk, AList.lookup_erase_ne hk, h key]
  · exact ⟨h, rfl⟩

end SqliteDb

namespace Connection

variable {α : Type*} {f : SqliteDb → α → SqliteDb}

/-- Some step fails and has the transaction rolled back. -/
def RollsBack (zs : List (α × Outcome)) : Prop := Outcome.rolledBack ∈ zs.map Prod.snd

instance (zs : List (α × Outcome)) : Decidable (RollsBack zs) :=
  inferInstanceAs (Decidable (_ ∈ _))

/-- Every step succeeds. -/
def AllDone (zs : List (α × Outcome)) : Prop := ∀ z ∈ zs, z.2 = .done

instance (zs : List (α × Outcome)) : Decidable (AllDone zs) :=
  inferInstanceAs (Decidable (∀ z ∈ zs, _))

@[simp] theorem rollsBack_cons {x : α} {o : Outcome} {zs : List (α × Outcome)} :
    RollsBack ((x, o) :: zs) ↔ o = .rolledBack ∨ RollsBack zs := by
  unfold RollsBack; rw [List.map_cons, List.mem_cons, eq_comm]

@[simp] theorem allDone_cons {x : α} {o : Outcome} {zs : List (α × Outcome)} :
    AllDone ((x, o) :: zs) ↔ o = .done ∧ AllDone zs := List.forall_mem_cons

/-- The elements whose step succeeds. -/
def made (zs : List (α × Outcome)) : List α := (zs.filter fun z => z.2 = .done).map Prod.fst

/-- The elements whose step succeeds and is not rolled back, by a step that fails or by the
`COMMIT` that ends as `o`. Only the first rollback finds a transaction. -/
def lasting (zs : List (α × Outcome)) (o : Outcome) : List α :=
  if RollsBack zs then made (zs.dropWhile fun z => z.2 ≠ .rolledBack)
  else if o = .rolledBack then [] else made zs

theorem made_of_allDone {zs : List (α × Outcome)} (h : AllDone zs) : made zs = zs.map Prod.fst := by
  rw [made, List.filter_eq_self.2]
  intro z hz
  simpa using h z hz

theorem not_rollsBack {zs : List (α × Outcome)} (h : AllDone zs) : ¬ RollsBack zs := by
  intro hr
  obtain ⟨z, hz, heq⟩ := List.mem_map.1 hr
  rw [h z hz] at heq
  cases heq

theorem stepAll_snd (zs : List (α × Outcome)) : ∀ c : Connection,
    (stepAll f c zs).2 = decide (AllDone zs) := by
  induction zs with
  | nil => intro c; rfl
  | cons z zs ih =>
    intro c
    obtain ⟨x, o⟩ := z
    cases o with
    | done => rw [stepAll, ih]; simp
    | failed => simp [stepAll]
    | rolledBack => simp [stepAll]

/-- Without a transaction, every step that succeeds stays. -/
theorem stepAll_idle (zs : List (α × Outcome)) : ∀ db : SqliteDb,
    (stepAll f { db := db } zs).1 = { db := (made zs).foldl f db } := by
  induction zs with
  | nil => intro db; rfl
  | cons z zs ih =>
    intro db
    obtain ⟨x, o⟩ := z
    cases o with
    | done => exact ih (f db x)
    | failed => exact ih db
    | rolledBack => exact ih db

/-- Inside a transaction, they stay unless a later step has it rolled back. -/
theorem stepAll_open (zs : List (α × Outcome)) (saved : SqliteDb) : ∀ db : SqliteDb,
    (stepAll f { db := db, saved := some saved } zs).1 =
      if RollsBack zs then
        { db := (made (zs.dropWhile fun z => z.2 ≠ .rolledBack)).foldl f saved }
      else { db := (made zs).foldl f db, saved := some saved } := by
  induction zs with
  | nil => intro db; rfl
  | cons z zs ih =>
    intro db
    obtain ⟨x, o⟩ := z
    cases o with
    | done => rw [stepAll, ih]; simp [made]
    | failed => rw [stepAll, ih]; simp [made]
    | rolledBack =>
      rw [if_pos (rollsBack_cons.2 (Or.inl rfl)), stepAll]
      exact stepAll_idle zs saved

/-- A batch whose transaction was begun and whose statement was prepared. -/
def ended (f : SqliteDb → α → SqliteDb) (db : SqliteDb) (zs : List (α × Outcome)) (o : Outcome) :
    Connection × Bool :=
  ({ db := (lasting zs o).foldl f db
     saved := if RollsBack zs ∨ o ≠ .failed then none else some db },
    decide (AllDone zs ∧ o = .done))

/-- **What a batch leaves, in closed form.** -/
theorem batch_eq (f : SqliteDb → α → SqliteDb) (db : SqliteDb) (xs : List α) (calls : BatchCalls) :
    batch f { db := db } xs calls =
      if calls.begins = true ∧ calls.prepare = true then ended f db (steps xs calls) calls.commits
      else ({ db := db }, false) := by
  unfold batch begins
  cases hb : calls.begins with
  | false => simp
  | true =>
    cases hp : calls.prepare with
    | false => simp [rollback]
    | true =>
      generalize steps xs calls = zs
      have h1 := stepAll_open (f := f) zs db db
      have h2 := stepAll_snd (f := f) zs { db := db, saved := some db }
      simp only [Option.isNone_none, and_self, if_true]
      generalize stepAll f { db := db, saved := some db } zs = r at h1 h2 ⊢
      obtain ⟨c, ok⟩ := r
      dsimp only at h1 h2 ⊢
      subst h1 h2
      unfold ended lasting
      by_cases hr : RollsBack zs
      · have hnot : ¬ AllDone zs := fun h => not_rollsBack h hr
        cases calls.commits <;> simp [commits, rollback, hr, hnot]
      · cases calls.commits <;> simp [commits, rollback, hr]

/-- The same rows now, and after a rollback. -/
structure Same (c c' : Connection) : Prop where
  rows : c.db.SameRows c'.db
  saved : Option.Rel SqliteDb.SameRows c.saved c'.saved

/-- The change of one element takes the same rows to the same rows. -/
def Respects (f : SqliteDb → α → SqliteDb) : Prop :=
  ∀ db db' x, db.SameRows db' → (f db x).SameRows (f db' x)

/-- A write looks at the rows through their keys only. -/
theorem respects_write : Respects fun db (list : ShoppingList) => (db.write list .ok).1 :=
  fun _ _ list h => (h.write list .ok).1

theorem respects_deleteList : Respects fun db (id : Str) => (db.deleteList id .ok).1 :=
  fun _ _ id h => (h.deleteList id .ok).1

/-- Changes that respect the rows still do one after the other. -/
theorem Respects.foldl (hf : Respects f) (xs : List α) : ∀ {db db' : SqliteDb}, db.SameRows db' →
    (xs.foldl f db).SameRows (xs.foldl f db') := by
  induction xs with
  | nil => intro db db' h; exact h
  | cons x xs ih => intro db db' h; exact ih (hf _ _ x h)

/-- **A batch makes no difference between stores with the same rows.** -/
theorem Respects.batch (hf : Respects f) {db db' : SqliteDb} (h : db.SameRows db') (xs : List α)
    (calls : BatchCalls) :
    Same (batch f { db := db } xs calls).1 (batch f { db := db' } xs calls).1 ∧
      (batch f { db := db } xs calls).2 = (batch f { db := db' } xs calls).2 := by
  rw [batch_eq, batch_eq]
  split
  · refine ⟨⟨hf.foldl _ h, ?_⟩, rfl⟩
    unfold ended
    dsimp only
    split
    · exact .none
    · exact .some h
  · exact ⟨⟨h, .none⟩, rfl⟩

/-- A call on the connection that changes rows, with the outcomes of its SQLite calls. -/
inductive Call
  | write (list : ShoppingList) (calls : Calls)
  | deleteList (listId : Str) (calls : Calls)
  | writeMany (lists : List ShoppingList) (calls : BatchCalls)
  | deleteMany (listIds : List Str) (calls : BatchCalls)

def Call.run (c : Connection) : Call → Connection × Bool
  | write list calls => ({ c with db := (c.db.write list calls).1 }, (c.db.write list calls).2)
  | deleteList listId calls =>
    ({ c with db := (c.db.deleteList listId calls).1 }, (c.db.deleteList listId calls).2)
  | writeMany lists calls => c.writeMany lists calls
  | deleteMany listIds calls => c.deleteMany listIds calls

theorem Call.run_same {db db' : SqliteDb} (h : db.SameRows db') (call : Call) :
    Same (call.run { db := db }).1 (call.run { db := db' }).1 ∧
      (call.run { db := db }).2 = (call.run { db := db' }).2 := by
  cases call with
  | write list calls => exact ⟨⟨(h.write list calls).1, .none⟩, (h.write list calls).2⟩
  | deleteList id calls => exact ⟨⟨(h.deleteList id calls).1, .none⟩, (h.deleteList id calls).2⟩
  | writeMany lists calls => exact respects_write.batch h lists calls
  | deleteMany ids calls =>
    unfold Call.run
    dsimp only
    unfold Connection.deleteMany
    split
    · exact ⟨⟨h, .none⟩, rfl⟩
    · exact respects_deleteList.batch h ids calls

/-- The call that took `c` to `r.1` and returned `r.2` is all-or-nothing: no transaction is left
open; if it returned true, the store is that of one element after the other; if it returned
false, the rows are as before, and the next call does what it would have done. -/
structure AllOrNothing (f : SqliteDb → α → SqliteDb) (c : Connection) (xs : List α)
    (r : Connection × Bool) : Prop where
  closed : r.1.saved = none
  all : r.2 = true → r.1.db = xs.foldl f c.db
  nothing : r.2 = false → r.1.db.SameRows c.db
  next : r.2 = false → ∀ call : Call,
    Same (call.run r.1).1 (call.run c).1 ∧ (call.run r.1).2 = (call.run c).2

/-- The condition: the connection was idle; if `COMMIT` fails and does not roll back, a step
already has; and if a step fails, what is not rolled back changes no row. -/
structure Clean (f : SqliteDb → α → SqliteDb) (c : Connection) (xs : List α) (calls : BatchCalls) :
    Prop where
  idle : c.saved = none
  closes : calls.begins = true → calls.prepare = true → calls.commits = .failed →
    RollsBack (steps xs calls)
  unchanged : calls.begins = true → calls.prepare = true → ¬ AllDone (steps xs calls) →
    ((lasting (steps xs calls) calls.commits).foldl f c.db).SameRows c.db

theorem steps_fst (xs : List α) (calls : BatchCalls) : (steps xs calls).map Prod.fst = xs :=
  List.ext_getElem (by simp [steps]) (by simp [steps])

/-- An idle connection is its rows. -/
theorem eq_of_idle {c : Connection} (h : c.saved = none) : c = { db := c.db } := by
  obtain ⟨db, saved⟩ := c
  cases h; rfl

/-- A call that leaves the rows of an idle connection is as if it had not been made. -/
theorem AllOrNothing.of_same {db db' : SqliteDb} {xs : List α} (h : db'.SameRows db) :
    AllOrNothing f { db := db } xs ({ db := db' }, false) where
  closed := rfl
  all := by intro ht; cases ht
  nothing _ := h
  next _ call := call.run_same h

/-- A batch that has begun and is all-or-nothing meets the condition. -/
theorem clean_of_allOrNothing {db : SqliteDb} {xs : List α} {calls : BatchCalls}
    (h : AllOrNothing f { db := db } xs (ended f db (steps xs calls) calls.commits)) :
    Clean f { db := db } xs calls := by
  refine ⟨rfl, fun _ _ hfail => ?_, fun _ _ hnot => h.nothing ?_⟩
  · have hclosed := h.closed
    rw [ended, hfail] at hclosed
    by_contra hr
    simp [hr] at hclosed
  · simp [ended, hnot]

/-- A batch that has begun and meets the condition is all-or-nothing. -/
theorem allOrNothing_of_clean {db : SqliteDb} {xs : List α} {calls : BatchCalls}
    (hb : calls.begins = true) (hp : calls.prepare = true) (h : Clean f { db := db } xs calls) :
    AllOrNothing f { db := db } xs (ended f db (steps xs calls) calls.commits) := by
  have hopen : RollsBack (steps xs calls) ∨ calls.commits ≠ .failed := by
    by_contra hnot
    rw [not_or, not_not] at hnot
    exact hnot.1 (h.closes hb hp hnot.2)
  by_cases hall : AllDone (steps xs calls)
  -- every step succeeds: the `COMMIT` decides
  · have hmade : made (steps xs calls) = xs := by rw [made_of_allDone hall, steps_fst]
    have hr := not_rollsBack hall
    cases hcommit : calls.commits with
    | done =>
      simp only [ended, lasting, hr, hall, hmade]
      exact ⟨rfl, fun _ => rfl, fun hf => absurd hf (by simp), fun hf => absurd hf (by simp)⟩
    | failed => exact absurd hcommit (hopen.resolve_left hr)
    | rolledBack =>
      have hended : ended f db (steps xs calls) .rolledBack = ({ db := db }, false) := by
        simp [ended, lasting, hr]
      rw [hended]
      exact .of_same (SqliteDb.SameRows.refl db)
  -- a step fails: what stays must change nothing
  · have hrows := h.unchanged hb hp hall
    rw [ended, if_pos hopen, decide_eq_false (fun hand => hall hand.1)]
    exact .of_same hrows

/-- **A batch is all-or-nothing exactly under the condition.** -/
theorem batch_atomic (f : SqliteDb → α → SqliteDb) (c : Connection) (xs : List α)
    (calls : BatchCalls) : AllOrNothing f c xs (batch f c xs calls) ↔ Clean f c xs calls := by
  by_cases hidle : c.saved = none
  swap
  · -- `BEGIN` fails, and the transaction that was open still is
    obtain ⟨saved, hs⟩ := Option.ne_none_iff_exists'.1 hidle
    have hbatch : batch f c xs calls = (c, false) := by simp [batch, begins, hs]
    rw [hbatch]
    exact ⟨fun h => absurd h.closed hidle, fun h => absurd h.idle hidle⟩
  obtain ⟨db, hc⟩ : ∃ db : SqliteDb, c = { db := db } := ⟨c.db, eq_of_idle hidle⟩
  subst hc
  rw [batch_eq]
  split
  · rename_i hbegun
    exact ⟨clean_of_allOrNothing, allOrNothing_of_clean hbegun.1 hbegun.2⟩
  -- nothing is begun, or it is rolled back at once
  · rename_i hnot
    refine iff_of_true (.of_same (SqliteDb.SameRows.refl db)) ⟨rfl, fun hb hp => ?_, fun hb hp => ?_⟩
    · exact absurd ⟨hb, hp⟩ hnot
    · exact absurd ⟨hb, hp⟩ hnot

/-- **`write_many` and `delete_many` are all-or-nothing exactly under the condition**: a
`COMMIT` that fails must not leave the transaction open, and where a step fails, the steps that
succeed and are not rolled back by SQLite must change no row. -/
theorem batches_atomic (c : Connection) (calls : BatchCalls) :
    (∀ lists, AllOrNothing (fun db list => (db.write list .ok).1) c lists
        (c.writeMany lists calls) ↔
      Clean (fun db list => (db.write list .ok).1) c lists calls) ∧
    ∀ listIds, AllOrNothing (fun db id => (db.deleteList id .ok).1) c listIds
        (c.deleteMany listIds calls) ↔
      c.saved = none ∧ (listIds ≠ [] →
        Clean (fun db id => (db.deleteList id .ok).1) c listIds calls) := by
  refine ⟨fun lists => batch_atomic _ c lists calls, fun listIds => ?_⟩
  unfold deleteMany
  split
  · rename_i hnil
    constructor
    · intro h; exact ⟨h.closed, fun hne => absurd hnil hne⟩
    · rintro ⟨hidle, -⟩
      rw [eq_of_idle hidle]
      exact .of_same (SqliteDb.SameRows.refl _)
  · rename_i hne
    rw [batch_atomic]
    exact ⟨fun h => ⟨h.idle, fun _ => h⟩, fun h => h.2 hne⟩

/-- The second step of a batch fails. -/
def secondFails : BatchCalls := { step := fun i => if i = 1 then .failed else .done }

/-- The first list of two stays, though the call returns false; and after a `COMMIT` that fails
the transaction is open. -/
theorem half_batch_kept :
    (({} : Connection).writeMany [ShoppingList.new [1] [], ShoppingList.new [2] []] secondFails).2 =
      false ∧
    (({} : Connection).writeMany [] { commits := .failed }).1.saved.isSome = true ∧
    ¬ ∀ lists calls, AllOrNothing (fun db list => (db.write list .ok).1) {} lists
      (({} : Connection).writeMany lists calls) := by
  refine ⟨by decide +kernel, by decide +kernel, fun h => ?_⟩
  have hrows := (h [ShoppingList.new [1] [], ShoppingList.new [2] []] secondFails).nothing
    (by decide +kernel) [1]
  have hsome := congrArg Option.isSome hrows
  revert hsome
  decide +kernel

end Connection

namespace Connection

variable {α : Type*} {f : SqliteDb → α → SqliteDb} {c : Connection}

/-- The connection after some calls, from the empty database. -/
def after (calls : List Call) : Connection := calls.foldl (fun c call => (call.run c).1) {}

/-- Rows are stored under the keys of their lists, also after a rollback. -/
structure Keyed (c : Connection) : Prop where
  rows : c.db.Keyed
  saved : ∀ db, c.saved = some db → db.Keyed

theorem Keyed.rollback (h : c.Keyed) : c.rollback.Keyed := by
  refine ⟨?_, fun db hs => by cases hs⟩
  unfold Connection.rollback
  cases hs : c.saved with
  | none => exact h.rows
  | some db => exact h.saved db hs

/-- A batch keeps every row under its own key, wherever it stops. -/
theorem Keyed.stepAll (hf : ∀ db x, db.Keyed → (f db x).Keyed) (zs : List (α × Outcome)) :
    ∀ {c : Connection}, c.Keyed → (stepAll f c zs).1.Keyed := by
  induction zs with
  | nil => intro c h; exact h
  | cons z zs ih =>
    intro c h
    obtain ⟨x, o⟩ := z
    cases o with
    | done => exact ih ⟨hf _ x h.rows, h.saved⟩
    | failed => exact ih h
    | rolledBack => exact ih h.rollback

theorem Keyed.batch (hf : ∀ db x, db.Keyed → (f db x).Keyed) (h : c.Keyed) (xs : List α)
    (calls : BatchCalls) : (batch f c xs calls).1.Keyed := by
  by_cases hidle : c.saved = none
  · rw [eq_of_idle hidle, batch_eq]
    split
    · have hstep := Keyed.stepAll hf ((lasting (steps xs calls) calls.commits).map fun x => (x, .done))
        (c := { db := c.db }) ⟨h.rows, fun db hs => by cases hs⟩
      rw [stepAll_ok] at hstep
      refine ⟨hstep.rows, fun db hs => ?_⟩
      unfold ended at hs
      dsimp only at hs
      split at hs
      · cases hs
      · cases hs; exact h.rows
    · exact ⟨h.rows, fun db hs => by cases hs⟩
  · obtain ⟨saved, hs⟩ := Option.ne_none_iff_exists'.1 hidle
    have hbatch : Connection.batch f c xs calls = (c, false) := by simp [Connection.batch, begins, hs]
    rw [hbatch]; exact h

theorem Keyed.run (h : c.Keyed) (call : Call) : (call.run c).1.Keyed := by
  cases call with
  | write list calls => exact ⟨h.rows.write list calls, h.saved⟩
  | deleteList id calls => exact ⟨h.rows.deleteList id calls, h.saved⟩
  | writeMany lists calls => exact h.batch (fun db list hk => hk.write list .ok) lists calls
  | deleteMany ids calls =>
    unfold Call.run
    dsimp only
    unfold Connection.deleteMany
    split
    · exact h
    · exact h.batch (fun db id hk => hk.deleteList id .ok) ids calls

theorem after_keyed (calls : List Call) : (after calls).Keyed := by
  have hrun : ∀ (calls : List Call) (c : Connection), c.Keyed →
      (calls.foldl (fun c call => (call.run c).1) c).Keyed := by
    intro calls
    induction calls with
    | nil => intro c h; exact h
    | cons call calls ih => intro c h; exact ih _ (h.run call)
  exact hrun calls {} ⟨SqliteDb.Keyed.empty, fun db hs => by cases hs⟩

end Connection

namespace SqliteDb

variable {db : SqliteDb}

/-- A query whose calls succeed returns the list of every matching row. -/
theorem readMany_ok (db : SqliteDb) (listIds : List Str) (order : RowOrder) :
    db.readMany listIds order .ok =
      (order.arrange (db.matching listIds)).map fun row => some row.2 := by
  unfold readMany
  split
  · rename_i hnil
    have hnone : db.matching listIds = [] := by simp [matching, hnil]
    have harrange := order.perm []
    rw [hnone, List.perm_nil.1 harrange]; rfl
  · show (scan (fun _ => true) 0 _).map _ = _
    rw [scan_ok]

theorem lookup_of_arranged {listIds : List Str} {order : RowOrder} {row : Row}
    (h : row ∈ order.arrange (db.matching listIds)) : db.rows.lookup row.1 = some row.2 :=
  AList.mem_lookup_iff.2 (List.mem_filter.1 ((order.perm _).mem_iff.1 h)).1

/-- Rows answer for UIDs position by position iff their keys are those of the UIDs. -/
theorem answers_iff (hk : db.Keyed) (rows : List Row) : ∀ listIds : List Str,
    (∀ row ∈ rows, db.rows.lookup row.1 = some row.2) →
      ((rows.map fun row => some row.2) = listIds.map (fun id => db.read id .ok) ↔
        rows.map Sigma.fst = listIds.map cstr) := by
  induction rows with
  | nil => intro listIds _; cases listIds <;> simp
  | cons row rows ih =>
    intro listIds hrows
    rw [List.forall_mem_cons] at hrows
    cases listIds with
    | nil => simp
    | cons id listIds =>
      have hhead : some row.2 = db.read id .ok ↔ row.1 = cstr id := by
        rw [read_ok]
        constructor
        · intro h
          rw [← hk _ _ hrows.1]; exact hk _ _ h.symm
        · intro h
          rw [← h]; exact hrows.1.symm
      simp only [List.map_cons, List.cons.injEq]
      exact and_congr hhead (ih listIds hrows.2)

/-- The keys of the rows that a query finds. -/
theorem keys_matching (db : SqliteDb) (listIds : List Str) :
    (db.matching listIds).map Sigma.fst = db.rows.keys.filter fun key => key ∈ listIds.map cstr := by
  rw [matching, AList.keys, List.keys, List.filter_map]; rfl

/-- A list that is read the same from both ends, without repetition, has at most one element. -/
theorem length_le_one {keys : List Str} (hnodup : keys.Nodup) (h : keys.reverse = keys) :
    keys.length ≤ 1 := by
  by_contra hlong
  have hzero : 0 < keys.length := by omega
  have hlast : keys.length - 1 < keys.length := by omega
  have hfirst : keys[0] = keys[keys.length - 1] := by
    have hget := List.getElem_reverse (l := keys) (i := 0) (by simpa using hzero)
    simpa [h] using hget
  have := (hnodup.getElem_inj_iff).1 hfirst
  omega

/-- The one row of a UID that is stored. -/
theorem keys_matching_singleton {uid : Str} (h : (db.rows.lookup (cstr uid)).isSome = true) :
    (db.matching [uid]).map Sigma.fst = [cstr uid] := by
  have hmem : cstr uid ∈ db.rows.keys := AList.mem_keys.1 (AList.lookup_isSome.1 h)
  rw [keys_matching]
  simp only [List.map_cons, List.map_nil, List.mem_singleton]
  rw [List.filter_eq, List.count_eq_one_of_mem db.rows.keys_nodup hmem]
  rfl

/-- The rows come in the order of the request, whatever order they come in, iff there is at
most one. -/
theorem arranged_iff (db : SqliteDb) (listIds : List Str) :
    (∀ order : RowOrder,
      (order.arrange (db.matching listIds)).map Sigma.fst = listIds.map cstr) ↔
      listIds = [] ∨ ∃ id, listIds = [id] ∧ (db.rows.lookup (cstr id)).isSome = true := by
  constructor
  -- the order of the table and its reverse are the same
  · intro h
    have hkeys : (db.matching listIds).map Sigma.fst = listIds.map cstr :=
      h ⟨id, fun rows => List.Perm.refl rows⟩
    have hreverse := h ⟨List.reverse, List.reverse_perm⟩
    rw [List.map_reverse, ← hkeys] at hreverse
    have hnodup : ((db.matching listIds).map Sigma.fst).Nodup := by
      rw [keys_matching]; exact db.rows.keys_nodup.filter _
    have hlength := length_le_one hnodup hreverse
    rw [hkeys, List.length_map] at hlength
    match listIds, hlength with
    | [], _ => exact Or.inl rfl
    | [uid], _ =>
      refine Or.inr ⟨uid, rfl, ?_⟩
      have hmem : cstr uid ∈ (db.matching [uid]).map Sigma.fst := by
        rw [hkeys]; exact List.mem_cons_self
      rw [keys_matching, List.mem_filter] at hmem
      exact AList.lookup_isSome.2 (AList.mem_keys.2 hmem.1)
  · rintro (rfl | ⟨uid, rfl, hstored⟩) order
    · have hperm := order.perm (db.matching [])
      have hnone : db.matching [] = [] := by simp [matching]
      rw [hnone] at hperm ⊢
      rw [List.perm_nil.1 hperm]; rfl
    · have hperm := (order.perm (db.matching [uid])).map Sigma.fst
      rw [keys_matching_singleton hstored] at hperm
      exact List.perm_singleton.1 hperm

/-- **A batch read answers position by position** iff the rows come in the order of the request,
each UID being stored and asked for once; whatever the order they come in, iff at most one UID
is asked for, and it is stored. -/
theorem readMany_agrees (calls : List Connection.Call) (listIds : List Str) :
    (∀ order : RowOrder,
      (Connection.after calls).db.readMany listIds order .ok =
          listIds.map (fun id => (Connection.after calls).db.read id .ok) ↔
        (order.arrange ((Connection.after calls).db.matching listIds)).map Sigma.fst =
          listIds.map cstr) ∧
    ((∀ order : RowOrder, (Connection.after calls).db.readMany listIds order .ok =
        listIds.map fun id => (Connection.after calls).db.read id .ok) ↔
      listIds = [] ∨
        ∃ id, listIds = [id] ∧ ((Connection.after calls).db.read id .ok).isSome = true) := by
  have hk := (Connection.after_keyed calls).rows
  generalize (Connection.after calls).db = db at hk ⊢
  have horder : ∀ order : RowOrder,
      db.readMany listIds order .ok = listIds.map (fun id => db.read id .ok) ↔
        (order.arrange (db.matching listIds)).map Sigma.fst = listIds.map cstr := by
    intro order
    rw [readMany_ok]
    exact answers_iff hk _ listIds fun row hrow => lookup_of_arranged hrow
  refine ⟨horder, ?_⟩
  simp only [horder]
  exact arranged_iff db listIds

/-- A UID that is not stored is left out of the answer. -/
theorem absent_left_out :
    (({} : SqliteDb).write (ShoppingList.new [1] []) .ok).1.readMany [[2], [1]]
      ⟨id, fun rows => List.Perm.refl rows⟩ .ok ≠
    [[2], [1]].map fun uid => (({} : SqliteDb).write (ShoppingList.new [1] []) .ok).1.read uid .ok := by
  intro h
  have hlength := congrArg List.length h
  revert hlength
  decide +kernel

end SqliteDb

end Shopping
