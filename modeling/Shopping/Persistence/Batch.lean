import Shopping.Persistence.SqliteDb

/-!
# Batches

The operations on many rows (`persistence/sqlite_db.cpp`). `write_many` and `delete_many` step
one statement once for each element inside a transaction of the connection. A step that fails
is noted and the loop goes on; the code rolls back only where the statement cannot be
prepared. `read_many` collects the rows of one `IN` query in whatever order they come.
-/

namespace Shopping

open Lib

/-- A connection to the database: the rows as it sees them, and while a transaction is open,
those it would return to. -/
structure Connection where
  db : SqliteDb := {}
  saved : Option SqliteDb := none

/-- How a call inside a transaction ends: it succeeds, it fails and the transaction stays open
(`SQLITE_BUSY`), or it fails and SQLite itself rolls the transaction back (`SQLITE_FULL`,
`SQLITE_IOERR` and a few others). -/
inductive Outcome
  | done
  | failed
  | rolledBack
  deriving DecidableEq

/-- The outcome of the calls of a batch: of `BEGIN`, of `sqlite3_prepare_v2`, of the `i`-th
`sqlite3_step`, and of `COMMIT`. -/
structure BatchCalls where
  begins : Bool := true
  prepare : Bool := true
  step : ℕ → Outcome := fun _ => .done
  commits : Outcome := .done

/-- No call fails. -/
def BatchCalls.ok : BatchCalls := {}

@[simp] theorem BatchCalls.begins_ok : BatchCalls.ok.begins = true := rfl

@[simp] theorem BatchCalls.prepare_ok : BatchCalls.ok.prepare = true := rfl

@[simp] theorem BatchCalls.commits_ok : BatchCalls.ok.commits = .done := rfl

namespace Connection

/-- `BEGIN TRANSACTION`: there is no transaction inside a transaction. -/
def begins (c : Connection) (ok : Bool) : Connection × Bool :=
  if ok = true ∧ c.saved.isNone then ({ c with saved := some c.db }, true) else (c, false)

/-- `ROLLBACK`; without a transaction nothing happens. -/
def rollback (c : Connection) : Connection := { db := c.saved.getD c.db }

/-- `COMMIT`, which fails if no transaction is open. -/
def commits (c : Connection) : Outcome → Connection × Bool
  | .done => if c.saved.isSome then ({ c with saved := none }, true) else (c, false)
  | .failed => (c, false)
  | .rolledBack => (c.rollback, false)

/-- The elements of a batch with the outcomes of their steps. -/
def steps {α : Type*} (xs : List α) (calls : BatchCalls) : List (α × Outcome) :=
  xs.mapIdx fun i x => (x, calls.step i)

/-- The loop over the elements: `all_ok` tells whether every step succeeded. After a rollback
each step commits by itself. -/
def stepAll {α : Type*} (f : SqliteDb → α → SqliteDb) :
    Connection → List (α × Outcome) → Connection × Bool
  | c, [] => (c, true)
  | c, (x, .done) :: zs => stepAll f { c with db := f c.db x } zs
  | c, (_, .failed) :: zs => ((stepAll f c zs).1, false)
  | c, (_, .rolledBack) :: zs => ((stepAll f c.rollback zs).1, false)

/-- What both batches do with their elements. -/
def batch {α : Type*} (f : SqliteDb → α → SqliteDb) (c : Connection) (xs : List α)
    (calls : BatchCalls) : Connection × Bool :=
  match c.begins calls.begins with
  | (c, false) => (c, false)
  | (c, true) =>
    if calls.prepare then
      let (c, allOk) := stepAll f c (steps xs calls)
      match c.commits calls.commits with
      | (c, false) => (c, false)
      | (c, true) => (c, allOk)
    else (c.rollback, false)

/-- `bool write_many(const vector<ShoppingList>& lists)`. -/
def writeMany (c : Connection) (lists : List ShoppingList) (calls : BatchCalls) :
    Connection × Bool :=
  batch (fun db list => (db.write list .ok).1) c lists calls

/-- `bool delete_many(const vector<string>& listIds)`. -/
def deleteMany (c : Connection) (listIds : List Str) (calls : BatchCalls) : Connection × Bool :=
  if listIds = [] then (c, false)
  else batch (fun db id => (db.deleteList id .ok).1) c listIds calls

variable {α : Type*} {f : SqliteDb → α → SqliteDb}

theorem steps_ok (xs : List α) : steps xs .ok = xs.map fun x => (x, .done) :=
  List.ext_getElem (by simp [steps]) (by simp [steps, BatchCalls.ok])

theorem stepAll_ok (xs : List α) : ∀ c : Connection,
    stepAll f c (xs.map fun x => (x, .done)) = ({ c with db := xs.foldl f c.db }, true) := by
  induction xs with
  | nil => intro c; rfl
  | cons x xs ih => intro c; rw [List.map_cons, stepAll, ih]; rfl

/-- **A batch whose calls succeed** does one element after the other, and closes its
transaction. -/
theorem batch_ok (db : SqliteDb) (xs : List α) :
    batch f { db := db } xs .ok = ({ db := xs.foldl f db }, true) := by
  simp [batch, begins, commits, steps_ok, stepAll_ok]

theorem writeMany_ok (db : SqliteDb) (lists : List ShoppingList) :
    writeMany { db := db } lists .ok =
      ({ db := lists.foldl (fun db list => (db.write list .ok).1) db }, true) := batch_ok db lists

/-- Deleting nothing fails, and changes nothing. -/
theorem deleteMany_ok (db : SqliteDb) (listIds : List Str) :
    deleteMany { db := db } listIds .ok =
      ({ db := listIds.foldl (fun db id => (db.deleteList id .ok).1) db },
        decide (listIds ≠ [])) := by
  unfold deleteMany
  split
  · rename_i h; simp [h]
  · rename_i h; rw [batch_ok]; simp [h]

end Connection

namespace SqliteDb

/-- A row: its key and the list it holds. -/
abbrev Row := Sigma fun _ : Str => ShoppingList

/-- The order in which SQLite steps to the rows of a query. -/
structure RowOrder where
  arrange : List Row → List Row
  perm : ∀ rows, (arrange rows).Perm rows

/-- The rows of `SELECT id, data FROM lists WHERE id IN (?, ...)`: each once, however often
its key is asked for. -/
def matching (db : SqliteDb) (listIds : List Str) : List Row :=
  db.rows.entries.filter fun row => row.1 ∈ listIds.map cstr

/-- `vector<optional<ShoppingList>> read_many(const vector<string>& listIds)`: what is
appended is always a list. -/
def readMany (db : SqliteDb) (listIds : List Str) (order : RowOrder) (c : Calls) :
    List (Option ShoppingList) :=
  if listIds = [] then []
  else if c.prepare then
    (scan c.step 0 (order.arrange (db.matching listIds))).map fun row => some row.2
  else []

end SqliteDb

end Shopping
