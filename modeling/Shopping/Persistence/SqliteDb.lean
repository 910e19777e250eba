import Shopping.Model.ShoppingList

/-!
# `SqliteDb`

The table `lists (id TEXT PRIMARY KEY, data BLOB)` and the single-row operations on
it (`persistence/sqlite_db.cpp`). A row's `data` is the packed list, kept here as
the list itself. Text is bound with length `-1`, so a row's key is the UID up to
its first NUL byte.

SQLite calls may fail: `Calls` says which ones of a statement do.
-/

namespace Shopping

open Lib

/-- The outcome of the calls on one statement: of `sqlite3_prepare_v2`, and of the
`i`-th `sqlite3_step`. -/
structure Calls where
  prepare : Bool := true
  step : ℕ → Bool := fun _ => true

/-- No call fails. -/
def Calls.ok : Calls := {}

/-- Both calls of a single-step statement succeed. -/
def Calls.both (c : Calls) : Bool := c.prepare && c.step 0

@[simp] theorem Calls.both_ok : Calls.ok.both = true := rfl

/-- The key a list is stored under. -/
def ShoppingList.key (l : ShoppingList) : Str := cstr l.uid

/-- `class SqliteDb`, by the rows of its table. -/
structure SqliteDb where
  rows : UMap Str ShoppingList := ∅

namespace SqliteDb

instance : Inhabited SqliteDb := ⟨{}⟩

/-- `bool write(const ShoppingList& list)`: `INSERT OR REPLACE`. -/
def write (db : SqliteDb) (list : ShoppingList) (c : Calls) : SqliteDb × Bool :=
  if c.both then ({ rows := db.rows.insert (cstr list.getUid) list }, true) else (db, false)

/-- `optional<ShoppingList> read(const string& listId)`: no row and a failing call
give the same result. -/
def read (db : SqliteDb) (listId : Str) (c : Calls) : Option ShoppingList :=
  if c.both then db.rows.lookup (cstr listId) else none

/-- `bool delete_list(const string& listId)`. -/
def deleteList (db : SqliteDb) (listId : Str) (c : Calls) : SqliteDb × Bool :=
  if c.both then ({ rows := db.rows.erase (cstr listId) }, true) else (db, false)

/-- The rows stepped to before the first failing step, `i` steps having been made. -/
def scan {α : Type*} (step : ℕ → Bool) : ℕ → List α → List α
  | _, [] => []
  | i, row :: rows => if step i then row :: scan step (i + 1) rows else []

/-- `vector<ShoppingList> read_all()`. -/
def readAll (db : SqliteDb) (c : Calls) : List ShoppingList :=
  if c.prepare then scan c.step 0 (db.rows.entries.map fun row => row.2) else []

/-- `vector<string> get_all_list_ids()`. -/
def getAllListIds (db : SqliteDb) (c : Calls) : List Str :=
  if c.prepare then scan c.step 0 db.rows.keys else []

@[simp] theorem read_ok (db : SqliteDb) (listId : Str) :
    db.read listId .ok = db.rows.lookup (cstr listId) := rfl

/-- A write that succeeds replaces the row of its key. -/
theorem lookup_write_ok (db : SqliteDb) (list : ShoppingList) (key : Str) :
    (db.write list .ok).1.rows.lookup key =
      if key = list.key then some list else db.rows.lookup key :=
  UMap.lookup_insert_ite key _ list db.rows

/-- Writing a list keeps the other rows. -/
theorem lookup_write {db : SqliteDb} {key : Str} {l row : ShoppingList} {c : Calls}
    (h : (db.write l c).1.rows.lookup key = some row) :
    row = l ∨ db.rows.lookup key = some row := by
  unfold SqliteDb.write at h
  split at h
  · rw [UMap.lookup_insert_ite] at h
    split at h
    · cases h; exact Or.inl rfl
    · exact Or.inr h
  · exact Or.inr h

/-- No write, failed or not, takes a row away. -/
theorem write_present {db : SqliteDb} {key : Str} (l : ShoppingList) (c : Calls)
    (h : (db.rows.lookup key).isSome = true) : ((db.write l c).1.rows.lookup key).isSome = true := by
  unfold SqliteDb.write
  split
  · rw [UMap.lookup_insert_ite]
    split
    · rfl
    · exact h
  · exact h

/-- A delete takes the row of the UID up to its first zero byte. -/
theorem lookup_deleteList_ok (db : SqliteDb) (listId key : Str) :
    (db.deleteList listId .ok).1.rows.lookup key =
      if key = cstr listId then none else db.rows.lookup key := by
  show (db.rows.erase (cstr listId)).lookup key = _
  split
  · rename_i h; subst h; exact AList.lookup_erase _ _
  · rename_i h; exact AList.lookup_erase_ne h

theorem mem_scan {α : Type*} {step : ℕ → Bool} {rows : List α} {l : α} :
    ∀ {i : ℕ}, l ∈ scan step i rows → l ∈ rows := by
  induction rows with
  | nil => intro i h; exact h
  | cons row rows ih =>
    intro i h
    rw [scan] at h
    split at h
    · rcases List.mem_cons.1 h with rfl | h
      · exact List.mem_cons_self
      · exact List.mem_cons_of_mem _ (ih h)
    · cases h

theorem scan_ok {α : Type*} (rows : List α) : ∀ i, scan (fun _ => true) i rows = rows := by
  induction rows with
  | nil => intro i; rfl
  | cons row rows ih => intro i; rw [scan, if_pos rfl, ih]

theorem readAll_ok (db : SqliteDb) : db.readAll .ok = db.rows.entries.map fun row => row.2 :=
  scan_ok _ 0

theorem getAllListIds_ok (db : SqliteDb) : db.getAllListIds .ok = db.rows.keys := scan_ok _ 0

/-- Every list read is the list of some row. -/
theorem mem_readAll {db : SqliteDb} {c : Calls} {l : ShoppingList} (h : l ∈ db.readAll c) :
    ∃ key, db.rows.lookup key = some l := by
  unfold readAll at h
  split at h
  · obtain ⟨row, hrow, rfl⟩ := List.mem_map.1 (mem_scan h)
    exact ⟨row.1, AList.mem_lookup_iff.2 hrow⟩
  · cases h

/-- Every row is stored under the key of its list. -/
def Keyed (db : SqliteDb) : Prop := ∀ key l, db.rows.lookup key = some l → l.key = key

theorem Keyed.empty : Keyed {} := by intro key l h; simp at h

variable {db : SqliteDb}

/-- A row is written under the key of its list. -/
theorem Keyed.write (h : db.Keyed) (list : ShoppingList) (c : Calls) : (db.write list c).1.Keyed := by
  unfold SqliteDb.write
  split
  · intro key l hl
    rw [UMap.lookup_insert_ite] at hl
    split at hl
    · rename_i hk; cases hl; exact hk.symm
    · exact h key l hl
  · exact h

theorem Keyed.deleteList (h : db.Keyed) (listId : Str) (c : Calls) :
    (db.deleteList listId c).1.Keyed := by
  unfold SqliteDb.deleteList
  split
  · intro key l hl
    by_cases hk : key = cstr listId
    · subst hk; rw [AList.lookup_erase] at hl; cases hl
    · rw [AList.lookup_erase_ne hk] at hl; exact h key l hl
  · exact h

end SqliteDb

end Shopping
