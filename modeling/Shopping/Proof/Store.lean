import Shopping.Persistence.Batch

/-!
# The database as a map

What the users of `SqliteDb` expect is a map from UIDs to lists. The table has its rows under
`c_str()` of the UIDs, so it is that map for UIDs that `c_str()` tells apart (`Sim`), and it
lists the UIDs themselves only if they have no NUL byte (`store_refines`).
-/

namespace Shopping

open Lib

/-- What is stored under each UID. -/
abbrev Stored := Str → Option ShoppingList

/-- One row written or deleted. -/
inductive RowChange
  | put (list : ShoppingList)
  | drop (listId : Str)

namespace RowChange

def uid : RowChange → Str
  | put list => list.uid
  | drop listId => listId

def onRows (db : SqliteDb) : RowChange → SqliteDb
  | put list => (db.write list .ok).1
  | drop listId => (db.deleteList listId .ok).1

def onMap (m : Stored) : RowChange → Stored
  | put list => Function.update m list.uid (some list)
  | drop listId => Function.update m listId none

end RowChange

/-- The operations that change the store. -/
inductive StoreOp
  | write (list : ShoppingList)
  | deleteList (listId : Str)
  | writeMany (lists : List ShoppingList)
  | deleteMany (listIds : List Str)

namespace StoreOp

/-- The operation on the connection, no call failing. -/
def apply (c : Connection) : StoreOp → Connection
  | write list => { c with db := (c.db.write list .ok).1 }
  | deleteList listId => { c with db := (c.db.deleteList listId .ok).1 }
  | writeMany lists => (c.writeMany lists .ok).1
  | deleteMany listIds => (c.deleteMany listIds .ok).1

/-- What the operation is to do, row by row. -/
def changes : StoreOp → List RowChange
  | write list => [.put list]
  | deleteList listId => [.drop listId]
  | writeMany lists => lists.map .put
  | deleteMany listIds => listIds.map .drop

/-- **Every operation makes its changes**, and leaves no transaction open. -/
theorem apply_eq (db : SqliteDb) (op : StoreOp) :
    op.apply { db := db } = { db := op.changes.foldl RowChange.onRows db } := by
  cases op with
  | write list => rfl
  | deleteList listId => rfl
  | writeMany lists =>
    rw [apply, Connection.writeMany_ok, changes, List.foldl_map]; rfl
  | deleteMany listIds =>
    rw [apply, Connection.deleteMany_ok, changes, List.foldl_map]; rfl

/-- All changes of a sequence of operations. -/
def allChanges (ops : List StoreOp) : List RowChange := ops.flatMap changes

theorem foldl_apply (ops : List StoreOp) : ∀ db : SqliteDb,
    ops.foldl apply { db := db } = { db := (allChanges ops).foldl RowChange.onRows db } := by
  induction ops with
  | nil => intro db; rfl
  | cons op ops ih =>
    intro db
    rw [List.foldl_cons, apply_eq, ih, allChanges, allChanges, List.flatMap_cons, List.foldl_append]

end StoreOp

/-- The rows are those of the map, for the UIDs in `U`. -/
structure Sim (U : Set Str) (db : SqliteDb) (m : Stored) : Prop where
  rows : ∀ id ∈ U, db.rows.lookup (cstr id) = m id
  keys : ∀ key ∈ db.rows, ∃ id ∈ U, cstr id = key
  own : ∀ id list, m id = some list → list.uid = id ∧ id ∈ U

variable {U : Set Str} {db : SqliteDb} {m : Stored}

theorem Sim.empty : Sim U {} fun _ => none where
  rows _ _ := rfl
  keys key h := by simp at h
  own id list h := by cases h

/-- **One change**, of UIDs that `c_str()` tells apart. -/
theorem Sim.change (hU : Set.InjOn cstr U) (h : Sim U db m) {ch : RowChange} (hch : ch.uid ∈ U) :
    Sim U (ch.onRows db) (ch.onMap m) := by
  -- another UID has another row
  have hkey : ∀ id ∈ U, cstr id = cstr ch.uid ↔ id = ch.uid := fun id hid =>
    ⟨fun heq => hU hid hch heq, fun heq => by rw [heq]⟩
  cases ch with
  | put list =>
    have hkey : ∀ id ∈ U, cstr id = list.key ↔ id = list.uid := hkey
    refine ⟨fun id hid => ?_, fun key hk => ?_, fun id l hl => ?_⟩
    · rw [RowChange.onRows, SqliteDb.lookup_write_ok, RowChange.onMap, Function.update_apply,
        h.rows id hid]
      simp only [hkey id hid]
    · rcases (AList.mem_insert _).1 hk with rfl | hk
      · exact ⟨list.uid, hch, rfl⟩
      · exact h.keys key hk
    · rw [RowChange.onMap, Function.update_apply] at hl
      split at hl
      · rename_i hid
        cases hl; exact ⟨hid.symm, hid ▸ hch⟩
      · exact h.own id l hl
  | drop listId =>
    refine ⟨fun id hid => ?_, fun key hk => ?_, fun id l hl => ?_⟩
    · rw [RowChange.onRows, SqliteDb.lookup_deleteList_ok, RowChange.onMap, Function.update_apply,
        h.rows id hid]
      simp only [show cstr id = cstr listId ↔ id = listId from hkey id hid]
    · exact h.keys key (AList.mem_erase.1 hk).2
    · rw [RowChange.onMap, Function.update_apply] at hl
      split at hl
      · cases hl
      · exact h.own id l hl

theorem Sim.foldl (hU : Set.InjOn cstr U) (chs : List RowChange) : ∀ {db : SqliteDb} {m : Stored},
    Sim U db m → (∀ ch ∈ chs, ch.uid ∈ U) →
      Sim U (chs.foldl RowChange.onRows db) (chs.foldl RowChange.onMap m) := by
  induction chs with
  | nil => intro db m h _; exact h
  | cons ch chs ih =>
    intro db m h hchs
    rw [List.forall_mem_cons] at hchs
    exact ih (h.change hU hchs.1) hchs.2

/-- The database shows the map, to those who ask for UIDs in `U`. -/
structure Shows (U : Set Str) (db : SqliteDb) (m : Stored) : Prop where
  read : ∀ id ∈ U, db.read id .ok = m id
  readAll : (db.readAll .ok).Nodup ∧ ∀ list, list ∈ db.readAll .ok ↔ ∃ id, m id = some list
  ids : (db.getAllListIds .ok).Nodup ∧ ∀ id, id ∈ db.getAllListIds .ok ↔ ∃ list, m id = some list
  frame : ∀ ch : RowChange, ch.uid ∈ U → ∀ id ∈ U, id ≠ ch.uid →
    (ch.onRows db).read id .ok = db.read id .ok

/-- What a sequence of operations is to leave. -/
def StoreOp.stored (ops : List StoreOp) : Stored :=
  (allChanges ops).foldl RowChange.onMap fun _ => none

/-- **The database is a map** as far as the UIDs in `U` go: whatever is done with them to an
empty database. -/
def Refines (U : Set Str) : Prop :=
  ∀ ops : List StoreOp, (∀ ch ∈ StoreOp.allChanges ops, ch.uid ∈ U) →
    Shows U (ops.foldl StoreOp.apply {}).db (StoreOp.stored ops)

theorem cstr_injOn (hU : ∀ id ∈ U, (0 : UInt8) ∉ id) : Set.InjOn cstr U := by
  intro a ha b hb hab
  rwa [cstr_eq_self (hU a ha), cstr_eq_self (hU b hb)] at hab

/-- Without NUL bytes a row's key is the UID of its list. -/
theorem Sim.key_eq (hU : ∀ id ∈ U, (0 : UInt8) ∉ id) (h : Sim U db m) (id : Str)
    (list : ShoppingList) : db.rows.lookup id = some list ↔ m id = some list := by
  constructor
  · intro hl
    obtain ⟨id', hid', rfl⟩ := h.keys id (AList.lookup_isSome.1 (by rw [hl]; rfl))
    rw [cstr_eq_self (hU id' hid')] at hl ⊢
    rw [← h.rows id' hid', cstr_eq_self (hU id' hid')]; exact hl
  · intro hm
    have hid := (h.own id list hm).2
    rw [← h.rows id hid, cstr_eq_self (hU id hid)] at hm
    exact hm

theorem Sim.shows (hU : ∀ id ∈ U, (0 : UInt8) ∉ id) (h : Sim U db m) : Shows U db m where
  read id hid := h.rows id hid
  readAll := by
    rw [SqliteDb.readAll_ok]
    constructor
    · -- rows of different keys hold lists of different UIDs
      refine List.Nodup.map_on ?_ db.rows.nodupKeys.nodup
      intro e he e' he' heq
      have hl := AList.mem_lookup_iff.2 he
      have hl' := AList.mem_lookup_iff.2 he'
      have huid := (h.own _ _ ((h.key_eq hU _ _).1 hl)).1
      have huid' := (h.own _ _ ((h.key_eq hU _ _).1 hl')).1
      have hkeys : e.1 = e'.1 := by rw [← huid, ← huid', heq]
      exact Sigma.ext hkeys (heq_of_eq heq)
    · intro list
      constructor
      · intro hmem
        obtain ⟨e, he, rfl⟩ := List.mem_map.1 hmem
        exact ⟨e.1, (h.key_eq hU _ _).1 (AList.mem_lookup_iff.2 he)⟩
      · rintro ⟨id, hm⟩
        exact List.mem_map.2 ⟨⟨id, list⟩, AList.mem_lookup_iff.1 ((h.key_eq hU _ _).2 hm), rfl⟩
  ids := by
    rw [SqliteDb.getAllListIds_ok]
    refine ⟨db.rows.keys_nodup, fun id => ?_⟩
    rw [AList.mem_keys.symm, ← AList.lookup_isSome, Option.isSome_iff_exists]
    exact exists_congr fun list => h.key_eq hU id list
  frame := by
    intro ch hch id hid hne
    have hstep := h.change (cstr_injOn hU) hch
    rw [SqliteDb.read_ok, SqliteDb.read_ok, hstep.rows id hid, h.rows id hid]
    cases ch <;> exact Function.update_of_ne hne _ _

/-- Reading back is right for UIDs that `c_str()` tells apart. -/
theorem reads_refine (hU : Set.InjOn cstr U) (ops : List StoreOp)
    (hops : ∀ ch ∈ StoreOp.allChanges ops, ch.uid ∈ U) (id : Str) (hid : id ∈ U) :
    (ops.foldl StoreOp.apply {}).db.read id .ok = StoreOp.stored ops id := by
  rw [StoreOp.foldl_apply ops {}]
  exact (Sim.foldl hU _ Sim.empty hops).rows id hid

/-- **The database is a map from UIDs to lists** iff the UIDs have no NUL byte. -/
theorem store_refines (U : Set Str) : Refines U ↔ ∀ uid ∈ U, (0 : UInt8) ∉ uid := by
  constructor
  · intro h uid hU hzero
    -- the UID of a single list comes back cut off
    have hops : ∀ ch ∈ StoreOp.allChanges [.write (ShoppingList.new uid [])], ch.uid ∈ U := by
      intro ch hch
      obtain rfl := List.mem_singleton.1 hch
      exact hU
    have hids := (h _ hops).ids.2 uid
    have hkeys : (([.write (ShoppingList.new uid [])] : List StoreOp).foldl StoreOp.apply
        {}).db.getAllListIds .ok = [cstr uid] := rfl
    have hstored : StoreOp.stored [.write (ShoppingList.new uid [])] uid =
        some (ShoppingList.new uid []) := by
      show Function.update (fun _ => none) uid _ uid = _
      rw [Function.update_self]
    rw [hkeys, List.mem_singleton, hstored] at hids
    have huid : uid = cstr uid := hids.2 ⟨_, rfl⟩
    rw [huid] at hzero
    have := List.mem_takeWhile_imp hzero
    simp at this
  · intro hU ops hops
    rw [StoreOp.foldl_apply ops {}]
    exact (Sim.foldl (cstr_injOn hU) _ Sim.empty hops).shows hU

/-- Two UIDs that agree up to a NUL byte. -/
def nulUid (n : UInt8) : Str := [97, 0, n]

/-- A list under each of them. -/
def sharedRow : List StoreOp :=
  [.write (ShoppingList.new (nulUid 1) [1]), .write (ShoppingList.new (nulUid 2) [2])]

/-- The list stored last is read under both. -/
theorem uids_share_row : ¬ Refines Set.univ ∧
    (sharedRow.foldl StoreOp.apply {}).db.read (nulUid 1) .ok =
      some (ShoppingList.new (nulUid 2) [2]) := by
  have hread : (sharedRow.foldl StoreOp.apply {}).db.read (nulUid 1) .ok =
      some (ShoppingList.new (nulUid 2) [2]) := rfl
  refine ⟨fun h => ?_, hread⟩
  have hexpected := (h sharedRow fun _ _ => Set.mem_univ _).read (nulUid 1) (Set.mem_univ _)
  have hstored : StoreOp.stored sharedRow (nulUid 1) = some (ShoppingList.new (nulUid 1) [1]) :=
    rfl
  rw [hread, hstored] at hexpected
  cases hexpected

end Shopping
