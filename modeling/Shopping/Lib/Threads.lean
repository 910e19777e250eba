import Mathlib.Data.Finset.Max
import Mathlib.Data.Fintype.Basic

/-!
# Threads and locks

Threads `T` over a memory of objects (`mem r : σ r`) and locks `L`, each of them held by one thread
exclusively or by any number of threads shared. What a thread has left to do is a `Proc`: it
accesses one object at a time, and takes and releases locks. The threads take turns in any order
(`Pool.turn`); one that asks for a lock it cannot have takes none.

A `Discipline` says which lock guards an object, which thread alone writes it (and reads it without
the lock), which threads read it all the same, what holds of it while the lock is free and what
always does, and in which order locks are taken; and which threads may spoil it, that is, write it
while they share the lock and come to `undefined` at once. `Safe` is the weakest precondition of a
thread's code under it: what the thread does not know may change at any time.

* `Sound.turn`: threads that are safe stay safe, in any order of turns.
* `Sound.race`: only a dirty read, a write of what has no guard, or spoiling is in a race.
* `Sound.progress`: there is no deadlock.
* `Does.locked`: what is done to an object under its lock is done at once.
-/

namespace Shopping.Lib

/-! ### Code -/

/-- How a lock is taken. -/
inductive LockMode
  | shared
  | exclusive
  deriving DecidableEq

/-- What is left of a thread's code. A continuation is given the value that is read; at `undefined`
anything may happen, and nothing is said. -/
inductive Proc (L : Type) {R : Type} (σ : R → Type) (α : Type)
  | ret (a : α)
  | read (r : R) (k : σ r → Proc L σ α)
  | update (r : R) (f : σ r → σ r) (k : σ r → Proc L σ α)
  | lock (m : L) (mode : LockMode) (k : Proc L σ α)
  | unlock (m : L) (k : Proc L σ α)
  | undefined

namespace Proc

variable {L R : Type} {σ : R → Type} {α β γ : Type}

def bind : Proc L σ α → (α → Proc L σ β) → Proc L σ β
  | ret a, g => g a
  | read r k, g => read r fun x => (k x).bind g
  | update r f k, g => update r f fun x => (k x).bind g
  | lock m mode k, g => lock m mode (k.bind g)
  | unlock m k, g => unlock m (k.bind g)
  | undefined, _ => undefined

instance monad : Monad (Proc L σ) where
  pure := ret
  bind := bind

/-- What follows a call may be split anywhere. -/
theorem bind_assoc (p : Proc L σ α) (g : α → Proc L σ β) (g' : β → Proc L σ γ) :
    (p.bind g).bind g' = p.bind fun a => (g a).bind g' := by
  induction p with
  | ret => rfl
  | read _ _ ih => exact congrArg _ (funext ih)
  | update _ _ _ ih => exact congrArg _ (funext ih)
  | lock _ _ _ ih => exact congrArg _ ih
  | unlock _ _ ih => exact congrArg _ ih
  | undefined => rfl

/-- The value of an object. -/
def get (r : R) : Proc L σ (σ r) := read r ret

/-- An access that changes an object, and what it reads of it. -/
def modifyGet (r : R) (f : σ r → α × σ r) : Proc L σ α :=
  update r (fun x => (f x).2) fun x => ret (f x).1

/-- A block with a lock: `lock_guard` or `shared_lock`. Code that may throw returns what it throws,
so the lock is released however it ends. -/
def locked (m : L) (mode : LockMode) (p : Proc L σ α) : Proc L σ α :=
  lock m mode (p.bind fun a => unlock m (ret a))

/-- The code has returned. -/
def IsRet : Proc L σ α → Prop
  | ret _ => True
  | _ => False

theorem exists_of_isRet {p : Proc L σ α} (h : p.IsRet) : ∃ a, p = .ret a := by
  cases p with
  | ret a => exact ⟨a, rfl⟩
  | _ => exact h.elim

instance : DecidablePred (IsRet : Proc L σ α → Prop)
  | ret _ => isTrue trivial
  | read .. => isFalse id
  | update .. => isFalse id
  | lock .. => isFalse id
  | unlock .. => isFalse id
  | undefined => isFalse id

/-- The next turn of the code writes the object. -/
def Writes (r : R) : Proc L σ α → Prop
  | update r' _ _ => r' = r
  | _ => False

/-- The next turn of the code reads or writes the object. -/
def Accesses (r : R) : Proc L σ α → Prop
  | read r' _ => r' = r
  | update r' _ _ => r' = r
  | _ => False

instance [DecidableEq R] (r : R) : DecidablePred (Writes r : Proc L σ α → Prop)
  | update r' _ _ => inferInstanceAs (Decidable (r' = r))
  | ret _ => isFalse id
  | read .. => isFalse id
  | lock .. => isFalse id
  | unlock .. => isFalse id
  | undefined => isFalse id

instance [DecidableEq R] (r : R) : DecidablePred (Accesses r : Proc L σ α → Prop)
  | read r' _ => inferInstanceAs (Decidable (r' = r))
  | update r' _ _ => inferInstanceAs (Decidable (r' = r))
  | ret _ => isFalse id
  | lock .. => isFalse id
  | unlock .. => isFalse id
  | undefined => isFalse id

/-- The next turn of the code writes the object, and then anything may happen. -/
def Spoils (r : R) (p : Proc L σ α) : Prop := ∃ f, p = .update r f fun _ => .undefined

end Proc

/-- Threads with what they have left to do, the locks they hold, and the memory. -/
structure Pool (T L : Type) {R : Type} (σ : R → Type) (α : Type) where
  proc : T → Proc L σ α
  held : T → L → Option LockMode
  mem : ∀ r, σ r

namespace Pool

variable {T L R : Type} {σ : R → Type} {α : Type} [DecidableEq T] [Fintype T] [DecidableEq L]
  [DecidableEq R]

/-- A thread that asks for the lock gets it. -/
def Grants (s : Pool T L σ α) (m : L) : LockMode → Prop
  | .exclusive => ∀ t, s.held t m = none
  | .shared => ∀ t, s.held t m ≠ some .exclusive

instance (s : Pool T L σ α) (m : L) : DecidablePred (s.Grants m)
  | .exclusive => inferInstanceAs (Decidable (∀ _, _))
  | .shared => inferInstanceAs (Decidable (∀ _, _))

/-- Thread `t` goes on with `k`. -/
def advance (s : Pool T L σ α) (t : T) (k : Proc L σ α) : Pool T L σ α :=
  { s with proc := Function.update s.proc t k }

def setHeld (s : Pool T L σ α) (t : T) (m : L) (mode : Option LockMode) : Pool T L σ α :=
  { s with held := Function.update s.held t (Function.update (s.held t) m mode) }

/-- A turn of thread `t`; `none` if it has returned, has to wait, or is at `undefined`. -/
def turn (s : Pool T L σ α) (t : T) : Option (Pool T L σ α) :=
  match s.proc t with
  | .ret _ => none
  | .read r k => some (s.advance t (k (s.mem r)))
  | .update r f k =>
    some { s.advance t (k (s.mem r)) with mem := Function.update s.mem r (f (s.mem r)) }
  | .lock m mode k =>
    if s.Grants m mode then some ((s.advance t k).setHeld t m (some mode)) else none
  | .unlock m k => some ((s.advance t k).setHeld t m none)
  | .undefined => none

/-- Some thread takes a turn. -/
def Turns (s s' : Pool T L σ α) : Prop := ∃ t, s.turn t = some s'

/-- Thread `t`, which has returned, begins with `p`. -/
def call (s : Pool T L σ α) (t : T) (p : Proc L σ α) : Option (Pool T L σ α) :=
  if (s.proc t).IsRet then some (s.advance t p) else none

/-- One thread is about to write an object that another one is about to access. -/
structure Races (s : Pool T L σ α) (r : R) (t t' : T) : Prop where
  ne : t ≠ t'
  writes : (s.proc t).Writes r
  accesses : (s.proc t').Accesses r

instance (s : Pool T L σ α) (r : R) (t t' : T) : Decidable (s.Races r t t') :=
  decidable_of_iff (t ≠ t' ∧ (s.proc t).Writes r ∧ (s.proc t').Accesses r)
    ⟨fun ⟨h, h1, h2⟩ => ⟨h, h1, h2⟩, fun h => ⟨h.ne, h.writes, h.accesses⟩⟩

end Pool

/-! ### Discipline -/

/-- How threads share objects: `guard r` is the lock `r` is accessed under, `writer r` the only
thread that writes it, if there is one, and `Inv r` holds of it whenever nobody holds its guard
exclusively, `Always r` at any time. `dirty t r` says that `t` reads `r` without either, and
`spoils t r` that it may write `r` when it shares the guard, and be at `undefined`; `Remains r`
holds of what is spoilt. Locks are taken in the order of `rank`. In a lax discipline code may come
to `undefined`. -/
structure Discipline (T L : Type) {R : Type} (σ : R → Type) where
  rank : L → ℕ
  guard : R → Option L
  writer : R → Option T
  dirty : T → R → Prop
  spoils : T → R → Prop
  Inv : ∀ r, σ r → Prop
  Remains : ∀ r, σ r → Prop
  Always : ∀ r, σ r → Prop
  lax : Prop

namespace Discipline

variable {T L R : Type} {σ : R → Type} {α β : Type} {D : Discipline T L σ} {t t' : T}
  {h h' : L → Option LockMode} {r : R} {x y z : ∀ r, σ r}

/-- The thread holds the guard of the object. -/
def Guarded (D : Discipline T L σ) (h : L → Option LockMode) (r : R) : Prop :=
  ∃ m, D.guard r = some m ∧ (h m).isSome = true

/-- The thread has the object for itself. -/
def Owns (D : Discipline T L σ) (h : L → Option LockMode) (r : R) : Prop :=
  ∃ m, D.guard r = some m ∧ h m = some .exclusive

/-- The thread shares the guard of the object. -/
def Shares (D : Discipline T L σ) (h : L → Option LockMode) (r : R) : Prop :=
  ∃ m, D.guard r = some m ∧ h m = some .shared

/-- Nobody spoils the object. -/
def Firm (D : Discipline T L σ) (r : R) : Prop := ∀ t, ¬ D.spoils t r

/-- The thread can rely on the object: it holds the guard, or nobody else writes the object. What
may be spoilt, it has for itself. -/
def Knows (D : Discipline T L σ) (t : T) (h : L → Option LockMode) (r : R) : Prop :=
  D.Owns h r ∨ D.Firm r ∧ (D.writer r = some t ∨ D.Guarded h r)

/-- The thread may write the object. -/
structure MayWrite (D : Discipline T L σ) (t : T) (h : L → Option LockMode) (r : R) : Prop where
  only : ∀ t', D.writer r = some t' → t' = t
  holds : ∀ m, D.guard r = some m → h m = some .exclusive

/-- The thread may write the object and be at `undefined`. -/
structure MaySpoil (D : Discipline T L σ) (t : T) (h : L → Option LockMode) (r : R) : Prop where
  spoils : D.spoils t r
  shares : D.Shares h r
  lax : D.lax

/-- What a write that spoils the object keeps. -/
structure Keeps (D : Discipline T L σ) (r : R) (f : σ r → σ r) : Prop where
  always : ∀ v, D.Always r v → D.Always r (f v)
  remains : ∀ v, D.Inv r v ∨ D.Remains r v → D.Remains r (f v)

/-- The thread may read the object. -/
def MayRead (D : Discipline T L σ) (t : T) (h : L → Option LockMode) (r : R) : Prop :=
  D.Firm r ∧ D.writer r = some t ∨ D.Guarded h r ∨ D.dirty t r

/-- What always holds. -/
def Holds (D : Discipline T L σ) (x : ∀ r, σ r) : Prop := ∀ r, D.Always r (x r)

/-- Two memories the thread cannot tell apart. -/
def Agree (D : Discipline T L σ) (t : T) (h : L → Option LockMode) (x y : ∀ r, σ r) : Prop :=
  ∀ r, D.Knows t h r → x r = y r

theorem Agree.refl (x : ∀ r, σ r) : D.Agree t h x x := fun _ _ => rfl

theorem Agree.trans (hxy : D.Agree t h x y) (hyz : D.Agree t h y z) : D.Agree t h x z :=
  fun r hr => (hxy r hr).trans (hyz r hr)

/-- What a thread may write under its locks, its locks guard. -/
theorem Owns.guarded (ho : D.Owns h r) : D.Guarded h r := by
  obtain ⟨m, hguard, hm⟩ := ho
  exact ⟨m, hguard, by rw [hm]; rfl⟩

theorem Shares.guarded (hsh : D.Shares h r) : D.Guarded h r := by
  obtain ⟨m, hguard, hm⟩ := hsh
  exact ⟨m, hguard, by rw [hm]; rfl⟩

/-- A guarded location is held alone or together with other readers. -/
theorem Guarded.cases (hg : D.Guarded h r) : D.Owns h r ∨ D.Shares h r := by
  obtain ⟨m, hguard, hm⟩ := hg
  obtain ⟨mode, hmode⟩ := Option.isSome_iff_exists.1 hm
  cases mode with
  | shared => exact .inr ⟨m, hguard, hmode⟩
  | exclusive => exact .inl ⟨m, hguard, hmode⟩

/-- What a thread may write, no other one knows. -/
theorem MayWrite.not_knows (hw : D.MayWrite t h r) (hne : t ≠ t')
    (hexcl : ∀ m, h m = some .exclusive → h' m = none) : ¬ D.Knows t' h' r := by
  have hfree : ¬ D.Guarded h' r := by
    rintro ⟨m, hguard, hm⟩
    rw [hexcl m (hw.holds m hguard)] at hm
    cases hm
  rintro (howns | ⟨-, hwriter | hguarded⟩)
  · exact hfree howns.guarded
  · exact hne (hw.only t' hwriter).symm
  · exact hfree hguarded

/-- What a thread spoils, no other one knows. -/
theorem MaySpoil.not_knows (hw : D.MaySpoil t h r)
    (hexcl : ∀ m, h' m = some .exclusive → h m = none) : ¬ D.Knows t' h' r := by
  obtain ⟨hspoils, ⟨m, hguard, hm⟩, -⟩ := hw
  rintro (⟨m', hguard', hm'⟩ | ⟨hfirm, -⟩)
  · obtain rfl := Option.some.inj (hguard.symm.trans hguard')
    rw [hexcl m hm'] at hm
    cases hm
  · exact hfirm t hspoils

variable [DecidableEq L] [DecidableEq R]

/-- The code of `t` can go on from here: it keeps to the discipline, and what it returns meets `Q`.
Whatever `t` does not know is arbitrary at each turn. -/
def Safe (D : Discipline T L σ) (t : T) (Q : α → (∀ r, σ r) → Prop) :
    Proc L σ α → (L → Option LockMode) → (∀ r, σ r) → Prop
  | .ret a, h, x => (∀ m, h m = none) ∧ ∀ y, D.Agree t h x y → Q a y
  | .read r k, h, x => D.MayRead t h r ∧
    ∀ y, D.Agree t h x y → D.Holds y → D.Safe t Q (k (y r)) h y
  | .update r f k, h, x =>
    (D.MayWrite t h r ∧ ∀ y, D.Agree t h x y → D.Holds y →
      D.Always r (f (y r)) ∧ D.Safe t Q (k (y r)) h (Function.update y r (f (y r)))) ∨
    D.MaySpoil t h r ∧ D.Keeps r f ∧ ∀ v, k v = .undefined
  | .lock m mode k, h, x => h m = none ∧ (∀ m', (h m').isSome = true → D.rank m' < D.rank m) ∧
    ∀ y, D.Agree t h x y → D.Holds y →
      (mode = .exclusive → ∀ r, D.guard r = some m → D.Inv r (y r)) →
      D.Safe t Q k (Function.update h m (some mode)) y
  | .unlock m k, h, x => (h m).isSome = true ∧ ∀ y, D.Agree t h x y → D.Holds y →
    (h m = some .exclusive → ∀ r, D.guard r = some m → D.Inv r (y r)) ∧
      D.Safe t Q k (Function.update h m none) y
  | .undefined, _, _ => D.lax

variable {Q Q' : α → (∀ r, σ r) → Prop} {p : Proc L σ α}

/-- **The others do not matter.** -/
theorem Safe.agree (hs : D.Safe t Q p h x) (hxy : D.Agree t h x y) : D.Safe t Q p h y := by
  cases p with
  | ret a => exact ⟨hs.1, fun z hz => hs.2 z (hxy.trans hz)⟩
  | read r k => exact ⟨hs.1, fun z hz => hs.2 z (hxy.trans hz)⟩
  | update r f k => exact hs.imp_left fun hs => ⟨hs.1, fun z hz => hs.2 z (hxy.trans hz)⟩
  | lock m mode k => exact ⟨hs.1, hs.2.1, fun z hz => hs.2.2 z (hxy.trans hz)⟩
  | unlock m k => exact ⟨hs.1, fun z hz => hs.2 z (hxy.trans hz)⟩
  | undefined => exact hs

/-- The rule of consequence, for code on its way. -/
theorem Safe.mono (hQ : ∀ a y, Q a y → Q' a y) (hs : D.Safe t Q p h x) : D.Safe t Q' p h x := by
  induction p generalizing h x with
  | ret a => exact ⟨hs.1, fun y hy => hQ a y (hs.2 y hy)⟩
  | read r k ih => exact ⟨hs.1, fun y hy hall => ih _ (hs.2 y hy hall)⟩
  | update r f k ih =>
    exact hs.imp_left fun hs => ⟨hs.1, fun y hy hall => ⟨(hs.2 y hy hall).1, ih _ (hs.2 y hy hall).2⟩⟩
  | lock m mode k ih => exact ⟨hs.1, hs.2.1, fun y hy hall hinv => ih (hs.2.2 y hy hall hinv)⟩
  | unlock m k ih => exact ⟨hs.1, fun y hy hall => ⟨(hs.2 y hy hall).1, ih (hs.2 y hy hall).2⟩⟩
  | undefined => exact hs

/-- What the next step writes, the thread may write, or it is about to spoil it. -/
theorem Safe.mayWrite (hs : D.Safe t Q p h x) (hp : p.Writes r) :
    D.MayWrite t h r ∨ D.MaySpoil t h r ∧ p.Spoils r := by
  cases p with
  | update r' f k =>
    cases hp
    obtain hs | ⟨hspoil, -, hk⟩ := hs
    · exact .inl hs.1
    · exact .inr ⟨hspoil, f, by rw [funext hk]⟩
  | _ => exact hp.elim

/-- What the next step touches, the thread may read or write. -/
theorem Safe.mayAccess (hs : D.Safe t Q p h x) (hp : p.Accesses r) :
    D.MayRead t h r ∨ D.MayWrite t h r := by
  cases p with
  | read r' k => cases hp; exact .inl hs.1
  | update r' f k =>
    cases hp
    obtain hs | ⟨hspoil, -⟩ := hs
    · exact .inr hs.1
    · exact .inl (.inr (.inl hspoil.shares.guarded))
  | _ => exact hp.elim

/-- Unless the discipline is lax, code under it is never undefined. -/
theorem Safe.ne_undefined (hs : D.Safe t Q p h x) (hlax : ¬ D.lax) : p ≠ .undefined := by
  rintro rfl
  exact hlax hs

/-- Code that has returned holds no lock. -/
theorem Safe.held_of_isRet (hs : D.Safe t Q p h x) (hp : p.IsRet) : ∀ m, h m = none := by
  cases p with
  | ret a => exact hs.1
  | _ => exact hp.elim

/-- What `t` can rely on between its turns. -/
def Stable (D : Discipline T L σ) (t : T) (h : L → Option LockMode) (P : (∀ r, σ r) → Prop) :
    Prop :=
  ∀ x y, D.Agree t h x y → P x → P y

/-- The code is safe from every memory that meets `P`. -/
def Triple (D : Discipline T L σ) (t : T) (h : L → Option LockMode) (P : (∀ r, σ r) → Prop)
    (p : Proc L σ α) (Q : α → (∀ r, σ r) → Prop) : Prop :=
  ∀ x, P x → D.Safe t Q p h x

variable {P P' : (∀ r, σ r) → Prop} {m : L} {mode : LockMode} {k : α → Proc L σ β}
  {Qk : β → (∀ r, σ r) → Prop}

/-- A thread ends with no lock in hand. -/
theorem Triple.ret {a : α} (hP : D.Stable t h P) (hfree : ∀ m, h m = none) (hQ : ∀ x, P x → Q a x) :
    D.Triple t h P (.ret a) Q :=
  fun x hx => ⟨hfree, fun y hy => hQ y (hP x y hy hx)⟩

/-- The rule of a read: what was read obeys what always holds of it. -/
theorem Triple.read {k : σ r → Proc L σ α} (hP : D.Stable t h P) (hr : D.MayRead t h r)
    (hk : ∀ x, P x → D.Always r (x r) → D.Triple t h P (k (x r)) Q) :
    D.Triple t h P (.read r k) Q :=
  fun x hx => ⟨hr, fun y hy hall => hk y (hP x y hy hx) (hall r) y (hP x y hy hx)⟩

/-- The rule of a write: what always holds must hold of the value written. -/
theorem Triple.update {f : σ r → σ r} {k : σ r → Proc L σ α} (hP : D.Stable t h P)
    (hw : D.MayWrite t h r) (hall : ∀ x, P x → D.Always r (x r) → D.Always r (f (x r)))
    (hP' : ∀ x, P x → P' (Function.update x r (f (x r))))
    (hk : ∀ x, P x → D.Triple t h P' (k (x r)) Q) : D.Triple t h P (.update r f k) Q :=
  fun x hx => .inl ⟨hw, fun y hy hy' => ⟨hall y (hP x y hy hx) (hy' r),
    hk y (hP x y hy hx) _ (hP' y (hP x y hy hx))⟩⟩

/-- The rule of the last write before undefined code. -/
theorem Triple.spoil {f : σ r → σ r} (hw : D.MaySpoil t h r) (hf : D.Keeps r f) :
    D.Triple t h P (.update r f fun _ => .undefined) Q :=
  fun _ _ => .inr ⟨hw, hf, fun _ => rfl⟩

/-- The rule of taking a lock: it is above every lock held, and the invariants it guards are there.
-/
theorem Triple.lock {k : Proc L σ α} (hP : D.Stable t h P) (hm : h m = none)
    (hrank : ∀ m', (h m').isSome = true → D.rank m' < D.rank m)
    (hk : ∀ x, P x → D.Holds x →
      (mode = .exclusive → ∀ r, D.guard r = some m → D.Inv r (x r)) →
      D.Safe t Q k (Function.update h m (some mode)) x) : D.Triple t h P (.lock m mode k) Q :=
  fun x hx => ⟨hm, hrank, fun y hy hall hinv => hk y (hP x y hy hx) hall hinv⟩

/-- The rule of giving a lock back: what it guards is as its invariant says. -/
theorem Triple.unlock {k : Proc L σ α} (hP : D.Stable t h P) (hm : (h m).isSome = true)
    (hinv : h m = some .exclusive → ∀ x, P x → ∀ r, D.guard r = some m → D.Inv r (x r))
    (hk : D.Triple t (Function.update h m none) P k Q) : D.Triple t h P (.unlock m k) Q :=
  fun x hx => ⟨hm, fun y hy _ => ⟨fun hexcl => hinv hexcl y (hP x y hy hx), hk y (hP x y hy hx)⟩⟩

/-- Under the locks `h`, the code is one function of the object `r`, and accesses nothing else. -/
def Does (D : Discipline T L σ) (t : T) (h : L → Option LockMode) (r : R) (p : Proc L σ α)
    (f : σ r → α × σ r) : Prop :=
  ∀ (β : Type) (k : α → Proc L σ β) (Q : β → (∀ r, σ r) → Prop) (x : ∀ r, σ r),
    (∀ y, D.Agree t h x y → D.Safe t Q (k (f (y r)).1) h (Function.update y r (f (y r)).2)) →
      D.Safe t Q (p.bind k) h x

theorem Does.ret (a : α) : D.Does t h r (.ret a) fun v => (a, v) := by
  intro β k Q x hk
  have hx := hk x (.refl x)
  rwa [Function.update_eq_self] at hx

theorem Does.get (hr : D.MayRead t h r) : D.Does t h r (Proc.get r) fun v => (v, v) := by
  intro β k Q x hk
  refine ⟨hr, fun y hy _ => ?_⟩
  have hx := hk y hy
  rwa [Function.update_eq_self] at hx

theorem Does.modifyGet (hw : D.MayWrite t h r) (f : σ r → α × σ r)
    (hall : ∀ v, D.Always r v → D.Always r (f v).2) : D.Does t h r (Proc.modifyGet r f) f :=
  fun _ _ _ _ hk => .inl ⟨hw, fun y hy hy' => ⟨hall (y r) (hy' r), hk y hy⟩⟩

/-- **Sections compose.** -/
theorem Does.bind (hr : D.Knows t h r) {g : α → Proc L σ β} {f : σ r → α × σ r}
    {f' : α → σ r → β × σ r} (hp : D.Does t h r p f) (hg : ∀ a, D.Does t h r (g a) (f' a)) :
    D.Does t h r (p.bind g) fun v => f' (f v).1 (f v).2 := by
  intro γ k Q x hk
  rw [Proc.bind_assoc]
  refine hp _ _ _ x fun y hy => hg _ _ _ _ _ fun z hz => ?_
  -- `z` is `y` after the first part, and what `t` does not know may have changed since
  have hzr : z r = (f (y r)).2 := by
    rw [← hz r hr, Function.update_self]
  have hxz : D.Agree t h x (Function.update z r (y r)) := by
    intro r' hr'
    by_cases hrr : r' = r
    · subst hrr
      rw [Function.update_self, hy r' hr']
    · rw [Function.update_of_ne hrr, hy r' hr', ← hz r' hr', Function.update_of_ne hrr]
  have hend := hk _ hxz
  rw [Function.update_self, Function.update_idem] at hend
  rwa [hzr]

omit [DecidableEq R] in
/-- A thread with one lock more knows no less. -/
theorem Agree.of_lock (hm : h m = none)
    (hxy : D.Agree t (Function.update h m (some mode)) x y) : D.Agree t h x y := by
  have hheld : ∀ m', h m' ≠ none → Function.update h m (some mode) m' = h m' := by
    intro m' hm'
    rw [Function.update_of_ne]
    rintro rfl
    exact hm' hm
  refine fun r hr => hxy r (hr.imp ?_ (And.imp_right (Or.imp_right ?_)))
  · rintro ⟨m', hguard, hm'⟩
    exact ⟨m', hguard, by rw [hheld m' (by rw [hm']; simp), hm']⟩
  · rintro ⟨m', hguard, hm'⟩
    exact ⟨m', hguard, by rwa [hheld m' (Option.isSome_iff_ne_none.1 hm')]⟩

omit [DecidableEq R] in
/-- What others cannot change, they cannot change while one more lock is held. -/
theorem Stable.of_lock (hP : D.Stable t h P) (hm : h m = none) :
    D.Stable t (Function.update h m (some mode)) P :=
  fun x y hxy => hP x y (hxy.of_lock hm)

/-- **What is done under a lock is done at once.** -/
theorem Does.locked {f : σ r → α × σ r}
    (hp : D.Does t (Function.update h m (some .exclusive)) r p f)
    (hguard : ∀ r', D.guard r' = some m ↔ r' = r) (hP : D.Stable t h P) (hP' : D.Stable t h P')
    (hm : h m = none) (hrank : ∀ m', (h m').isSome = true → D.rank m' < D.rank m)
    (hinv : ∀ x, P x → D.Inv r (x r) → D.Inv r (f (x r)).2 ∧ P' (Function.update x r (f (x r)).2))
    (hk : ∀ x, P x → D.Inv r (x r) → D.Triple t h P' (k (f (x r)).1) Qk) :
    D.Triple t h P ((Proc.locked m .exclusive p).bind k) Qk := by
  refine Triple.lock hP hm hrank fun x hx _ hinvx => ?_
  rw [Proc.bind_assoc]
  refine hp _ _ _ x fun y hy => ?_
  have hknows : D.Knows t (Function.update h m (some .exclusive)) r :=
    .inl ⟨m, (hguard r).2 rfl, Function.update_self ..⟩
  have hy' : P y := hP x y (hy.of_lock hm) hx
  have hinvy : D.Inv r (y r) := hy r hknows ▸ hinvx rfl r ((hguard r).2 rfl)
  obtain ⟨hinv', hPy⟩ := hinv y hy' hinvy
  refine ⟨by rw [Function.update_self]; rfl, fun z hz _ => ⟨fun _ r' hr' => ?_, ?_⟩⟩
  · obtain rfl := (hguard r').1 hr'
    rw [← hz r' hknows, Function.update_self]
    exact hinv'
  · rw [Function.update_idem, Function.update_eq_iff.2 ⟨hm.symm, fun _ _ => rfl⟩]
    exact hk y hy' hinvy z (hP' _ z (hz.of_lock hm) hPy)

end Discipline

/-! ### Soundness -/

namespace Pool

variable {T L R : Type} {σ : R → Type} {α : Type} [DecidableEq L] [DecidableEq R]
  {D : Discipline T L σ} {Q : T → α → (∀ r, σ r) → Prop} {s s' : Pool T L σ α} {t t' : T}

/-- A thread has spoilt the object: it shares its guard, and is at `undefined`. -/
def Spoilt (D : Discipline T L σ) (s : Pool T L σ α) (r : R) : Prop :=
  ∃ t, D.MaySpoil t (s.held t) r ∧ s.proc t = .undefined

/-- Locks are held as their modes allow, every thread is safe, what is unlocked meets its invariant
or is spoilt, and what always holds does. -/
structure Sound (D : Discipline T L σ) (Q : T → α → (∀ r, σ r) → Prop) (s : Pool T L σ α) :
    Prop where
  excl : ∀ t t' m, t ≠ t' → s.held t m = some .exclusive → s.held t' m = none
  safe : ∀ t, D.Safe t (Q t) (s.proc t) (s.held t) s.mem
  inv : ∀ r m, D.guard r = some m → (∀ t, s.held t m ≠ some .exclusive) →
    D.Inv r (s.mem r) ∨ D.Remains r (s.mem r) ∧ s.Spoilt D r
  holds : D.Holds s.mem

/-- A weaker condition on what the threads return. -/
theorem Sound.mono {Q' : T → α → (∀ r, σ r) → Prop} (hs : s.Sound D Q)
    (hQ : ∀ t a y, Q t a y → Q' t a y) : s.Sound D Q' where
  excl := hs.excl
  safe t := (hs.safe t).mono (hQ t)
  inv := hs.inv
  holds := hs.holds

/-- Before the first call. -/
theorem Sound.start
    (hproc : ∀ t, ∃ a, s.proc t = .ret a ∧ ∀ y, D.Agree t (s.held t) s.mem y → Q t a y)
    (hheld : ∀ t m, s.held t m = none) (hinv : ∀ r, D.Inv r (s.mem r)) (hholds : D.Holds s.mem) :
    s.Sound D Q where
  excl t t' m _ hm := by rw [hheld] at hm; cases hm
  safe t := by
    obtain ⟨a, ha, hQ⟩ := hproc t
    rw [ha]
    exact ⟨hheld t, hQ⟩
  inv r _ _ _ := .inl (hinv r)
  holds := hholds

/-- Nobody has a lock for itself that another thread shares. -/
theorem Sound.not_exclusive (hs : s.Sound D Q) {m : L} (hm : s.held t m = some .shared) :
    ∀ t', s.held t' m ≠ some .exclusive := by
  intro t' ht'
  by_cases hne : t' = t
  · subst hne
    rw [hm] at ht'
    cases ht'
  · rw [hs.excl t' t m hne ht'] at hm
    cases hm

/-- Only one thread has an object for itself. -/
theorem Sound.not_guarded (hs : s.Sound D Q) {r : R} (hw : D.Owns (s.held t) r) (hne : t ≠ t') :
    ¬ D.Guarded (s.held t') r := by
  obtain ⟨m, hguard, hm⟩ := hw
  rintro ⟨m', hguard', hm'⟩
  obtain rfl := Option.some.inj (hguard.symm.trans hguard')
  rw [hs.excl t t' m hne hm] at hm'
  cases hm'

/-- **Races.** Who is about to write an object may write it, or spoils it. Who accesses it at the
same time makes a dirty read, shares the guard with a thread that spoils the object, or writes what
has neither a guard nor an only writer. -/
theorem Sound.race (hs : s.Sound D Q) {r : R} (hr : s.Races r t t') :
    D.MayWrite t (s.held t) r ∧ (D.dirty t' r ∧ ¬ D.Guarded (s.held t') r ∨
      D.guard r = none ∧ D.writer r = none) ∨
    D.MaySpoil t (s.held t) r ∧ (s.proc t).Spoils r ∧
      (D.dirty t' r ∨ D.Shares (s.held t') r) := by
  obtain ⟨hne, hwrites, haccesses⟩ := hr
  have hacc := (hs.safe t').mayAccess haccesses
  obtain hw | ⟨hspoil, hspoils⟩ := (hs.safe t).mayWrite hwrites
  · refine .inl ⟨hw, ?_⟩
    cases hguard : D.guard r with
    | none =>
      cases hwriter : D.writer r with
      | none => exact .inr ⟨rfl, rfl⟩
      | some t0 =>
        obtain rfl := hw.only t0 hwriter
        have hfree : ¬ D.Guarded (s.held t') r := fun ⟨m, hm, _⟩ => nomatch hguard.symm.trans hm
        obtain (⟨-, hread⟩ | hread | hdirty) | hw' := hacc
        · exact absurd (Option.some.inj (hwriter.symm.trans hread)) hne
        · exact absurd hread hfree
        · exact .inl ⟨hdirty, hfree⟩
        · exact absurd (hw'.only t0 hwriter) hne
    | some m =>
      have howns : D.Owns (s.held t) r := ⟨m, hguard, hw.holds m hguard⟩
      have hfree := hs.not_guarded howns hne
      obtain (⟨-, hread⟩ | hread | hdirty) | hw' := hacc
      · exact absurd (hw.only t' hread).symm hne
      · exact absurd hread hfree
      · exact .inl ⟨hdirty, hfree⟩
      · exact absurd ⟨m, hguard, by rw [hw'.holds m hguard]; rfl⟩ hfree
  · refine .inr ⟨hspoil, hspoils, ?_⟩
    -- nobody else has for itself what a thread shares
    have hshares : D.Guarded (s.held t') r → D.Shares (s.held t') r := fun hg =>
      hg.cases.resolve_left fun howns => hs.not_guarded howns hne.symm hspoil.shares.guarded
    obtain (⟨hfirm, -⟩ | hread | hdirty) | hw' := hacc
    · exact absurd hspoil.spoils (hfirm t)
    · exact .inr (hshares hread)
    · exact .inl hdirty
    · obtain ⟨m, hguard, -⟩ := hspoil.shares
      exact .inr (hshares ⟨m, hguard, by rw [hw'.holds m hguard]; rfl⟩)

variable [DecidableEq T]

omit [DecidableEq L] [DecidableEq R] in
@[simp] theorem advance_proc_self (k : Proc L σ α) : (s.advance t k).proc t = k :=
  Function.update_self ..

omit [DecidableEq L] [DecidableEq R] in
theorem advance_proc_of_ne (k : Proc L σ α) (hne : t' ≠ t) : (s.advance t k).proc t' = s.proc t' :=
  Function.update_of_ne hne ..

omit [DecidableEq R] in
theorem setHeld_held (m m' : L) (mode : Option LockMode) :
    (s.setHeld t m mode).held t' m' = if t' = t ∧ m' = m then mode else s.held t' m' := by
  unfold setHeld
  by_cases ht : t' = t
  · subst ht
    simp only [Function.update_self, Function.update_apply, true_and]
  · simp only [Function.update_of_ne ht, if_neg (show ¬ (t' = t ∧ m' = m) from fun h => ht h.1)]

omit [DecidableEq L] [DecidableEq R] [DecidableEq T] in
/-- A thread at `undefined` stays there, with its locks. -/
theorem Spoilt.mono {r : R} (hr : s.Spoilt D r) (hkeep : ∀ t, s.proc t = .undefined →
    s'.proc t = .undefined ∧ s'.held t = s.held t) : s'.Spoilt D r := by
  obtain ⟨t, hspoil, hp⟩ := hr
  obtain ⟨hp', hheld⟩ := hkeep t hp
  exact ⟨t, hheld.symm ▸ hspoil, hp'⟩

omit [DecidableEq L] [DecidableEq R] in
/-- It is another thread that goes on. -/
theorem advance_undefined {k : Proc L σ α} (hp : s.proc t ≠ .undefined)
    (hp' : s.proc t' = .undefined) : t' ≠ t ∧ (s.advance t k).proc t' = .undefined := by
  have hne : t' ≠ t := by
    rintro rfl
    exact hp hp'
  exact ⟨hne, (advance_proc_of_ne k hne).trans hp'⟩

/-- A thread goes on, and locks and memory stay. -/
theorem Sound.advance (hs : s.Sound D Q) {k : Proc L σ α} {P : α → (∀ r, σ r) → Prop}
    (hp : s.proc t ≠ .undefined) (hk : D.Safe t P k (s.held t) s.mem) :
    (s.advance t k).Sound D (Function.update Q t P) where
  excl := hs.excl
  inv r m hguard hfree := (hs.inv r m hguard hfree).imp_right fun ⟨hrem, hr⟩ =>
    ⟨hrem, hr.mono fun _ hp' => ⟨(advance_undefined hp hp').2, rfl⟩⟩
  holds := hs.holds
  safe t' := by
    by_cases ht : t' = t
    · subst ht
      rw [advance_proc_self, Function.update_self]
      exact hk
    · rw [advance_proc_of_ne k ht, Function.update_of_ne ht]
      exact hs.safe t'

/-- A thread goes on, having written an object, or is at `undefined`, having spoilt it. -/
theorem Sound.write (hs : s.Sound D Q) {k : Proc L σ α} {r : R} {v : σ r}
    (hp : s.proc t ≠ .undefined) (hw : D.MayWrite t (s.held t) r ∨
      D.MaySpoil t (s.held t) r ∧ D.Remains r v ∧ k = .undefined)
    (hall : D.Always r v)
    (hk : D.Safe t (Q t) k (s.held t) (Function.update s.mem r v)) :
    ({ s.advance t k with mem := Function.update s.mem r v } : Pool T L σ α).Sound D Q where
  excl := hs.excl
  safe t' := by
    by_cases ht : t' = t
    · subst ht
      simp only [advance_proc_self]
      exact hk
    -- another thread does not know the object
    · simp only [advance_proc_of_ne _ ht]
      refine (hs.safe t').agree fun r' hr' => ?_
      have hne : r' ≠ r := by
        rintro rfl
        obtain hw | ⟨hw, -⟩ := hw
        · exact hw.not_knows (Ne.symm ht) (fun m hm => hs.excl t t' m (Ne.symm ht) hm) hr'
        · exact hw.not_knows (fun m hm => hs.excl t' t m ht hm) hr'
      rw [Function.update_of_ne hne]
  inv r' m hguard hfree := by
    by_cases hr : r' = r
    · subst hr
      obtain hw | ⟨hw, hrem, rfl⟩ := hw
      · exact absurd (hw.holds m hguard) (hfree t)
      · simp only [Function.update_self]
        exact .inr ⟨hrem, t, hw, advance_proc_self _⟩
    · simp only [Function.update_of_ne hr]
      exact (hs.inv r' m hguard hfree).imp_right fun ⟨hrem, hr⟩ =>
        ⟨hrem, hr.mono fun _ hp' => ⟨(advance_undefined hp hp').2, rfl⟩⟩
  holds r' := by
    by_cases hr : r' = r
    · subst hr
      simp only [Function.update_self]
      exact hall
    · simp only [Function.update_of_ne hr]
      exact hs.holds r'

/-- A thread goes on, having taken or released a lock. -/
theorem Sound.setHeld (hs : s.Sound D Q) {k : Proc L σ α} {m : L} {mode : Option LockMode}
    (hp : s.proc t ≠ .undefined)
    (hexcl : mode = some .exclusive → ∀ t', t' ≠ t → s.held t' m = none)
    (hshared : mode.isSome = true → ∀ t', t' ≠ t → s.held t' m ≠ some .exclusive)
    (hk : D.Safe t (Q t) k (Function.update (s.held t) m mode) s.mem)
    (hinv : ∀ r, D.guard r = some m → D.Inv r (s.mem r) ∨ D.Remains r (s.mem r) ∧ s.Spoilt D r) :
    ((s.advance t k).setHeld t m mode).Sound D Q where
  holds := hs.holds
  excl t1 t2 m' hne hm' := by
    rw [setHeld_held] at hm' ⊢
    split
    · rename_i h2
      obtain ⟨rfl, rfl⟩ := h2
      rw [if_neg (fun h => hne h.1)] at hm'
      cases mode with
      | none => rfl
      | some _ => exact absurd hm' (hshared rfl t1 hne)
    · split at hm'
      · rename_i h1
        obtain ⟨rfl, rfl⟩ := h1
        exact hexcl hm' t2 (Ne.symm hne)
      · exact hs.excl t1 t2 m' hne hm'
  safe t' := by
    by_cases ht : t' = t
    · subst ht
      have hheld : ((s.advance t' k).setHeld t' m mode).held t' =
          Function.update (s.held t') m mode := Function.update_self ..
      have hproc : ((s.advance t' k).setHeld t' m mode).proc t' = k := advance_proc_self k
      rw [hheld, hproc]
      exact hk
    · have hheld : ((s.advance t k).setHeld t m mode).held t' = s.held t' :=
        Function.update_of_ne ht ..
      have hproc : ((s.advance t k).setHeld t m mode).proc t' = s.proc t' := advance_proc_of_ne k ht
      rw [hheld, hproc]
      exact hs.safe t'
  inv r m' hguard hfree := by
    have hbefore : D.Inv r (s.mem r) ∨ D.Remains r (s.mem r) ∧ s.Spoilt D r := by
      by_cases hm : m' = m
      · subst hm
        exact hinv r hguard
      · refine hs.inv r m' hguard fun t' ht' => hfree t' ?_
        rw [setHeld_held, if_neg (fun h => hm h.2)]
        exact ht'
    refine hbefore.imp_right fun ⟨hrem, hr⟩ => ⟨hrem, hr.mono fun t' hp' => ?_⟩
    obtain ⟨hne, hp'⟩ := advance_undefined (k := k) hp hp'
    exact ⟨hp', Function.update_of_ne hne ..⟩

omit [DecidableEq L] [DecidableEq R] in
/-- A thread is given new code only after it has returned. -/
theorem exists_ret_of_call {p : Proc L σ α} (h : s.call t p = some s') :
    ∃ a, s.proc t = .ret a := by
  unfold Pool.call at h
  split at h
  · exact Proc.exists_of_isRet ‹_›
  · cases h

/-- A thread that has returned begins with safe code. -/
theorem Sound.call (hs : s.Sound D Q) {p : Proc L σ α} {P : α → (∀ r, σ r) → Prop}
    (hp : D.Safe t P p (fun _ => none) s.mem) (h : s.call t p = some s') :
    s'.Sound D (Function.update Q t P) := by
  unfold Pool.call at h
  split at h
  · rename_i hret
    cases h
    have hheld : s.held t = fun _ => none := funext ((hs.safe t).held_of_isRet hret)
    have hdef : s.proc t ≠ .undefined := by
      intro h
      rw [h] at hret
      exact hret
    exact hs.advance hdef (hheld.symm ▸ hp)
  · cases h

variable [Fintype T]

/-- What a turn can be. -/
theorem turn_cases (h : s.turn t = some s') :
    (∃ r k, s.proc t = .read r k ∧ s' = s.advance t (k (s.mem r))) ∨
    (∃ r f k, s.proc t = .update r f k ∧
      s' = { s.advance t (k (s.mem r)) with mem := Function.update s.mem r (f (s.mem r)) }) ∨
    (∃ m mode k, s.proc t = .lock m mode k ∧ s.Grants m mode ∧
      s' = (s.advance t k).setHeld t m (some mode)) ∨
    ∃ m k, s.proc t = .unlock m k ∧ s' = (s.advance t k).setHeld t m none := by
  unfold turn at h
  split at h
  · cases h
  · rename_i r k hp; cases h; exact .inl ⟨r, k, hp, rfl⟩
  · rename_i r f k hp; cases h; exact .inr (.inl ⟨r, f, k, hp, rfl⟩)
  · rename_i m mode k hp
    split at h
    · cases h; exact .inr (.inr (.inl ⟨m, mode, k, hp, ‹_›, rfl⟩))
    · cases h
  · rename_i m k hp; cases h; exact .inr (.inr (.inr ⟨m, k, hp, rfl⟩))
  · cases h

omit [DecidableEq L] [DecidableEq R] [DecidableEq T] [Fintype T] in
/-- A lock that is granted is not held exclusively, by whoever it may be. -/
theorem Grants.not_exclusive {m : L} {mode : LockMode} (h : s.Grants m mode) :
    s.held t m ≠ some .exclusive := by
  cases mode with
  | shared => exact h t
  | exclusive => intro ht; rw [h t] at ht; cases ht

omit [DecidableEq L] [DecidableEq R] [DecidableEq T] [Fintype T] in
/-- Nobody has spoilt what is guarded by a lock that nobody holds. -/
theorem Grants.not_spoilt {m : L} {r : R} (h : s.Grants m .exclusive) (hguard : D.guard r = some m) :
    ¬ s.Spoilt D r := by
  rintro ⟨t, hspoil, -⟩
  obtain ⟨m', hguard', hm'⟩ := hspoil.shares
  obtain rfl := Option.some.inj (hguard.symm.trans hguard')
  rw [h t] at hm'
  cases hm'

/-- **A turn keeps every thread safe**, whosever turn it is. -/
theorem Sound.turn (hs : s.Sound D Q) (h : s.turn t = some s') : s'.Sound D Q := by
  have hsafe := hs.safe t
  obtain ⟨r, k, hp, rfl⟩ | ⟨r, f, k, hp, rfl⟩ | ⟨m, mode, k, hp, hgrant, rfl⟩ | ⟨m, k, hp, rfl⟩ :=
    turn_cases h
  all_goals
    rw [hp] at hsafe
    have hdef : s.proc t ≠ .undefined := by rw [hp]; simp
  · have hadv := hs.advance hdef (hsafe.2 s.mem (.refl _) hs.holds)
    rwa [Function.update_eq_self] at hadv
  · obtain ⟨hw, hsafe⟩ | ⟨hspoil, hkeeps, hk⟩ := hsafe
    · obtain ⟨hall, hk⟩ := hsafe s.mem (.refl _) hs.holds
      exact hs.write hdef (.inl hw) hall hk
    · obtain ⟨m, hguard, hm⟩ := hspoil.shares
      have hrem : D.Remains r (f (s.mem r)) :=
        hkeeps.remains _ ((hs.inv r m hguard (hs.not_exclusive hm)).imp_right And.left)
      rw [hk]
      exact hs.write hdef (.inr ⟨hspoil, hrem, rfl⟩) (hkeeps.always _ (hs.holds r)) hspoil.lax
  · obtain ⟨-, -, hk⟩ := hsafe
    have hinv : ∀ r, D.guard r = some m → D.Inv r (s.mem r) ∨
        D.Remains r (s.mem r) ∧ s.Spoilt D r := fun r hr =>
      hs.inv r m hr fun t' => hgrant.not_exclusive
    refine hs.setHeld hdef (fun hmode t' _ => ?_) (fun _ t' _ => hgrant.not_exclusive)
      (hk s.mem (.refl _) hs.holds fun hmode r hr => ?_) hinv
    · cases hmode
      exact hgrant t'
    · subst hmode
      exact (hinv r hr).resolve_right fun h => hgrant.not_spoilt hr h.2
  · obtain ⟨hheld, hsafe⟩ := hsafe
    obtain ⟨hinv, hk⟩ := hsafe s.mem (.refl _) hs.holds
    refine hs.setHeld hdef (fun hmode => by cases hmode) (fun hmode => by cases hmode) hk
      fun r hr => ?_
    obtain ⟨mode, hmode⟩ := Option.isSome_iff_exists.1 hheld
    cases mode with
    | exclusive => exact .inl (hinv hmode r hr)
    | shared => exact hs.inv r m hr (hs.not_exclusive hmode)

/-- **Every run of a sound pool stays sound.** -/
theorem Sound.turns (hs : s.Sound D Q) (h : Relation.ReflTransGen Turns s s') : s'.Sound D Q := by
  induction h with
  | refl => exact hs
  | tail _ h ih =>
    obtain ⟨t, ht⟩ := h
    exact ih.turn ht

/-- A thread that has neither returned nor a turn waits for a lock that another one holds. -/
theorem exists_lock_of_turn (hret : ¬ (s.proc t).IsRet) (hdef : s.proc t ≠ .undefined)
    (hturn : s.turn t = none) : ∃ m mode k t', s.proc t = .lock m mode k ∧
      (s.held t' m).isSome = true := by
  unfold Pool.turn at hturn
  split at hturn
  · rename_i hp; exact absurd (by rw [hp]; trivial) hret
  · cases hturn
  · cases hturn
  · rename_i m mode k hp
    split at hturn
    · cases hturn
    · rename_i hgrant
      refine ⟨m, mode, k, ?_⟩
      by_contra hall
      push Not at hall
      have hnone : ∀ t', s.held t' m = none := fun t' => by simpa using hall t' hp
      refine hgrant ?_
      cases mode with
      | shared => intro t' ht'; rw [hnone t'] at ht'; cases ht'
      | exclusive => exact hnone
  · cases hturn
  · rename_i hp; exact absurd hp hdef

/-- **No deadlock.** If some thread has not returned, some thread has a turn, or is at
`undefined`. -/
theorem Sound.progress (hs : s.Sound D Q) (hret : ¬ (s.proc t).IsRet) :
    ∃ t', (s.turn t').isSome = true ∨ s.proc t' = .undefined := by
  by_contra hall
  push Not at hall
  have hwaits : ∀ t, ¬ (s.proc t).IsRet → ∃ m mode k t', s.proc t = .lock m mode k ∧
      (s.held t' m).isSome = true := fun t ht =>
    exists_lock_of_turn ht (hall t).2 (by simpa using (hall t).1)
  -- the lock of the highest rank that a thread waits for
  let wanted (t : T) : ℕ := match s.proc t with
    | .lock m _ _ => D.rank m
    | _ => 0
  obtain ⟨t0, ht0, hmax⟩ := (Finset.univ.filter fun t => ¬ (s.proc t).IsRet).exists_max_image wanted
    ⟨t, Finset.mem_filter.2 ⟨Finset.mem_univ _, hret⟩⟩
  obtain ⟨m, mode, k, t1, hp0, hheld⟩ := hwaits t0 (Finset.mem_filter.1 ht0).2
  have hret1 : ¬ (s.proc t1).IsRet := by
    intro h
    rw [(hs.safe t1).held_of_isRet h m] at hheld
    cases hheld
  obtain ⟨m1, mode1, k1, -, hp1, -⟩ := hwaits t1 hret1
  have hsafe := hs.safe t1
  rw [hp1] at hsafe
  have hlt : D.rank m < D.rank m1 := hsafe.2.1 m hheld
  have hle := hmax t1 (Finset.mem_filter.2 ⟨Finset.mem_univ _, hret1⟩)
  simp only [wanted, hp0, hp1] at hle
  omega

/-- When no thread has a turn, all have returned, or some thread is at `undefined`. -/
theorem Sound.ended (hs : s.Sound D Q) (hend : ∀ t, s.turn t = none) :
    (∀ t, (s.proc t).IsRet) ∨ ∃ t, s.proc t = .undefined := by
  by_contra hnot
  push Not at hnot
  obtain ⟨⟨t, hret⟩, hdef⟩ := hnot
  obtain ⟨t', hturn | hundef⟩ := hs.progress hret
  · rw [hend t'] at hturn
    cases hturn
  · exact hdef t' hundef

end Pool

end Shopping.Lib
