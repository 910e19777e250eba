import Shopping.Lib.UnorderedMap
import Mathlib

/-!
# Strings, machine integers and exceptions

What the sources take from C++ itself: `std::string` as its bytes, the
conversions between the integer types, `to_string`, and the ways a call can end
other than by returning.
-/

namespace Shopping

open Lib

/-- `std::string`: any bytes, NUL included. -/
abbrev Str := List UInt8

/-- Strings are compared byte by byte. -/
instance lawfulBEqStr : LawfulBEq Str := inferInstance

/-- A string literal of the sources (all are ASCII). -/
def str (s : String) : Str := s.toList.map fun c => UInt8.ofNat c.toNat

/-- What a text bound with length `-1` reads of `s.c_str()`: the bytes before the
first NUL. -/
def cstr (s : Str) : Str := s.takeWhile (· ≠ 0)

/-- Conversion to `int32_t`; on x86-64 also what signed arithmetic that overflows
leaves when the build does not trap. -/
def int32 (z : ℤ) : ℤ := z.bmod (2 ^ 32)

/-- Conversion to `int64_t`. -/
def int64 (z : ℤ) : ℤ := z.bmod (2 ^ 64)

/-- `std::to_string` of an integer. -/
def toStr (z : ℤ) : Str := str (toString z)

/-- How a call ends other than by returning. `emptyIndex` is `v[0]` of an empty
vector, which is undefined behaviour and no exception. -/
inductive Exn
  | invalidArgument (what : String)
  | runtimeError (what : String)
  | msgpackError
  | zmqError
  | emptyIndex
  deriving DecidableEq

/-- What a method of an object may do: return, or throw and leave the object in some
state. -/
abbrev Throws (σ : Type*) := Except (Exn × σ)

/-- A `void` method of an object: the object after it returns, or the exception
with the object as the throw leaves it. -/
abbrev Method (σ : Type*) := Throws σ σ

/-- The object after a method, however it ended. -/
def Throws.state {σ : Type*} : Throws σ σ → σ
  | .ok s => s
  | .error (_, s) => s

/-- Whether a method returned. -/
def Throws.returned {σ : Type*} : Throws σ σ → Bool
  | .ok _ => true
  | .error _ => false

/-- What holds after a first method, and is kept by a second one, holds after both,
whichever of them throws. -/
theorem Throws.state_bind {σ : Type*} {P : σ → Prop} {r : Method σ} {f : σ → Method σ}
    (hr : P r.state) (hf : ∀ s, P s → P (f s).state) : P (Throws.state (r.bind f)) := by
  cases r with
  | ok s => exact hf s hr
  | error x => exact hr

/-- Two calls return iff the first one does and the second one does after it. -/
theorem Throws.bind_eq_ok {ε σ τ : Type*} {r : Except ε σ} {f : σ → Except ε τ} {t : τ} :
    r.bind f = .ok t ↔ ∃ s, r = .ok s ∧ f s = .ok t := by
  cases r with
  | ok s => simp [Except.bind]
  | error x => simp [Except.bind]

/-- A call returns what meets `Q`, or throws what meets `E`. -/
def Post {ε α : Type*} (r : Except ε α) (Q : α → Prop) (E : ε → Prop) : Prop :=
  match r with
  | .ok x => Q x
  | .error e => E e

section Post

variable {ε : Type*} {α γ : Type} {r : Except ε α} {f : α → Except ε γ} {P : α → Prop}
  {Q : γ → Prop} {E : ε → Prop}

theorem Post.bind (hr : Post r P E) (hf : ∀ x, P x → Post (f x) Q E) : Post (r >>= f) Q E := by
  cases r with
  | ok x => exact hf x hr
  | error e => exact hr

theorem Post.mono {P' : α → Prop} (hr : Post r P E) (hP : ∀ x, P x → P' x) : Post r P' E := by
  cases r with
  | ok x => exact hP x hr
  | error e => exact hr

theorem Post.of_ok {x : α} (h : Post r P E) (hr : r = .ok x) : P x := by
  subst hr; exact h

theorem Post.of_error {e : ε} (h : Post r P E) (hr : r = .error e) : E e := by
  subst hr; exact h

end Post

theorem cstr_eq_self {s : Str} (h : (0 : UInt8) ∉ s) : cstr s = s := by
  rw [cstr, List.takeWhile_eq_self_iff]
  intro x hx
  simp only [decide_eq_true_eq]
  rintro rfl; exact h hx

theorem int64_add_int64 (a b : ℤ) : int64 (int64 a + b) = int64 (a + b) := by
  unfold int64; exact Int.bmod_add_bmod

theorem int64_sub_int64 (a b : ℤ) : int64 (int64 a - int64 b) = int64 (a - b) := by
  unfold int64; simp

/-- In range, the conversion changes nothing. -/
theorem int64_of_range {z : ℤ} (h1 : -2 ^ 63 ≤ z) (h2 : z < 2 ^ 63) : int64 z = z := by
  unfold int64; rw [Int.bmod_def]; omega

/-- Conversion to `uint32_t` keeps a number modulo `2^32`, whatever came before. -/
theorem ofInt_int64_eq_iff (a b : ℤ) :
    UInt32.ofInt (int64 a) = UInt32.ofInt (int64 b) ↔ a ≡ b [ZMOD 2 ^ 32] := by
  have hint : ∀ z : ℤ, int64 z % 2 ^ 32 = z % 2 ^ 32 := by
    intro z
    rw [int64, Int.bmod_def]; omega
  have htoNat : ∀ z : ℤ, (UInt32.ofInt z).toNat = (z % 2 ^ 32).toNat := by
    intro z
    have h2 : z % 2 ^ 32 < 2 ^ 32 := Int.emod_lt_of_pos z (by norm_num)
    rw [UInt32.ofInt, UInt32.toNat_ofNat', Nat.mod_eq_of_lt (by omega)]
  rw [← UInt32.toNat_inj, htoNat, htoNat, hint, hint, Int.ModEq]
  have h1 : 0 ≤ a % 2 ^ 32 := Int.emod_nonneg a (by norm_num)
  have h2 : 0 ≤ b % 2 ^ 32 := Int.emod_nonneg b (by norm_num)
  constructor
  · intro h; omega
  · intro h; rw [h]

end Shopping
