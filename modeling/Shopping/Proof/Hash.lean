import Shopping.Client.Api
import Shopping.Node.Node

/-!
# The shard hash

`getHash` is to be the polynomial in `BASE` with the bytes of the UID as coefficients, modulo
`MOD`, whatever the platform (`Portable`). A `char` that is signed turns a byte from 128 on
into a number just below `2^64`, so this holds of the ASCII strings only (`hash_portable`).

* `getHash_lt`: the hash is in range on either platform.
* `Exact`: every step of the loop computes what it computes with exact integers.
-/

namespace Shopping.Util

/-- `s[0] * 31^(n-1) + ... + s[n-1]`, each byte read as a number from 0 to 255. -/
def polynomial (s : Str) : ℕ :=
  ∑ i ∈ Finset.range s.length, (s.getD i 0).toNat * BASE ^ (s.length - 1 - i)

/-- Horner's rule. -/
theorem polynomial_append (s : Str) (c : UInt8) :
    polynomial (s ++ [c]) = polynomial s * BASE + c.toNat := by
  have hlength : (s ++ [c]).length = s.length + 1 := by simp
  have hlast : (s ++ [c]).getD s.length 0 = c := by simp
  rw [polynomial, hlength, Finset.sum_range_succ, hlast, polynomial, Finset.sum_mul]
  congr 1
  · refine Finset.sum_congr rfl fun i hi => ?_
    have hlt : i < s.length := Finset.mem_range.1 hi
    have hchar : (s ++ [c]).getD i 0 = s.getD i 0 := List.getD_append _ _ _ _ hlt
    have hexp : s.length + 1 - 1 - i = (s.length - 1 - i) + 1 := by omega
    rw [hchar, hexp, pow_succ, mul_assoc]
  · simp

theorem getHash_append (charSigned : Bool) (s : Str) (c : UInt8) :
    getHash charSigned (s ++ [c]) =
      (getHash charSigned s * BASE + charToSize charSigned c) % 2 ^ 64 % MOD := by
  rw [getHash, List.foldl_append]; rfl

/-- **The hash is in range**, on either platform. -/
theorem getHash_lt (charSigned : Bool) (s : Str) : getHash charSigned s < MOD := by
  induction s using List.reverseRecOn with
  | nil => show 0 < MOD; decide
  | append_singleton s c _ => rw [getHash_append]; exact Nat.mod_lt _ (by decide)

/-- At every character the 64-bit `hash * BASE + c` is that number in exact integers, the
character being read as a byte. -/
def Exact (charSigned : Bool) (s : Str) : Prop :=
  ∀ p c q, s = p ++ c :: q →
    (getHash charSigned p * BASE + charToSize charSigned c) % 2 ^ 64 =
      getHash charSigned p * BASE + c.toNat

/-- The step is exact iff the character is read as its byte. -/
theorem step_exact_iff (charSigned : Bool) (p : Str) (c : UInt8) :
    (getHash charSigned p * BASE + charToSize charSigned c) % 2 ^ 64 =
        getHash charSigned p * BASE + c.toNat ↔
      charSigned = false ∨ c < 128 := by
  have hhash := getHash_lt charSigned p
  have hc := c.toNat_lt
  have hlt : c < 128 ↔ c.toNat < 128 := UInt8.lt_iff_toNat_lt
  rw [hlt]
  simp only [BASE, MOD, charToSize] at hhash ⊢
  cases charSigned with
  | false => simp; omega
  | true =>
    simp only [true_and, Bool.true_eq_false, false_or]
    split <;> omega

theorem exact_iff (charSigned : Bool) (s : Str) :
    Exact charSigned s ↔ charSigned = false ∨ ∀ c ∈ s, c < 128 := by
  constructor
  · intro h
    cases charSigned with
    | false => exact Or.inl rfl
    | true =>
      refine Or.inr fun c hc => ?_
      obtain ⟨p, q, rfl⟩ := List.append_of_mem hc
      exact ((step_exact_iff true p c).1 (h p c q rfl)).resolve_left (by simp)
  · rintro h p c q rfl
    exact (step_exact_iff charSigned p c).2 (h.imp_right fun h => h c (by simp))

/-- **Exact steps compute the polynomial.** -/
theorem getHash_of_exact {charSigned : Bool} (s : Str) (h : Exact charSigned s) :
    getHash charSigned s = polynomial s % MOD := by
  induction s using List.reverseRecOn with
  | nil => rfl
  | append_singleton s c ih =>
    have hs : Exact charSigned s := by
      rintro p d q rfl; exact h p d (q ++ [c]) (by simp)
    rw [getHash_append, h s c [] rfl, ih hs, polynomial_append, Nat.add_mod, Nat.mod_mul_mod,
      ← Nat.add_mod]

/-- The hash of a string is the polynomial modulo `MOD`, and no step wraps. -/
structure Hashes (charSigned : Bool) (s : Str) : Prop where
  bounded : getHash charSigned s < MOD
  value : getHash charSigned s = polynomial s % MOD
  exact : Exact charSigned s

/-- Both platforms compute the polynomial, and a client of one and a node of the other that
count the same shards choose the same shard. -/
structure Portable (s : Str) : Prop where
  hashes : ∀ charSigned, Hashes charSigned s
  shard : ∀ (pf pf' : Platform) (a : API) (n : Node),
    (a.shardEndpoints.keys.length : ℤ) = n.cfg.numShards.toInt →
      a.shardOf pf s = n.shardForList pf' s

theorem hashes_iff (charSigned : Bool) (s : Str) :
    Hashes charSigned s ↔ charSigned = false ∨ ∀ c ∈ s, c < 128 := by
  rw [← exact_iff]
  exact ⟨fun h => h.exact, fun h => ⟨getHash_lt _ _, getHash_of_exact s h, h⟩⟩

/-- One hash gives one shard, the numbers of shards being the same. -/
theorem shard_of_getHash {pf pf' : Platform} {s : Str}
    (h : getHash pf.charSigned s = getHash pf'.charSigned s) (a : API) (n : Node)
    (hn : (a.shardEndpoints.keys.length : ℤ) = n.cfg.numShards.toInt) :
    a.shardOf pf s = n.shardForList pf' s := by
  have hmax := n.cfg.numShards.toInt_lt
  have hmod : (n.cfg.numShards.toInt % 2 ^ 64).toNat = a.shardEndpoints.keys.length := by
    rw [← hn] at hmax ⊢
    omega
  rw [API.shardOf, Node.shardForList, hmod, h]

/-- **The hash is portable exactly for strings without a byte from 128 on.** -/
theorem hash_portable (s : Str) : Portable s ↔ ∀ c ∈ s, c < 128 := by
  constructor
  · intro h
    exact ((hashes_iff true s).1 (h.hashes true)).resolve_left (by simp)
  · intro h
    have hhashes : ∀ charSigned, Hashes charSigned s := fun charSigned =>
      (hashes_iff charSigned s).2 (Or.inr h)
    refine ⟨hhashes, fun pf pf' a n hn => shard_of_getHash ?_ a n hn⟩
    rw [(hhashes _).value, (hhashes _).value]

/-- `öl` in UTF-8. -/
def umlautUid : Str := [0xC3, 0xB6, 0x6C]

/-- Of two shards, a platform with signed `char` takes the first and one with unsigned `char`
the second. -/
theorem umlaut_not_portable : ¬ Portable umlautUid ∧
    getHash true umlautUid = 632526968 ∧ getHash false umlautUid = 193145 ∧
    polynomial umlautUid % MOD = 193145 ∧
    getHash true umlautUid % 2 ≠ getHash false umlautUid % 2 := by
  have hsigned : getHash true umlautUid = 632526968 := by decide +kernel
  have hunsigned : getHash false umlautUid = 193145 := by decide +kernel
  have hpolynomial : polynomial umlautUid % MOD = 193145 := by decide +kernel
  refine ⟨fun h => ?_, hsigned, hunsigned, hpolynomial, by rw [hsigned, hunsigned]; decide⟩
  have hvalue := (h.hashes true).value
  rw [hsigned, hpolynomial] at hvalue
  cases hvalue

end Shopping.Util
