import Shopping.Base

/-!
# `Util`

The list hash both sides choose a shard with (`util.cpp`). The signedness of
plain `char` is the platform's, so it is an argument.
-/

namespace Shopping.Util

/-- `MOD = 1e9 + 7`. -/
def MOD : ℕ := 1000000007

def BASE : ℕ := 31

/-- A `char` converted to `size_t`. -/
def charToSize (charSigned : Bool) (c : UInt8) : ℕ :=
  if charSigned = true ∧ 128 ≤ c.toNat then 2 ^ 64 - 256 + c.toNat else c.toNat

/-- `hash = (hash * BASE + c) % MOD` over the characters, in 64-bit unsigned arithmetic. -/
def getHash (charSigned : Bool) (s : Str) : ℕ :=
  s.foldl (fun hash c => (hash * BASE + charToSize charSigned c) % 2 ^ 64 % MOD) 0

end Shopping.Util
