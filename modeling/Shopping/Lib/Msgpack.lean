import Shopping.Lib.UnorderedMap

/-!
# The msgpack format

A value starts with a head: for an integer that is all; for a string, an array or a map it
says how much follows. `read` parses one value; the packers write the smallest head that
holds a size or number, big-endian. `Reads bs v` says that `bs` parses to `v` whatever comes
after it, and goes up from the parts of a value to the whole.

The converters take a value apart, as adaptors of the usual C++ types do: a converter gets the
object it converts into, and fails on a value of another type. `Carries bs conv x` says that
`bs` parses to what `conv` converts to `x`: packing a vector, a set or a map of things that
are carried carries the whole (`Carries.vec`, `carries_set`, `carries_map`), a map up to the
order of its entries.

The other way round, whatever is read is small enough to be packed (`Value.Sized`), and so is
what a converter makes of it (`Yields`). And what is packed is no shorter than its parts.
-/

namespace Shopping.Lib.Msgpack

/-- The bytes of a message. -/
abbrev Bytes := List UInt8

/-- A msgpack value. Nil, booleans, floats and extensions are `other`: no converter here
takes them. -/
inductive Value
  | int (z : ℤ)
  | str (s : Bytes)
  | bin (s : Bytes)
  | other
  | arr (vs : List Value)
  | map (kvs : List (Value × Value))

/-- What the first bytes of a value say. -/
inductive Head
  | int (z : ℤ)
  | str (n : ℕ)
  | bin (n : ℕ)
  | other (n : ℕ)
  | arr (n : ℕ)
  | map (n : ℕ)

/-- `n` in `k` bytes. -/
def be : ℕ → ℕ → Bytes
  | 0, _ => []
  | k + 1, n => be k (n / 256) ++ [UInt8.ofNat n]

def ofBe (s : Bytes) : ℕ := s.foldl (fun n b => n * 256 + b.toNat) 0

@[simp] theorem length_be (k n : ℕ) : (be k n).length = k := by
  induction k generalizing n with
  | zero => rfl
  | succ k ih => rw [be, List.length_append, ih]; rfl

/-- A number is read back from as many bytes as it takes. -/
theorem ofBe_be (k : ℕ) : ∀ {n : ℕ}, n < 256 ^ k → ofBe (be k n) = n := by
  induction k with
  | zero => intro n hn; rw [pow_zero, Nat.lt_one_iff] at hn; subst hn; rfl
  | succ k ih =>
    intro n hn
    have hdiv : n / 256 < 256 ^ k := by
      rw [pow_succ] at hn
      exact Nat.div_lt_of_lt_mul (by rwa [Nat.mul_comm] at hn)
    have hstep : ofBe (be k (n / 256) ++ [UInt8.ofNat n]) =
        ofBe (be k (n / 256)) * 256 + (UInt8.ofNat n).toNat := by
      simp [ofBe, List.foldl_append]
    rw [be, hstep, ih hdiv, UInt8.toNat_ofNat']
    omega

/-- `z` as a two's complement number of `k` bytes. -/
def twos (k : ℕ) (z : ℤ) : ℕ := (z % (256 : ℤ) ^ k).toNat

def ofTwos (k n : ℕ) : ℤ := (n : ℤ).bmod (256 ^ k)

theorem twos_lt (k : ℕ) (z : ℤ) : twos k z < 256 ^ k := by
  have hpos : (0 : ℤ) < (256 : ℤ) ^ k := by positivity
  zify
  rw [twos, Int.toNat_of_nonneg (Int.emod_nonneg z hpos.ne')]
  exact Int.emod_lt_of_pos z hpos

/-- A signed number is read back if its sign bit is its sign. -/
theorem ofTwos_twos {k : ℕ} {z : ℤ} (h1 : -(256 : ℤ) ^ k ≤ 2 * z) (h2 : 2 * z < (256 : ℤ) ^ k) :
    ofTwos k (twos k z) = z := by
  have hpos : (0 : ℤ) < (256 : ℤ) ^ k := by positivity
  have hcast : ((256 ^ k : ℕ) : ℤ) = (256 : ℤ) ^ k := by push_cast; rfl
  rw [ofTwos, twos, Int.toNat_of_nonneg (Int.emod_nonneg z hpos.ne'), ← hcast, Int.emod_bmod]
  refine Int.bmod_eq_of_le_mul_two ?_ ?_
  · rw [hcast]; omega
  · rw [hcast]; omega

/-! ### Reading -/

/-- A number of `k` bytes. -/
def readNat (k : ℕ) (s : Bytes) : Option (ℕ × Bytes) :=
  if k ≤ s.length then some (ofBe (s.take k), s.drop k) else none

/-- The head of a value, by its first byte. -/
def readHead : Bytes → Option (Head × Bytes)
  | [] => none
  | b :: s =>
    let c := b.toNat
    let sized (k : ℕ) (f : ℕ → Head) := (readNat k s).map fun z => (f z.1, z.2)
    if c < 0x80 then some (.int c, s)
    else if c < 0x90 then some (.map (c - 0x80), s)
    else if c < 0xa0 then some (.arr (c - 0x90), s)
    else if c < 0xc0 then some (.str (c - 0xa0), s)
    else if 0xe0 ≤ c then some (.int (c - 256), s)
    else match c with
      | 0xc0 | 0xc2 | 0xc3 => some (.other 0, s)
      | 0xc4 => sized 1 .bin
      | 0xc5 => sized 2 .bin
      | 0xc6 => sized 4 .bin
      -- an extension has one more byte, for its type
      | 0xc7 => sized 1 fun n => .other (n + 1)
      | 0xc8 => sized 2 fun n => .other (n + 1)
      | 0xc9 => sized 4 fun n => .other (n + 1)
      | 0xca => some (.other 4, s)
      | 0xcb => some (.other 8, s)
      | 0xcc => sized 1 fun n => .int n
      | 0xcd => sized 2 fun n => .int n
      | 0xce => sized 4 fun n => .int n
      | 0xcf => sized 8 fun n => .int n
      | 0xd0 => sized 1 fun n => .int (ofTwos 1 n)
      | 0xd1 => sized 2 fun n => .int (ofTwos 2 n)
      | 0xd2 => sized 4 fun n => .int (ofTwos 4 n)
      | 0xd3 => sized 8 fun n => .int (ofTwos 8 n)
      | 0xd4 => some (.other 2, s)
      | 0xd5 => some (.other 3, s)
      | 0xd6 => some (.other 5, s)
      | 0xd7 => some (.other 9, s)
      | 0xd8 => some (.other 17, s)
      | 0xd9 => sized 1 .str
      | 0xda => sized 2 .str
      | 0xdb => sized 4 .str
      | 0xdc => sized 2 .arr
      | 0xdd => sized 4 .arr
      | 0xde => sized 2 .map
      | 0xdf => sized 4 .map
      | _ => none

/-- The bytes that follow a head. -/
def readBytes (n : ℕ) (s : Bytes) : Option (Bytes × Bytes) :=
  if n ≤ s.length then some (s.take n, s.drop n) else none

/-- `n` things in a row. -/
def readMany {α : Type} (p : Bytes → Option (α × Bytes)) : ℕ → Bytes → Option (List α × Bytes)
  | 0, s => some ([], s)
  | n + 1, s => do
    let (x, s) ← p s
    let (xs, s) ← readMany p n s
    some (x :: xs, s)

/-- Two things in a row. -/
def readPair {α : Type} (p : Bytes → Option (α × Bytes)) (s : Bytes) :
    Option ((α × α) × Bytes) := do
  let (x, s) ← p s
  let (y, s) ← p s
  some ((x, y), s)

/-- One value. It nests no deeper than it has bytes, which is the fuel. -/
def read : ℕ → Bytes → Option (Value × Bytes)
  | 0, _ => none
  | fuel + 1, s => do
    let (head, s) ← readHead s
    match head with
    | .int z => some (.int z, s)
    | .str n => (readBytes n s).map fun z => (.str z.1, z.2)
    | .bin n => (readBytes n s).map fun z => (.bin z.1, z.2)
    | .other n => (readBytes n s).map fun z => (.other, z.2)
    | .arr n => (readMany (read fuel) n s).map fun z => (.arr z.1, z.2)
    | .map n => (readMany (readPair (read fuel)) n s).map fun z => (.map z.1, z.2)

/-- `msgpack::unpack`; `none` if it throws. Bytes after the value are ignored. -/
def unpack (s : Bytes) : Option Value := (read s.length s).map Prod.fst

/-! ### Packing -/

/-- A natural number below `2^64`. -/
def packNat (n : ℕ) : Bytes :=
  if n < 2 ^ 7 then be 1 n
  else if n < 2 ^ 8 then 0xcc :: be 1 n
  else if n < 2 ^ 16 then 0xcd :: be 2 n
  else if n < 2 ^ 32 then 0xce :: be 4 n
  else 0xcf :: be 8 n

/-- An integer from `-2^63` on and below `2^64`. -/
def packInt (z : ℤ) : Bytes :=
  if 0 ≤ z then packNat z.toNat
  else if -2 ^ 5 ≤ z then be 1 (twos 1 z)
  else if -2 ^ 7 ≤ z then 0xd0 :: be 1 (twos 1 z)
  else if -2 ^ 15 ≤ z then 0xd1 :: be 2 (twos 2 z)
  else if -2 ^ 31 ≤ z then 0xd2 :: be 4 (twos 4 z)
  else 0xd3 :: be 8 (twos 8 z)

def packStr (s : Bytes) : Bytes :=
  (if s.length < 32 then be 1 (0xa0 + s.length)
    else if s.length < 2 ^ 8 then 0xd9 :: be 1 s.length
    else if s.length < 2 ^ 16 then 0xda :: be 2 s.length
    else 0xdb :: be 4 s.length) ++ s

/-- The head of a container: a small size stands in the first byte, from `fix` on, another one
in the two bytes after `short` or in the four after `long`. -/
def sizeHead (fix : ℕ) (short long : UInt8) (n : ℕ) : Bytes :=
  if n < 16 then be 1 (fix + n)
  else if n < 2 ^ 16 then short :: be 2 n
  else long :: be 4 n

def arrHead (n : ℕ) : Bytes := sizeHead 0x90 0xdc 0xdd n

def mapHead (n : ℕ) : Bytes := sizeHead 0x80 0xde 0xdf n

/-- An array of values packed already. -/
def packArr (bss : List Bytes) : Bytes := arrHead bss.length ++ bss.flatten

/-- A map of keys and values packed already. -/
def packMap (bss : List (Bytes × Bytes)) : Bytes :=
  mapHead bss.length ++ (bss.map fun b => b.1 ++ b.2).flatten

theorem readNat_be {k n : ℕ} (hn : n < 256 ^ k) (rest : Bytes) :
    readNat k (be k n ++ rest) = some (n, rest) := by
  have hlen := length_be k n
  rw [readNat, if_pos (by rw [List.length_append]; omega)]
  rw [List.take_left' hlen, List.drop_left' hlen, ofBe_be k hn]

/-- A head in one byte. -/
theorem be_one (n : ℕ) : be 1 n = [UInt8.ofNat n] := by simp [be]

theorem readHead_packNat {n : ℕ} (hn : n < 2 ^ 64) (rest : Bytes) :
    readHead (packNat n ++ rest) = some (.int n, rest) := by
  unfold packNat
  split
  · rename_i h
    rw [be_one]
    have hc : (UInt8.ofNat n).toNat = n := by rw [UInt8.toNat_ofNat']; omega
    simp only [List.singleton_append, readHead, hc]
    rw [if_pos (by omega)]
  split
  · rename_i h
    simp [readHead, readNat_be (show n < 256 ^ 1 by omega)]
  split
  · rename_i h
    simp [readHead, readNat_be (show n < 256 ^ 2 by omega)]
  split
  · rename_i h
    simp [readHead, readNat_be (show n < 256 ^ 4 by omega)]
  · simp [readHead, readNat_be (show n < 256 ^ 8 by omega)]

/-- The heads of integers, those below zero in two's complement. -/
theorem readHead_packInt {z : ℤ} (h1 : -2 ^ 63 ≤ z) (h2 : z < 2 ^ 64) (rest : Bytes) :
    readHead (packInt z ++ rest) = some (.int z, rest) := by
  unfold packInt
  split
  · rename_i h
    rw [readHead_packNat (by omega), Int.toNat_of_nonneg h]
  split
  · rename_i h
    have hc : (UInt8.ofNat (twos 1 z)).toNat = (z + 256).toNat := by
      rw [UInt8.toNat_ofNat', twos]; omega
    rw [be_one]
    simp only [List.singleton_append, readHead, hc]
    rw [if_neg (by omega), if_neg (by omega), if_neg (by omega), if_neg (by omega),
      if_pos (by omega)]
    congr 3
    omega
  split
  · simp [readHead, readNat_be (twos_lt 1 z), ofTwos_twos (show -(256 : ℤ) ^ 1 ≤ 2 * z by omega)
      (by omega)]
  split
  · simp [readHead, readNat_be (twos_lt 2 z), ofTwos_twos (show -(256 : ℤ) ^ 2 ≤ 2 * z by omega)
      (by omega)]
  split
  · simp [readHead, readNat_be (twos_lt 4 z), ofTwos_twos (show -(256 : ℤ) ^ 4 ≤ 2 * z by omega)
      (by omega)]
  · simp [readHead, readNat_be (twos_lt 8 z), ofTwos_twos (show -(256 : ℤ) ^ 8 ≤ 2 * z by omega)
      (by omega)]

/-- The head of a container is read back if its three first bytes are. -/
theorem readHead_sizeHead {fix : ℕ} {short long : UInt8} {f : ℕ → Head}
    (hfix : ∀ n < 16, ∀ rest, readHead (be 1 (fix + n) ++ rest) = some (f n, rest))
    (hshort : ∀ s, readHead (short :: s) = (readNat 2 s).map fun z => (f z.1, z.2))
    (hlong : ∀ s, readHead (long :: s) = (readNat 4 s).map fun z => (f z.1, z.2))
    {n : ℕ} (hn : n < 2 ^ 32) (rest : Bytes) :
    readHead (sizeHead fix short long n ++ rest) = some (f n, rest) := by
  unfold sizeHead
  split
  · rename_i h
    exact hfix n h rest
  split
  · rename_i h
    rw [List.cons_append, hshort, readNat_be (show n < 256 ^ 2 by omega)]
    rfl
  · rw [List.cons_append, hlong, readNat_be (show n < 256 ^ 4 by omega)]
    rfl

theorem readHead_arrHead {n : ℕ} (hn : n < 2 ^ 32) (rest : Bytes) :
    readHead (arrHead n ++ rest) = some (.arr n, rest) := by
  refine readHead_sizeHead (fun n hn rest => ?_) (fun _ => rfl) (fun _ => rfl) hn rest
  interval_cases n <;> rfl

theorem readHead_mapHead {n : ℕ} (hn : n < 2 ^ 32) (rest : Bytes) :
    readHead (mapHead n ++ rest) = some (.map n, rest) := by
  refine readHead_sizeHead (fun n hn rest => ?_) (fun _ => rfl) (fun _ => rfl) hn rest
  interval_cases n <;> rfl

/-- The head of a string says its length; the string itself is what comes after. -/
theorem readHead_packStr {s : Bytes} (hs : s.length < 2 ^ 32) (rest : Bytes) :
    readHead (packStr s ++ rest) = some (.str s.length, s ++ rest) := by
  unfold packStr
  rw [List.append_assoc]
  split
  · rename_i h
    have hc : (UInt8.ofNat (0xa0 + s.length)).toNat = 0xa0 + s.length := by
      rw [UInt8.toNat_ofNat']; omega
    rw [be_one]
    simp only [List.singleton_append, readHead, hc]
    rw [if_neg (by omega), if_neg (by omega), if_neg (by omega), if_pos (by omega),
      Nat.add_sub_cancel_left]
  split
  · rename_i h
    simp [readHead, readNat_be (show s.length < 256 ^ 1 by omega)]
  split
  · rename_i h
    simp [readHead, readNat_be (show s.length < 256 ^ 2 by omega)]
  · simp [readHead, readNat_be (show s.length < 256 ^ 4 by omega)]

/-- `bs` parses to `v`, whatever comes after it. -/
def Reads (bs : Bytes) (v : Value) : Prop :=
  ∀ fuel rest, bs.length ≤ fuel → read fuel (bs ++ rest) = some (v, rest)

/-- A whole message is one value. -/
theorem Reads.unpack {bs : Bytes} {v : Value} (h : Reads bs v) : unpack bs = some v := by
  have := h bs.length [] le_rfl
  rw [List.append_nil] at this
  rw [Msgpack.unpack, this]
  rfl

/-- No value is empty. -/
theorem Reads.length_pos {bs : Bytes} {v : Value} (h : Reads bs v) : 0 < bs.length := by
  by_contra hlen
  have := h 0 [] (by omega)
  cases this

theorem packInt_ne_nil (z : ℤ) : packInt z ≠ [] := by
  unfold packInt packNat
  repeat' split
  all_goals simp [be_one]

theorem reads_int {z : ℤ} (h1 : -2 ^ 63 ≤ z) (h2 : z < 2 ^ 64) : Reads (packInt z) (.int z) := by
  intro fuel rest hfuel
  obtain ⟨fuel, rfl⟩ : ∃ n, fuel = n + 1 := Nat.exists_eq_succ_of_ne_zero fun h =>
    packInt_ne_nil z (List.eq_nil_of_length_eq_zero (by omega))
  rw [read, readHead_packInt h1 h2]
  rfl

/-- The fuel for a string lasts: its head takes a byte at least. -/
theorem length_packStr (s : Bytes) : s.length < (packStr s).length := by
  unfold packStr
  repeat' split
  all_goals simp

theorem reads_str {s : Bytes} (hs : s.length < 2 ^ 32) : Reads (packStr s) (.str s) := by
  intro fuel rest hfuel
  have hlen := length_packStr s
  obtain ⟨fuel, rfl⟩ : ∃ n, fuel = n + 1 := ⟨fuel - 1, by omega⟩
  rw [read, readHead_packStr hs]
  show ((readBytes s.length (s ++ rest)).map fun z => (Value.str z.1, z.2)) = _
  rw [readBytes, if_pos (by simp), List.take_left' rfl, List.drop_left' rfl]
  rfl

/-- Things in a row, each read back whatever comes after it. -/
theorem readMany_flatten {α : Type} {p : Bytes → Option (α × Bytes)} {bss : List Bytes} {xs : List α}
    (h : List.Forall₂ (fun bs x => ∀ rest, p (bs ++ rest) = some (x, rest)) bss xs) (rest : Bytes) :
    readMany p bss.length (bss.flatten ++ rest) = some (xs, rest) := by
  induction h with
  | nil => rfl
  | @cons bs x bss xs hbs _ ih =>
    rw [List.length_cons, List.flatten_cons, List.append_assoc, readMany, hbs]
    show (readMany p bss.length (bss.flatten ++ rest)).bind _ = _
    rw [ih]
    rfl

theorem sizeHead_ne_nil (fix : ℕ) (short long : UInt8) (n : ℕ) :
    sizeHead fix short long n ≠ [] := by
  unfold sizeHead
  repeat' split
  all_goals simp [be_one]

/-- An array of values that are read back is read back. -/
theorem reads_arr {bss : List Bytes} {vs : List Value} (h : List.Forall₂ Reads bss vs)
    (hlen : bss.length < 2 ^ 32) : Reads (packArr bss) (.arr vs) := by
  intro fuel rest hfuel
  have hhead : 0 < (arrHead bss.length).length := List.length_pos_iff.2 (sizeHead_ne_nil _ _ _ _)
  rw [packArr, List.length_append] at hfuel
  obtain ⟨fuel, rfl⟩ : ∃ n, fuel = n + 1 := ⟨fuel - 1, by omega⟩
  rw [read, packArr, List.append_assoc, readHead_arrHead hlen]
  have hmany : readMany (read fuel) bss.length (bss.flatten ++ rest) = some (vs, rest) := by
    refine readMany_flatten ?_ rest
    have hle : ∀ bs ∈ bss, bs.length ≤ fuel := fun bs hbs => by
      have := List.Sublist.length_le (List.sublist_flatten_of_mem hbs)
      omega
    exact ((List.forall₂_and_left _ _).2 ⟨hle, h⟩).imp fun bs v hv rest => hv.2 fuel rest hv.1
  show ((readMany (read fuel) bss.length (bss.flatten ++ rest)).map _) = _
  rw [hmany]
  rfl

/-- A map of keys and values that are read back is read back. -/
theorem reads_map {bss : List (Bytes × Bytes)} {kvs : List (Value × Value)}
    (h : List.Forall₂ (fun b kv => Reads b.1 kv.1 ∧ Reads b.2 kv.2) bss kvs)
    (hlen : bss.length < 2 ^ 32) : Reads (packMap bss) (.map kvs) := by
  intro fuel rest hfuel
  have hhead : 0 < (mapHead bss.length).length := List.length_pos_iff.2 (sizeHead_ne_nil _ _ _ _)
  rw [packMap, List.length_append] at hfuel
  obtain ⟨fuel, rfl⟩ : ∃ n, fuel = n + 1 := ⟨fuel - 1, by omega⟩
  rw [read, packMap, List.append_assoc, readHead_mapHead hlen]
  have hmany : readMany (readPair (read fuel)) bss.length
      ((bss.map fun b => b.1 ++ b.2).flatten ++ rest) = some (kvs, rest) := by
    rw [← List.length_map fun b : Bytes × Bytes => b.1 ++ b.2]
    refine readMany_flatten (List.forall₂_map_left_iff.2 ?_) rest
    have hle : ∀ b ∈ bss, (b.1 ++ b.2).length ≤ fuel := fun b hb => by
      have := List.Sublist.length_le (List.sublist_flatten_of_mem
        (List.mem_map_of_mem (f := fun b : Bytes × Bytes => b.1 ++ b.2) hb))
      omega
    refine ((List.forall₂_and_left _ _).2 ⟨hle, h⟩).imp fun b kv hkv rest => ?_
    obtain ⟨hb, hk, hv⟩ := hkv
    rw [List.length_append] at hb
    rw [readPair, List.append_assoc, hk fuel _ (by omega)]
    show (read fuel (b.2 ++ rest)).bind _ = _
    rw [hv fuel _ (by omega)]
    rfl
  show ((readMany (readPair (read fuel)) bss.length _).map _) = _
  rw [hmany]
  rfl

/-- A converter makes an object of a value, from the object there was; `none` if it throws. -/
abbrev Converter (T : Type) := Value → T → Option T

variable {T V : Type}

def convertStr : Converter Bytes
  | .str s, _ => some s
  | .bin s, _ => some s
  | _, _ => none

/-- An integer from `lo` on and below `hi`. -/
def convertInt (lo hi : ℤ) (ofInt : ℤ → T) : Converter T
  | .int z, _ => if lo ≤ z ∧ z < hi then some (ofInt z) else none
  | _, _ => none

/-- The elements of a vector, into those there are. -/
def convertAll [Inhabited T] (conv : Converter T) : List Value → List T → Option (List T)
  | [], _ => some []
  | v :: vs, old => do
    let x ← conv v (old.headD default)
    let xs ← convertAll conv vs old.tail
    some (x :: xs)

def convertVec [Inhabited T] (conv : Converter T) : Converter (List T)
  | .arr vs, old => convertAll conv vs old
  | _, _ => none

/-- A set of strings. -/
def convertSet : Converter (Finset Bytes)
  | .arr vs, _ => vs.foldlM (fun tmp v => (convertStr v []).map fun s => insert s tmp) ∅
  | _, _ => none

/-- An entry of a map with strings for keys, converted into the entry of its key. -/
def convertEntry [Inhabited V] (conv : Converter V) (tmp : UMap Bytes V) (kv : Value × Value) :
    Option (UMap Bytes V) := do
  let key ← convertStr kv.1 []
  let v ← conv kv.2 ((tmp.lookup key).getD default)
  some (tmp.insert key v)

def convertMap [Inhabited V] (conv : Converter V) : Converter (UMap Bytes V)
  | .map kvs, _ => kvs.foldlM (convertEntry conv) ∅
  | _, _ => none

/-- The fields of an object packed as an array. -/
def fields : Value → Option (List Value)
  | .arr vs => some vs
  | _ => none

/-- A field; one that is missing keeps its value. -/
def convertField (conv : Converter T) (vs : List Value) (i : ℕ) (old : T) : Option T :=
  match vs[i]? with
  | some v => conv v old
  | none => some old

/-- `bs` parses to what `conv` converts to `x`. -/
def Carries (bs : Bytes) (conv : Converter T) (x : T) : Prop :=
  ∃ v, Reads bs v ∧ ∀ old, conv v old = some x

theorem carries_str {s : Bytes} (hs : s.length < 2 ^ 32) : Carries (packStr s) convertStr s :=
  ⟨.str s, reads_str hs, fun _ => rfl⟩

/-- An integer within the range of its type. -/
theorem carries_int {lo hi z : ℤ} {ofInt : ℤ → T} (hlo : -2 ^ 63 ≤ lo) (hhi : hi ≤ 2 ^ 64)
    (h1 : lo ≤ z) (h2 : z < hi) : Carries (packInt z) (convertInt lo hi ofInt) (ofInt z) :=
  ⟨.int z, reads_int (hlo.trans h1) (h2.trans_le hhi), fun _ => if_pos ⟨h1, h2⟩⟩

/-- A vector is carried if its elements are, each into a fresh object. -/
theorem carries_vec [Inhabited T] {conv : Converter T} {bss : List Bytes} {xs : List T}
    (h : List.Forall₂ (fun bs x => Carries bs conv x) bss xs) (hlen : bss.length < 2 ^ 32) :
    Carries (packArr bss) (convertVec conv) xs := by
  suffices hvs : ∃ vs, List.Forall₂ Reads bss vs ∧ ∀ old, convertAll conv vs old = some xs by
    obtain ⟨vs, hreads, hconv⟩ := hvs
    exact ⟨.arr vs, reads_arr hreads hlen, hconv⟩
  clear hlen
  induction h with
  | nil => exact ⟨[], .nil, fun _ => rfl⟩
  | @cons bs x bss xs hbs _ ih =>
    obtain ⟨v, hv, hx⟩ := hbs
    obtain ⟨vs, hvs, hxs⟩ := ih
    refine ⟨v :: vs, .cons hv hvs, fun old => ?_⟩
    rw [convertAll, hx]
    show (convertAll conv vs old.tail).bind _ = _
    rw [hxs]
    rfl

/-- **A set is carried**, in whatever order it is packed. -/
theorem carries_set {l : List Bytes} (hstr : ∀ s ∈ l, s.length < 2 ^ 32) (hlen : l.length < 2 ^ 32) :
    Carries (packArr (l.map packStr)) convertSet l.toFinset := by
  refine ⟨.arr (l.map .str), reads_arr ?_ (by rwa [List.length_map]), fun _ => ?_⟩
  · exact List.forall₂_map_left_iff.2 (List.forall₂_map_right_iff.2
      (List.forall₂_same.2 fun s hs => reads_str (hstr s hs)))
  · have hfold : ∀ (l : List Bytes) (tmp : Finset Bytes), (l.map Value.str).foldlM
        (fun tmp v => (convertStr v []).map fun s => insert s tmp) tmp = some (tmp ∪ l.toFinset) := by
      intro l
      induction l with
      | nil => intro tmp; simp
      | cons s l ih =>
        intro tmp
        rw [List.map_cons, List.foldlM_cons]
        show List.foldlM _ (insert s tmp) (l.map Value.str) = _
        rw [ih, List.toFinset_cons, Finset.insert_union, Finset.union_insert]
    show (l.map Value.str).foldlM _ ∅ = _
    rw [hfold, Finset.empty_union]

/-- The entries of a map, converted one after another into `tmp`. -/
theorem carries_entries [Inhabited V] {conv : Converter V} {R : V → V → Prop}
    {packV : Bytes → V → Bytes} {es : List (Sigma fun _ : Bytes => V)} (hes : es.NodupKeys)
    (hm : ∀ k v, es.dlookup k = some v →
      k.length < 2 ^ 32 ∧ ∃ w, Carries (packV k v) conv w ∧ R v w) :
    ∃ kvs : List (Value × Value),
      List.Forall₂ (fun b kv => Reads b.1 kv.1 ∧ Reads b.2 kv.2)
        (es.map fun e => (packStr e.1, packV e.1 e.2)) kvs ∧
      ∀ tmp, ∃ m', kvs.foldlM (convertEntry conv) tmp = some m' ∧
        (∀ k, es.dlookup k = none → m'.lookup k = tmp.lookup k) ∧
        ∀ k v, es.dlookup k = some v → ∃ w, m'.lookup k = some w ∧ R v w := by
  induction es with
  | nil => exact ⟨[], .nil, fun tmp => ⟨tmp, rfl, fun _ _ => rfl, fun _ _ h => by cases h⟩⟩
  | cons e es ih =>
    have htail := UMap.dlookup_tail hes
    obtain ⟨hkey, w, ⟨v, hv, hw⟩, hR⟩ := hm e.1 e.2 (by rw [UMap.dlookup_cons, if_pos rfl])
    have hrest : ∀ k u, es.dlookup k = some u → e.1 ≠ k := by
      rintro k u hk rfl
      rw [htail] at hk; cases hk
    -- the key of this entry is none of those after it
    obtain ⟨kvs, hkvs, hfold⟩ := ih (List.nodupKeys_cons.1 hes).2 fun k u hk =>
      hm k u (by rw [UMap.dlookup_cons, if_neg (hrest k u hk)]; exact hk)
    refine ⟨(.str e.1, v) :: kvs, .cons ⟨reads_str hkey, hv⟩ hkvs, fun tmp => ?_⟩
    obtain ⟨m', hm', hnone, hsome⟩ := hfold (tmp.insert e.1 w)
    refine ⟨m', ?_, fun k hk => ?_, fun k u hk => ?_⟩
    · have hentry : convertEntry conv tmp (.str e.1, v) = some (tmp.insert e.1 w) := by
        show ((conv v ((tmp.lookup e.1).getD default)).bind _) = _
        rw [hw]
        rfl
      rw [List.foldlM_cons, hentry]
      exact hm'
    · rw [UMap.dlookup_cons] at hk
      split at hk
      · cases hk
      · rename_i hne
        rw [hnone k hk, AList.lookup_insert_ne (Ne.symm hne)]
    · rw [UMap.dlookup_cons] at hk
      split at hk
      · rename_i heq
        cases hk
        refine ⟨w, ?_, hR⟩
        rw [← heq, hnone e.1 htail, AList.lookup_insert]
      · exact hsome k u hk

/-- **A map is carried**, up to the order of its entries and what `R` leaves open of its
values. -/
theorem carries_map [Inhabited V] {conv : Converter V} {R : V → V → Prop} {m : UMap Bytes V}
    (packV : Bytes → V → Bytes)
    (hm : ∀ k v, m.lookup k = some v → k.length < 2 ^ 32 ∧ ∃ w, Carries (packV k v) conv w ∧ R v w)
    (hlen : m.entries.length < 2 ^ 32) :
    ∃ m', Carries (packMap (m.entries.map fun e => (packStr e.1, packV e.1 e.2))) (convertMap conv)
      m' ∧ UMap.Alike R m m' := by
  obtain ⟨kvs, hkvs, hfold⟩ := carries_entries m.nodupKeys hm
  obtain ⟨m', hm', hnone, hsome⟩ := hfold ∅
  refine ⟨m', ⟨.map kvs, reads_map hkvs (by rwa [List.length_map]), fun _ => hm'⟩, fun k => ?_⟩
  cases hk : m.lookup k with
  | none => rw [hnone k hk, AList.lookup_empty]; exact .none
  | some v =>
    obtain ⟨w, hw, hR⟩ := hsome k v hk
    rw [hw]
    exact .some hR

/-! ### What is read is small enough -/

/-- Strings and containers are shorter than `2^32`, all the way down. -/
inductive Value.Sized : Value → Prop
  | int (z : ℤ) : Sized (.int z)
  | str (s : Bytes) (h : s.length < 2 ^ 32) : Sized (.str s)
  | bin (s : Bytes) (h : s.length < 2 ^ 32) : Sized (.bin s)
  | other : Sized .other
  | arr (vs : List Value) (h : vs.length < 2 ^ 32) (hvs : ∀ v ∈ vs, Sized v) : Sized (.arr vs)
  | map (kvs : List (Value × Value)) (h : kvs.length < 2 ^ 32)
      (hks : ∀ kv ∈ kvs, Sized kv.1) (hvs : ∀ kv ∈ kvs, Sized kv.2) : Sized (.map kvs)

def Head.Sized : Head → Prop
  | .str n => n < 2 ^ 32
  | .bin n => n < 2 ^ 32
  | .arr n => n < 2 ^ 32
  | .map n => n < 2 ^ 32
  | _ => True

theorem ofBe_lt (s : Bytes) : ofBe s < 256 ^ s.length := by
  induction s using List.reverseRecOn with
  | nil => exact Nat.one_pos
  | append_singleton s b ih =>
    have hstep : ofBe (s ++ [b]) = ofBe s * 256 + b.toNat := by simp [ofBe, List.foldl_append]
    have hb := b.toNat_lt
    rw [hstep, List.length_append, List.length_singleton, pow_succ]
    omega

theorem readNat_lt {k n : ℕ} {s rest : Bytes} (h : readNat k s = some (n, rest)) : n < 256 ^ k := by
  unfold readNat at h
  split at h
  · rename_i hk
    cases h
    have := ofBe_lt (s.take k)
    rwa [List.length_take_of_le hk] at this
  · cases h

/-- No size has more than four bytes. -/
theorem sized_head {k : ℕ} {f : ℕ → Head} {s rest : Bytes} {head : Head} (hk : k ≤ 4)
    (hf : ∀ n < 2 ^ 32, (f n).Sized)
    (h : ((readNat k s).map fun z => (f z.1, z.2)) = some (head, rest)) : head.Sized := by
  rw [Option.map_eq_some_iff] at h
  obtain ⟨⟨n, rest'⟩, hn, heq⟩ := h
  cases heq
  have hlt := readNat_lt hn
  have hpow : 256 ^ k ≤ 256 ^ 4 := Nat.pow_le_pow_right (by omega) hk
  exact hf n (by omega)

/-- **No head says a size of `2^32` or more.** The first byte decides how many bytes the size has.
-/
theorem readHead_sized {s rest : Bytes} {head : Head} (h : readHead s = some (head, rest)) :
    head.Sized := by
  cases s with
  | nil => cases h
  | cons b s =>
    have hint : ∀ k (f : ℕ → ℤ), ((readNat k s).map fun z => (Head.int (f z.1), z.2)) =
        some (head, rest) → head.Sized := by
      intro k f h
      rw [Option.map_eq_some_iff] at h
      obtain ⟨z, -, heq⟩ := h
      cases heq; trivial
    have hother : ∀ k (f : ℕ → ℕ), ((readNat k s).map fun z => (Head.other (f z.1), z.2)) =
        some (head, rest) → head.Sized := by
      intro k f h
      rw [Option.map_eq_some_iff] at h
      obtain ⟨z, -, heq⟩ := h
      cases heq; trivial
    have hb := b.toNat_lt
    unfold readHead at h
    dsimp only at h
    -- the sizes in one byte, then one case for each other first byte
    split at h
    · cases h; trivial
    split at h
    · cases h; show _ < 2 ^ 32; omega
    split at h
    · cases h; show _ < 2 ^ 32; omega
    split at h
    · cases h; show _ < 2 ^ 32; omega
    split at h
    · cases h; trivial
    split at h
    all_goals first
      | (cases h; done)
      | (cases h; trivial)
      | exact hint _ _ h
      | exact hother _ _ h
      | exact sized_head (by omega) (by exact fun n hn => hn) h

theorem readBytes_eq_some {n : ℕ} {s x rest : Bytes} (h : readBytes n s = some (x, rest)) :
    x.length = n := by
  unfold readBytes at h
  split at h
  · rename_i hn
    cases h
    exact List.length_take_of_le hn
  · cases h

/-- What holds of each thing read holds of all in a row. -/
theorem readMany_eq_some {α : Type} {p : Bytes → Option (α × Bytes)} {P : α → Prop}
    (hp : ∀ s x rest, p s = some (x, rest) → P x) : ∀ {n : ℕ} {s rest : Bytes} {xs : List α},
    readMany p n s = some (xs, rest) → xs.length = n ∧ ∀ x ∈ xs, P x := by
  intro n
  induction n with
  | zero => intro s rest xs h; cases h; exact ⟨rfl, nofun⟩
  | succ n ih =>
    intro s rest xs h
    simp only [readMany, Option.bind_eq_bind, Option.bind_eq_some_iff] at h
    obtain ⟨⟨x, s1⟩, hx, ⟨ys, s2⟩, hys, heq⟩ := h
    cases heq
    obtain ⟨hlen, hall⟩ := ih hys
    exact ⟨by rw [List.length_cons, hlen], List.forall_mem_cons.2 ⟨hp _ _ _ hx, hall⟩⟩

/-- **Every value that is read is sized.** -/
theorem read_sized (fuel : ℕ) : ∀ s v rest, read fuel s = some (v, rest) → v.Sized := by
  induction fuel with
  | zero => intro s v rest h; cases h
  | succ fuel ih =>
    intro s v rest h
    simp only [read, Option.bind_eq_bind, Option.bind_eq_some_iff] at h
    obtain ⟨⟨head, s1⟩, hhead, h⟩ := h
    have hsized := readHead_sized hhead
    cases head with
    | int z => cases h; exact .int z
    | str n =>
      simp only [Option.map_eq_some_iff] at h
      obtain ⟨⟨x, s2⟩, hx, heq⟩ := h
      cases heq
      exact .str x (by rw [readBytes_eq_some hx]; exact hsized)
    | bin n =>
      simp only [Option.map_eq_some_iff] at h
      obtain ⟨⟨x, s2⟩, hx, heq⟩ := h
      cases heq
      exact .bin x (by rw [readBytes_eq_some hx]; exact hsized)
    | other n =>
      simp only [Option.map_eq_some_iff] at h
      obtain ⟨⟨x, s2⟩, hx, heq⟩ := h
      cases heq
      exact .other
    | arr n =>
      simp only [Option.map_eq_some_iff] at h
      obtain ⟨⟨vs, s2⟩, hvs, heq⟩ := h
      cases heq
      obtain ⟨hlen, hall⟩ := readMany_eq_some ih hvs
      exact .arr vs (by rw [hlen]; exact hsized) hall
    | map n =>
      simp only [Option.map_eq_some_iff] at h
      obtain ⟨⟨kvs, s2⟩, hkvs, heq⟩ := h
      cases heq
      have hpair : ∀ s kv rest, readPair (read fuel) s = some (kv, rest) →
          kv.1.Sized ∧ kv.2.Sized := by
        intro s kv rest h
        simp only [readPair, Option.bind_eq_bind, Option.bind_eq_some_iff] at h
        obtain ⟨⟨x, s1⟩, hx, ⟨y, s2⟩, hy, heq⟩ := h
        cases heq
        exact ⟨ih _ _ _ hx, ih _ _ _ hy⟩
      obtain ⟨hlen, hall⟩ := readMany_eq_some hpair hkvs
      exact .map kvs (by rw [hlen]; exact hsized) (fun kv h => (hall kv h).1)
        fun kv h => (hall kv h).2

/-- The value of a whole message is sized. -/
theorem unpack_sized {s : Bytes} {v : Value} (h : unpack s = some v) : v.Sized := by
  unfold unpack at h
  rw [Option.map_eq_some_iff] at h
  obtain ⟨⟨v', rest⟩, hr, rfl⟩ := h
  exact read_sized _ _ _ _ hr

/-- Of a sized value, and an object that meets `P`, the converter makes one that does. -/
def Yields (conv : Converter T) (P : T → Prop) : Prop :=
  ∀ v old x, v.Sized → P old → conv v old = some x → P x

/-- A string comes from a string or a binary, both of them sized. -/
theorem yields_str : Yields convertStr fun s => s.length < 2 ^ 32 := by
  intro v old x hv _ h
  cases hv with
  | str s hs => cases h; exact hs
  | bin s hs => cases h; exact hs
  | _ => cases h

/-- A field that is missing keeps what it was. -/
theorem Yields.field {conv : Converter T} {P : T → Prop} (hc : Yields conv P) {v : Value}
    {vs : List Value} (hv : v.Sized) (hf : fields v = some vs) {i : ℕ} {old x : T} (hold : P old)
    (h : convertField conv vs i old = some x) : P x := by
  cases hv with
  | arr vs' hlen hvs =>
    cases hf
    unfold convertField at h
    split at h
    · rename_i v hv
      exact hc v old x (hvs v (List.mem_of_getElem? hv)) hold h
    · cases h; exact hold
  | _ => cases hf

/-- The vector is as long as the array, and reuses the elements it had. -/
theorem Yields.vec [Inhabited T] {conv : Converter T} {P : T → Prop} (hc : Yields conv P)
    (hd : P default) :
    Yields (convertVec conv) fun xs => xs.length < 2 ^ 32 ∧ ∀ x ∈ xs, P x := by
  have hall : ∀ (vs : List Value) (old xs : List T), (∀ v ∈ vs, v.Sized) → (∀ x ∈ old, P x) →
      convertAll conv vs old = some xs → xs.length = vs.length ∧ ∀ x ∈ xs, P x := by
    intro vs
    induction vs with
    | nil => intro old xs _ _ h; cases h; exact ⟨rfl, nofun⟩
    | cons v vs ih =>
      intro old xs hvs hold h
      rw [List.forall_mem_cons] at hvs
      simp only [convertAll, Option.bind_eq_bind, Option.bind_eq_some_iff] at h
      obtain ⟨x, hx, ys, hys, heq⟩ := h
      cases heq
      have hhead : P (old.headD default) := by
        cases old with
        | nil => exact hd
        | cons y old => exact hold y List.mem_cons_self
      obtain ⟨hlen, hys⟩ := ih old.tail ys hvs.2 (fun y hy => hold y (List.mem_of_mem_tail hy)) hys
      exact ⟨by rw [List.length_cons, List.length_cons, hlen],
        List.forall_mem_cons.2 ⟨hc v _ x hvs.1 hhead hx, hys⟩⟩
  intro v old x hv hold h
  cases hv with
  | arr vs hlen hvs =>
    obtain ⟨heq, hx⟩ := hall vs old x hvs hold.2 h
    exact ⟨by rw [heq]; exact hlen, hx⟩
  | _ => cases h

/-- A set has no more members than its array, fewer where one is repeated. -/
theorem yields_set :
    Yields convertSet fun s => s.card < 2 ^ 32 ∧ ∀ x ∈ s, x.length < 2 ^ 32 := by
  have hall : ∀ (vs : List Value) (tmp s : Finset Bytes), (∀ v ∈ vs, v.Sized) →
      (∀ x ∈ tmp, x.length < 2 ^ 32) →
      vs.foldlM (fun tmp v => (convertStr v []).map fun s => insert s tmp) tmp = some s →
      s.card ≤ tmp.card + vs.length ∧ ∀ x ∈ s, x.length < 2 ^ 32 := by
    intro vs
    induction vs with
    | nil => intro tmp s _ htmp h; cases h; exact ⟨le_rfl, htmp⟩
    | cons v vs ih =>
      intro tmp s hvs htmp h
      rw [List.forall_mem_cons] at hvs
      simp only [List.foldlM_cons, Option.bind_eq_bind, Option.bind_eq_some_iff,
        Option.map_eq_some_iff] at h
      obtain ⟨tmp', ⟨x, hx, rfl⟩, h⟩ := h
      obtain ⟨hcard, hs⟩ := ih (insert x tmp) s hvs.2 (by
        intro y hy
        rcases Finset.mem_insert.1 hy with rfl | hy
        · exact yields_str v [] y hvs.1 (by norm_num) hx
        · exact htmp y hy) h
      have := Finset.card_insert_le x tmp
      rw [List.length_cons]
      exact ⟨by omega, hs⟩
  intro v old s hv _ h
  cases hv with
  | arr vs hlen hvs =>
    obtain ⟨hcard, hs⟩ := hall vs ∅ s hvs (by simp) h
    rw [Finset.card_empty, Nat.zero_add] at hcard
    exact ⟨hcard.trans_lt hlen, hs⟩
  | _ => cases h

/-- A key that is there already adds no entry. -/
theorem length_insert_le {V : Type} (m : UMap Bytes V) (k : Bytes) (v : V) :
    (m.insert k v).entries.length ≤ m.entries.length + 1 := by
  have := (List.kerase_sublist k m.entries).length_le
  rw [AList.entries_insert, List.length_cons]
  omega

/-- A map has no more entries than were read; a value converts into the one its key had before. -/
theorem Yields.map [Inhabited V] {conv : Converter V} {P : V → Prop} (hc : Yields conv P)
    (hd : P default) : Yields (convertMap conv) fun m =>
      m.entries.length < 2 ^ 32 ∧ ∀ e ∈ m.entries, e.1.length < 2 ^ 32 ∧ P e.2 := by
  have hall : ∀ (kvs : List (Value × Value)) (tmp m : UMap Bytes V), (∀ kv ∈ kvs, kv.1.Sized) →
      (∀ kv ∈ kvs, kv.2.Sized) → (∀ k v, tmp.lookup k = some v → k.length < 2 ^ 32 ∧ P v) →
      kvs.foldlM (convertEntry conv) tmp = some m →
      m.entries.length ≤ tmp.entries.length + kvs.length ∧
        ∀ k v, m.lookup k = some v → k.length < 2 ^ 32 ∧ P v := by
    intro kvs
    induction kvs with
    | nil => intro tmp m _ _ htmp h; cases h; exact ⟨le_rfl, htmp⟩
    | cons kv kvs ih =>
      intro tmp m hks hvs htmp h
      rw [List.forall_mem_cons] at hks hvs
      simp only [List.foldlM_cons, convertEntry, Option.bind_eq_bind, Option.bind_eq_some_iff] at h
      obtain ⟨tmp', ⟨key, hkey, v, hv, heq⟩, h⟩ := h
      cases heq
      have hold : P ((tmp.lookup key).getD default) := by
        cases hl : tmp.lookup key with
        | none => exact hd
        | some w => exact (htmp key w hl).2
      obtain ⟨hlen, hm⟩ := ih (tmp.insert key v) m hks.2 hvs.2 (by
        intro k w hl
        rw [UMap.lookup_insert_ite] at hl
        split at hl
        · rename_i hk
          cases hl
          exact ⟨hk ▸ yields_str kv.1 [] key hks.1 (by norm_num) hkey, hc _ _ _ hvs.1 hold hv⟩
        · exact htmp k w hl) h
      have := length_insert_le tmp key v
      rw [List.length_cons]
      exact ⟨by omega, hm⟩
  intro v old m hv _ h
  cases hv with
  | map kvs hlen hks hvs =>
    obtain ⟨hle, hm⟩ := hall kvs ∅ m hks hvs (by simp) h
    have hempty : (∅ : UMap Bytes V).entries.length = 0 := rfl
    refine ⟨by omega, fun e he => hm e.1 e.2 (AList.mem_lookup_iff.2 he)⟩
  | _ => cases h

/-- Things in a row, none of them empty. -/
theorem length_flatten_le {bss : List Bytes} (h : ∀ bs ∈ bss, 0 < bs.length) :
    bss.length ≤ bss.flatten.length := by
  have := List.length_le_sum_of_one_le (bss.map List.length) (List.forall_mem_map.2 h)
  rwa [List.length_map, ← List.length_flatten] at this

theorem length_le_packArr (bss : List Bytes) (h : ∀ bs ∈ bss, 0 < bs.length) :
    bss.length ≤ (packArr bss).length := by
  have := length_flatten_le h
  rw [packArr, List.length_append]
  omega

/-- An array is as long as each of its elements. -/
theorem length_mem_packArr {bss : List Bytes} {bs : Bytes} (h : bs ∈ bss) :
    bs.length ≤ (packArr bss).length := by
  have hmem : bs.length ∈ bss.map List.length := List.mem_map_of_mem h
  have := List.le_sum_of_mem hmem
  rw [packArr, List.length_append, List.length_flatten]
  omega

theorem length_le_packMap (bss : List (Bytes × Bytes)) (h : ∀ b ∈ bss, 0 < b.1.length) :
    bss.length ≤ (packMap bss).length := by
  have hpos : ∀ bs ∈ bss.map fun b => b.1 ++ b.2, 0 < bs.length := by
    simp only [List.mem_map, forall_exists_index, and_imp, forall_apply_eq_imp_iff₂,
      List.length_append]
    exact fun b hb => Nat.add_pos_left (h b hb) _
  have := length_flatten_le hpos
  rw [List.length_map] at this
  rw [packMap, List.length_append]
  omega

/-- A map is as long as each of its entries. -/
theorem length_mem_packMap {bss : List (Bytes × Bytes)} {b : Bytes × Bytes} (h : b ∈ bss) :
    b.1.length + b.2.length ≤ (packMap bss).length := by
  have hmem : (b.1 ++ b.2).length ∈ (bss.map fun b => b.1 ++ b.2).map List.length :=
    List.mem_map_of_mem (List.mem_map_of_mem h)
  have := List.le_sum_of_mem hmem
  rw [List.length_append] at this
  rw [packMap, List.length_append, List.length_flatten]
  omega

theorem packArr_length_pos (bss : List Bytes) : 0 < (packArr bss).length := by
  have : 0 < (arrHead bss.length).length := List.length_pos_iff.2 (sizeHead_ne_nil _ _ _ _)
  rw [packArr, List.length_append]
  omega

end Shopping.Lib.Msgpack
