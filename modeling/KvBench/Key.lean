/-
  kvbench formalization — keys and machine integers (`cmd/cli/main.go`:
  `genKey`, `genKeyPrefix`; `encoding/binary.BigEndian`).

  * Go's 64-bit `int`/`int64` arithmetic is `Int` reduced by `goInt`
    (two's complement wrap-around, `Int.bmod`); `uint64` is `UInt64`.
  * `putUint64` is `binary.BigEndian.PutUint64` and `uint64` is
    `binary.BigEndian.Uint64`, which panics (`none`) on fewer than eight bytes.
  * A `Draw` is what one key generation takes from `math/rand`: the bytes
    `rand.Read` writes and the value of `rand.Intn(127 - 32)`.
  * `genKey v i` is the 9-byte key `[32 + v] ++ bigEndian(i)`; `genKeyPrefix`
    the 3-byte scan prefix, which does not depend on its index argument.
-/
import Mathlib

namespace KvBench

/-- Go's `[]byte`. A nil slice and an empty slice are both `[]`. -/
abbrev Bytes := List UInt8

/-! ## Machine integers -/

/-- The value of a Go `int` (64 bits) computed as `x`: `x` wrapped into
    `[-2^63, 2^63)`. -/
def goInt (x : Int) : Int := x.bmod (2 ^ 64)

@[simp] theorem goInt_zero : goInt 0 = 0 := rfl

@[simp] theorem goInt_goInt (x : Int) : goInt (goInt x) = goInt x := Int.bmod_bmod

theorem goInt_add (x y : Int) : goInt (goInt x + y) = goInt (x + y) := Int.bmod_add_bmod_congr

theorem goInt_of_lt {x : Int} (h₁ : -2 ^ 63 ≤ x) (h₂ : x < 2 ^ 63) : goInt x = x := by
  unfold goInt; rw [Int.bmod_def]; split <;> omega

theorem UInt64.toNat_add' (a b : UInt64) : (a + b).toNat = (a.toNat + b.toNat) % 2 ^ 64 := by
  simp [UInt64.toNat, UInt64.add_def, BitVec.toNat_add]

theorem UInt64.toNat_ofNat' (n : Nat) : (UInt64.ofNat n).toNat = n % 2 ^ 64 := by
  simp [UInt64.ofNat, UInt64.toNat, BitVec.toNat_ofNat]

theorem UInt8.toNat_toUInt64' (c : UInt8) : c.toUInt64.toNat = c.toNat := rfl

theorem UInt64.toNat_toUInt8' (a : UInt64) : a.toUInt8.toNat = a.toNat % 256 := by
  simp [UInt64.toUInt8, UInt8.toNat, Nat.toUInt8, UInt8.ofNat, BitVec.toNat_ofNat]

theorem UInt64.toNat_lor (a b : UInt64) : (a ||| b).toNat = a.toNat ||| b.toNat :=
  BitVec.toNat_or ..

/-- Go reduces a shift count of a 64-bit value modulo 64. -/
theorem UInt64.toNat_shiftRight' (a s : UInt64) :
    (a >>> s).toNat = a.toNat / 2 ^ (s.toNat % 64) := by
  show (a.toBitVec >>> (s.toBitVec % 64)).toNat = _
  rw [BitVec.ushiftRight_eq', BitVec.toNat_ushiftRight, Nat.shiftRight_eq_div_pow,
    BitVec.toNat_umod]
  rfl

theorem UInt64.toNat_shiftLeft' (a s : UInt64) :
    (a <<< s).toNat = a.toNat * 2 ^ (s.toNat % 64) % 2 ^ 64 := by
  show (a.toBitVec <<< (s.toBitVec % 64)).toNat = _
  rw [BitVec.shiftLeft_eq', BitVec.toNat_shiftLeft, Nat.shiftLeft_eq, BitVec.toNat_umod]
  rfl

/-- Or-ing a byte shifted to bit `k` into a value below `2^k` adds it, and the
    sum stays below `2^(k+8)`. -/
theorem UInt64.toNat_lor_shiftLeft {acc s : UInt64} {c : UInt8} {a k : Nat}
    (hacc : acc.toNat = a ∧ a < 2 ^ k) (hs : s.toNat = k) (hk : k + 8 ≤ 64) :
    (acc ||| c.toUInt64 <<< s).toNat = a + c.toNat * 2 ^ k ∧ a + c.toNat * 2 ^ k < 2 ^ (k + 8) := by
  obtain ⟨rfl, ha⟩ := hacc
  subst hs
  have hlt : acc.toNat + c.toNat * 2 ^ s.toNat < 2 ^ (s.toNat + 8) :=
    calc acc.toNat + c.toNat * 2 ^ s.toNat < (c.toNat + 1) * 2 ^ s.toNat := by rw [Nat.succ_mul]; omega
      _ ≤ 2 ^ 8 * 2 ^ s.toNat := Nat.mul_le_mul_right _ c.toBitVec.isLt
      _ = 2 ^ (s.toNat + 8) := by rw [Nat.pow_add, Nat.mul_comm]
  refine ⟨?_, hlt⟩
  have hc : c.toNat * 2 ^ s.toNat < 2 ^ 64 :=
    lt_of_le_of_lt (Nat.le_add_left _ _) (hlt.trans_le (Nat.pow_le_pow_right (by decide) hk))
  rw [UInt64.toNat_lor, UInt64.toNat_shiftLeft', UInt8.toNat_toUInt64',
    Nat.mod_eq_of_lt (by omega : s.toNat < 64), Nat.mod_eq_of_lt hc, Nat.lor_comm, Nat.mul_comm,
    ← Nat.mul_add_lt_is_or ha, Nat.add_comm]

/-- The low `s + 8` bits are the low `s` bits and the byte above them. -/
theorem mod_two_pow_add_byte (n s : Nat) :
    n % 2 ^ s + n / 2 ^ s % 256 * 2 ^ s = n % 2 ^ (s + 8) := by
  rw [Nat.pow_add, Nat.mod_mul, Nat.mul_comm (2 ^ s)]

/-! ## Keys -/

/-- `binary.BigEndian.PutUint64`: the eight bytes of `v`, most significant first. -/
def putUint64 (v : UInt64) : Bytes :=
  ([56, 48, 40, 32, 24, 16, 8, 0] : List UInt64).map fun s => (v >>> s).toUInt8

/-- `binary.BigEndian.Uint64`: the first eight bytes read most significant first. Go
    panics on a shorter slice. -/
def uint64 (b : Bytes) : Option UInt64 :=
  if h : 8 ≤ b.length then
    some (b[7].toUInt64 ||| b[6].toUInt64 <<< 8 ||| b[5].toUInt64 <<< 16 |||
      b[4].toUInt64 <<< 24 ||| b[3].toUInt64 <<< 32 ||| b[2].toUInt64 <<< 40 |||
      b[1].toUInt64 <<< 48 ||| b[0].toUInt64 <<< 56)
  else none

/-- The random values one key generation draws: the bytes `rand.Read` writes
    into a 3-byte prefix, and `rand.Intn(127 - 32)`. -/
structure Draw where
  fill : UInt8 × UInt8 × UInt8
  lead : Fin (127 - 32)

/-- `genKey(i)`: the printable byte `32 + v`, `v = rand.Intn(127 - 32)`, then
    `i` big-endian. -/
def genKey (v : Fin (127 - 32)) (i : UInt64) : Bytes :=
  (32 + v.val).toUInt8 :: putUint64 i

/-- `genKeyPrefix(i)`: `rand.Read` fills three bytes, then byte 0 is replaced by
    `32 + rand.Intn(127 - 32)`. The index is not used. -/
def genKeyPrefix (d : Draw) (_ : UInt64) : Bytes :=
  [(32 + d.lead.val).toUInt8, d.fill.2.1, d.fill.2.2]

@[simp] theorem length_putUint64 (v : UInt64) : (putUint64 v).length = 8 := by
  simp [putUint64]

@[simp] theorem length_genKey (v : Fin (127 - 32)) (i : UInt64) : (genKey v i).length = 9 := by
  simp [genKey]

/-- The value `uint64` reads, as a natural number. -/
theorem toNat_uint64 {b : Bytes} {u : UInt64} (h : uint64 b = some u) :
    ∃ h : 8 ≤ b.length, u.toNat = b[7].toNat + b[6].toNat * 2 ^ 8 + b[5].toNat * 2 ^ 16 +
      b[4].toNat * 2 ^ 24 + b[3].toNat * 2 ^ 32 + b[2].toNat * 2 ^ 40 + b[1].toNat * 2 ^ 48 +
      b[0].toNat * 2 ^ 56 := by
  unfold uint64 at h
  split at h
  case isFalse => cases h
  case isTrue hl =>
  refine ⟨hl, ?_⟩
  cases h
  -- each `|||` adds one byte above the ones already read
  exact And.left (UInt64.toNat_lor_shiftLeft (UInt64.toNat_lor_shiftLeft
    (UInt64.toNat_lor_shiftLeft (UInt64.toNat_lor_shiftLeft (UInt64.toNat_lor_shiftLeft
    (UInt64.toNat_lor_shiftLeft (UInt64.toNat_lor_shiftLeft ⟨rfl, b[7].toBitVec.isLt⟩ rfl (by decide))
    rfl (by decide)) rfl (by decide)) rfl (by decide)) rfl (by decide)) rfl (by decide)) rfl
    (by decide))

/-- `Uint64` undoes `PutUint64`. -/
theorem uint64_putUint64 (i : UInt64) : uint64 (putUint64 i) = some i := by
  obtain ⟨u, hu⟩ : ∃ u, uint64 (putUint64 i) = some u := ⟨_, dif_pos (by simp [putUint64])⟩
  obtain ⟨_, e⟩ := toNat_uint64 hu
  rw [hu, UInt64.toNat.inj (e.trans ?_)]
  simp only [putUint64, List.getElem_map, List.getElem_cons_succ, List.getElem_cons_zero,
    UInt64.toNat_toUInt8', UInt64.toNat_shiftRight']
  -- from the low byte up, each byte completes the next eight low bits of `i`
  have h₀ : i.toNat % 256 = i.toNat % 2 ^ 8 := rfl
  simp only [UInt64.reduceToNat, Nat.reduceMod, Nat.pow_zero, Nat.div_one, h₀, mod_two_pow_add_byte,
    -Nat.reducePow]
  exact Nat.mod_eq_of_lt i.toBitVec.isLt

theorem index_eq_of_genKey_eq {v₁ v₂ : Fin (127 - 32)} {i₁ i₂ : UInt64}
    (h : genKey v₁ i₁ = genKey v₂ i₂) : i₁ = i₂ := by
  have := congrArg (fun k => uint64 (k.drop 1)) h
  simpa only [genKey, List.drop_succ_cons, List.drop_zero, uint64_putUint64, Option.some.injEq]
    using this

/-- A key is nine bytes: the printable byte `32 + v`, then eight bytes from which
    `binary.BigEndian.Uint64` reads the index back. So two indices never share a key,
    whatever lead bytes their draws gave. -/
theorem genKey_decodes :
    (∀ (v : Fin (127 - 32)) (i : UInt64), (genKey v i).length = 9 ∧
      (∃ b, (genKey v i).head? = some b ∧ b.toNat = 32 + v.val ∧ 32 ≤ b.toNat ∧ b.toNat ≤ 126) ∧
      uint64 ((genKey v i).drop 1) = some i) ∧
    ∀ (v₁ v₂ : Fin (127 - 32)) (i₁ i₂ : UInt64), i₁ ≠ i₂ → genKey v₁ i₁ ≠ genKey v₂ i₂ := by
  refine ⟨fun v i => ⟨length_genKey v i, ⟨_, rfl, ?_⟩, uint64_putUint64 i⟩,
    fun _ _ _ _ hne h => hne (index_eq_of_genKey_eq h)⟩
  have : (32 + v.val).toUInt8.toNat = 32 + v.val :=
    Nat.mod_eq_of_lt (by have := v.isLt; omega)
  omega

end KvBench
