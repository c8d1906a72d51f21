/-
  kvbench formalization — the prefix scans of `Keys`.

  The Storage Contract's `Keys(p, …)` returns the stored keys that have the
  prefix `p`: `refStore.keys`, the entries `KV.withPrefix p`, which is also
  what the commented-out `SeekGE(p)`-then-`bytes.HasPrefix` loop of the pebble
  adapter collects.

  * `bytesCompare` (`bytes.Compare`) on keys sharing a prefix compares what
    follows it; `range_iff_prefix`: the keys `k` with `p ≤ k < p ++ [0xFF]` are
    the keys extending `p` whose next byte, if any, is not `0xFF`, and
    `newIter_eq_filter` says so of pebble's bounded iterator;
  * `LeveldbStore.keys_eq`, `PebbleStore.keys_eq`: for every pattern, leveldb's
    `Keys` lends the entries of the contract's scan of `"foo-"` and pebble's
    those of `"myprefix"` without the keys whose next byte is `0xFF`;
  * `keys_ignore_pattern`, `range_scan_drops_ff`: what follows.
-/
import KvBench.Pebble

namespace KvBench

/-! ## `bytes.Compare` -/

theorem UInt8.lt_iff_toNat {a b : UInt8} : a < b ↔ a.toNat < b.toNat := Iff.rfl

@[simp] theorem bytesCompare_cons_self (a : UInt8) (as bs : Bytes) :
    bytesCompare (a :: as) (a :: bs) = bytesCompare as bs := by
  simp [bytesCompare, UInt8.lt_iff_toNat]

theorem bytesCompare_append_left (p as bs : Bytes) :
    bytesCompare (p ++ as) (p ++ bs) = bytesCompare as bs := by
  induction p with
  | nil => rfl
  | cons a p ih => rw [List.cons_append, List.cons_append, bytesCompare_cons_self, ih]

/-- A key extending `p` is at or above `p`. -/
theorem bytesCompare_append_isLE (p r : Bytes) : (bytesCompare p (p ++ r)).isLE := by
  have := bytesCompare_append_left p [] r
  rw [List.append_nil] at this
  rw [this]; cases r <;> rfl

/-- A key is below `[0xFF]` unless it starts with `0xFF`. -/
theorem bytesCompare_ff_isLT (r : Bytes) : (bytesCompare r [0xFF]).isLT ↔ r.head? ≠ some 0xFF := by
  rcases r with _ | ⟨a, r⟩
  · simp [bytesCompare, Ordering.isLT]
  · by_cases ha : a = 0xFF
    · subst ha; cases r <;> simp [bytesCompare, Ordering.isLT]
    · have hlt : a < 0xFF := UInt8.lt_iff_toNat.2 (by
        have : a.toNat < 256 := a.toBitVec.isLt
        have := mt (UInt8.toNat.inj (b := 0xFF)) ha; simp at this ⊢; omega)
      simp [bytesCompare, hlt, ha, Ordering.isLT]

/-! ## The range `[p, p ++ [0xFF])` -/

/-- A key at or above `p` and below `p ++ [0xFF]` extends `p`. -/
theorem prefix_of_range : ∀ {p k : Bytes}, (bytesCompare p k).isLE →
    (bytesCompare k (p ++ [0xFF])).isLT → p <+: k
  | [], _, _, _ => List.nil_prefix
  | _ :: _, [], h, _ => absurd h nofun
  | a :: p, b :: k, h₁, h₂ => by
    obtain rfl : a = b := by
      by_contra hne
      rcases Nat.lt_or_gt_of_ne (mt UInt8.toNat.inj hne) with h | h
      · simp [bytesCompare, UInt8.lt_iff_toNat, h, Nat.lt_asymm h, Ordering.isLT] at h₂
      · simp [bytesCompare, UInt8.lt_iff_toNat, h, Nat.lt_asymm h, Ordering.isLE] at h₁
    rw [bytesCompare_cons_self] at h₁
    rw [List.cons_append, bytesCompare_cons_self] at h₂
    exact (List.prefix_cons_inj a).2 (prefix_of_range h₁ h₂)

/-- The range `[p, p ++ [0xFF])` holds the keys extending `p` whose next byte,
    if any, is not `0xFF`. -/
theorem range_iff_prefix {p k : Bytes} :
    ((bytesCompare p k).isLE ∧ (bytesCompare k (p ++ [0xFF])).isLT) ↔
      (p <+: k ∧ (k.drop p.length).head? ≠ some 0xFF) := by
  constructor
  · rintro ⟨h₁, h₂⟩
    obtain ⟨r, rfl⟩ := prefix_of_range h₁ h₂
    rw [bytesCompare_append_left, bytesCompare_ff_isLT] at h₂
    simpa using h₂
  · rintro ⟨⟨r, rfl⟩, h⟩
    rw [bytesCompare_append_left, bytesCompare_ff_isLT]
    exact ⟨bytesCompare_append_isLE p r, by simpa using h⟩

/-- Pebble's iterator over `[p, p ++ [0xFF])` is the prefix scan of `p` without
    the keys whose next byte is `0xFF`. -/
theorem newIter_eq_filter (db : PebbleDB) (p : Bytes) :
    db.newIter p (p ++ [0xFF]) =
      (KV.withPrefix p db.kv).filter fun e => (e.1.drop p.length).head? != some 0xFF := by
  simp only [PebbleDB.newIter, KV.withPrefix, List.filter_map, List.filter_filter]
  congr 1
  apply List.filter_congr
  intro e _
  rw [Bool.eq_iff_iff]
  simp only [Bool.and_eq_true, bne_iff_ne, ne_eq, Function.comp, List.isPrefixOf_iff_prefix]
  exact range_iff_prefix.trans and_comm

/-- **The range scan is not the prefix scan.** For every prefix `p` and every
    store, the iterator bounded by `p` and `append(p, 0xFF)` returns the prefix
    scan of `p` less the keys whose next byte is `0xFF`; so with only the key
    `p ++ [0xFF]` stored, the `SeekGE(p)`-then-`HasPrefix` scan finds it and the
    range does not. -/
theorem range_scan_drops_ff :
    (∀ (db : PebbleDB) (p : Bytes), db.newIter p (p ++ [0xFF]) =
      (KV.withPrefix p db.kv).filter fun e => (e.1.drop p.length).head? != some 0xFF) ∧
    ∀ p v : Bytes, PebbleDB.newIter p (p ++ [0xFF]) ⟨(∅ : KV).insert (p ++ [0xFF]) v⟩ = [] ∧
      KV.withPrefix p ((∅ : KV).insert (p ++ [0xFF]) v) = [(p ++ [0xFF], v)] := by
  have hscan (p v : Bytes) : KV.withPrefix p ((∅ : KV).insert (p ++ [0xFF]) v) = [(p ++ [0xFF], v)] := by
    simp [KV.withPrefix, List.isPrefixOf_iff_prefix]
  refine ⟨newIter_eq_filter, fun p v => ⟨?_, hscan p v⟩⟩
  rw [newIter_eq_filter, hscan]
  simp

/-! ## The adapters' `Keys` -/

/-- leveldb's `Keys`, for every pattern: the entries of the contract's scan of
    `"foo-"`, as the caller reads them. -/
theorem LeveldbStore.keys_eq (m : Lent) {s : LeveldbStore} {db : LevelDB} (hs : s.db = some db)
    (p : Bytes) (n : Int) (w : Bool) :
    s.keys m p n w = some (let r := m.scan w (KV.withPrefix fooPrefix db.kv); (r.1, r.2, none)) := by
  simp [LeveldbStore.keys, hs, LevelDB.iter]

/-- pebble's `Keys`, for every pattern: the entries of the contract's scan of
    `"myprefix"` without the keys whose next byte is `0xFF`, as the caller
    reads them. -/
theorem PebbleStore.keys_eq (m : Lent) (s : PebbleStore) (p : Bytes) (n : Int) (w : Bool) :
    s.keys m p n w =
      let r := m.scan w ((KV.withPrefix myPrefix s.db.kv).filter
        fun e => (e.1.drop myPrefix.length).head? != some 0xFF)
      (r.1, r.2, none) := by
  simp only [PebbleStore.keys, newIter_eq_filter]

/-- **`Keys` ignores its pattern.** With `[2]` stored under `[1]`, no pattern
    makes either adapter return `[1]`, however the slices read, where the
    contract's scan of `[1]` returns it with its value. -/
theorem keys_ignore_pattern :
    (∀ (m : Lent) (p : Bytes) (n : Int) (w : Bool),
      ({ db := some ⟨(∅ : KV).insert [1] [2], none⟩, path := "leveldb.db", fsync := false,
         wo := ⟨false⟩ } : LeveldbStore).keys m p n w = some ([], [], none)) ∧
    (∀ (m : Lent) (p : Bytes) (n : Int) (w : Bool),
      (⟨⟨(∅ : KV).insert [1] [2]⟩, ⟨false⟩⟩ : PebbleStore).keys m p n w = ([], [], none)) ∧
    refStore.keys [1] 0 true ((∅ : KV).insert [1] [2]) = ([[1]], [[2]], none) := by
  have hfoo : KV.withPrefix fooPrefix ((∅ : KV).insert [1] [2]) = [] := by rw [fooPrefix_eq]; rfl
  have hmy : KV.withPrefix myPrefix ((∅ : KV).insert [1] [2]) = [] := by rw [myPrefix_eq]; rfl
  refine ⟨fun m p n w => ?_, fun m p n w => ?_, by decide⟩
  · rw [LeveldbStore.keys_eq m rfl]; simp only [hfoo, Lent.scan_nil]
  · rw [PebbleStore.keys_eq]; simp only [hmy, List.filter_nil, Lent.scan_nil]

end KvBench
