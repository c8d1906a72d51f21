/-
  kvbench formalization — the bulk load (`testBatchWriteFixCount`).

  * `pageCount count` is the number of pages, with Go's truncating `/` and
    `%`; `pageLen i` the number of pairs the inner loop of page `i` appends,
    its bounds computed in `int`;
  * `page` builds a page's keys and values from what `math/rand` supplies;
  * `testBatchWriteFixCount` issues one `PSet` per page, in order, and returns
    the calls, the `total` it prints and the backend's state (`none`: a panic);
  * `testBatchWriteFixCount_spec`: when every `PSet` succeeds and
    `size ≥ 0`, page `i` carries `pageLen i` pairs, keys and values alike, every
    value has `size` bytes, and `total` is their sum;
  * `pageLen_eq`: every page below the top of the `int` range has exactly
    `batchSize` pairs — the last page is not cut at `count`.
-/
import KvBench.Store

namespace KvBench

/-- `batchSize := 1000`. -/
def batchSize : Int := 1000

/-- `pageCount`: `count / batchSize`, plus one when `count % batchSize ≠ 0`
    (Go's `/` and `%` truncate toward zero; neither can overflow here). -/
def pageCount (count : Int) : Int :=
  if count.tmod batchSize = 0 then count.tdiv batchSize else count.tdiv batchSize + 1

/-- The pairs page `i` gets: `for i := startIdx; i < endIdx; i++` with
    `startIdx = i * batchSize` and `endIdx = startIdx + batchSize` in `int`. -/
def pageLen (i : Int) : Nat :=
  let startIdx := i * batchSize
  let endIdx := goInt (startIdx + batchSize)
  (endIdx - startIdx).toNat

/-- What `math/rand` supplies for one page: the bytes `rand.Read` writes into
    key `k` and value `k`, and the draw `rand.Intn(127 - 32)` for key `k`. -/
structure PageDraws where
  key : Nat → Fin 9 → UInt8
  val : Nat → Nat → UInt8
  lead : Nat → Fin (127 - 32)

/-- The keys and values of a page of `n` pairs: each key is overwritten by
    `rand.Read` and gets the leading byte `32 + v`; each value is
    `make([]byte, size)` filled by `rand.Read`, which panics when `size < 0`. -/
def page (size : Int) (n : Nat) (r : PageDraws) : Option (List Bytes × List Bytes) :=
  if size < 0 ∧ 0 < n then none else
  some ((List.range n).map fun k => (32 + (r.lead k).val).toUInt8 :: List.ofFn fun t : Fin 8 => r.key k t.succ,
    (List.range n).map fun k => (List.range size.toNat).map (r.val k))

variable {σ : Type} (B : Store σ) (size : Int) (draws : Nat → PageDraws)

/-- Pages `i, i + 1, …`, `n` of them: build the page, `PSet` it (an error
    panics), add its length to `total`. -/
def writePages (i : Nat) : Nat → σ → Option (List (List Bytes × List Bytes) × UInt64 × σ)
  | 0, st => some ([], 0, st)
  | n + 1, st => do
    let (ks, vs) ← page size (pageLen i) (draws i)
    let (err, st') := B.pset ks vs st
    if err.isSome then none
    let (calls, total, st'') ← writePages (i + 1) n st'
    pure ((ks, vs) :: calls, UInt64.ofNat ks.length + total, st'')

/-- `testBatchWriteFixCount(record, name, store, count)`: the `PSet` calls, the
    reported `total` and the backend's state after them. -/
def testBatchWriteFixCount (count : Int) (st : σ) :
    Option (List (List Bytes × List Bytes) × UInt64 × σ) :=
  writePages B size draws 0 (pageCount count).toNat st

theorem page_spec {n : Nat} {r : PageDraws} (hs : 0 ≤ size) :
    ∃ ks vs, page size n r = some (ks, vs) ∧ ks.length = n ∧ vs.length = n ∧
      ∀ v ∈ vs, v.length = size.toNat := by
  refine ⟨_, _, if_neg (by omega), by simp, by simp, ?_⟩
  simp

/-- **The bulk load's calls.** When every `PSet` succeeds and `size ≥ 0`, the
    bulk load issues one call per page, page `t` with `pageLen t` keys and as
    many values, every value `size` bytes long, and reports as `total` the
    number of pairs modulo `2^64`. -/
theorem testBatchWriteFixCount_spec (hB : ∀ ks vs st, (B.pset ks vs st).1 = none)
    (hs : 0 ≤ size) (count : Int) (st : σ) :
    ∃ calls total st', testBatchWriteFixCount B size draws count st = some (calls, total, st') ∧
      calls.map (·.1.length) = (List.range (pageCount count).toNat).map (fun t : Nat => pageLen t) ∧
      calls.map (·.2.length) = calls.map (·.1.length) ∧
      (∀ c ∈ calls, ∀ v ∈ c.2, v.length = size.toNat) ∧
      total.toNat = (calls.map (·.1.length)).sum % 2 ^ 64 := by
  suffices ∀ n i st, ∃ calls total st', writePages B size draws i n st = some (calls, total, st') ∧
      calls.map (·.1.length) = (List.range n).map (fun t : Nat => pageLen (i + t : Nat)) ∧
      calls.map (·.2.length) = calls.map (·.1.length) ∧
      (∀ c ∈ calls, ∀ v ∈ c.2, v.length = size.toNat) ∧
      total.toNat = (calls.map (·.1.length)).sum % 2 ^ 64 by
    obtain ⟨calls, total, st', h, h₁, h₂⟩ := this (pageCount count).toNat 0 st
    exact ⟨calls, total, st', h, by simpa only [Nat.zero_add] using h₁, h₂⟩
  intro n
  induction n with
  | zero => exact fun _ st => ⟨[], 0, st, rfl, rfl, rfl, by simp, rfl⟩
  | succ n ih =>
    intro i st
    obtain ⟨ks, vs, hp, hk, hv, hvs⟩ := @page_spec size (pageLen i) (draws i) hs
    obtain ⟨calls, total, st', hw, h₁, h₂, h₃, h₄⟩ := ih (i + 1) (B.pset ks vs st).2
    refine ⟨(ks, vs) :: calls, UInt64.ofNat ks.length + total, st', ?_, ?_, ?_, ?_, ?_⟩
    · simp [writePages, hp, hB, hw]
    · simp [List.range_succ_eq_map, h₁, hk, Function.comp_def, Nat.add_assoc, Nat.add_comm 1]
    · simp [h₂, hk, hv]
    · intro c hc
      rcases List.mem_cons.1 hc with rfl | hc
      exacts [hvs, h₃ c hc]
    · simp [UInt64.toNat_add', UInt64.toNat_ofNat', h₄]

theorem page_values {n : Nat} {r : PageDraws} {ks vs : List Bytes} (h : page size n r = some (ks, vs)) :
    ∀ v ∈ vs, v.length = size.toNat := by
  unfold page at h
  split at h
  · cases h
  · cases h; simp

/-- **The bulk load replays.** Its `PSet` calls, each with the reply `nil` it
    got, replay on the backend to the state it returns, and every value it
    writes has `size` bytes, whatever `size` and the backend. -/
theorem testBatchWriteFixCount_replay {count : Int} {st st' : σ} {calls : List (List Bytes × List Bytes)}
    {total : UInt64} (h : testBatchWriteFixCount B size draws count st = some (calls, total, st')) :
    B.replay st (calls.map fun c => (.pset c.1 c.2, .err none)) = some st' ∧
      ∀ c ∈ calls, ∀ v ∈ c.2, v.length = size.toNat := by
  suffices ∀ n i st calls total st', writePages B size draws i n st = some (calls, total, st') →
      B.replay st (calls.map fun c => (.pset c.1 c.2, .err none)) = some st' ∧
        ∀ c ∈ calls, ∀ v ∈ c.2, v.length = size.toNat from this _ _ _ _ _ _ h
  intro n
  induction n with
  | zero => intro i st calls total st' h; cases h; simp [Store.replay]
  | succ n ih =>
    intro i st calls total st' h
    cases hp : page size (pageLen i) (draws i) with
    | none => simp [writePages, hp] at h
    | some kv =>
      obtain ⟨ks, vs⟩ := kv
      cases he : (B.pset ks vs st).1 with
      | some e => simp [writePages, hp, he] at h
      | none =>
        cases hw : writePages B size draws (i + 1) n (B.pset ks vs st).2 with
        | none => simp [writePages, hp, he, hw] at h
        | some r =>
          obtain ⟨calls', total', st''⟩ := r
          simp only [writePages, hp, he, hw, Option.bind_eq_bind, Option.some_bind, Option.isSome_none,
            Bool.false_eq_true, ↓reduceIte, Option.pure_def, Option.some.injEq, Prod.mk.injEq] at h
          obtain ⟨rfl, -, rfl⟩ := h
          obtain ⟨ih₁, ih₂⟩ := ih _ _ _ _ _ hw
          refine ⟨by simp [Store.replay, Store.exec, he, ih₁], fun c hc => ?_⟩
          rcases List.mem_cons.1 hc with rfl | hc
          exacts [page_values size hp, ih₂ c hc]

/-! ## Pages -/

theorem pageCount_of_nonneg {count : Int} (h : 0 ≤ count) : pageCount count = (count + 999) / 1000 := by
  unfold pageCount batchSize
  rw [Int.tmod_eq_emod h (by decide), Int.tdiv_eq_ediv h (by decide)]
  split <;> omega

/-- Every page whose bounds stay in the `int` range holds a full `batchSize`
    pairs. -/
theorem pageLen_eq {i : Int} (h₀ : 0 ≤ i) (h : i * batchSize + batchSize < 2 ^ 63) :
    pageLen i = 1000 := by
  show (goInt (i * batchSize + batchSize) - i * batchSize).toNat = 1000
  rw [goInt_of_lt (by unfold batchSize at *; omega) h]
  unfold batchSize; omega

theorem sum_pageLen {n : Nat} (h : (n : Int) * batchSize < 2 ^ 63) :
    ((List.range n).map fun t : Nat => pageLen t).sum = 1000 * n := by
  induction n with
  | zero => rfl
  | succ n ih =>
    have h' : (n : Int) * batchSize + batchSize < 2 ^ 63 := by
      unfold batchSize at *; push_cast at h; omega
    rw [List.range_succ, List.map_append, List.sum_append, ih (by unfold batchSize at *; omega),
      List.map_singleton, List.sum_singleton, pageLen_eq (by omega) h']
    omega

/-- With `count = 1500` the bulk load issues two full pages: 2000 pairs, and
    reports a `total` of 2000. -/
theorem testBatchWriteFixCount_1500 :
    (testBatchWriteFixCount refStore 256 (fun _ => ⟨fun _ _ => 0, fun _ _ => 0, fun _ => 0⟩) 1500
      ∅).map (fun r => ((r.1.map (·.1.length)).sum, r.2.1.toNat)) = some (2000, 2000) := by
  obtain ⟨calls, total, st', h, h₁, -, -, h₄⟩ :=
    testBatchWriteFixCount_spec refStore 256 (fun _ => ⟨fun _ _ => 0, fun _ _ => 0, fun _ => 0⟩)
      (fun _ _ _ => rfl) (by decide) 1500 ∅
  have hp : (pageCount 1500).toNat = 2 := by rw [pageCount_of_nonneg (by decide)]; rfl
  have hs : (calls.map (·.1.length)).sum = 2000 := by
    rw [h₁, hp, sum_pageLen (by decide)]
  simp [h, h₄, hs]

end KvBench
