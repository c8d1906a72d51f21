/-
  kvbench formalization — the `Record` of a run, the metrics the phases
  append to it, and the ledger `saveReorder` appends to.

  * `rate n d` and `mean d n c` are the throughput and mean-latency formulas
    (`int64(n)*1e6/(d/1e3)`, `d/int64(n*c)`), `none` where Go's integer
    division by zero panics;
  * one function per phase gives the columns it appends (`batchColumns`,
    `memColumns`, `diskColumns`, `keysColumns`, `opColumns`,
    `getSetColumns`); `showDiskUsage` appends nothing when the path does not
    exist, while the other phases always append their columns (`-1` standing
    for a missing measurement);
  * `saveReorder` writes the header row and the value row to a new ledger and
    only the value row to an existing one; `Record.WellFormed` (one more
    header than values) holds of the initial record and is kept by every
    phase, so a fresh ledger's two rows have the same length.
-/
import KvBench.Key

namespace KvBench

/-- `Record`. -/
structure Record where
  name : String
  headers : List String
  values : List Int
  deriving DecidableEq, Repr

/-- The record `main` starts with: the run's name and the header `"name"`. -/
def Record.init (name : String) : Record := ⟨name, ["name"], []⟩

/-- Appends columns (header, value) in order. -/
def Record.add (r : Record) (cols : List (String × Int)) : Record :=
  { r with headers := r.headers ++ cols.map Prod.fst, values := r.values ++ cols.map Prod.snd }

/-! ## Metrics -/

/-- `int64(n)*1e6/(d/1e3)`: operations per second from `n` operations in `d`
    nanoseconds; `none` when `d/1e3` is `0`. -/
def rate (n d : Int) : Option Int :=
  let q := d.tdiv 1000
  if q = 0 then none else some (goInt ((goInt (n * 1000000)).tdiv q))

/-- `d/int64(n*c)`: the mean latency a phase prints; `none` when `n*c` is `0`
    in `int`. -/
def mean (d n c : Int) : Option Int :=
  let q := goInt (n * c)
  if q = 0 then none else some (goInt (d.tdiv q))

/-! ## The columns of each phase -/

/-- `testBatchWriteFixCount`: `int(time.Since(start).Seconds())`. -/
def batchColumns (d : Nat) : List (String × Int) := [("batch write cost(s)", (d / 1000000000 : Nat))]

/-- `showMemUsage`: `m.Alloc` and `m.HeapInuse` in MiB. -/
def memColumns (alloc heapInuse : Nat) : List (String × Int) :=
  [("MemUsage(MiB)", (alloc / 1024 / 1024 : Nat)), ("HeapInuse(MiB)", (heapInuse / 1024 / 1024 : Nat))]

/-- `showDiskUsage`: nothing when `os.Stat(path)` reports that the path does
    not exist, the size in MiB otherwise. -/
def diskColumns : Option Int → List (String × Int)
  | none => []
  | some fileSize => [("DiskUsage(MiB)", goInt (fileSize.tdiv 1024 |>.tdiv 1024))]

/-- A time-bounded phase's printed line and column: `rate` and `mean` are
    both evaluated, and either may panic. -/
def opColumns (header : String) (n c d : Int) : Option (List (String × Int)) := do
  let r ← rate n d
  let _ ← mean d n c
  pure [(header, r)]

/-- `testKeys`: `-1` when the first scan reports `ErrNotSupported`. -/
def keysColumns (notSupported : Bool) (n c d : Int) : Option (List (String × Int)) :=
  if notSupported then some [("Keys op/s", -1)] else opColumns "Keys op/s" n c d

/-- `testGetSet`: the writer's rate (`-1` when `setCount == 0`), then the
    readers' rate. -/
def getSetColumns (setCount : UInt64) (n c d : Int) : Option (List (String × Int)) := do
  let s ← if setCount = 0 then pure ("Setmixed op/s", -1) else do
    let sc := goInt setCount.toNat
    let r ← rate sc d
    let _ ← (if sc = 0 then none else some (goInt (d.tdiv sc)))
    pure ("Setmixed op/s", r)
  let g ← opColumns "Getmixed op/s" n c d
  pure (s :: g)

/-! ## When the metrics panic -/

theorem rate_eq_none {n d : Int} : rate n d = none ↔ d.tdiv 1000 = 0 := by
  simp [rate]

theorem mean_eq_none {d n c : Int} : mean d n c = none ↔ goInt (n * c) = 0 := by
  simp [mean]

/-- A phase's column panics exactly when one of its two divisors, `d/1e3` and
    `int64(n*c)`, is `0`. -/
theorem opColumns_eq_none {header : String} {n c d : Int} :
    opColumns header n c d = none ↔ d.tdiv 1000 = 0 ∨ goInt (n * c) = 0 := by
  rw [← rate_eq_none, ← mean_eq_none (d := d), opColumns]
  cases rate n d <;> cases mean d n c <;> simp

/-- A nonzero `uint64` is a nonzero `int`. -/
theorem goInt_toNat_ne_zero {u : UInt64} (h : u ≠ 0) : goInt u.toNat ≠ 0 := by
  have h₁ : u.toNat ≠ 0 := fun h₀ => h (UInt64.toNat.inj h₀)
  have h₂ : u.toNat < 2 ^ 64 := u.toBitVec.isLt
  unfold goInt; rw [Int.bmod_def]; split <;> omega

/-- The `setCount == 0` guard: the writer's column of `testGetSet` never
    divides by zero, so the phase panics exactly when its readers' column does. -/
theorem getSetColumns_eq_none {setCount : UInt64} {n c d : Int} :
    getSetColumns setCount n c d = none ↔ d.tdiv 1000 = 0 ∨ goInt (n * c) = 0 := by
  rw [← @opColumns_eq_none "Getmixed op/s" n c d, getSetColumns]
  by_cases hs : setCount = 0
  · cases opColumns "Getmixed op/s" n c d <;> simp [hs]
  · by_cases hd : d.tdiv 1000 = 0
    · simp [hs, rate_eq_none.2 hd, opColumns_eq_none, hd]
    · obtain ⟨r, hr⟩ := Option.ne_none_iff_exists'.1 (mt (rate_eq_none (n := goInt setCount.toNat)).1 hd)
      cases opColumns "Getmixed op/s" n c d <;> simp [hs, hr, goInt_toNat_ne_zero hs]

/-! ## Records stay aligned within a run -/

/-- One header more than values: `"name"` has its value in the record's name. -/
def Record.WellFormed (r : Record) : Prop := r.headers.length = r.values.length + 1

theorem Record.wellFormed_init (name : String) : (Record.init name).WellFormed := rfl

theorem Record.WellFormed.add {r : Record} (h : r.WellFormed) (cols : List (String × Int)) :
    (r.add cols).WellFormed := by
  simp only [Record.WellFormed, Record.add, List.length_append, List.length_map] at *
  omega

/-! ## The ledger -/

/-- The CSV file at `savePath`: `none` while it does not exist, else its rows. -/
abbrev Ledger := Option (List (List String))

/-- The row `saveReorder` writes for a record: its name, then its values. -/
def Record.row (r : Record) : List String := r.name :: r.values.map toString

/-- `saveReorder(record)`: nothing when `savePath` is empty; the header row and
    the value row when the file does not exist; only the value row otherwise. -/
def saveReorder (savePath : String) (r : Record) : Ledger → Ledger
  | l => if savePath = "" then l else
    match l with
    | none => some [r.headers, r.row]
    | some rows => some (rows ++ [r.row])

/-- A well-formed record's header and value rows have the same length. -/
theorem Record.WellFormed.row_length {r : Record} (h : r.WellFormed) :
    r.row.length = r.headers.length := by
  simp [Record.row, h.symm]

end KvBench
