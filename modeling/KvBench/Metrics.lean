/-
  kvbench formalization — the divisors of the metrics a time-bounded phase
  prints once `wg.Wait()` returns (`testKeys`, `testSet`, `testGet`,
  `testGetSet`, `testDelete`).

  The driver evaluates `int64(n)*1e6/(d/1e3)` and `d/int64(n*c)`, with `n` the
  summed `counts` and `d` the elapsed nanoseconds; Go panics on an integer
  division by zero.

  * `Sys.columns_eq_none`: a measurement panics exactly when `d/1e3` or
    `int64(n*c)` is `0`, whatever the phase; the writer's column of
    `testGetSet`, behind its `setCount == 0` guard, never does;
  * `Idle`: with `-d` at most `0` the context is done before any worker
    starts, so no worker ever takes its `default` branch and every count stays
    `0` (`reachable_idle`);
  * `measure_panics`: in every reachable state at a measurement, `-d 0`,
    `-c 0` or less than a microsecond since `start` makes the driver panic.
-/
import KvBench.Counts

namespace KvBench

variable {σ : Type} {f : Flags} {B : Store σ}

/-- The columns of every phase panic exactly when one of the two divisors is `0`. -/
theorem Sys.columns_eq_none {k : Kind} {n d : Int} {sc : UInt64} :
    Sys.columns f k n d sc = none ↔ d.tdiv 1000 = 0 ∨ goInt (n * f.c) = 0 := by
  cases k <;> simp only [Sys.columns, keysColumns, Bool.false_eq_true, ↓reduceIte,
    opColumns_eq_none, getSetColumns_eq_none]

theorem sumCounts_of_zeros {counts : List Int} (h : ∀ x ∈ counts, x = 0) : sumCounts counts = 0 := by
  rw [sumCounts_eq, List.sum_eq_zero h, goInt_zero]

/-! ## A phase whose context is done from the start -/

/-- The context is done, and no worker has counted an iteration or is about to
    call the store. -/
structure Idle (s : Sys σ) : Prop where
  ctxDone : s.ctxDone = true
  workers : ∀ w ∈ s.workers, w.count = 0 ∧ w.pc ≠ .call
  counts : ∀ x ∈ s.counts, x = 0

/-- With `-d` at most `0`, `context.WithTimeout` returns a context that is
    already done, so every `Step` keeps `Idle`. -/
theorem Idle.step (hd : f.duration ≤ 0) {s s' : Sys σ} (hs : Step f B s s') (hi : Idle s) :
    Idle s' := by
  cases hs with
  | fire => exact ⟨rfl, hi.2, hi.3⟩
  | exit _ hw =>
    have hw' := hi.workers _ (List.getElem?_mem hw)
    refine ⟨hi.1, fun w' h' => ?_, fun x hx => ?_⟩
    · rcases List.mem_or_eq_of_mem_set h' with h' | rfl
      exacts [hi.2 w' h', ⟨hw'.1, nofun⟩]
    · rcases List.mem_or_eq_of_mem_set hx with hx | rfl
      exacts [hi.3 x hx, hw'.1]
  | enter _ _ _ hd' => exact absurd hi.1 (by simp [hd'])
  | call _ _ hw hpc => exact absurd hpc (hi.2 _ (List.getElem?_mem hw)).2
  | start => exact ⟨decide_eq_true hd, nofun, fun _ h => (List.eq_of_mem_replicate h)⟩
  | spawn =>
    refine ⟨hi.1, fun w h => ?_, hi.3⟩
    rcases List.mem_append.1 h with h | h
    exacts [hi.2 w h, List.mem_singleton.1 h ▸ ⟨rfl, nofun⟩]
  | measure => exact ⟨rfl, hi.2, hi.3⟩
  | _ => exact ⟨hi.1, hi.2, hi.3⟩

theorem reachable_idle (hd : f.duration ≤ 0) {s : Sys σ} (hr : Reachable f B s) : Idle s :=
  Reachable.induction (fun _ _ => ⟨rfl, nofun, nofun⟩) (fun _ _ hs => Idle.step hd hs) hr

/-! ## The measurement panics -/

/-- **Division by zero in the metrics.** Whatever the backend and the
    schedule, a reachable measurement panics under `-d 0` (no worker has
    counted anything, so `n*c = 0`), under `-c 0` (`n*c = 0` again), and
    whenever less than a microsecond has passed since `start` (`d/1e3 = 0`). -/
theorem measure_panics {s : Sys σ} {k : Kind} (hr : Reachable f B s) (hpc : s.pc = .measure k)
    (h : f.duration ≤ 0 ∨ f.c = 0 ∨ s.now - s.start < 1000) :
    s.step f B .driver = some { s with pc := .panicked } := by
  have hcol : Sys.columns f k (sumCounts s.counts) (s.now - s.start : Nat) s.setCount = none := by
    rw [Sys.columns_eq_none]
    rcases h with hd | hc | ht
    · rw [sumCounts_of_zeros (reachable_idle hd hr).counts, Int.zero_mul, goInt_zero]; simp
    · rw [hc, Int.mul_zero, goInt_zero]; simp
    · exact .inl (Int.tdiv_eq_zero_of_lt (by omega) (by omega))
  simp [Sys.step, Sys.halted, Sys.driverStep, hpc, hcol]

/-- `-d 0 -c 1 -set 0 -s map -save bench.csv`. -/
def zeroDurationFlags : Flags := ⟨0, 1, 0, 256, false, "map", "bench.csv", by decide⟩

/-- A run up to `testKeys`' measurement: its one worker sees `ctx.Done()` at its
    first `select`. -/
def zeroDurationRun : List Event :=
  (oneWorkerRun none).take 9 ++ [.worker 0 (Draw.zeros 0), .driver]

/-- The state after `zeroDurationRun` from a fresh map store and no ledger. -/
def zeroDurationAt : Sys KV :=
  ((Sys.init zeroDurationFlags ∅ none).run zeroDurationFlags refStore zeroDurationRun).getD
    (Sys.init zeroDurationFlags ∅ none)

theorem zero_duration_panics :
    Reachable zeroDurationFlags refStore zeroDurationAt ∧ zeroDurationAt.pc = .measure .keys ∧
      zeroDurationAt.step zeroDurationFlags refStore .driver =
        some { zeroDurationAt with pc := .panicked } :=
  have hr : Reachable zeroDurationFlags refStore zeroDurationAt := ⟨∅, none, zeroDurationRun, rfl⟩
  have hpc : zeroDurationAt.pc = .measure .keys := by decide
  ⟨hr, hpc, measure_panics hr hpc (.inl (by decide))⟩

end KvBench
