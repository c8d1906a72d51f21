/-
  kvbench formalization — `main` can run to its end.

  `run_can_end` gives every run an end, but a panic is an end; here a run
  that exits and saves its record. Each phase of it: every worker started,
  one iteration of worker `0` before the deadline, the deadline, every
  worker leaving, the measurement.

  * `Sys.sansPool`: a state without its workers, `counts`, WaitGroup and log,
    which the workers' leaving does not change;
  * `exit_all`: every worker leaving once the context is done, each
    `wg.Done()` on a positive counter;
  * `wait_measure`, `measure_next`: `wg.Wait()` returning on a zero counter,
    and the measurement of a phase whose workers have all left;
  * `phase_completes`: from `wg.Add(*c)` of a phase, some schedule reaches
    the next phase or `saveReorder`;
  * `main_can_exit`: with `-d` positive, `-c` from `1` to `2^31 - 1`,
    `-size` not negative and a backend whose `PSet` never fails, some
    schedule of `main` exits, with its record saved.
-/
import KvBench.Ledger
import KvBench.Metrics
import KvBench.Progress
import KvBench.Summary

namespace KvBench

variable {σ : Type} {f : Flags} {B : Store σ}

/-- A state without its workers, `counts`, WaitGroup and log. -/
def Sys.sansPool (s : Sys σ) : Sys σ := { s with workers := [], counts := [], wg := 0, log := [] }

/-- The deadline passes and the timer closes `ctx.Done()`. -/
theorem elapse_fire {s : Sys σ} (hh : s.halted = false) (hd : s.ctxDone = false) {δ : Nat}
    (hδ : s.deadline ≤ s.now + δ) :
    s.run f B [.elapse δ, .fire] = some { s with now := s.now + δ, ctxDone := true } := by
  simp only [Sys.halted, Bool.or_eq_false_iff, decide_eq_false_iff_not] at hh
  simp [Sys.run, Sys.step, Sys.halted, hh, Sys.fire, hd]
  omega

/-- Once the context is done, every worker at its `select` leaves, one after
    another; the rest of the state is kept, and the log gains no store call. -/
theorem exit_all (d : Draw) : ∀ (n : Nat) {s : Sys σ}, s.halted = false → s.ctxDone = true →
    (∀ w ∈ s.workers, w.pc ≠ .call) → s.wg + doneCount s.workers = s.workers.length →
    s.workers.length - doneCount s.workers = n →
    ∃ es s', s.run f B es = some s' ∧ s'.sansPool = s.sansPool ∧ (∀ w ∈ s'.workers, w.pc = .done) ∧
      ∃ L, s'.log = s.log ++ L ∧ ∀ k, phaseCalls k L = 0
  | 0, s, _, _, _, _, hn => by
    have hle : doneCount s.workers ≤ s.workers.length := List.countP_le_length _
    have hall := List.countP_eq_length.1 (show doneCount s.workers = s.workers.length by omega)
    exact ⟨[], s, rfl, rfl, fun w hw => by simpa using hall w hw, [], by simp, fun _ => rfl⟩
  | n + 1, s, hh, hd, hsel, hwg, hn => by
    obtain ⟨w, hw, hne⟩ : ∃ w ∈ s.workers, w.pc ≠ .done := by
      by_contra hall
      push_neg at hall
      have : doneCount s.workers = s.workers.length := List.countP_eq_length.2 (by simpa using hall)
      omega
    obtain ⟨j, hj⟩ := List.getElem?_of_mem hw
    have hpc : w.pc = .select := by
      cases h : w.pc with
      | select => rfl
      | call => exact absurd h (hsel w hw)
      | done => exact absurd h hne
    have hsel' : ∀ w' ∈ s.workers.set j { w with pc := .done }, w'.pc ≠ .call := fun w' hw' => by
      rcases List.mem_or_eq_of_mem_set hw' with hw' | rfl
      exacts [hsel w' hw', by simp]
    have hwg₀ : s.wg ≠ 0 := by omega
    have h₁ : s.step f B (.worker j d) = some { s with
        workers := s.workers.set j { w with pc := .done }, counts := s.counts.set w.index.toNat w.count,
        wg := s.wg - 1, log := s.log ++ [.slot s.phase j w.index.toNat] } := by
      simp [Sys.step, hh, Sys.workerStep, hj, hpc, hd, hwg₀]
    have hleave := doneCount_leave hj hne (show ({ w with pc := .done } : Worker).pc = .done from rfl)
    obtain ⟨es, s', h', hsp, hdone, L, hL, hL0⟩ := exit_all d n (s := { s with
      workers := s.workers.set j { w with pc := .done }, counts := s.counts.set w.index.toNat w.count,
      wg := s.wg - 1, log := s.log ++ [.slot s.phase j w.index.toNat] }) hh hd hsel'
      (by simp only [List.length_set, hleave]; push_cast; omega) (by simp only [List.length_set, hleave]; omega)
    refine ⟨.worker j d :: es, s', by rw [Sys.run, h₁, Option.some_bind, h'], hsp, hdone,
      .slot s.phase j w.index.toNat :: L, by simp [hL], fun k => by
        rw [← List.singleton_append, phaseCalls_append, hL0]; rfl⟩

/-- Below `2^32` workers, the counter is `*c` itself less the workers that
    have left. -/
theorem Inv.wg_add_doneCount {s : Sys σ} (hi : Inv f s) (hs : s.pc.started) (hc : f.c < 2 ^ 32) :
    s.wg + doneCount s.workers = s.workers.length := by
  have := hi.wg
  have := hi.size
  have := hi.started hs
  omega

/-- `wg.Wait()` returns on a zero counter, and `close(ch)` follows after
    `testGetSet`: the driver measures, the clock, log and workers as they were. -/
theorem wait_measure {s : Sys σ} {k : Kind} (hpc : s.pc = .wait k) (hwg : s.wg = 0) :
    ∃ es s', s.run f B es = some s' ∧ s'.pc = .measure k ∧ s'.now = s.now ∧ s'.start = s.start ∧
      s'.log = s.log ∧ s'.workers = s.workers := by
  by_cases hk : k = .getSet
  · subst hk
    exact ⟨[.driver, .driver], { s with chClosed := true, pc := .measure .getSet },
      by simp only [Sys.run, Sys.step, Sys.halted, hpc, reduceCtorEq, decide_False, Bool.or_self,
        Bool.false_eq_true, ↓reduceIte, Sys.driverStep, hwg, Option.bind_some, Option.some_bind],
      rfl, rfl, rfl, rfl, rfl⟩
  · exact ⟨[.driver], { s with pc := .measure k },
      by simp only [Sys.run, Sys.step, Sys.halted, hpc, reduceCtorEq, decide_False, Bool.or_self,
        Bool.false_eq_true, ↓reduceIte, Sys.driverStep, hwg, hk, Option.bind_some],
      rfl, rfl, rfl, rfl, rfl⟩

/-- The driver measures a phase every worker of which has left, on columns
    that compute: on to the next phase, or `saveReorder` after `testDelete`. -/
theorem measure_next {s : Sys σ} {k : Kind} {cols : List (String × Int)} (hpc : s.pc = .measure k)
    (hall : ∀ w ∈ s.workers, w.pc = .done)
    (hcol : Sys.columns f k (sumCounts s.counts) (s.now - s.start : Nat) s.setCount = some cols) :
    s.run f B [.driver] = some { s with
      record := s.record.add cols, ctxDone := true,
      pc := (match k.next with | some k' => .start k' | none => .save) } := by
  have hall' : s.workers.all (·.pc == .done) = true := List.all_eq_true.2 fun w hw => by simp [hall w hw]
  cases hk : k.next <;> simp [Sys.run, Sys.step, Sys.halted, hpc, Sys.driverStep, hcol, hall', hk]

/-- **A phase completes.** With `-d` positive and `-c` from `1` to `2^31 - 1`,
    from `wg.Add(*c)` of a phase some schedule measures it without a panic and
    reaches the next phase, or `saveReorder` after `testDelete`. -/
theorem phase_completes (hc : 0 < f.c) (hc' : f.c < 2 ^ 31) (hdur : 0 < f.duration) {s : Sys σ}
    (hr : Reachable f B s)
    {k : Kind} (hpc : s.pc = .start k) :
    ∃ es s', s.run f B es = some s' ∧ s'.pc = (match k.next with | some k' => .start k' | none => .save) := by
  have h0 : phaseCalls k s.log = 0 :=
    phaseCalls_eq_zero fun j => ((reachable_inv hr).ordered k j (by simp [hpc, Pc.bound])).1
  -- `wg.Add(*c)`, the context, `start`, then every worker started
  obtain ⟨s₁, h₁, hpc₁, hws₁, hph₁, -, -, hd₁, hnow₁, hst₁, hdl₁, hlog₁⟩ :=
    start_clock (B := B) hpc hc.le (by omega)
  have h₂ := spawn_all (f := f) (B := B) f.c.toNat 0 hpc₁ (by simp; omega)
  set s₂ := { s₁ with workers := s₁.workers ++ (List.range' 0 f.c.toNat).map Worker.new, pc := .wait k }
  -- one iteration of worker `0`
  have hw₀ : s₂.workers[0]? = some (Worker.new 0) := by
    obtain ⟨c, hc'⟩ : ∃ c, f.c.toNat = c + 1 := ⟨f.c.toNat - 1, by omega⟩
    simp [s₂, hws₁, hc', List.range'_succ]
  have h₃ := iterate_once (f := f) (B := B) (by simp [s₂, Sys.halted]) (by simp [s₂, hd₁]; omega)
    (by simp [s₂, hnow₁, hdl₁]; omega) hw₀ rfl (Draw.zeros 0)
  set s₃ := { s₂ with
    now := s₂.now + 1,
    store := (B.exec (s₂.phase.op (Draw.zeros 0) (Worker.new 0).i) s₂.store).2,
    workers := s₂.workers.set 0 ((Worker.new 0).advance f.stride
      (s₂.phase.resets (B.exec (s₂.phase.op (Draw.zeros 0) (Worker.new 0).i) s₂.store).1)),
    log := s₂.log ++ [Entry.call (.worker s₂.phase 0) (Worker.new 0).i (s₂.phase.op (Draw.zeros 0) (Worker.new 0).i)
      (B.exec (s₂.phase.op (Draw.zeros 0) (Worker.new 0).i) s₂.store).1] }
  -- the deadline, then every worker leaves
  have h₄ := elapse_fire (f := f) (B := B) (s := s₃) (δ := f.duration.toNat + 1000) (by simp [s₃, s₂, Sys.halted])
    (by simp [s₃, s₂, hd₁]; omega) (by simp [s₃, s₂, hdl₁, hnow₁]; omega)
  set s₄ := { s₃ with now := s₃.now + (f.duration.toNat + 1000), ctxDone := true }
  have hsel : ∀ w ∈ s₄.workers, w.pc ≠ .call := by
    intro w hw
    rcases List.mem_or_eq_of_mem_set hw with hw | rfl
    · simp only [s₂, hws₁, List.nil_append, List.mem_map] at hw
      obtain ⟨j, -, rfl⟩ := hw
      simp [Worker.new]
    · simp [Worker.advance]
  have hr₄ : Reachable f B s₄ := hr.run (by
    rw [run_append, h₁, Option.some_bind, run_append, h₂, Option.some_bind, run_append, h₃, Option.some_bind, h₄])
  -- the counter holds `*c` itself: `*c` is below `2^31`
  have hwg₄ := (reachable_inv hr₄).wg_add_doneCount (by simp [s₄, s₃, s₂, Pc.started]) (by omega)
  obtain ⟨es₅, s₅, h₅, hsp₅, hdone₅, L, hL, hL0⟩ :=
    exit_all (f := f) (B := B) (Draw.zeros 0) _ (s := s₄) (by simp [s₄, s₃, s₂, Sys.halted]) rfl hsel hwg₄ rfl
  have hr₅ : Reachable f B s₅ := hr₄.run h₅
  have hpc₅ : s₅.pc = .wait k := congrArg Sys.pc hsp₅
  have hwg : s₅.wg = 0 := by
    have := (reachable_inv hr₅).wg_add_doneCount (by simp [hpc₅, Pc.started]) (by omega)
    have : doneCount s₅.workers = s₅.workers.length :=
      List.countP_eq_length.2 fun w hw => by simp [hdone₅ w hw]
    omega
  -- `wg.Wait()` returns, `close(ch)` after `testGetSet`
  obtain ⟨es₆, s₆, h₆, hpc₆, hnow₆, hst₆, hlog₆, hws₆⟩ := wait_measure (f := f) (B := B) hpc₅ hwg
  -- the measurement: one store call, more than a microsecond
  have hr₆ := hr₅.run h₆
  have hall : ∀ w ∈ s₆.workers, w.pc = .done := hws₆ ▸ hdone₅
  have hsum : sumCounts s₆.counts = 1 := by
    rw [(reachable_inv hr₆).sumCounts_of_joined hpc₆ hall, hlog₆, hL]
    simp only [s₄, s₃, s₂, hlog₁, hph₁, phaseCalls_append, h0, hL0]
    simp [phaseCalls, Entry.workerCall, goInt_of_lt]
  have hδ : (s₆.now - s₆.start : Nat) = f.duration.toNat + 1001 := by
    have hnow₅ : s₅.now = s₄.now := by simpa [Sys.sansPool] using congrArg Sys.now hsp₅
    have hst₅ : s₅.start = s₄.start := by simpa [Sys.sansPool] using congrArg Sys.start hsp₅
    rw [hnow₆, hst₆, hnow₅, hst₅]
    simp [s₄, s₃, s₂, hnow₁, hst₁]
    omega
  obtain ⟨cols, hcol⟩ : ∃ cols, Sys.columns f k (sumCounts s₆.counts) (s₆.now - s₆.start : Nat) s₆.setCount =
      some cols := by
    rw [← Option.isSome_iff_exists, Option.isSome_iff_ne_none, Ne, Sys.columns_eq_none, hsum, hδ, Int.one_mul,
      goInt_of_lt (by have := f.isInt f.c (by simp); omega) (f.c_lt), Int.tdiv_eq_ediv (by omega) (by decide)]
    omega
  refine ⟨[.driver, .driver] ++ List.replicate (f.c.toNat + 1) .driver ++ [.worker 0 (Draw.zeros 0),
    .worker 0 (Draw.zeros 0)] ++ [.elapse (f.duration.toNat + 1000), .fire] ++ es₅ ++ es₆ ++ [.driver],
    { s₆ with record := s₆.record.add cols, ctxDone := true,
              pc := (match k.next with | some k' => .start k' | none => .save) }, ?_, rfl⟩
  simp only [run_append, h₁, h₂, h₃, h₄, h₅, h₆, Option.some_bind]
  exact measure_next hpc₆ hall hcol

/-- `saveReorder` and the deferred `store.Close()`: `main` exits. -/
theorem save_exits {s : Sys σ} (hpc : s.pc = .save) : ∃ s', s.run f B [.driver] = some s' ∧ s'.pc = .exited :=
  Option.map_eq_some'.1 (by simp [Sys.run, Sys.step, Sys.halted, hpc, Sys.driverStep])

/-- From `wg.Add(*c)` of a phase `n` phases before `testDelete`, some schedule
    exits. -/
theorem exits_from_start (hc : 0 < f.c) (hc' : f.c < 2 ^ 31) (hdur : 0 < f.duration) :
    ∀ (n : Nat) {k : Kind} {s : Sys σ}, k.rank + n = 4 → Reachable f B s → s.pc = .start k →
      ∃ es s', s.run f B es = some s' ∧ s'.pc = .exited := by
  intro n
  induction n with
  | zero =>
    intro k s hk hr hpc
    obtain rfl : k = .del := by cases k <;> simp_all [Kind.rank]
    obtain ⟨es, s', h, hpc'⟩ := phase_completes hc hc' hdur hr hpc
    obtain ⟨s'', h', hx⟩ := save_exits (B := B) hpc'
    exact ⟨es ++ [.driver], s'', by rw [run_append, h, Option.some_bind, h'], hx⟩
  | succ n ih =>
    intro k s hk hr hpc
    obtain ⟨es, s', h, hpc'⟩ := phase_completes hc hc' hdur hr hpc
    cases hn : k.next with
    | none => cases Kind.next_eq_none hn; simp [Kind.rank] at hk
    | some k' =>
      rw [hn] at hpc'
      obtain ⟨es', s'', h', hx⟩ := ih (by have := Kind.rank_next hn; omega) (hr.run h) hpc'
      exact ⟨es ++ es', s'', by rw [run_append, h, Option.some_bind, h'], hx⟩

/-- The bulk load, the memory and disk columns, and `testKeys`' first scan,
    on to `testKeys` or `testSet`. -/
theorem setup_completes (hB : ∀ ks vs st, (B.pset ks vs st).1 = none) (hs : 0 ≤ f.size) (st : σ)
    (l : Ledger) : ∃ es s k, (Sys.init f st l).run f B es = some s ∧ s.pc = .start k := by
  obtain ⟨calls, total, st', hb, -⟩ := testBatchWriteFixCount_spec B f.size PageDraws.zeros hB hs f.setCount st
  obtain ⟨s, h, hpc⟩ := Option.map_eq_some'.1 (show ((Sys.init f st l).run f B
      [.bulk PageDraws.zeros, .driver, .mem 0 0, .disk none, .probe (Draw.zeros 0)]).map Sys.pc =
      some (if (B.exec (probeOp (Draw.zeros 0)) st').1.notSupported then .start .set else .start .keys) by
    simp [Sys.run, Sys.step, Sys.init, Sys.halted, Sys.bulkStep, hb, Sys.driverStep, Sys.probeStep])
  exact ⟨_, s, _, h, hpc.trans (apply_ite Pc.start _ _ _).symm⟩

/-- **`main` can run to its end.** With `-d` positive, `-c` from `1` to
    `2^31 - 1`, `-size` not negative and a backend whose `PSet` never fails,
    from any contents and any save file some schedule of `main` exits, having
    saved its record with `saveReorder`. Each condition is one whose failure
    can make `main` panic: with a duration not positive or `-c 0` no run
    exits, `wg.Add` panics on a `-c` that is negative as an `int32`, and a
    failing `PSet` or a negative size panics in the bulk load as soon as it
    writes a page. -/
theorem main_can_exit (hB : ∀ ks vs st, (B.pset ks vs st).1 = none) (hs : 0 ≤ f.size) (hc : 0 < f.c)
    (hc' : f.c < 2 ^ 31) (hdur : 0 < f.duration) (st : σ) (l : Ledger) :
    ∃ es s, (Sys.init f st l).run f B es = some s ∧ s.pc = .exited ∧
      s.ledger = saveReorder f.savePath s.record l := by
  obtain ⟨es₁, s₁, k, h₁, hpc₁⟩ := setup_completes hB hs st l
  obtain ⟨es₂, s₂, h₂, hx⟩ := exits_from_start hc hc' hdur (4 - k.rank)
    (by have : k.rank ≤ 4 := Kind.rank_le k; omega) ⟨st, l, es₁, h₁⟩ hpc₁
  have h : (Sys.init f st l).run f B (es₁ ++ es₂) = some s₂ := by rw [run_append, h₁, Option.some_bind, h₂]
  exact ⟨es₁ ++ es₂, s₂, h, hx, ledger_of_exited h hx⟩

theorem main_can_exit_one_worker :
    (∀ ks vs st, (refStore.pset ks vs st).1 = none) ∧ 0 ≤ oneWorkerFlags.size ∧ 0 < oneWorkerFlags.c ∧
      oneWorkerFlags.c < 2 ^ 31 ∧ 0 < oneWorkerFlags.duration ∧
      ∃ es s, (Sys.init oneWorkerFlags ∅ none).run oneWorkerFlags refStore es = some s ∧ s.pc = .exited ∧
        s.ledger = saveReorder oneWorkerFlags.savePath s.record none :=
  have hB : ∀ ks vs st, (refStore.pset ks vs st).1 = none := fun _ _ _ => rfl
  ⟨hB, by decide, by decide, by decide, by decide,
    main_can_exit hB (by decide) (by decide) (by decide) (by decide) ∅ none⟩

end KvBench
