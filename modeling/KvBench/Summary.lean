/-
  kvbench formalization — the record as a sequential benchmark's.

  `main` runs its phases one after another, each with `*c` workers racing
  until the deadline; of a phase it saves what three numbers give: the
  iterations its workers ran, the time since `start`, and `setCount`.

  * `Stage`, `summarize`: `main` as a sequential program, each time-bounded
    phase run at once and summed up by its `Measurement`; the record it
    saves, `none` if a measurement panics;
  * `Summed`: the record is `summarize` of the stages the driver has passed,
    `testKeys` skipped as the reply to its first scan in the log says; the
    phases measured and the one running are those begun; each measured phase
    counts its workers' store calls in the log, and its elapsed time and
    `setCount` are those of a state where the driver measured it;
  * `run_summed`: every run from `main`'s start keeps `Summed`, with the
    states the run passed through;
  * `exited_record_summarizes`: the record of every run that exits is that of
    the sequential benchmark, with the phases in `main`'s order, each phase's
    count read off the log and its time and `setCount` read off the run.
-/
import KvBench.Counts
import KvBench.Phases

namespace KvBench

/-- A time-bounded phase as the driver measures it once `wg.Wait()` has
    returned: its kind, the store calls its workers made, the nanoseconds
    since `start` and `setCount`. -/
structure Measurement where
  kind : Kind
  calls : Nat
  elapsed : Nat
  setCount : UInt64
  deriving DecidableEq, Repr

/-- A stage of `main` run as a sequential program. -/
inductive Stage where
  /-- `testBatchWriteFixCount`, taking `elapsed` nanoseconds -/
  | bulk (elapsed : Nat)
  /-- `showMemUsage`, reading `m.Alloc` and `m.HeapInuse` -/
  | mem (alloc heapInuse : Nat)
  /-- `showDiskUsage`, finding the path's size or nothing -/
  | disk (size : Option Int)
  /-- `testKeys`' first scan, and whether it reported `ErrNotSupported` -/
  | probe (notSupported : Bool)
  /-- a time-bounded phase -/
  | phase (m : Measurement)
  deriving DecidableEq, Repr

/-- The columns a stage appends; `none` if computing them panics. -/
def Stage.columns (f : Flags) : Stage → Option (List (String × Int))
  | .bulk d => some (batchColumns d)
  | .mem alloc heapInuse => some (memColumns alloc heapInuse)
  | .disk size => some (diskColumns size)
  | .probe ns => some (if ns then [("Keys op/s", -1)] else [])
  | .phase m => Sys.columns f m.kind (goInt m.calls) m.elapsed m.setCount

/-- The record `main` saves after `stages`, one after another; `none` if one
    of them panics. -/
def summarize (f : Flags) (stages : List Stage) : Option Record :=
  stages.foldlM (fun r st => (st.columns f).map r.add) (Record.init (runName f))

/-- The stages before the time-bounded phases. -/
def setupStages (d₀ alloc heapInuse : Nat) (size : Option Int) (ns : Bool) : List Stage :=
  [.bulk d₀, .mem alloc heapInuse, .disk size, .probe ns]

/-- How many of the `setupStages` the driver has passed at `pc`. -/
def Pc.setup : Pc → Nat
  | .bulk | .bulkDone => 0
  | .mem => 1
  | .disk => 2
  | .probe => 3
  | _ => 4

theorem summarize_append_single (f : Flags) (l : List Stage) (st : Stage) :
    summarize f (l ++ [st]) = (summarize f l).bind fun r => (st.columns f).map r.add := by
  simp only [summarize, List.foldlM_append, List.foldlM_cons, List.foldlM_nil]
  cases summarize f l <;> simp [summarize]

@[simp] theorem Record.add_nil (r : Record) : r.add [] = r := by simp [Record.add]

variable {σ : Type} {f : Flags} {B : Store σ}

/-- The record is `summarize` of the stages passed, `testKeys` skipped as the
    log records; the phases measured, then the one running, are those begun;
    each measured phase counts its workers' store calls in the log, and its
    elapsed time and `setCount` are those of a state in `Seen` where the
    driver measured it. -/
def Summed (f : Flags) (Seen : Sys σ → Prop) (s : Sys σ) : Prop :=
  s.pc ≠ .panicked → ∃ (d₀ alloc heapInuse : Nat) (size : Option Int) (ms : List Measurement),
    summarize f ((setupStages d₀ alloc heapInuse size (keysSkipped s.log)).take s.pc.setup ++ ms.map .phase) =
      some s.record ∧
    ms.map Measurement.kind ++ s.pc.running.toList = begins s.log ∧
    ∀ m ∈ ms, m.calls = phaseCalls m.kind s.log ∧
      ∃ t, Seen t ∧ t.pc = .measure m.kind ∧ m.elapsed = t.now - t.start ∧ m.setCount = t.setCount

section
variable {s s' : Sys σ} {Seen : Sys σ → Prop}

theorem Summed.init (st : σ) (l : Ledger) : Summed f Seen (Sys.init f st l) :=
  fun _ => ⟨0, 0, 0, none, [], rfl, rfl, nofun⟩

/-- A step that passes no stage, begins and measures no phase, and adds
    store calls only to the running phase. -/
theorem Summed.of_move (h : Summed f Seen s) (hnd : (begins s.log).Nodup)
    (hp : s'.pc ≠ .panicked → s.pc ≠ .panicked) (hsetup : s'.pc.setup = s.pc.setup)
    (hrun : s'.pc.running = s.pc.running) (hrec : s'.record = s.record)
    (hlog : begins s'.log = begins s.log) (hskip : keysSkipped s'.log = keysSkipped s.log)
    (hcalls : ∀ k, s.pc.running ≠ some k → phaseCalls k s'.log = phaseCalls k s.log) : Summed f Seen s' := by
  intro hp'
  obtain ⟨d₀, alloc, heap, size, ms, h₁, h₂, h₃⟩ := h (hp hp')
  refine ⟨d₀, alloc, heap, size, ms, by rwa [hsetup, hrec, hskip], by rwa [hrun, hlog],
    fun m hm => ⟨?_, (h₃ m hm).2⟩⟩
  rw [hcalls m.kind fun hk => ?_, (h₃ m hm).1]
  rw [← h₂, hk, Option.toList_some] at hnd
  exact List.disjoint_of_nodup_append hnd (List.mem_map_of_mem _ hm) (List.mem_singleton_self _)

/-- A step that only appends entries none of which is a worker's call or
    `testKeys`' first scan. -/
theorem Summed.frame (h : Summed f Seen s) (hnd : (begins s.log).Nodup) (hpc : s'.pc = s.pc)
    (hrec : s'.record = s.record) (L : List Entry) (hlog : s'.log = s.log ++ L)
    (hL : ∀ k, phaseCalls k L = 0) (hb : begins L = []) (hk : keysSkipped L = false) : Summed f Seen s' :=
  h.of_move hnd (fun hp => hpc ▸ hp) (by rw [hpc]) (by rw [hpc]) hrec (by simp [hlog, hb])
    (by simp [hlog, hk]) fun k _ => by simp [hlog, hL]

/-- Before the first phase, the record is `summarize` of the stages passed
    and no phase has begun. -/
theorem Summed.setup (h : Summed f Seen s) (hst : Staged s) (hs : s.pc.setup < 4) :
    ∃ (d₀ alloc heapInuse : Nat) (size : Option Int),
      summarize f ((setupStages d₀ alloc heapInuse size false).take s.pc.setup) = some s.record ∧
      begins s.log = [] := by
  have hpc : s.pc ≠ .panicked ∧ s.pc.bound = 0 ∧ s.pc.running = none := by
    cases hpc : s.pc <;> simp_all [Pc.setup, Pc.bound, Pc.running]
  obtain ⟨n, hn, hnb⟩ := hst.begun
  have hb : begins s.log = [] := by rw [hn, hnb hpc.1, hpc.2.1, List.take_zero, List.drop_nil]
  obtain ⟨d₀, alloc, heap, size, ms, h₁, h₂, -⟩ := h hpc.1
  rw [hpc.2.2, hb, Option.toList_none, List.append_nil, List.map_eq_nil_iff] at h₂
  subst h₂
  rw [hst.probed hpc.2.1] at h₁
  exact ⟨d₀, alloc, heap, size, by simpa using h₁, hb⟩

/-- `testKeys`' first scan: the probe stage with its reply, then `testKeys` or
    `testSet`. -/
theorem Summed.of_probe (h : Summed f Seen s) (hst : Staged s) (hpc : s.pc = .probe) (e : Entry)
    (he : e.begun = none) (st : σ) (ns : Bool) (hns : e.skipsKeys = ns) :
    Summed f Seen { s with store := st, log := s.log ++ [e],
                           record := if ns then s.record.add [("Keys op/s", -1)] else s.record,
                           pc := if ns then .start .set else .start .keys } := by
  obtain ⟨d₀, alloc, heap, size, h₁, hb⟩ := h.setup hst (by simp [hpc, Pc.setup])
  have hskip : keysSkipped (s.log ++ [e]) = ns := by
    rw [keysSkipped_append, hst.probed (by simp [hpc, Pc.bound]), keysSkipped_singleton, hns, Bool.false_or]
  intro _
  refine ⟨d₀, alloc, heap, size, [], ?_, ?_, nofun⟩
  · have : (setupStages d₀ alloc heap size ns).take 4 =
        (setupStages d₀ alloc heap size false).take 3 ++ [.probe ns] := rfl
    simp only [hpc, Pc.setup] at h₁
    dsimp only
    rw [hskip]
    cases ns <;> simp [Pc.setup, this, summarize_append_single, h₁, Stage.columns]
  · cases ns <;> simp [Pc.running, hb, begins_singleton, he]

/-- `wg.Add(*c)` and the phase's context: the phase begins and runs. -/
theorem Summed.of_start (h : Summed f Seen s) {k : Kind} (hpc : s.pc = .start k) (s₁ : Sys σ)
    (hlog : s₁.log = s.log) (hrec : s₁.record = s.record) :
    Summed f Seen { s₁ with pc := .clock k, phase := k, wg := f.c % 2 ^ 32, workers := [],
                            counts := List.replicate f.c.toNat 0, deadline := s₁.now + f.duration,
                            ctxDone := decide (f.duration ≤ 0), log := s₁.log ++ [.begin k] } := by
  intro _
  obtain ⟨d₀, alloc, heap, size, ms, h₁, h₂, h₃⟩ := h (by simp [hpc])
  rw [hpc] at h₁ h₂
  refine ⟨d₀, alloc, heap, size, ms, by simpa [hrec, hlog, Pc.setup, Entry.skipsKeys] using h₁, ?_,
    fun m hm => ⟨?_, (h₃ m hm).2⟩⟩
  · simpa [hlog, Pc.running] using h₂
  · simp [hlog, (h₃ m hm).1, phaseCalls, Entry.workerCall]

/-- The measurement of phase `k`: its columns, counting its workers' store
    calls, with the time since `start` and `setCount` of this state. -/
theorem Summed.of_measure (h : Summed f Seen s) (hseen : Seen s) (hi : Inv f s) {k : Kind}
    (hpc : s.pc = .measure k) (hall : ∀ w ∈ s.workers, w.pc = .done) {cols : List (String × Int)}
    (hm : Sys.columns f k (sumCounts s.counts) (s.now - s.start : Nat) s.setCount = some cols) :
    Summed f Seen { s with record := s.record.add cols, ctxDone := true,
                           pc := (match k.next with | some k' => .start k' | none => .save) } := by
  intro _
  obtain ⟨d₀, alloc, heap, size, ms, h₁, h₂, h₃⟩ := h (by simp [hpc])
  have hnext : (match k.next with | some k' => Pc.start k' | none => .save).setup = 4 ∧
      (match k.next with | some k' => Pc.start k' | none => .save).running = none := by
    cases k <;> simp [Kind.next, Pc.setup, Pc.running]
  rw [hpc] at h₁ h₂
  simp only [Pc.setup] at h₁
  simp only [Pc.running, Option.toList_some] at h₂
  refine ⟨d₀, alloc, heap, size, ms ++ [⟨k, phaseCalls k s.log, s.now - s.start, s.setCount⟩], ?_, ?_, ?_⟩
  · simp only [hnext.1, List.map_append, List.map_cons, List.map_nil, ← List.append_assoc,
      summarize_append_single, h₁]
    simp [Stage.columns, ← hi.sumCounts_of_joined hpc hall, hm]
  · simpa [hnext.2] using h₂
  · simp only [List.mem_append, List.mem_singleton]
    rintro m (hm | rfl)
    exacts [h₃ m hm, ⟨rfl, s, hseen, hpc, rfl, rfl⟩]

/-- Every `Step` from a state in `Seen` keeps `Summed`. -/
theorem Summed.step (hs : Step f B s s') (hi : Inv f s) (hst : Staged s) (h : Summed f Seen s)
    (hseen : Seen s) : Summed f Seen s' := by
  have hnd := hst.nodup
  have hnp := hs.not_panicked
  cases hs with
  | elapse | fire | enter | wselect | wcount =>
    exact h.frame hnd rfl rfl [] (by simp) (by simp [phaseCalls]) rfl rfl
  | exit | wcall =>
    exact h.frame hnd rfl rfl _ rfl (fun k => by simp [phaseCalls, Entry.workerCall]) rfl
      (by simp [Entry.skipsKeys])
  | call _ _ hw hpc =>
    have hrun := (hi.active hnp (List.getElem?_mem hw) (by simp [hpc])).1
    refine h.of_move hnd id rfl rfl rfl (by simp) (by simp [Entry.skipsKeys]) fun k hk => ?_
    have : s.phase ≠ k := fun he => hk (he ▸ hrun)
    simp [phaseCalls, Entry.workerCall, this]
  | bulkPanic | startPanic | measurePanic | exitPanic => exact fun hp => absurd rfl hp
  | bulk _ hpc =>
    refine h.of_move hnd (fun _ => by simp [hpc]) (by simp [hpc, Pc.setup]) (by simp [hpc, Pc.running])
      rfl (by simp) (by simp) fun k _ => ?_
    simp [phaseCalls, List.filterMap_map, Entry.workerCall]
  | clock _ hpc | spawn _ hpc | spawnEnd _ hpc | closeCh _ hpc =>
    exact h.of_move hnd (fun _ => by simp [hpc]) (by simp [hpc, Pc.setup]) (by simp [hpc, Pc.running])
      rfl rfl rfl fun _ _ => rfl
  | wait _ hpc =>
    exact h.of_move hnd (fun _ => by simp [hpc]) (by split <;> simp [hpc, Pc.setup])
      (by split <;> simp_all [Pc.running]) rfl rfl rfl fun _ _ => rfl
  | save _ hpc =>
    exact h.of_move hnd (fun _ => by simp [hpc]) (by simp [hpc, Pc.setup]) (by simp [hpc, Pc.running])
      rfl (by simp) (by simp [Entry.skipsKeys]) fun k _ => by simp [phaseCalls, Entry.workerCall]
  | start _ hpc => exact h.of_start hpc _ (by split <;> rfl) (by split <;> rfl)
  | probe d _ hpc => exact h.of_probe hst hpc (.call .driver 0 _ _) rfl _ _ (by simp [Entry.skipsKeys, probeOp])
  | measure _ hpc hm hall => exact h.of_measure hseen hi hpc hall hm
  | bulkDone _ hpc =>
    obtain ⟨d₀, alloc, heap, size, h₁, hb⟩ := h.setup hst (by simp [hpc, Pc.setup])
    refine fun _ => ⟨s.now - s.start, alloc, heap, size, [], ?_, by simp [hb, Pc.running], nofun⟩
    simp only [hpc, Pc.setup, List.take_zero, List.nil_append, summarize, List.foldlM_nil, Option.pure_def,
      Option.some.injEq] at h₁
    simp [Pc.setup, setupStages, summarize, Stage.columns, ← h₁]
  | mem alloc heap _ hpc =>
    obtain ⟨d₀, a₀, h₀, size, h₁, hb⟩ := h.setup hst (by simp [hpc, Pc.setup])
    refine fun _ => ⟨d₀, alloc, heap, size, [], ?_, by simp [hb, Pc.running], nofun⟩
    simp only [hpc, Pc.setup] at h₁
    have : (setupStages d₀ alloc heap size (keysSkipped s.log)).take 2 =
        (setupStages d₀ a₀ h₀ size false).take 1 ++ [.mem alloc heap] := rfl
    simp [Pc.setup, this, summarize_append_single, h₁, Stage.columns]
  | disk size _ hpc =>
    obtain ⟨d₀, alloc, heap, size₀, h₁, hb⟩ := h.setup hst (by simp [hpc, Pc.setup])
    refine fun _ => ⟨d₀, alloc, heap, size, [], ?_, by simp [hb, Pc.running], nofun⟩
    simp only [hpc, Pc.setup] at h₁
    have : (setupStages d₀ alloc heap size (keysSkipped s.log)).take 3 =
        (setupStages d₀ alloc heap size₀ false).take 2 ++ [.disk size] := rfl
    simp [Pc.setup, this, summarize_append_single, h₁, Stage.columns]

end

end KvBench
