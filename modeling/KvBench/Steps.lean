/-
  kvbench formalization — what one step of a run can do.

  `Step f B s s'` has one rule per kind of step of `Sys.step`, with the
  guards under which it is enabled; `step_sound` shows every step of the
  executable `Sys.step` is one of them, and `Reachable.induction` turns a
  property that holds initially and is kept by every rule into one of all
  reachable states.
-/
import KvBench.Driver

namespace KvBench

variable {σ : Type} (f : Flags) (B : Store σ)

/-- The steps of a run. -/
inductive Step : Sys σ → Sys σ → Prop
  | elapse {s : Sys σ} (δ : Nat) (h : s.halted = false) : Step s { s with now := s.now + δ }
  | fire {s : Sys σ} (h : s.halted = false) (hd : s.ctxDone = false) (hle : s.deadline ≤ s.now) :
      Step s { s with ctxDone := true }
  /-- a worker sees `ctx.Done()`: `counts[index] = count; wg.Done()` -/
  | exit {s : Sys σ} {j : Nat} {w : Worker} (h : s.halted = false) (hw : s.workers[j]? = some w)
      (hpc : w.pc = .select) (hd : s.ctxDone = true) (hwg : s.wg ≠ 0) :
      Step s { s with workers := s.workers.set j { w with pc := .done },
                      counts := s.counts.set w.index.toNat w.count, wg := s.wg - 1,
                      log := s.log ++ [.slot s.phase j w.index.toNat] }
  /-- `wg.Done()` drives the counter below zero and panics -/
  | exitPanic {s : Sys σ} {j : Nat} {w : Worker} (h : s.halted = false) (hw : s.workers[j]? = some w)
      (hpc : w.pc = .select) (hd : s.ctxDone = true) (hwg : s.wg = 0) :
      Step s { s with pc := .panicked }
  /-- a worker takes the `default` branch before the deadline, in a nanosecond -/
  | enter {s : Sys σ} {j : Nat} {w : Worker} (h : s.halted = false) (hw : s.workers[j]? = some w)
      (hpc : w.pc = .select) (hd : s.ctxDone = false) (hlt : (s.now : Int) < s.deadline) :
      Step s { s with now := s.now + 1, workers := s.workers.set j { w with pc := .call } }
  /-- a worker calls the store and ends its iteration -/
  | call {s : Sys σ} {j : Nat} {w : Worker} (d : Draw) (h : s.halted = false)
      (hw : s.workers[j]? = some w) (hpc : w.pc = .call) :
      Step s { s with store := (B.exec (s.phase.op d w.i) s.store).2,
                      workers := s.workers.set j
                        (w.advance f.stride (s.phase.resets (B.exec (s.phase.op d w.i) s.store).1)),
                      log := s.log ++ [.call (.worker s.phase j) w.i (s.phase.op d w.i)
                        (B.exec (s.phase.op d w.i) s.store).1] }
  | wselect {s : Sys σ} {w : Writer} (h : s.halted = false) (hw : s.writer = some w)
      (hpc : w.pc = .select) :
      Step s { s with writer := some { w with pc := if s.chClosed then .returned else .call } }
  | wcall {s : Sys σ} {w : Writer} (d : Draw) (h : s.halted = false) (hw : s.writer = some w)
      (hpc : w.pc = .call) :
      Step s { s with store := (B.exec (.set (genKey d.lead w.i) data) s.store).2,
                      writer := some { w with pc := .count },
                      log := s.log ++ [.call .writer w.i (.set (genKey d.lead w.i) data)
                        (B.exec (.set (genKey d.lead w.i) data) s.store).1] }
  | wcount {s : Sys σ} {w : Writer} (h : s.halted = false) (hw : s.writer = some w)
      (hpc : w.pc = .count) :
      Step s { s with writer := some ⟨w.i + 1, .select⟩, setCount := s.setCount + 1 }
  | bulkPanic {s : Sys σ} {draws : Nat → PageDraws} (h : s.halted = false) (hpc : s.pc = .bulk)
      (hb : testBatchWriteFixCount B f.size draws f.setCount s.store = none) :
      Step s { s with pc := .panicked }
  | bulk {s : Sys σ} {draws : Nat → PageDraws} {calls : List (List Bytes × List Bytes)} {total : UInt64}
      {st : σ} (h : s.halted = false) (hpc : s.pc = .bulk)
      (hb : testBatchWriteFixCount B f.size draws f.setCount s.store = some (calls, total, st)) :
      Step s { s with store := st, pc := .bulkDone,
                      log := s.log ++ calls.map (fun c => .call .driver 0 (.pset c.1 c.2) (.err none)) }
  | bulkDone {s : Sys σ} (h : s.halted = false) (hpc : s.pc = .bulkDone) :
      Step s { s with record := s.record.add (batchColumns (s.now - s.start)), pc := .mem }
  | mem {s : Sys σ} (alloc heapInuse : Nat) (h : s.halted = false) (hpc : s.pc = .mem) :
      Step s { s with record := s.record.add (memColumns alloc heapInuse), pc := .disk }
  | disk {s : Sys σ} (size : Option Int) (h : s.halted = false) (hpc : s.pc = .disk) :
      Step s { s with record := s.record.add (diskColumns size), pc := .probe }
  | probe {s : Sys σ} (d : Draw) (h : s.halted = false) (hpc : s.pc = .probe) :
      Step s { s with store := (B.exec (probeOp d) s.store).2,
                      log := s.log ++ [.call .driver 0 (probeOp d) (B.exec (probeOp d) s.store).1],
                      record := if (B.exec (probeOp d) s.store).1.notSupported
                        then s.record.add [("Keys op/s", -1)] else s.record,
                      pc := if (B.exec (probeOp d) s.store).1.notSupported then .start .set else .start .keys }
  | startPanic {s : Sys σ} {k : Kind} (h : s.halted = false) (hpc : s.pc = .start k)
      (hc : f.c < 0 ∨ 2 ^ 31 ≤ f.c % 2 ^ 32) :
      Step s { s with pc := .panicked }
  | start {s : Sys σ} {k : Kind} (h : s.halted = false) (hpc : s.pc = .start k) (hc : 0 ≤ f.c)
      (hc' : f.c % 2 ^ 32 < 2 ^ 31) :
      Step s (let s := if k = .getSet then { s with chClosed := false, setCount := 0,
                                                     writer := some ⟨0, .select⟩ } else s
              { s with pc := .clock k, phase := k, wg := f.c % 2 ^ 32, workers := [],
                       counts := List.replicate f.c.toNat 0, deadline := s.now + f.duration,
                       ctxDone := decide (f.duration ≤ 0), log := s.log ++ [.begin k] })
  | clock {s : Sys σ} {k : Kind} (h : s.halted = false) (hpc : s.pc = .clock k) :
      Step s { s with start := s.now, pc := .spawn k 0 }
  | spawn {s : Sys σ} {k : Kind} {j : Nat} (h : s.halted = false) (hpc : s.pc = .spawn k j)
      (hj : (j : Int) < f.c) :
      Step s { s with workers := s.workers ++ [Worker.new j], pc := .spawn k (j + 1) }
  | spawnEnd {s : Sys σ} {k : Kind} {j : Nat} (h : s.halted = false) (hpc : s.pc = .spawn k j)
      (hj : ¬ (j : Int) < f.c) :
      Step s { s with pc := .wait k }
  | wait {s : Sys σ} {k : Kind} (h : s.halted = false) (hpc : s.pc = .wait k) (hwg : s.wg = 0) :
      Step s { s with pc := if k = .getSet then .closeCh else .measure k }
  | closeCh {s : Sys σ} (h : s.halted = false) (hpc : s.pc = .closeCh) :
      Step s { s with chClosed := true, pc := .measure .getSet }
  /-- computing the columns panics, or a worker still in its loop will -/
  | measurePanic {s : Sys σ} {k : Kind} (h : s.halted = false) (hpc : s.pc = .measure k)
      (hm : Sys.columns f k (sumCounts s.counts) (s.now - s.start : Nat) s.setCount = none ∨
        ∃ w ∈ s.workers, w.pc ≠ .done) :
      Step s { s with pc := .panicked }
  | measure {s : Sys σ} {k : Kind} {cols : List (String × Int)} (h : s.halted = false)
      (hpc : s.pc = .measure k)
      (hm : Sys.columns f k (sumCounts s.counts) (s.now - s.start : Nat) s.setCount = some cols)
      (hall : ∀ w ∈ s.workers, w.pc = .done) :
      Step s { s with record := s.record.add cols, ctxDone := true,
                      pc := (match k.next with | some k' => .start k' | none => .save) }
  | save {s : Sys σ} (h : s.halted = false) (hpc : s.pc = .save) :
      Step s { s with ledger := saveReorder f.savePath s.record s.ledger, store := (B.exec .close s.store).2,
                      log := s.log ++ [.call .driver 0 .close (B.exec .close s.store).1], pc := .exited }

variable {f B}

/-- Every step of `Sys.step` is a `Step`. -/
theorem step_sound {s s' : Sys σ} {e : Event} (h : s.step f B e = some s') : Step f B s s' := by
  unfold Sys.step at h
  cases hh : s.halted
  case true => simp [hh] at h
  simp only [hh, Bool.false_eq_true, ↓reduceIte] at h
  cases e <;> dsimp only at h
  case elapse δ => cases h; exact .elapse δ hh
  case fire =>
    unfold Sys.fire at h
    split at h
    · cases h; rename_i hc; simp at hc; exact .fire hh hc.1 hc.2
    · cases h
  case worker j d =>
    unfold Sys.workerStep at h
    cases hw : s.workers[j]? with
    | none => simp [hw] at h
    | some w =>
      simp only [hw, Option.bind_eq_bind, Option.some_bind] at h
      cases hp : w.pc with
      | select =>
        simp only [hp, Option.pure_def] at h
        split at h <;> rename_i hd
        · split at h <;> rename_i hwg <;> cases h
          exacts [.exitPanic hh hw hp hd hwg, .exit hh hw hp hd hwg]
        · split at h <;> rename_i hlt <;> cases h
          exact .enter hh hw hp (by simpa using hd) (by omega)
      | call => simp only [hp, Option.pure_def, Option.some.injEq] at h; subst h; exact .call d hh hw hp
      | done => simp [hp] at h
  case writer d =>
    unfold Sys.writerStep at h
    cases hw : s.writer with
    | none => simp [hw] at h
    | some w =>
      simp only [hw, Option.bind_eq_bind, Option.some_bind] at h
      cases hp : w.pc <;> simp only [hp, Option.pure_def, Option.some.injEq, reduceCtorEq] at h <;> subst h
      · exact .wselect hh hw hp
      · exact .wcall d hh hw hp
      · exact .wcount hh hw hp
  case bulk draws =>
    unfold Sys.bulkStep at h
    split at h
    · cases h
    · rename_i hpc
      simp only [ne_eq, Decidable.not_not] at hpc
      split at h
      · rename_i hb; cases h; exact .bulkPanic hh hpc hb
      · rename_i hb; cases h; exact .bulk hh hpc hb
  case mem a m =>
    split at h
    · cases h
    · rename_i hpc; simp only [ne_eq, Decidable.not_not] at hpc; cases h; exact .mem a m hh hpc
  case disk z =>
    split at h
    · cases h
    · rename_i hpc; simp only [ne_eq, Decidable.not_not] at hpc; cases h; exact .disk z hh hpc
  case probe d =>
    unfold Sys.probeStep at h
    split at h
    · cases h
    · rename_i hpc; simp only [ne_eq, Decidable.not_not] at hpc; cases h; exact .probe d hh hpc
  case driver =>
    unfold Sys.driverStep at h
    split at h <;> rename_i hpc
    · cases h; exact .bulkDone hh hpc
    · split at h <;> rename_i hc <;> cases h
      exacts [.startPanic hh hpc hc, .start hh hpc (by omega) (by omega)]
    · cases h; exact .clock hh hpc
    · split at h
      · cases h; exact .spawn hh hpc (by assumption)
      · cases h; exact .spawnEnd hh hpc (by assumption)
    · split at h
      · cases h; exact .wait hh hpc (by assumption)
      · cases h
    · cases h; exact .closeCh hh hpc
    · split at h <;> rename_i hm
      · cases h; exact .measurePanic hh hpc (.inl hm)
      · split at h <;> rename_i hall <;> cases h
        · exact .measure hh hpc hm (by simpa using hall)
        · exact .measurePanic hh hpc (.inr (by simpa using hall))
    · cases h; exact .save hh hpc
    · cases h

/-- Only a running process steps. -/
theorem Step.not_halted {s s' : Sys σ} (hs : Step f B s s') : s.halted = false := by
  cases hs <;> assumption

theorem Step.not_panicked {s s' : Sys σ} (hs : Step f B s s') : s.pc ≠ .panicked := fun h => by
  simpa [Sys.halted, h] using hs.not_halted

/-- Every state a run passes through satisfies a property that holds where it
    starts and that every `Step` keeps. -/
theorem run_preserves {P : Sys σ → Prop} (h : ∀ s s', Step f B s s' → P s → P s') :
    ∀ (es : List Event) (s s' : Sys σ), s.run f B es = some s' → P s → P s'
  | [], _, _, hr, hs => by cases hr; exact hs
  | e :: es, s, s', hr, hs => by
    simp only [Sys.run, Option.bind_eq_some] at hr
    obtain ⟨s₁, h₁, hr⟩ := hr
    exact run_preserves h es s₁ s' hr (h s s₁ (step_sound h₁) hs)

/-- **Invariants of runs.** A property of every initial state that every `Step`
    keeps holds of every reachable state. -/
theorem Reachable.induction {P : Sys σ → Prop} (h₀ : ∀ st l, P (Sys.init f st l))
    (h : ∀ s s', Step f B s s' → P s → P s') {s : Sys σ} (hr : Reachable f B s) : P s := by
  obtain ⟨st, l, es, hr⟩ := hr
  exact run_preserves h es _ s hr (h₀ st l)

theorem run_append (s : Sys σ) (es₁ es₂ : List Event) :
    s.run f B (es₁ ++ es₂) = (s.run f B es₁).bind fun s' => s'.run f B es₂ := by
  induction es₁ generalizing s with
  | nil => rfl
  | cons e es ih =>
    rw [List.cons_append, Sys.run, Sys.run, Option.bind_assoc]
    exact congrArg _ (funext ih)

/-! ## A run with one worker per phase -/

/-- Draws of `math/rand` giving leading byte `32 + lead` and zero bytes elsewhere. -/
def Draw.zeros (lead : Fin (127 - 32)) : Draw := ⟨(0, 0, 0), lead⟩

/-- Bulk-load pages of zero bytes. -/
def PageDraws.zeros : Nat → PageDraws := fun _ => ⟨fun _ _ => 0, fun _ _ => 0, fun _ => 0⟩

/-- `-d 1µs -c 1 -set 0 -s map -save bench.csv`. -/
def oneWorkerFlags : Flags := ⟨1000, 1, 0, 256, false, "map", "bench.csv", by decide⟩

/-- A time-bounded phase with one worker: `wg.Add`, `start`, one worker
    started; one iteration; the deadline; the worker leaves; the driver measures
    and goes on. -/
def onePhase (d : Draw) : List Event :=
  [.driver, .driver, .driver, .driver, .worker 0 d, .worker 0 d, .elapse 1000, .fire, .worker 0 d,
   .driver, .driver]

/-- `testGetSet` with one reader: the writer enters `default` before
    `wg.Wait()` returns and makes its `Set` once the driver has started
    `testDelete`. -/
def mixedPhase (d : Draw) : List Event :=
  [.driver, .driver, .driver, .driver, .writer d, .worker 0 d, .worker 0 d, .elapse 1000, .fire,
   .worker 0 d, .driver, .driver, .driver, .driver, .writer d, .writer d, .writer d]

/-- A whole run of `main` with one worker per phase and an empty bulk load;
    `testGet` draws another leading byte than `testSet`; `disk` is what
    `os.Stat` reports. -/
def oneWorkerRun (disk : Option Int) : List Event :=
  [.bulk PageDraws.zeros, .driver, .mem 0 0, .disk disk, .probe (Draw.zeros 0)] ++
    onePhase (Draw.zeros 0) ++ onePhase (Draw.zeros 0) ++ onePhase (Draw.zeros 1) ++
    mixedPhase (Draw.zeros 0) ++ (onePhase (Draw.zeros 0)).drop 1 ++ [.driver]

/-- The state after the first `n` events of `oneWorkerRun disk` from a fresh
    map store and no ledger. -/
def oneWorkerAt (f : Flags) (disk : Option Int) (n : Nat) : Sys KV :=
  ((Sys.init f ∅ none).run f refStore ((oneWorkerRun disk).take n)).getD (Sys.init f ∅ none)

end KvBench
