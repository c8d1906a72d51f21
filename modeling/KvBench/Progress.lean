/-
  kvbench formalization — `main` never deadlocks.

  The driver waits in one place only, `wg.Wait()`, and each worker leaves its
  loop at the first `select` after the context is done; the writer of
  `testGetSet` is never waited for. So from every reachable state some
  schedule ends the run.

  * `Pc.toGo`: the driver's steps left to the end of `main`, an upper bound
    that each of its steps lowers;
  * `leave_one`, `drain`: once the context is done, a worker leaves in one or
    two steps, one `wg.Done()` each, until the WaitGroup reaches `0`;
  * `progress`: from every reachable state that has not halted, some schedule
    brings the driver closer to the end; at `wg.Wait()` the deadline passes,
    the timer fires and the workers leave;
  * `run_can_end`: from every reachable state some schedule ends the run,
    with an exit or a panic.
-/
import KvBench.Pool

namespace KvBench

/-- The driver's steps left to the end of `main` from `pc`, `c` workers to a phase. -/
def Pc.toGo (c : Nat) : Pc → Nat
  | .bulk => 4 * (c + 7) + c + 12
  | .bulkDone => 4 * (c + 7) + c + 11
  | .mem => 4 * (c + 7) + c + 10
  | .disk => 4 * (c + 7) + c + 9
  | .probe => 4 * (c + 7) + c + 8
  | .start k => (4 - k.rank) * (c + 7) + c + 7
  | .clock k => (4 - k.rank) * (c + 7) + c + 6
  | .spawn k j => (4 - k.rank) * (c + 7) + 5 + (c - j)
  | .wait k => (4 - k.rank) * (c + 7) + 4
  | .closeCh => (c + 7) + 3
  | .measure k => (4 - k.rank) * (c + 7) + 2
  | .save => 1
  | .exited | .panicked => 0

variable {σ : Type} {f : Flags} {B : Store σ}

/-- The schedule `es` from `s` goes through, to a state where `P` holds. -/
def Reaches (f : Flags) (B : Store σ) (s : Sys σ) (es : List Event) (P : Sys σ → Prop) : Prop :=
  ∃ s', s.run f B es = some s' ∧ P s'

theorem Reaches.append {s : Sys σ} {es₁ es₂ : List Event} {P Q : Sys σ → Prop}
    (h₁ : Reaches f B s es₁ P) (h₂ : ∀ s', P s' → Reaches f B s' es₂ Q) : Reaches f B s (es₁ ++ es₂) Q := by
  obtain ⟨s₁, hs₁, hp⟩ := h₁
  obtain ⟨s₂, hs₂, hq⟩ := h₂ s₁ hp
  exact ⟨s₂, by rw [run_append, hs₁, Option.some_bind, hs₂], hq⟩

theorem Reachable.run {s s' : Sys σ} (hr : Reachable f B s) {es : List Event} (h : s.run f B es = some s') :
    Reachable f B s' := by
  obtain ⟨st, l, es₀, h₀⟩ := hr
  exact ⟨st, l, es₀ ++ es, by rw [run_append, h₀, Option.some_bind, h]⟩

theorem doneCount_leave {ws : List Worker} {j : Nat} {w w' : Worker} (hj : ws[j]? = some w)
    (hne : w.pc ≠ .done) (hd : w'.pc = .done) : doneCount (ws.set j w') = doneCount ws + 1 := by
  obtain ⟨hlt, rfl⟩ := List.getElem?_eq_some_iff.1 hj
  simp [doneCount, List.countP_set _ _ _ _ hlt, hne, hd]

/-- A worker that has not left its loop leaves it in one or two steps once
    the context is done, calling `wg.Done()` on a positive counter. -/
theorem leave_one {s : Sys σ} (hh : s.halted = false) (hd : s.ctxDone = true) (hwg : s.wg ≠ 0) {j : Nat}
    {w : Worker} (hj : s.workers[j]? = some w) (hne : w.pc ≠ .done) (d : Draw) :
    ∃ es, Reaches f B s es fun s' => s'.pc = s.pc ∧ s'.ctxDone = true ∧ s'.wg = s.wg - 1 := by
  have hlt : j < s.workers.length := (List.getElem?_eq_some_iff.1 hj).1
  simp only [Sys.halted, Bool.or_eq_false_iff, decide_eq_false_iff_not] at hh
  cases hpc : w.pc with
  | done => exact absurd hpc hne
  | select =>
    refine ⟨[.worker j d], ?_⟩
    simp [Reaches, Sys.run, Sys.step, Sys.halted, hh, Sys.workerStep, hj, hpc, hd, hwg]
  | call =>
    refine ⟨[.worker j d, .worker j d], ?_⟩
    simp [Reaches, Sys.run, Sys.step, Sys.halted, hh, Sys.workerStep, hj, hpc, hd, hlt, Worker.advance, hwg]

theorem Reaches.reachable {s : Sys σ} {es : List Event} {P : Sys σ → Prop} (hr : Reachable f B s)
    (h : Reaches f B s es P) : Reaches f B s es fun s' => Reachable f B s' ∧ P s' :=
  let ⟨s', hs, hp⟩ := h
  ⟨s', hs, hr.run hs, hp⟩

/-- At `wg.Wait()` with the context done, the workers leave one after another
    until the WaitGroup is `0`: while it is positive, some worker is in its
    loop. -/
theorem drain {k : Kind} (d : Draw) : ∀ (n : Nat) {s : Sys σ}, Reachable f B s → s.pc = .wait k →
    s.ctxDone = true → s.wg.toNat = n →
    ∃ es, Reaches f B s es fun s' => Reachable f B s' ∧ s'.pc = .wait k ∧ s'.wg = 0
  | 0, s, hr, hpc, _, hn => ⟨[], s, rfl, hr, hpc, by have := (reachable_inv hr).wg_nonneg; omega⟩
  | n + 1, s, hr, hpc, hd, hn => by
    have hi := reachable_inv hr
    obtain ⟨w, hw, hne⟩ : ∃ w ∈ s.workers, w.pc ≠ .done := by
      by_contra hall
      push_neg at hall
      have : doneCount s.workers = s.workers.length := List.countP_eq_length.2 (by simpa using hall)
      have := hi.wg
      have := hi.started (by simp [hpc, Pc.started])
      omega
    obtain ⟨j, hj⟩ := List.getElem?_of_mem hw
    obtain ⟨es₁, s₁, h₁, hpc₁, hd₁, hwg₁⟩ := leave_one (by simp [Sys.halted, hpc]) hd (by omega) hj hne d
    obtain ⟨es₂, s₂, h₂, hq⟩ := drain d n (hr.run h₁) (hpc₁.trans hpc) hd₁ (by omega)
    exact ⟨es₁ ++ es₂, s₂, by rw [run_append, h₁, Option.some_bind, h₂], hq⟩

/-- Every step of the driver brings it closer to the end of `main`. -/
theorem driverStep_toGo {s s' : Sys σ} (h : s.driverStep f B = some s') :
    s'.pc.toGo f.c.toNat < s.pc.toGo f.c.toNat := by
  unfold Sys.driverStep at h
  split at h <;> rename_i hpc
  -- `bulkDone` to `mem`; `start` to `clock` or a panic; `clock` to `spawn`
  case h_1 => cases h; simp only [hpc, Pc.toGo]; omega
  case h_2 => split at h <;> cases h <;> simp only [hpc, Pc.toGo] <;> omega
  case h_3 => cases h; simp only [hpc, Pc.toGo]; omega
  -- one more worker, or `wait`
  case h_4 => split at h <;> cases h <;> simp only [hpc, Pc.toGo] <;> omega
  -- `wait` to `closeCh` or `measure`; `closeCh` to `measure`
  case h_5 k =>
    split at h <;> cases h
    split <;> rename_i hk <;> simp only [hpc, Pc.toGo, hk, Kind.rank] <;> omega
  case h_6 => cases h; simp only [hpc, Pc.toGo, Kind.rank]; omega
  -- `measure` to a panic, the next phase's `start`, or `save`
  case h_7 k =>
    split at h
    · cases h; simp only [hpc, Pc.toGo]; omega
    split at h <;> cases h <;> simp only [hpc]
    · split
      · rename_i k' hk
        have hle : k'.rank ≤ 4 := Kind.rank_le k'
        rw [Kind.rank_next hk] at hle
        have : 4 - k.rank = 4 - (k.rank + 1) + 1 := by omega
        simp only [Pc.toGo, Kind.rank_next hk, this, Nat.succ_mul]
        omega
      · rename_i hk
        obtain rfl : k = .del := by cases k <;> cases hk; rfl
        simp only [Pc.toGo, Kind.rank]; omega
    · simp only [Pc.toGo]; omega
  case h_8 => cases h; simp only [hpc, Pc.toGo]; omega
  case h_9 => cases h

/-- A step of the driver that can be taken brings it closer to the end. -/
theorem Reaches.driver {s : Sys σ} (hh : s.halted = false) (h : (s.driverStep f B).isSome) :
    ∃ es, Reaches f B s es fun s' => s'.pc.toGo f.c.toNat < s.pc.toGo f.c.toNat := by
  obtain ⟨s', hs'⟩ := Option.isSome_iff_exists.1 h
  exact ⟨[.driver], s', by simp [Sys.run, Sys.step, hh, hs'], driverStep_toGo hs'⟩

/-- `wg.Wait()` returns: the deadline passes, the timer fires, every worker
    leaves, and the driver moves on. -/
theorem wait_closer {s : Sys σ} {k : Kind} (hr : Reachable f B s) (hpc : s.pc = .wait k) :
    ∃ es, Reaches f B s es fun s' => s'.pc.toGo f.c.toNat < s.pc.toGo f.c.toNat := by
  obtain ⟨es₀, h₀⟩ : ∃ es, Reaches f B s es fun s' => s'.pc = .wait k ∧ s'.ctxDone = true := by
    cases hd : s.ctxDone
    · have h : s.run f B [.elapse s.deadline.toNat, .fire] =
          some { s with now := s.now + s.deadline.toNat, ctxDone := true } := by
        simp [Sys.run, Sys.step, Sys.halted, hpc, Sys.fire, hd]; omega
      exact ⟨_, _, h, hpc, rfl⟩
    · exact ⟨[], s, rfl, hpc, hd⟩
  obtain ⟨s₀, h₀, hr₀, hpc₀, hd₀⟩ := h₀.reachable hr
  obtain ⟨es₁, s₁, h₁, hr₁, hpc₁, hwg⟩ := drain (Draw.zeros 0) _ hr₀ hpc₀ hd₀ rfl
  obtain ⟨es₂, s₂, h₂, hlt⟩ := Reaches.driver (s := s₁) (by simp [Sys.halted, hpc₁])
    (by simp [Sys.driverStep, hpc₁, hwg])
  exact ⟨es₀ ++ es₁ ++ es₂, s₂, by rw [run_append, run_append, h₀, Option.some_bind, h₁,
    Option.some_bind, h₂], by rwa [hpc₁, ← hpc] at hlt⟩

/-- **Progress.** From every reachable state that has not halted, some
    schedule brings the driver closer to the end of `main`. -/
theorem progress {s : Sys σ} (hr : Reachable f B s) (hh : s.halted = false) :
    ∃ es, Reaches f B s es fun s' => s'.pc.toGo f.c.toNat < s.pc.toGo f.c.toNat := by
  cases hpc : s.pc with
  | wait k => have := wait_closer hr hpc; rwa [hpc] at this
  | exited | panicked => simp [Sys.halted, hpc] at hh
  | bulk =>
    refine ⟨[.bulk PageDraws.zeros], ?_⟩
    simp only [Reaches, Sys.run, Sys.step, hh, Bool.false_eq_true, ↓reduceIte, Sys.bulkStep, hpc, ne_eq,
      not_true_eq_false]
    split <;> simp [Pc.toGo]
  | mem => exact ⟨[.mem 0 0], by simp [Reaches, Sys.run, Sys.step, hh, hpc, Pc.toGo]⟩
  | disk => exact ⟨[.disk none], by simp [Reaches, Sys.run, Sys.step, hh, hpc, Pc.toGo]⟩
  | probe =>
    refine ⟨[.probe (Draw.zeros 0)], ?_⟩
    simp only [Reaches, Sys.run, Sys.step, hh, Bool.false_eq_true, ↓reduceIte, Sys.probeStep, hpc, ne_eq,
      not_true_eq_false]
    split <;> simp [Pc.toGo, Kind.rank]
    omega
  | _ => exact hpc ▸ Reaches.driver hh (by simp only [Sys.driverStep, hpc]; (repeat' split) <;> rfl)

/-- **`main` never deadlocks.** Whatever the backend, the flags and the
    schedule so far, from every reachable state some schedule ends the run:
    `main` exits or panics. `wg.Wait()` returns once the deadline has passed,
    and no task can keep the driver waiting. -/
theorem run_can_end {s : Sys σ} (hr : Reachable f B s) :
    ∃ es s', s.run f B es = some s' ∧ s'.halted = true := by
  obtain ⟨n, hn⟩ : ∃ n, s.pc.toGo f.c.toNat = n := ⟨_, rfl⟩
  induction n using Nat.strong_induction_on generalizing s with
  | _ n ih =>
    cases hh : s.halted
    · obtain ⟨es₁, h₁⟩ := progress hr hh
      obtain ⟨s₁, hs₁, hr₁, hlt⟩ := h₁.reachable hr
      obtain ⟨es₂, s₂, hs₂, hh₂⟩ := ih _ (hn ▸ hlt) hr₁ rfl
      exact ⟨es₁ ++ es₂, s₂, by rw [run_append, hs₁, Option.some_bind, hs₂], hh₂⟩
    · exact ⟨[], s, rfl, hh⟩

/-- `oneWorkerRun` stopped inside `testGet` can still be ended. -/
theorem one_worker_can_end :
    Reachable oneWorkerFlags refStore (oneWorkerAt oneWorkerFlags none 30) ∧
      ∃ es s', (oneWorkerAt oneWorkerFlags none 30).run oneWorkerFlags refStore es = some s' ∧
        s'.halted = true :=
  have hr : Reachable oneWorkerFlags refStore (oneWorkerAt oneWorkerFlags none 30) :=
    ⟨∅, none, (oneWorkerRun none).take 30, rfl⟩
  ⟨hr, run_can_end hr⟩

end KvBench
