/-
  kvbench formalization — `wg.Wait()` returns only after the deadline.

  A time-bounded phase creates its context with `context.WithTimeout`, then
  takes `start := time.Now()`; a worker leaves its loop only at a `select`
  that finds `ctx.Done()` closed, and the timer closes it only once the
  deadline has passed.

  * `Pc.clocked`: the places after `start := time.Now()`;
  * `Timely`: while a phase runs, a done context has passed its deadline, a
    worker has left only once it was done, and the context was created
    before `start`;
  * `measure_after_deadline`: with `-c` at least `1`, when the driver
    measures a phase its deadline has passed, so the elapsed time it divides
    by is `-d` less the time from `context.WithTimeout` to `start`.
-/
import KvBench.Pool

namespace KvBench

/-- Whether `start := time.Now()` of the running phase has been taken at `pc`. -/
def Pc.clocked : Pc → Bool
  | .spawn _ _ | .wait _ | .closeCh | .measure _ => true
  | _ => false

variable {σ : Type} {f : Flags} {B : Store σ}

/-- The running phase's context against the clock. -/
structure Timely (f : Flags) (s : Sys σ) : Prop where
  /-- a done context has passed its deadline -/
  expired : s.pc.running.isSome → s.ctxDone = true → s.deadline ≤ s.now
  /-- a worker has left its loop only once the context was done -/
  left : s.pc.running.isSome → 0 < doneCount s.workers → s.ctxDone = true
  /-- `context.WithTimeout` came before now -/
  created : s.pc.running.isSome → s.deadline - f.duration ≤ s.now
  /-- and before `start := time.Now()` -/
  started : s.pc.clocked → s.deadline - f.duration ≤ s.start
  /-- `start` is not in the future -/
  start_le : s.start ≤ s.now

section
variable {s s' : Sys σ}

theorem Timely.init (st : σ) (l : Ledger) : Timely f (Sys.init f st l) :=
  ⟨nofun, nofun, nofun, nofun, le_refl _⟩

theorem Pc.running_of_clocked {pc : Pc} (h : pc.clocked) : pc.running.isSome := by
  cases pc <;> simp_all [Pc.clocked, Pc.running]

/-- A step that keeps the clock, the context and the finished workers, and
    leaves or stays in the running phase. -/
theorem Timely.of_move (h : Timely f s) (hrun : s'.pc.running.isSome → s.pc.running.isSome)
    (hclk : s'.pc.clocked → s.pc.clocked) (hctx : s'.ctxDone = s.ctxDone)
    (hdl : s'.deadline = s.deadline) (hnow : s'.now = s.now) (hstart : s'.start = s.start)
    (hdone : doneCount s'.workers = doneCount s.workers) : Timely f s' where
  expired hr hd := hdl ▸ hnow ▸ h.expired (hrun hr) (hctx ▸ hd)
  left hr hw := hctx ▸ h.left (hrun hr) (hdone ▸ hw)
  created hr := hdl ▸ hnow ▸ h.created (hrun hr)
  started hc := hdl ▸ hstart ▸ h.started (hclk hc)
  start_le := hstart ▸ hnow ▸ h.start_le

/-- Time passes, and the workers that have left stay as many. -/
theorem Timely.later (h : Timely f s) (δ : Nat) {ws : List Worker} (hdone : doneCount ws = doneCount s.workers) :
    Timely f { s with now := s.now + δ, workers := ws } where
  expired hr hd := by have := h.expired hr hd; simp only; omega
  left hr hw := h.left hr (hdone ▸ hw)
  created hr := by have := h.created hr; simp only; omega
  started := h.started
  start_le := by simp only; have := h.start_le; omega

/-- A step of no phase's clock that leaves no phase running. -/
theorem Timely.idle (h : Timely f s) (hrun : s'.pc.running = none) (hnow : s'.now = s.now)
    (hstart : s'.start = s.start) : Timely f s' where
  expired hr := by simp [hrun] at hr
  left hr := by simp [hrun] at hr
  created hr := by simp [hrun] at hr
  started hc := by simpa [hrun] using Pc.running_of_clocked hc
  start_le := hstart ▸ hnow ▸ h.start_le

/-- `wg.Add(*c)` and `context.WithTimeout(…, *duration)`: no worker yet, and a
    context done from the start only when the duration is not positive. -/
theorem Timely.of_start (h : Timely f s) (k : Kind) (s₁ : Sys σ) (hnow : s₁.now = s.now)
    (hstart : s₁.start = s.start) :
    Timely f { s₁ with pc := .clock k, phase := k, wg := f.c % 2 ^ 32, workers := [],
                       counts := List.replicate f.c.toNat 0, deadline := s₁.now + f.duration,
                       ctxDone := decide (f.duration ≤ 0), log := s₁.log ++ [.begin k] } where
  expired _ hd := by dsimp only at hd ⊢; simp only [decide_eq_true_eq] at hd; omega
  left _ hw := by simp [doneCount] at hw
  created _ := by simp
  started hc := by simp [Pc.clocked] at hc
  start_le := hstart ▸ hnow ▸ h.start_le

/-- Every `Step` keeps `Timely`. -/
theorem Timely.step (hs : Step f B s s') (h : Timely f s) : Timely f s' := by
  cases hs with
  | elapse δ => exact h.later δ rfl
  | fire _ _ hle => exact ⟨fun _ _ => hle, fun _ _ => rfl, h.created, h.started, h.start_le⟩
  | exit _ _ _ hd => exact ⟨h.expired, fun _ _ => hd, h.created, h.started, h.start_le⟩
  | enter _ hw hpc => exact h.later 1 (doneCount_set_of_running hw (by simp [hpc]) (by simp))
  | call _ _ hw hpc =>
    exact h.of_move id id rfl rfl rfl rfl (doneCount_set_of_running hw (by simp [hpc]) (by simp [Worker.advance]))
  | wselect | wcall | wcount => exact h.of_move id id rfl rfl rfl rfl rfl
  | bulkPanic | startPanic | measurePanic | exitPanic | bulk | save => exact h.idle rfl rfl rfl
  | bulkDone | mem | disk => exact h.idle rfl rfl rfl
  | probe | measure => exact h.idle (by dsimp only; split <;> rfl) rfl rfl
  | start _ hpc => exact h.of_start _ _ (by split <;> rfl) (by split <;> rfl)
  | clock _ hpc =>
    refine ⟨h.expired ∘ by simp [hpc, Pc.running], h.left ∘ by simp [hpc, Pc.running],
      h.created ∘ by simp [hpc, Pc.running], fun _ => h.created (by simp [hpc, Pc.running]), le_refl _⟩
  | spawn _ hpc =>
    exact h.of_move (by simp [hpc, Pc.running]) (by simp [hpc, Pc.clocked]) rfl rfl rfl rfl
      (by simp [doneCount, Worker.new])
  | spawnEnd _ hpc | closeCh _ hpc | wait _ hpc =>
    exact h.of_move (by simp [hpc, Pc.running]) (by simp [hpc, Pc.clocked]) rfl rfl rfl rfl rfl

end

/-- Every reachable state is `Timely`. -/
theorem reachable_timely {s : Sys σ} (hr : Reachable f B s) : Timely f s :=
  Reachable.induction (fun _ _ => Timely.init _ _) (fun _ _ hs h => h.step hs) hr

/-- **`wg.Wait()` returns after the deadline.** When `wg.Add(*c)` has set
    the counter to a positive number (`*c` at least `1` and not a multiple of
    `2^32`), in every reachable state where the driver measures a phase, the
    phase's context has passed its deadline, and it was created before
    `start`: the elapsed time `time.Since(start)` is at least `-d` less the
    time from `context.WithTimeout` to `start := time.Now()`. -/
theorem measure_after_deadline {s : Sys σ} {k : Kind} (hr : Reachable f B s) (hpc : s.pc = .measure k)
    (hc : 0 < f.c % 2 ^ 32) : s.deadline ≤ s.now ∧ s.deadline - f.duration ≤ s.start ∧ s.start ≤ s.now := by
  have hi := reachable_inv hr
  have h := reachable_timely hr
  have hrun : s.pc.running.isSome := by simp [hpc, Pc.running]
  have hlen := (hi.running k (by simp [hpc, Pc.running])).2
  have hwg := hi.wg
  rw [hi.joined (by simp [hpc, Pc.started]) (by simp [hpc])] at hwg
  have := hi.nonneg hrun
  exact ⟨h.expired hrun (h.left hrun (by omega)), h.started (by simp [hpc, Pc.clocked]), h.start_le⟩

theorem measure_after_deadline_one_worker :
    Reachable oneWorkerFlags refStore (oneWorkerAt oneWorkerFlags none 15) ∧
      (oneWorkerAt oneWorkerFlags none 15).pc = .measure .keys ∧ 0 < oneWorkerFlags.c % 2 ^ 32 ∧
      (oneWorkerAt oneWorkerFlags none 15).deadline ≤ (oneWorkerAt oneWorkerFlags none 15).now ∧
      (oneWorkerAt oneWorkerFlags none 15).deadline - oneWorkerFlags.duration ≤
        (oneWorkerAt oneWorkerFlags none 15).start ∧
      (oneWorkerAt oneWorkerFlags none 15).start ≤ (oneWorkerAt oneWorkerFlags none 15).now :=
  have hr : Reachable oneWorkerFlags refStore (oneWorkerAt oneWorkerFlags none 15) :=
    ⟨∅, none, (oneWorkerRun none).take 15, rfl⟩
  have hpc : (oneWorkerAt oneWorkerFlags none 15).pc = .measure .keys := by decide
  have hc : 0 < oneWorkerFlags.c % 2 ^ 32 := by decide
  ⟨hr, hpc, hc, measure_after_deadline hr hpc hc⟩

end KvBench
